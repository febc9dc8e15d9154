import Mathlib.Data.List.Chain
import PresenceDevice.LayoutPartition
import PresenceDevice.LayoutUnique

/-!
# Is the wrap greedy?

A greedy wrap ends a line early only when the next word does not fit. The layout does so with one
exception: when a word ends exactly at the 21st byte of a line that holds an earlier blank, and a
blank follows, the overflow test fires on that blank as it would on a letter, and the word that
fits is pushed to the next line.

Whether a body meets the exception depends on where its lines start. `GreedyStart` says where a
greedy wrap starts them, with no reference to the result of the code; as long as the exception
does not occur the code starts its lines there too, and where it first occurs the code departs.

## Main definitions

* `BreakNeeded`: the line break between two lines is forced by the next word
* `GreedyStart`: the offsets at which a greedy wrap starts a line
* `ExactFit`: the exception

## Main results

* `presenceLayoutBody_greedy_iff`: the layout is greedy exactly when no greedy line is an `ExactFit`
* `not_greedy_exactFitBody`: a body on which it is not
-/

namespace PresenceDevice

open Relation Tiling

variable {body : CString} {ls : List PresenceLine}

/-- The offset at which the word that contains offset `p` ends: that of the next byte which is a
space, a tab or a newline, or the end of the body. -/
def wordEnd (body : CString) (p : ℕ) : ℕ := p + (body.bytes.drop p).findIdx (IsGap ·)

/-- Two consecutive non-empty lines of one segment break where the next word does not fit. -/
def BreakNeeded (body : CString) (l l' : PresenceLine) : Prop :=
  0 < l.length → 0 < l'.length →
    (∀ i, l.start ≤ i → i < l'.start → body.charAt i ≠ newline) →
      l.start + presenceLineChars < wordEnd body l'.start

/-- Every early end of a line is needed. -/
def GreedyLayout (body : CString) (ls : List PresenceLine) : Prop := ls.IsChain (BreakNeeded body)

/-- The offsets at which a greedy wrap starts a line. It differs from `Emitted` in one rule: a line
that a blank follows is full, and is kept whole. -/
inductive GreedyStart (body : CString) : ℕ → Prop
  | start : GreedyStart body 0
  | skip {p : ℕ} : GreedyStart body p → IsBlank (body.charAt p) → GreedyStart body (p + 1)
  | newline {p e : ℕ} : GreedyStart body p → Scanned body p e → body.charAt e = newline →
      GreedyStart body (e + 1)
  | full {p q : ℕ} : GreedyStart body p → Scanned body p q → Overflows body p q →
      IsBlank (body.charAt q) → GreedyStart body q
  | wrap {p q b : ℕ} : GreedyStart body p → Scanned body p q → Overflows body p q →
      ¬ IsBlank (body.charAt q) → LastBlank body p q (some b) → GreedyStart body (b + 1)
  | split {p q : ℕ} : GreedyStart body p → Scanned body p q → Overflows body p q →
      ¬ IsBlank (body.charAt q) → LastBlank body p q none → GreedyStart body q

/-- The line from `p` holds a blank, is filled exactly by a word, and a blank follows. -/
structure ExactFit (body : CString) (p : ℕ) : Prop where
  head : ¬ IsBlank (body.charAt p)
  no_newline : ∀ i, p ≤ i → i < p + presenceLineChars → body.charAt i ≠ newline
  blank : ∃ b, p < b ∧ b + 1 < p + presenceLineChars ∧ IsBlank (body.charAt b)
  word : ¬ IsBlank (body.charAt (p + presenceLineChars - 1))
  next : IsBlank (body.charAt (p + presenceLineChars))

/-! ### Ends of words -/

theorem charAt_drop {p i : ℕ} (h : i < (body.bytes.drop p).length) :
    (body.bytes.drop p)[i] = body.charAt (p + i) := by
  have hlt : p + i < body.strlen := by
    rw [List.length_drop] at h
    simp only [CString.strlen]
    omega
  rw [List.getElem_drop, CString.charAt_eq_getElem hlt]
  rfl

theorem lt_wordEnd {p e : ℕ} (hpe : p ≤ e) (he : e < body.strlen)
    (h : ∀ i, p ≤ i → i ≤ e → ¬ IsGap (body.charAt i)) : e < wordEnd body p := by
  have hlen : e - p < (body.bytes.drop p).length := by
    rw [List.length_drop]
    simp only [CString.strlen] at he
    omega
  have hfind := List.lt_findIdx_of_not (p := (IsGap ·)) hlen fun j hj => by
    rw [charAt_drop (by omega)]
    simpa using h (p + j) (by omega) (by omega)
  unfold wordEnd
  omega

/-- A word ends no later than the first gap byte after its start. -/
theorem wordEnd_le {p e : ℕ} (hpe : p ≤ e) (he : e < body.strlen) (hgap : IsGap (body.charAt e)) :
    wordEnd body p ≤ e := by
  by_contra hlt
  obtain ⟨j, rfl⟩ := Nat.exists_eq_add_of_le hpe
  have hj : j < (body.bytes.drop p).findIdx (IsGap ·) := by
    unfold wordEnd at hlt
    omega
  have hnot := List.not_of_lt_findIdx hj
  rw [charAt_drop] at hnot
  simp [hgap] at hnot

/-! ### Without an exact fit the wrap is greedy -/

/-- The only wrap that is not greedy. -/
theorem exactFit_of_wrap {p q b : ℕ} (hs : Scanned body p q) (ho : Overflows body p q)
    (hq : IsBlank (body.charAt q)) (hb : LastBlank body p q (some b)) (hne : b + 1 ≠ q) :
    ExactFit body p := by
  obtain ⟨hpb, hbq, hblank, hafter⟩ := hb
  have heq := ho.eq_of_isBlank hs hq
  simp only [presenceLineChars] at heq
  exact
    { head := hs.head ho.lt
      no_newline := fun i h1 h2 => by
        simp only [presenceLineChars] at h2
        exact hs.no_newline i h1 (by omega)
      blank := ⟨b, hpb, by simp only [presenceLineChars]; omega, hblank⟩
      word := hafter _ (by simp only [presenceLineChars]; omega)
        (by simp only [presenceLineChars]; omega)
      next := heq ▸ hq }

/-- Without exact fits the code starts its lines where a greedy wrap does. -/
theorem Emitted.greedyStart {p : ℕ} (h : Emitted body ls p)
    (hfit : ∀ p, GreedyStart body p → ¬ ExactFit body p) : GreedyStart body p := by
  induction h with
  | start => exact .start
  | skip _ hb ih => exact .skip ih hb
  | newline _ hs hn ih => exact .newline ih hs hn
  | @wrap ls p q b _ hs ho hb ih =>
    by_cases hq : IsBlank (body.charAt q)
    · have heq : b + 1 = q := by
        by_contra hne
        exact hfit p ih (exactFit_of_wrap hs ho hq hb hne)
      exact heq ▸ .full ih hs ho hq
    · exact .wrap ih hs ho hq hb
  | @split ls p q _ hs ho hb ih =>
    by_cases hq : IsBlank (body.charAt q)
    · exact .full ih hs ho hq
    · exact .split ih hs ho hq hb

/-- After a line that started at `a`, with the next one to start at `p` or behind the blanks
there: the break is due to a newline, or to the next word. -/
def Pending (body : CString) (a p : ℕ) : Prop :=
  (∃ i, a ≤ i ∧ i < p ∧ body.charAt i = newline) ∨
    ∀ s, p ≤ s → (∀ i, p ≤ i → i < s → IsBlank (body.charAt i)) → s < body.strlen →
      ¬ IsGap (body.charAt s) → a + presenceLineChars < wordEnd body s

theorem Pending.skip {a p : ℕ} (h : Pending body a p) (hb : IsBlank (body.charAt p)) :
    Pending body a (p + 1) := by
  refine h.imp (fun ⟨i, h1, h2, h3⟩ => ⟨i, h1, by omega, h3⟩) ?_
  intro hword s hps hblank
  refine hword s (by omega) ?_
  intro i h1 h2
  rcases Nat.eq_or_lt_of_le h1 with rfl | hlt
  · exact hb
  · exact hblank i hlt h2

/-- The word that did not fit starts the next line. -/
theorem pending_of_overflows {a p q : ℕ} (hs : Scanned body a q) (ho : Overflows body a q)
    (hq : ¬ IsBlank (body.charAt q)) (hap : a ≤ p) (hpq : p ≤ q)
    (hword : ∀ i, p ≤ i → i < q → ¬ IsBlank (body.charAt i)) : Pending body a p := by
  right
  intro s hps hblank hlt _
  -- the next line starts at `p` itself, because no blank stands there
  obtain rfl : s = p := by
    by_contra hne
    rcases Nat.eq_or_lt_of_le hpq with rfl | hlt'
    · exact hq (hblank p (Nat.le_refl p) (by omega))
    · exact hword p (Nat.le_refl p) hlt' (hblank p (Nat.le_refl p) (by omega))
  have hpos := utf8SequenceLength_pos body q
  have hend := sequence_le_strlen ho.char_ne_zero
  have hfull := ho.full
  have hle := hs.le
  have hend' : q + utf8SequenceLength body q - 1 < wordEnd body s := by
    refine lt_wordEnd (by omega) (by omega) ?_
    intro i h1 h2
    rcases Nat.lt_trichotomy i q with hlt | rfl | hgt
    · exact not_or.mpr ⟨hword i h1 hlt, hs.no_newline i (by omega) hlt⟩
    · exact not_or.mpr ⟨hq, ho.char_ne_newline⟩
    · obtain ⟨j, rfl⟩ := Nat.exists_eq_add_of_le (Nat.le_of_lt hgt)
      have hcont : Utf8.IsContinuation (body.charAt (q + j)) :=
        isContinuation_of_lt_sequence (by omega) (by omega)
      refine not_or.mpr ⟨fun hb => hb.not_isContinuation hcont, ?_⟩
      intro hn
      rw [hn] at hcont
      exact not_isContinuation_newline hcont
  omega

/-- After a full line with a blank behind it, the next word starts beyond the limit. -/
theorem pending_of_isBlank {a q : ℕ} (hs : Scanned body a q) (ho : Overflows body a q)
    (hq : IsBlank (body.charAt q)) : Pending body a q := by
  right
  intro s hqs _ hlt hgap
  have heq := ho.eq_of_isBlank hs hq
  have hne : s ≠ q := fun h => hgap (Or.inl (h ▸ hq))
  have := lt_wordEnd (Nat.le_refl s) hlt fun i h1 h2 => by
    obtain rfl : i = s := by omega
    exact hgap
  omega

/-- A pending break is a needed one, whatever line follows. -/
theorem Pending.breakNeeded {l : PresenceLine} {p e q : ℕ} (h : Pending body l.start p)
    (hs : Scanned body p q) (heq : e ≤ q) : BreakNeeded body l ⟨p, e - p⟩ := by
  intro _ hlen hnl
  have hpe : p < e := by
    simp only at hlen
    omega
  rcases h with ⟨i, h1, h2, h3⟩ | hword
  · exact absurd h3 (hnl i h1 h2)
  · have hlt : p < q := by omega
    refine hword p (Nat.le_refl p) (fun i h1 h2 => by omega) ?_
      (not_or.mpr ⟨hs.head hlt, hs.no_newline p (Nat.le_refl p) hlt⟩)
    exact Nat.lt_of_lt_of_le hlt hs.le_strlen

theorem GreedyLayout.concat {p e q : ℕ} (h : GreedyLayout body ls)
    (hlast : ∀ l ∈ ls.getLast?, Pending body l.start p) (hs : Scanned body p q) (heq : e ≤ q) :
    GreedyLayout body (ls ++ [⟨p, e - p⟩]) :=
  List.isChain_append.mpr ⟨h, List.isChain_singleton _, fun l hl l' hl' => by
    obtain rfl : ⟨p, e - p⟩ = l' := by simpa using hl'
    exact (hlast l hl).breakNeeded hs heq⟩

theorem Emitted.greedy {p : ℕ} (h : Emitted body ls p)
    (hfit : ∀ p, GreedyStart body p → ¬ ExactFit body p) :
    GreedyLayout body ls ∧ ∀ l ∈ ls.getLast?, Pending body l.start p := by
  induction h with
  | start => exact ⟨List.isChain_nil, by simp⟩
  | skip _ hb ih => exact ⟨ih.1, fun l hl => (ih.2 l hl).skip hb⟩
  | @newline ls p e _ hs hn ih =>
    refine ⟨ih.1.concat ih.2 hs (Nat.le_refl _), ?_⟩
    intro l hl
    obtain rfl : ⟨p, e - p⟩ = l := by simpa using hl
    exact Or.inl ⟨e, hs.le, Nat.lt_succ_self e, hn⟩
  | @wrap ls p q b hls hs ho hb ih =>
    refine ⟨ih.1.concat ih.2 hs (Nat.le_of_lt hb.2.1), ?_⟩
    intro l hl
    obtain rfl : ⟨p, b - p⟩ = l := by simpa using hl
    by_cases hq : IsBlank (body.charAt q)
    · have heq : b + 1 = q := by
        by_contra hne
        exact hfit p (hls.greedyStart hfit) (exactFit_of_wrap hs ho hq hb hne)
      rw [heq]
      exact pending_of_isBlank hs ho hq
    · exact pending_of_overflows hs ho hq (Nat.le_succ_of_le (Nat.le_of_lt hb.1)) hb.2.1
        fun i h1 h2 => hb.2.2.2 i h1 h2
  | @split ls p q _ hs ho hb ih =>
    refine ⟨ih.1.concat ih.2 hs (Nat.le_refl _), ?_⟩
    intro l hl
    obtain rfl : ⟨p, q - p⟩ = l := by simpa using hl
    by_cases hq : IsBlank (body.charAt q)
    · exact pending_of_isBlank hs ho hq
    · exact pending_of_overflows hs ho hq hs.le (Nat.le_refl q) fun i h1 h2 => by omega

theorem LaidOut.greedy (h : LaidOut body ls)
    (hfit : ∀ p, GreedyStart body p → ¬ ExactFit body p) : GreedyLayout body ls := by
  cases h with
  | last hls hs _ =>
    obtain ⟨hchain, hlast⟩ := hls.greedy hfit
    exact hchain.concat hlast hs (Nat.le_refl _)
  | done hls _ _ => exact (hls.greedy hfit).1

/-! ### An exact fit is not greedy -/

/-- A line that has a blank has a last one. -/
theorem exists_lastBlank {a e c : ℕ} (hac : a < c) (hce : c < e) (hc : IsBlank (body.charAt c)) :
    ∃ b, LastBlank body a e (some b) := by
  induction h : e - c using Nat.strongRecOn generalizing c with
  | ind n ih =>
    by_cases hlater : ∃ i, c < i ∧ i < e ∧ IsBlank (body.charAt i)
    · obtain ⟨i, hci, hie, hi⟩ := hlater
      exact ih (e - i) (by omega) (by omega) hie hi rfl
    · exact ⟨c, hac, hce, hc, fun i h1 h2 hi => hlater ⟨i, h1, h2, hi⟩⟩

/-- At an exact fit the code scans up to the blank and breaks behind an earlier one. -/
theorem ExactFit.wraps {p : ℕ} (h : ExactFit body p) :
    Scanned body p (p + presenceLineChars) ∧ Overflows body p (p + presenceLineChars) ∧
      ∃ b, LastBlank body p (p + presenceLineChars) (some b) := by
  obtain ⟨hhead, hnl, ⟨c, hpc, hce, hc⟩, hword, hnext⟩ := h
  have hlt := CString.lt_strlen_of_charAt_ne_zero hnext.ne_zero
  refine ⟨⟨Nat.le_add_right .., Nat.le_refl _, Nat.le_of_lt hlt, hnl, fun _ => hhead, ?_⟩,
    ⟨?_, hnext.ne_zero, hnext.ne_newline, ?_⟩, exists_lastBlank hpc (by omega) hc⟩
  · exact sequenceSteps_to (Nat.le_add_right ..) hnext.not_isContinuation
  · simp only [presenceLineChars]
    omega
  · rw [utf8SequenceLength_of_isBlank hnext]
    omega

/-- The first greedy line start that the code misses lies behind an exact fit. -/
theorem GreedyStart.emitted_or_exactFit {p : ℕ} (h : GreedyStart body p) :
    (∃ ls, Emitted body ls p) ∨ ∃ ls p, Emitted body ls p ∧ ExactFit body p := by
  induction h with
  | start => exact Or.inl ⟨[], .start⟩
  | skip _ hb ih => exact ih.imp_left fun ⟨ls, hls⟩ => ⟨ls, hls.skip hb⟩
  | newline _ hs hn ih => exact ih.imp_left fun ⟨_, hls⟩ => ⟨_, hls.newline hs hn⟩
  | wrap _ hs ho _ hb ih => exact ih.imp_left fun ⟨_, hls⟩ => ⟨_, hls.wrap hs ho hb⟩
  | split _ hs ho _ hb ih => exact ih.imp_left fun ⟨_, hls⟩ => ⟨_, hls.split hs ho hb⟩
  | @full p q _ hs ho hq ih =>
    rcases ih with ⟨ls, hls⟩ | hfit
    · by_cases hblank : ∃ c, p < c ∧ c < q ∧ IsBlank (body.charAt c)
      · obtain ⟨c, hpc, hcq, hc⟩ := hblank
        obtain ⟨b, hb⟩ := exists_lastBlank hpc hcq hc
        by_cases hbq : b + 1 = q
        · exact Or.inl ⟨_, hbq ▸ hls.wrap hs ho hb⟩
        · exact Or.inr ⟨ls, p, hls, exactFit_of_wrap hs ho hq hb hbq⟩
      · refine Or.inl ⟨_, hls.split hs ho ?_⟩
        intro i h1 h2 hi
        rcases Nat.eq_or_lt_of_le h1 with rfl | hlt
        · exact hs.head ho.lt hi
        · exact hblank ⟨i, hlt, h2, hi⟩
    · exact Or.inr hfit

/-- A word at a line start begins a line that is not empty. -/
theorem LaidOut.next_line {fs : List PresenceLine} {s : ℕ} (h : LaidOut body fs)
    (hls : Emitted body ls s) (hgap : ¬ IsGap (body.charAt s)) (hlt : s < body.strlen) :
    ∃ n, 0 < n ∧ ls ++ [⟨s, n⟩] <+: fs := by
  obtain ⟨hblank, hnl⟩ := not_or.mp hgap
  -- the first rule that applies at `s` emits the line, and the layout extends it
  have key : ∀ {y z : List PresenceLine × ℕ}, EmitStep body (ls, s) y →
      ReflTransGen (EmitStep body) y z → ∃ n, 0 < n ∧ ls ++ [⟨s, n⟩] <+: z.1 := by
    intro y z hstep hrest
    have hpre := prefix_of_reaches hrest
    cases hstep with
    | skip hb => exact absurd hb hblank
    | @newline ls s e hs hn =>
      have hne : s ≠ e := fun heq => hnl (heq ▸ hn)
      have := hs.le
      exact ⟨e - s, by omega, hpre⟩
    | @wrap ls s q b _ _ hb =>
      have := hb.1
      exact ⟨b - s, by omega, hpre⟩
    | @split ls s q _ ho _ =>
      have := ho.lt
      exact ⟨q - s, by omega, hpre⟩
  rcases h.reaches hls with ⟨gs, q, hsteps, hq, -, rfl⟩ | hsteps
  · rcases ReflTransGen.cases_head hsteps with heq | ⟨y, hstep, hrest⟩
    · obtain ⟨rfl, rfl⟩ := Prod.mk.inj heq
      exact ⟨_, Nat.sub_pos_of_lt hlt, List.prefix_refl _⟩
    · obtain ⟨n, hn, hpre⟩ := key hstep hrest
      exact ⟨n, hn, hpre.trans (List.prefix_append ..)⟩
  · rcases ReflTransGen.cases_head hsteps with heq | ⟨y, hstep, hrest⟩
    · obtain ⟨-, rfl⟩ := Prod.mk.inj heq
      exact absurd hlt (Nat.lt_irrefl _)
    · exact key hstep hrest

theorem LaidOut.not_greedy {fs : List PresenceLine} {p : ℕ} (h : LaidOut body fs)
    (hls : Emitted body ls p) (hfit : ExactFit body p) : ¬ GreedyLayout body fs := by
  intro hgreedy
  obtain ⟨hs, ho, b, hb⟩ := hfit.wraps
  obtain ⟨hpb, hbe, hblank, hafter⟩ := hb
  have hlt := CString.lt_strlen_of_charAt_ne_zero hfit.next.ne_zero
  -- the line break is behind `b`, and a word follows it
  have hbreak : b + 1 < p + presenceLineChars := by
    by_contra hge
    obtain rfl : b = p + presenceLineChars - 1 := by omega
    exact hfit.word hblank
  have hgap : ¬ IsGap (body.charAt (b + 1)) :=
    not_or.mpr ⟨hafter (b + 1) (Nat.lt_succ_self b) hbreak,
      hs.no_newline (b + 1) (by omega) hbreak⟩
  obtain ⟨n, hn, rest, rfl⟩ := h.next_line (hls.wrap hs ho ⟨hpb, hbe, hblank, hafter⟩) hgap
    (by omega)
  have hpair : BreakNeeded body ⟨p, b - p⟩ ⟨b + 1, n⟩ := by
    have hchain := (List.isChain_append.mp hgreedy).1
    exact (List.isChain_append.mp hchain).2.2 _ (by simp) _ (by simp)
  have hword := wordEnd_le (Nat.le_of_lt hbreak) hlt (Or.inl hfit.next)
  have hneed := hpair (Nat.sub_pos_of_lt hpb) hn fun i h1 h2 => by
    rcases Nat.lt_or_ge i (p + presenceLineChars) with h | h
    · exact hfit.no_newline i h1 h
    · simp only at h2
      omega
  simp only at hneed
  omega

/-- **The layout is greedy exactly when a greedy wrap meets no exact fit.** -/
theorem presenceLayoutBody_greedy_iff (body : CString) (lines : ℕ → PresenceLine) (maxLines : ℕ)
    (hlen : body.strlen ≤ 65535) (hmax : body.strlen < maxLines) :
    GreedyLayout body (layoutLines (presenceLayoutBody (some body) (some lines) maxLines)) ↔
      ∀ p, GreedyStart body p → ¬ ExactFit body p := by
  obtain ⟨ls, hls, heq⟩ := presenceLayoutBody_laidOut body lines hmax
  rw [heq, hls.map_stored hlen]
  constructor
  · intro hgreedy p hp hfit
    rcases hp.emitted_or_exactFit with ⟨gs, hgs⟩ | ⟨gs, q, hgs, hfit'⟩
    · exact hls.not_greedy hgs hfit hgreedy
    · exact hls.not_greedy hgs hfit' hgreedy
  · exact hls.greedy

/-- A body of short words, on three lines. -/
def shortBody : CString := .ofString "the build has finished without errors"

theorem presenceLayoutBody_greedy_iff_short :
    layoutLines (presenceLayoutBody (some shortBody) (some fun _ => default)
        presenceMaxBodyLines) = [⟨0, 13⟩, ⟨14, 16⟩, ⟨31, 6⟩] ∧
      (GreedyLayout shortBody (layoutLines (presenceLayoutBody (some shortBody)
          (some fun _ => default) presenceMaxBodyLines)) ↔
        ∀ p, GreedyStart shortBody p → ¬ ExactFit shortBody p) :=
  ⟨by decide, presenceLayoutBody_greedy_iff shortBody (fun _ => default) presenceMaxBodyLines
    (by decide) (by decide)⟩

/-- The second word fits on the first line, which it fills to the 21st byte. -/
def exactFitBody : CString := .ofString "aaaaaaaaaa bbbbbbbbbb c"

/-- **The wrap is not greedy on a word that fits exactly.** The second word goes to the second
line, although it ends at offset 21. -/
theorem not_greedy_exactFitBody :
    ¬ GreedyLayout exactFitBody (layoutLines (presenceLayoutBody (some exactFitBody)
      (some fun _ => default) presenceMaxBodyLines)) := by
  have hlines : layoutLines (presenceLayoutBody (some exactFitBody) (some fun _ => default)
      presenceMaxBodyLines) = [⟨0, 10⟩, ⟨11, 12⟩] := by decide
  rw [hlines, GreedyLayout, List.isChain_pair]
  intro hneed
  have hword : wordEnd exactFitBody 11 = 21 := by decide
  have hnl : ∀ i < 11, exactFitBody.charAt i ≠ newline := by decide
  have := hneed (by decide) (by decide) fun i _ hi => hnl i hi
  simp [presenceLineChars, hword] at this

end PresenceDevice

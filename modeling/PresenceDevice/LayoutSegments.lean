import PresenceDevice.LayoutLimit

/-!
# Segments of the body and their lines

Newlines cut a body into segments. A segment in front of a newline is closed by the rule for
newlines and gets a line even if it is empty or blank. The last segment is closed by the condition
after the loop, which asks for text on the current line, an empty layout, or a newline as the last
byte read: a last segment of blanks only, behind a newline, is none of these and gets no line.

## Main definitions

* `IsSegment`: a segment of a body
* `NewlinesHonoured`: every segment has a line of its own
* `BlankTail`: the last segment is not empty, blank, and not the only one

## Main results

* `Emitted.segmentsCovered`: segments that a newline ends have a line
* `presenceLayoutBody_newlinesHonoured_iff`: all segments do, unless the body has a blank tail
* `not_newlinesHonoured_blankTail`: a body with a blank tail
-/

namespace PresenceDevice

open Tiling

variable {body : CString} {ls fs : List PresenceLine} {p : ℕ}

/-- The bytes from `a` up to `n` are a segment: newlines and the ends of the body bound it, and it
holds no newline itself. -/
structure IsSegment (body : CString) (a n : ℕ) : Prop where
  le : a ≤ n
  inside : n ≤ body.strlen
  no_newline : ∀ i, a ≤ i → i < n → body.charAt i ≠ newline
  left : a = 0 ∨ body.charAt (a - 1) = newline
  right : n = body.strlen ∨ body.charAt n = newline

/-- Every segment has a line of its own, so there is one line more than newlines at least. -/
structure NewlinesHonoured (body : CString) (lines : ℕ → PresenceLine) (maxLines : ℕ) : Prop where
  segments : ∀ a n, IsSegment body a n →
    ∃ l ∈ trueLines body lines maxLines, a ≤ l.start ∧ l.start ≤ n
  count : 1 + body.bytes.count newline ≤ (presenceLayoutBody (some body) (some lines) maxLines).2

/-- Behind the last newline, spaces and tabs follow, and nothing else. -/
def BlankTail (body : CString) : Prop :=
  ∃ a, 0 < a ∧ body.charAt (a - 1) = newline ∧ a < body.strlen ∧
    ∀ i, a ≤ i → i < body.strlen → IsBlank (body.charAt i)

/-! ### Newlines so far -/

/-- A segment starts before everything that no newline separates from its end. -/
theorem IsSegment.start_le {a n : ℕ} (h : IsSegment body a n)
    (hnl : ∀ i, p ≤ i → i < n → body.charAt i ≠ newline) : a ≤ p := by
  by_contra hlt
  have hle := h.le
  rcases h.left with h0 | hleft
  · omega
  · exact hnl (a - 1) (by omega) (by omega) hleft

/-- The newlines in front of an offset. -/
def newlinesBefore (body : CString) (p : ℕ) : ℕ := (body.bytes.take p).count newline

theorem newlinesBefore_strlen (body : CString) :
    newlinesBefore body body.strlen = body.bytes.count newline := by
  rw [newlinesBefore, CString.strlen, List.take_length]

theorem newlinesBefore_eq {q : ℕ} (hpq : p ≤ q)
    (hnl : ∀ i, p ≤ i → i < q → body.charAt i ≠ newline) :
    newlinesBefore body q = newlinesBefore body p := by
  obtain ⟨n, rfl⟩ := Nat.exists_eq_add_of_le hpq
  have hzero : ((body.bytes.drop p).take n).count newline = 0 := by
    apply List.count_eq_zero_of_not_mem
    intro hmem
    have hslice : newline ∈ slice body.bytes p (p + n) := by
      rwa [slice, Nat.add_sub_cancel_left]
    obtain ⟨i, h1, h2, hi⟩ := mem_slice_bytes hslice
    exact hnl i h1 h2 hi
  rw [newlinesBefore, newlinesBefore, List.take_add, List.count_append, hzero, Nat.add_zero]

theorem newlinesBefore_succ (h : body.charAt p = newline) :
    newlinesBefore body (p + 1) = newlinesBefore body p + 1 := by
  have hlt := lt_strlen_of_newline h
  rw [newlinesBefore, newlinesBefore, List.take_add_one, CString.getElem?_bytes hlt, h,
    List.count_append]
  rfl

/-! ### Segments that a newline ends -/

/-- The segments in front of `p` have lines among `ls`, and there are as many lines as newlines;
one more, if the segment of `p` has a line already. -/
structure SegmentsCovered (body : CString) (ls : List PresenceLine) (p : ℕ) : Prop where
  starts_le : ∀ l ∈ ls, l.start ≤ p
  ended : ∀ a n, IsSegment body a n → n < p → ∃ l ∈ ls, a ≤ l.start ∧ l.start ≤ n
  count : newlinesBefore body p ≤ ls.length
  current : ∀ l ∈ ls, (∀ i, l.start ≤ i → i < p → body.charAt i ≠ newline) →
    newlinesBefore body p < ls.length

/-- A line without a newline behind it is one more line of the same segment. -/
theorem SegmentsCovered.concat {s length : ℕ} (h : SegmentsCovered body ls p) (hps : p ≤ s)
    (hs : s ≤ body.strlen) (hnl : ∀ i, p ≤ i → i < s → body.charAt i ≠ newline) :
    SegmentsCovered body (ls ++ [⟨p, length⟩]) s := by
  have hcount := h.count
  have heq := newlinesBefore_eq hps hnl
  constructor
  case starts_le =>
    simp only [List.forall_mem_append, List.forall_mem_singleton]
    exact ⟨fun l hl => (h.starts_le l hl).trans hps, hps⟩
  case ended =>
    intro a n hseg hn
    rcases Nat.lt_or_ge n p with hlt | hge
    · obtain ⟨l, hl, hstart⟩ := h.ended a n hseg hlt
      exact ⟨l, List.mem_append_left _ hl, hstart⟩
    · rcases hseg.right with hend | hnewline
      · omega
      · exact absurd hnewline (hnl n hge hn)
  case count =>
    rw [heq, List.length_append]
    omega
  case current =>
    intro l _ _
    rw [heq, List.length_append, List.length_singleton]
    omega

/-- A line with a newline behind it is the last one of its segment. -/
theorem SegmentsCovered.newline {e : ℕ} (h : SegmentsCovered body ls p) (hpe : p ≤ e)
    (hnl : ∀ i, p ≤ i → i < e → body.charAt i ≠ PresenceDevice.newline)
    (hn : body.charAt e = PresenceDevice.newline) :
    SegmentsCovered body (ls ++ [⟨p, e - p⟩]) (e + 1) := by
  have hlt := lt_strlen_of_newline hn
  have hbefore : SegmentsCovered body (ls ++ [⟨p, e - p⟩]) e := h.concat hpe hlt.le hnl
  constructor
  case starts_le => exact fun l hl => Nat.le_succ_of_le (hbefore.starts_le l hl)
  case ended =>
    intro a n hseg hle
    rcases Nat.eq_or_lt_of_le (Nat.le_of_lt_succ hle) with rfl | hlt'
    · exact ⟨⟨p, n - p⟩, List.mem_append_right _ (List.mem_singleton_self _),
        hseg.start_le hnl, hpe⟩
    · exact hbefore.ended a n hseg hlt'
  case count =>
    rw [newlinesBefore_succ hn]
    exact hbefore.current ⟨p, e - p⟩ (List.mem_append_right _ (List.mem_singleton_self _)) hnl
  case current =>
    intro l hl hclear
    exact absurd hn (hclear e (hbefore.starts_le l hl) (Nat.lt_succ_self e))

/-- A blank that is skipped ends no segment. -/
theorem SegmentsCovered.skip (h : SegmentsCovered body ls p) (hb : IsBlank (body.charAt p)) :
    SegmentsCovered body ls (p + 1) := by
  have hlt := CString.lt_strlen_of_charAt_ne_zero hb.ne_zero
  have hnl : ∀ i, p ≤ i → i < p + 1 → body.charAt i ≠ PresenceDevice.newline := by
    intro i h1 h2
    obtain rfl : i = p := by omega
    exact hb.ne_newline
  have heq := newlinesBefore_eq (Nat.le_succ p) hnl
  constructor
  case starts_le => exact fun l hl => Nat.le_succ_of_le (h.starts_le l hl)
  case ended =>
    intro a n hseg hn
    rcases Nat.eq_or_lt_of_le (Nat.le_of_lt_succ hn) with rfl | hlt'
    · rcases hseg.right with hend | hnewline
      · omega
      · exact absurd hnewline hb.ne_newline
    · exact h.ended a n hseg hlt'
  case count => exact heq ▸ h.count
  case current =>
    intro l hl hclear
    exact heq ▸ h.current l hl fun i h1 h2 => hclear i h1 (Nat.lt_succ_of_lt h2)

theorem Emitted.segmentsCovered (h : Emitted body ls p) : SegmentsCovered body ls p := by
  induction h with
  | start =>
    exact ⟨by simp, fun a n _ hn => absurd hn (Nat.not_lt_zero n), Nat.le_refl 0, by simp⟩
  | skip _ hb ih => exact ih.skip hb
  | newline _ hs hn ih => exact ih.newline hs.le hs.no_newline hn
  | @wrap ls p q b _ hs _ hb ih =>
    obtain ⟨hpb, hbq, hblank, -⟩ := hb
    have hle := hs.le_strlen
    exact ih.concat (by omega) (by omega) fun i h1 h2 => hs.no_newline i h1 (by omega)
  | split _ hs _ _ ih => exact ih.concat hs.le hs.le_strlen hs.no_newline

/-! ### The last segment -/

/-- A body with something behind its last newline that is not a blank has no blank tail. -/
theorem exists_not_isBlank {a : ℕ} (h : ¬ BlankTail body) (hpos : 0 < a)
    (hleft : body.charAt (a - 1) = newline) (hlt : a < body.strlen) :
    ∃ i, a ≤ i ∧ i < body.strlen ∧ ¬ IsBlank (body.charAt i) := by
  by_contra hall
  refine h ⟨a, hpos, hleft, hlt, ?_⟩
  intro i h1 h2
  by_contra hblank
  exact hall ⟨i, h1, h2, hblank⟩

/-- A line that holds a byte of a segment starts in it. -/
theorem GoodLine.start_ge {l : PresenceLine} {a n i : ℕ} (h : GoodLine body l)
    (hseg : IsSegment body a n) (hai : a ≤ i)
    (hi : i < l.start + l.length) : a ≤ l.start := by
  by_contra hlt
  rcases hseg.left with h0 | hleft
  · omega
  · exact h.no_newline (a - 1) (by omega) (by omega) hleft

/-- **Without a blank tail every segment has a line.** -/
theorem LaidOut.segment_line (h : LaidOut body fs) (hblank : ¬ BlankTail body) {a n : ℕ}
    (hseg : IsSegment body a n) : ∃ l ∈ fs, a ≤ l.start ∧ l.start ≤ n := by
  have hlaid := h
  cases h with
  | @last ls p hls hs hdue =>
    rcases Nat.lt_or_ge n p with hlt | hge
    · obtain ⟨l, hl, hstart⟩ := hls.segmentsCovered.ended a n hseg hlt
      exact ⟨l, List.mem_append_left _ hl, hstart⟩
    · refine ⟨⟨p, body.strlen - p⟩, List.mem_append_right _ (List.mem_singleton_self _), ?_, hge⟩
      exact hseg.start_le fun i h1 h2 => hs.no_newline i h1 (h2.trans_le hseg.inside)
  | done hls hne hnl =>
    rcases Nat.lt_or_ge n body.strlen with hlt | hge
    · exact hls.segmentsCovered.ended a n hseg hlt
    · obtain rfl : n = body.strlen := Nat.le_antisymm hseg.inside hge
      rcases Nat.eq_zero_or_pos a with rfl | hpos
      · obtain ⟨l, rest, rfl⟩ := List.exists_cons_of_ne_nil hne
        exact ⟨l, List.mem_cons_self .., Nat.zero_le _,
          hls.segmentsCovered.starts_le l (List.mem_cons_self ..)⟩
      · have hleft := hseg.left.resolve_left hpos.ne'
        -- the segment is not empty, so it holds a byte that is on some line
        have hlt : a < body.strlen := by
          by_contra hge'
          obtain rfl : a = body.strlen := Nat.le_antisymm hseg.le (Nat.le_of_not_lt hge')
          exact hnl hleft
        obtain ⟨i, h1, h2, hi⟩ := exists_not_isBlank hblank hpos hleft hlt
        have hgap : ¬ IsGap (body.charAt i) := not_or.mpr ⟨hi, hseg.no_newline i h1 h2⟩
        obtain ⟨k, ⟨hk1, hk2⟩, -⟩ := hlaid.partition.one_line i h2 hgap
        have hmem := List.getElem_mem k.isLt
        exact ⟨_, hmem, (hlaid.goodLine _ hmem).start_ge hseg h1 hk2, hk1.trans h2.le⟩

/-- Every offset is in a segment. -/
theorem exists_segment_start (body : CString) (p : ℕ) :
    ∃ a ≤ p, (∀ i, a ≤ i → i < p → body.charAt i ≠ newline) ∧
      (a = 0 ∨ body.charAt (a - 1) = newline) := by
  induction p with
  | zero => exact ⟨0, Nat.le_refl 0, fun i _ h => absurd h (Nat.not_lt_zero i), Or.inl rfl⟩
  | succ p ih =>
    by_cases hp : body.charAt p = newline
    · exact ⟨p + 1, Nat.le_refl _, fun i h1 h2 => by omega, Or.inr hp⟩
    · obtain ⟨a, hap, hnl, hleft⟩ := ih
      refine ⟨a, Nat.le_succ_of_le hap, ?_, hleft⟩
      intro i h1 h2
      rcases Nat.eq_or_lt_of_le (Nat.le_of_lt_succ h2) with rfl | hlt
      · exact hp
      · exact hnl i h1 hlt

/-- Then there are more lines than newlines. -/
theorem LaidOut.newlines_lt (h : LaidOut body fs) (hblank : ¬ BlankTail body) :
    body.bytes.count newline < fs.length := by
  have hlaid := h
  rw [← newlinesBefore_strlen]
  cases h with
  | last hls hs _ =>
    rw [newlinesBefore_eq hs.le hs.no_newline, List.length_append, List.length_singleton]
    exact Nat.lt_succ_of_le hls.segmentsCovered.count
  | done hls _ _ =>
    obtain ⟨a, ha, hnl, hleft⟩ := exists_segment_start body body.strlen
    have hseg : IsSegment body a body.strlen := ⟨ha, Nat.le_refl _, hnl, hleft, Or.inl rfl⟩
    obtain ⟨l, hl, hstart, -⟩ := hlaid.segment_line hblank hseg
    exact hls.segmentsCovered.current l hl fun i h1 h2 => hnl i (hstart.trans h1) h2

/-- In blanks that go on to the end of the body no line starts. -/
theorem Emitted.start_lt {a : ℕ} (h : Emitted body ls p)
    (hblank : ∀ i, a ≤ i → i < body.strlen → IsBlank (body.charAt i)) :
    ∀ l ∈ ls, l.start < a := by
  -- a line that starts with a byte other than a blank starts in front of them
  have key : ∀ {p q : ℕ}, Scanned body p q → p < q → p < a := by
    intro p q hs hlt
    by_contra hge
    exact hs.head hlt (hblank p (Nat.le_of_not_lt hge) (hlt.trans_le hs.le_strlen))
  induction h with
  | start => simp
  | skip _ _ ih => exact ih
  | @newline ls p e _ hs hn ih =>
    simp only [List.forall_mem_append, List.forall_mem_singleton]
    refine ⟨ih, ?_⟩
    have hle := hs.le
    by_contra hge
    exact (hblank e (by omega) (lt_strlen_of_newline hn)).ne_newline hn
  | wrap _ hs ho _ ih =>
    simp only [List.forall_mem_append, List.forall_mem_singleton]
    exact ⟨ih, key hs ho.lt⟩
  | split _ hs ho _ ih =>
    simp only [List.forall_mem_append, List.forall_mem_singleton]
    exact ⟨ih, key hs ho.lt⟩

/-- **A blank tail has no line.** -/
theorem LaidOut.start_lt {a : ℕ} (h : LaidOut body fs) (hpos : 0 < a)
    (hleft : body.charAt (a - 1) = newline) (hlt : a < body.strlen)
    (hblank : ∀ i, a ≤ i → i < body.strlen → IsBlank (body.charAt i)) :
    ∀ l ∈ fs, l.start < a := by
  cases h with
  | @last ls p hls hs hdue =>
    simp only [List.forall_mem_append, List.forall_mem_singleton]
    refine ⟨hls.start_lt hblank, ?_⟩
    by_contra hge
    rcases hdue with hp | rfl | hnl
    · exact hs.head hp (hblank p (Nat.le_of_not_lt hge) hp)
    · -- the segment that the newline ends has a line already
      obtain ⟨b, hb, hclear, hbleft⟩ := exists_segment_start body (a - 1)
      have hseg : IsSegment body b (a - 1) := ⟨hb, by omega, hclear, hbleft, Or.inr hleft⟩
      obtain ⟨l, hl, -⟩ := hls.segmentsCovered.ended b (a - 1) hseg (by omega)
      exact absurd hl List.not_mem_nil
    · exact (hblank (body.strlen - 1) (by omega) (by omega)).ne_newline hnl
  | done hls _ _ => exact hls.start_lt hblank

/-! ### All segments -/

/-- **Every newline is honoured exactly when the body has no blank tail.** -/
theorem presenceLayoutBody_newlinesHonoured_iff (body : CString) (lines : ℕ → PresenceLine)
    (maxLines : ℕ) (hmax : body.strlen < maxLines) :
    NewlinesHonoured body lines maxLines ↔ ¬ BlankTail body := by
  obtain ⟨fs, hfs⟩ := exists_laidOut body
  have htrue : trueLines body lines maxLines = fs := by
    rw [hfs.trueLines_eq, List.take_of_length_le (hfs.length_le.trans hmax)]
  constructor
  · rintro hhonoured ⟨a, hpos, hleft, hlt, hblank⟩
    have hseg : IsSegment body a body.strlen :=
      ⟨hlt.le, Nat.le_refl _, fun i h1 h2 => (hblank i h1 h2).ne_newline, Or.inr hleft, Or.inl rfl⟩
    obtain ⟨l, hl, hstart, -⟩ := hhonoured.segments a body.strlen hseg
    rw [htrue] at hl
    exact Nat.lt_irrefl a (hstart.trans_lt (hfs.start_lt hpos hleft hlt hblank l hl))
  · intro htail
    constructor
    case segments =>
      rw [htrue]
      exact fun a n hseg => hfs.segment_line htail hseg
    case count =>
      obtain ⟨filled, heq, -⟩ := hfs.presenceLayoutBody_eq lines maxLines
      have hcount := hfs.newlines_lt htail
      have hlength := hfs.length_le
      rw [heq]
      simp only
      omega

theorem presenceLayoutBody_newlinesHonoured_iff_newlineBody :
    NewlinesHonoured newlineBody (fun _ => default) 16 ↔ ¬ BlankTail newlineBody :=
  presenceLayoutBody_newlinesHonoured_iff newlineBody (fun _ => default) 16 (by decide)

/-- A line, and a second one of two spaces. -/
def blankTailBody : CString := .ofString "a\n  "

/-- **A blank last segment gets no line.** The layout has one line for two segments. -/
theorem not_newlinesHonoured_blankTail : ¬ NewlinesHonoured blankTailBody (fun _ => default) 5 := by
  intro h
  have hcount := h.count
  have hlines : (presenceLayoutBody (some blankTailBody) (some fun _ => default) 5).2 = 1 := by
    decide
  have hnewlines : blankTailBody.bytes.count newline = 1 := by decide
  omega

end PresenceDevice

import PresenceDevice.LayoutJoin

/-!
# Where words are broken

A line break falls inside a word only where the rule `split` of `Emitted` applies, and that rule
needs a line without a blank. Such a line is one piece of one word, which is longer than a line and
started a line of its own.

The starts of lines are cast to 16 bits, so in a body of more than 65535 bytes the offsets that
`presence_layout_body` returns may point into an earlier word that no line break touches.

## Main definitions

* `IsWord`: a maximal run of bytes other than space, tab and newline
* `WordsKept`: only words that do not fit on a line are broken

## Main results

* `presenceLayoutBody_wordsKept`: words are kept in bodies that 16-bit offsets can address
* `not_wordsKept_wordBody`: and not in a longer one
-/

namespace PresenceDevice

variable {body : CString} {ls : List PresenceLine} {p : ℕ}

/-- The bytes from `a` up to `c` are a word. -/
structure IsWord (body : CString) (a c : ℕ) : Prop where
  lt : a < c
  inside : c ≤ body.strlen
  letters : ∀ i, a ≤ i → i < c → ¬ IsGap (body.charAt i)
  left : a = 0 ∨ IsGap (body.charAt (a - 1))
  right : c = body.strlen ∨ IsGap (body.charAt c)

/-- The line `l`, the last of `upTo`, ends inside the word from `a` to `c`, and has to. -/
structure SplitNeeded (body : CString) (upTo : List PresenceLine) (l : PresenceLine) (a c : ℕ) :
    Prop where
  long : presenceLineChars < c - a
  starts_line : ∃ l₀ ∈ upTo, l₀.start = a ∧ 0 < l₀.length
  within : a ≤ l.start ∧ l.start + l.length ≤ c
  full : presenceLineChars < l.length + utf8SequenceLength body (l.start + l.length)

/-- A break between `l` and a line that starts at `s` falls inside a word only where it has to. -/
def BreakKeepsWords (body : CString) (upTo : List PresenceLine) (l : PresenceLine) (s : ℕ) :
    Prop :=
  ∀ a c, IsWord body a c → a < l.start + l.length → s < c → SplitNeeded body upTo l a c

/-- Words are broken only when they do not fit on a line. -/
structure WordsKept (body : CString) (ls : List PresenceLine) : Prop where
  breaks : ∀ pre l l' post, ls = pre ++ l :: l' :: post →
    BreakKeepsWords body (pre ++ [l]) l l'.start
  /-- No word of at most 21 bytes is split. -/
  short : ∀ pre l l' post, ls = pre ++ l :: l' :: post → ∀ a c, IsWord body a c →
    c - a ≤ presenceLineChars → ¬ (a < l.start + l.length ∧ l'.start < c)

/-! ### Every break -/

/-- What is behind a gap byte is not in the word before it. -/
theorem breakKeepsWords_of_gap {upTo : List PresenceLine} {l : PresenceLine} {g s : ℕ}
    (hg : IsGap (body.charAt g)) (hl : l.start + l.length ≤ g) (hs : g < s) :
    BreakKeepsWords body upTo l s := by
  intro a c hword ha hc
  exact absurd hg (hword.letters g (by omega) (by omega))

theorem BreakKeepsWords.mono {upTo : List PresenceLine} {l : PresenceLine} {s s' : ℕ}
    (h : BreakKeepsWords body upTo l s) (hle : s ≤ s') : BreakKeepsWords body upTo l s' :=
  fun a c hword ha hc => h a c hword ha (Nat.lt_of_le_of_lt hle hc)

/-- A word around the end of a line without blanks starts no later than the line. -/
theorem IsWord.start_le {a c q : ℕ} (h : IsWord body a c) (hs : Scanned body p q)
    (hb : LastBlank body p q none) (haq : a < q) : a ≤ p := by
  by_contra hlt
  rcases h.left with h0 | hgap
  · omega
  · rcases hgap with hblank | hnl
    · exact hb (a - 1) (by omega) (by omega) hblank
    · exact hs.no_newline (a - 1) (by omega) (by omega) hnl

/-- A sequence that starts inside a word ends inside it. -/
theorem IsWord.sequence_le {a c q : ℕ} (h : IsWord body a c) (hqc : q < c) :
    q + utf8SequenceLength body q ≤ c := by
  by_contra hlt
  obtain ⟨j, hj⟩ := Nat.exists_eq_add_of_le (Nat.le_of_lt hqc)
  have hcont : Utf8.IsContinuation (body.charAt c) := by
    rw [hj]
    exact isContinuation_of_lt_sequence (by omega) (by omega)
  rcases h.right with hend | hblank | hnl
  · rw [CString.charAt_of_le hend.ge] at hcont
    exact not_isContinuation_zero hcont
  · exact hblank.not_isContinuation hcont
  · rw [hnl] at hcont
    exact not_isContinuation_newline hcont

/-- A word that goes on behind the lines emitted so far started one of them. -/
def StartsLine (body : CString) (ls : List PresenceLine) (p : ℕ) : Prop :=
  ∀ a c, IsWord body a c → a < p → p < c → ∃ l₀ ∈ ls, l₀.start = a ∧ 0 < l₀.length

theorem startsLine_of_gap {g : ℕ} (hg : IsGap (body.charAt g)) : StartsLine body ls (g + 1) :=
  fun _ _ hword ha hc => absurd hg (hword.letters g (Nat.le_of_lt_succ ha) (by omega))

theorem StartsLine.split {q : ℕ} (h : StartsLine body ls p) (hs : Scanned body p q)
    (ho : Overflows body p q) (hb : LastBlank body p q none) :
    StartsLine body (ls ++ [⟨p, q - p⟩]) q := by
  intro a c hword ha hc
  rcases Nat.eq_or_lt_of_le (hword.start_le hs hb ha) with rfl | hlt
  · exact ⟨_, List.mem_append_right _ (List.mem_singleton_self _), rfl, Nat.sub_pos_of_lt ho.lt⟩
  · obtain ⟨l₀, hl₀, hstart⟩ := h a c hword hlt (hs.le.trans_lt hc)
    exact ⟨l₀, List.mem_append_left _ hl₀, hstart⟩

theorem Emitted.startsLine (h : Emitted body ls p) : StartsLine body ls p := by
  induction h with
  | start => exact fun a c _ ha _ => absurd ha (Nat.not_lt_zero a)
  | skip _ hb => exact startsLine_of_gap (Or.inl hb)
  | newline _ _ hn => exact startsLine_of_gap (Or.inr hn)
  | wrap _ _ _ hb => exact startsLine_of_gap (Or.inl hb.2.2.1)
  | split _ hs ho hb ih => exact ih.split hs ho hb

/-- A hard split is needed. -/
theorem breakKeepsWords_of_split {q : ℕ} (h : Emitted body ls p) (hs : Scanned body p q)
    (ho : Overflows body p q) (hb : LastBlank body p q none) :
    BreakKeepsWords body (ls ++ [⟨p, q - p⟩]) ⟨p, q - p⟩ q := by
  intro a c hword ha hc
  have hle := hs.le
  have heq : p + (q - p) = q := by omega
  simp only [heq] at ha
  have hstart := hword.start_le hs hb ha
  have hseq := hword.sequence_le hc
  have hfull := ho.full
  refine ⟨by omega, (h.startsLine.split hs ho hb) a c hword ha hc, ⟨hstart, ?_⟩, ?_⟩
  · simp only [heq]
    exact hc.le
  · simp only [heq]
    exact hfull

/-! ### All breaks of a layout -/

/-- The breaks between the lines emitted so far, and the one in front of the next line. -/
structure BreaksKept (body : CString) (ls : List PresenceLine) (p : ℕ) : Prop where
  between : ∀ pre l l' post, ls = pre ++ l :: l' :: post →
    BreakKeepsWords body (pre ++ [l]) l l'.start
  last : ∀ pre l, ls = pre ++ [l] → BreakKeepsWords body ls l p

/-- With one more line, the last break is one in between. -/
theorem BreaksKept.between_concat {x : PresenceLine} (h : BreaksKept body ls x.start)
    (pre : List PresenceLine) (l l' : PresenceLine) (post : List PresenceLine)
    (heq : ls ++ [x] = pre ++ l :: l' :: post) : BreakKeepsWords body (pre ++ [l]) l l'.start := by
  rcases List.eq_nil_or_concat' post with rfl | ⟨post, y, rfl⟩
  · have hsplit : ls ++ [x] = (pre ++ [l]) ++ [l'] := by simpa using heq
    obtain ⟨rfl, hx⟩ := List.append_inj' hsplit rfl
    obtain rfl : x = l' := by simpa using hx
    exact h.last pre l rfl
  · have hsplit : ls ++ [x] = (pre ++ l :: l' :: post) ++ [y] := by simpa using heq
    obtain ⟨rfl, -⟩ := List.append_inj' hsplit rfl
    exact h.between pre l l' post rfl

theorem BreaksKept.concat {x : PresenceLine} {q : ℕ} (h : BreaksKept body ls x.start)
    (hx : BreakKeepsWords body (ls ++ [x]) x q) : BreaksKept body (ls ++ [x]) q where
  between := h.between_concat
  last pre l heq := by
    obtain ⟨-, hl⟩ := List.append_inj' heq rfl
    obtain rfl : x = l := by simpa using hl
    exact hx

theorem Emitted.breaksKept (h : Emitted body ls p) : BreaksKept body ls p := by
  induction h with
  | start => exact ⟨fun pre l l' post heq => by simp at heq, fun pre l heq => by simp at heq⟩
  | skip _ _ ih =>
    exact ⟨ih.between, fun pre l heq => (ih.last pre l heq).mono (Nat.le_succ _)⟩
  | newline _ hs hn ih =>
    have hle := hs.le
    exact ih.concat (breakKeepsWords_of_gap (Or.inr hn) (by simp only; omega) (Nat.lt_succ_self _))
  | wrap _ _ _ hb ih =>
    have hlt := hb.1
    exact ih.concat (breakKeepsWords_of_gap (Or.inl hb.2.2.1) (by simp only; omega)
      (Nat.lt_succ_self _))
  | split hls hs ho hb ih => exact ih.concat (breakKeepsWords_of_split hls hs ho hb)

theorem LaidOut.between {fs : List PresenceLine} (h : LaidOut body fs)
    (pre : List PresenceLine) (l l' : PresenceLine) (post : List PresenceLine)
    (heq : fs = pre ++ l :: l' :: post) : BreakKeepsWords body (pre ++ [l]) l l'.start := by
  cases h with
  | last hls _ _ => exact hls.breaksKept.between_concat pre l l' post heq
  | done hls _ _ => exact hls.breaksKept.between pre l l' post heq

/-- **The first lines of a layout keep words together.** -/
theorem LaidOut.wordsKept {fs : List PresenceLine} (h : LaidOut body fs) (k : ℕ) :
    WordsKept body (fs.take k) := by
  have hbreaks : ∀ pre l l' post, fs.take k = pre ++ l :: l' :: post →
      BreakKeepsWords body (pre ++ [l]) l l'.start := by
    intro pre l l' post heq
    have hfs : fs = pre ++ l :: l' :: (post ++ fs.drop k) := by
      have hcut := (List.take_append_drop k fs).symm
      rw [heq] at hcut
      simpa using hcut
    exact h.between pre l l' _ hfs
  refine ⟨hbreaks, ?_⟩
  rintro pre l l' post heq a c hword hshort ⟨ha, hc⟩
  have hlong := (hbreaks pre l l' post heq a c hword ha hc).long
  omega

/-- **Words are broken only when they do not fit on a line**, at every line limit: in the lines as
they are laid out, and in those returned when 16-bit offsets can address the body. -/
theorem presenceLayoutBody_wordsKept (body : CString) (lines : ℕ → PresenceLine) (maxLines : ℕ) :
    WordsKept body (trueLines body lines maxLines) ∧
      (body.strlen ≤ 65535 →
        WordsKept body (layoutLines (presenceLayoutBody (some body) (some lines) maxLines))) := by
  obtain ⟨fs, hfs⟩ := exists_laidOut body
  have hkept : WordsKept body (trueLines body lines maxLines) := by
    rw [hfs.trueLines_eq]
    exact hfs.wordsKept maxLines
  refine ⟨hkept, ?_⟩
  intro hlen
  rwa [layoutLines_eq_trueLines lines maxLines hlen]

/-- A word of 28 bytes, behind a short one. -/
def splitBody : CString := .ofString "run abcdefghijklmnopqrstuvwxyz01"

theorem presenceLayoutBody_wordsKept_splitBody :
    WordsKept splitBody
      (layoutLines (presenceLayoutBody (some splitBody) (some fun _ => default) 2)) :=
  (presenceLayoutBody_wordsKept splitBody (fun _ => default) 2).2 (by decide)

/-! ### Beyond 16-bit offsets -/

/-- A word of four letters, `k` empty lines, and two lines of one letter. -/
def wordTexts (k : ℕ) : List (List UInt8) :=
  ([97, 97, 97, 97] :: List.replicate k []) ++ [[98], [98]]

theorem nulFree_joinedText {ts : List (List UInt8)} (h : ∀ t ∈ ts, 0 ∉ t) : 0 ∉ joinedText ts := by
  induction ts with
  | nil => exact List.not_mem_nil
  | cons t ts ih =>
    cases ts with
    | nil =>
      rw [joinedText_singleton]
      exact h t (List.mem_cons_self ..)
    | cons t' ts =>
      rw [joinedText_cons_cons, List.mem_append, List.mem_cons, not_or, not_or]
      exact ⟨h t (List.mem_cons_self ..), by decide,
        ih fun x hx => h x (List.mem_cons_of_mem t hx)⟩

theorem length_wordTexts (k : ℕ) : (wordTexts k).length = k + 3 := by simp [wordTexts]

theorem wordTexts_ne_nil (k : ℕ) : wordTexts k ≠ [] := by simp [wordTexts]

theorem wordTexts_isLineText (k : ℕ) : ∀ t ∈ wordTexts k, IsLineText t := by
  intro t ht
  simp only [wordTexts, List.cons_append, List.mem_cons, List.mem_append, List.mem_replicate,
    List.not_mem_nil, or_false] at ht
  rcases ht with rfl | ⟨-, rfl⟩ | rfl | rfl <;>
    exact ⟨by decide, by decide, by decide, by rintro c ⟨⟩ <;> decide⟩

/-- The body of these texts. -/
def wordBody (k : ℕ) : CString :=
  ⟨joinedText (wordTexts k), nulFree_joinedText fun t ht => (wordTexts_isLineText k t ht).nulFree⟩

theorem joinedLines_append (p : ℕ) (ts ts' : List (List UInt8)) :
    joinedLines p (ts ++ ts') =
      joinedLines p ts ++ joinedLines (p + ts.flatten.length + ts.length) ts' := by
  induction ts generalizing p with
  | nil => rfl
  | cons t ts ih =>
    simp only [List.cons_append, joinedLines, ih, List.flatten_cons, List.length_append,
      List.length_cons]
    congr 3
    omega

theorem joinedLines_wordTexts (k : ℕ) : ∃ pre,
    joinedLines 0 (wordTexts k) = pre ++ [⟨k + 5, 1⟩, ⟨k + 7, 1⟩] := by
  refine ⟨joinedLines 0 ([97, 97, 97, 97] :: List.replicate k []), ?_⟩
  rw [wordTexts, joinedLines_append]
  congr 1
  have hstart : 0 + (([97, 97, 97, 97] : List UInt8) :: List.replicate k []).flatten.length
      + (([97, 97, 97, 97] : List UInt8) :: List.replicate k []).length = k + 5 := by
    simp
    omega
  rw [hstart]
  rfl

theorem isWord_wordBody (k : ℕ) : IsWord (wordBody k) 0 4 := by
  obtain ⟨rest, hrest⟩ :
      ∃ rest, (wordBody k).bytes.drop 0 = [97, 97, 97, 97] ++ newline :: rest := by
    cases k with
    | zero => exact ⟨_, rfl⟩
    | succ k => exact ⟨_, joinedText_cons_cons ..⟩
  have hend : (wordBody k).charAt 4 = newline := charAt_behind hrest
  have hletter : ∀ i < 4, (wordBody k).charAt i = 97 := by
    intro i hi
    rw [← Nat.zero_add i, charAt_text hrest hi]
    have hall : ∀ j : Fin 4, ([97, 97, 97, 97] : List UInt8)[j] = 97 := by decide
    exact hall ⟨i, hi⟩
  refine ⟨by decide, ?_, ?_, Or.inl rfl, Or.inr (Or.inr hend)⟩
  · exact (lt_strlen_of_newline hend).le
  · intro i _ hi
    rw [hletter i hi]
    decide

/-- **In a body that 16-bit offsets cannot address, short words are broken too.** The two last
lines of this one start at 65536 and 65538; the starts returned are 0 and 2, inside its first
word. -/
theorem not_wordsKept_wordBody :
    ¬ WordsKept (wordBody 65531) (layoutLines (presenceLayoutBody (some (wordBody 65531))
      (some fun _ => default) 65534)) := by
  intro hkept
  have hlaid : LaidOut (wordBody 65531) (joinedLines 0 (wordTexts 65531)) :=
    laidOut_joinedLines (wordTexts_ne_nil _) (wordTexts_isLineText _) rfl
  obtain ⟨pre, hpre⟩ := joinedLines_wordTexts 65531
  have hlength : (joinedLines 0 (wordTexts 65531)).length ≤ 65534 := by
    rw [length_joinedLines, length_wordTexts]
  rw [presenceLayoutBody_trueLines, hlaid.trueLines_eq, List.take_of_length_le hlength, hpre,
    List.map_append] at hkept
  exact hkept.short (pre.map PresenceLine.stored) ⟨0, 1⟩ ⟨2, 1⟩ [] rfl 0 4 (isWord_wordBody _)
    (by decide) ⟨by decide, by decide⟩

end PresenceDevice

import PresenceDevice.LayoutLimit

/-!
# Text that is already laid out

A body made of texts that fit on a line each, with a newline between two of them, is laid out as
these texts: blanks inside and at the end of a text stay, a malformed sequence at its end does not
reach over the newline, and an empty text is an empty line wherever it stands. The lines of any
layout are such texts, so laying them out again changes nothing.

## Main definitions

* `IsLineText`: a text that the layout leaves as it is
* `joinedText`, `joinedLines`: the texts with newlines between them, and their lines

## Main results

* `laidOut_of_emitted_joined`: from a fresh line on, joined texts are laid out as they are
* `presenceLayoutBody_joined`: the layout undoes the join
-/

namespace PresenceDevice

open Tiling

variable {body : CString} {ls : List PresenceLine} {ts : List (List UInt8)} {p : ℕ}

/-- A text that fits on one line as it is. -/
structure IsLineText (t : List UInt8) : Prop where
  fits : t.length ≤ presenceLineChars
  nulFree : 0 ∉ t
  no_newline : newline ∉ t
  head : ∀ c ∈ t.head?, ¬ IsBlank c

/-- The texts with a newline between each two of them. -/
def joinedText (ts : List (List UInt8)) : List UInt8 := [newline].intercalate ts

/-- The lines of the joined texts, when the first one stands at `p`. -/
def joinedLines : ℕ → List (List UInt8) → List PresenceLine
  | _, [] => []
  | p, t :: ts => ⟨p, t.length⟩ :: joinedLines (p + t.length + 1) ts

theorem joinedText_singleton (t : List UInt8) : joinedText [t] = t := List.intercalate_singleton

theorem joinedText_cons_cons (t t' : List UInt8) (ts : List (List UInt8)) :
    joinedText (t :: t' :: ts) = t ++ newline :: joinedText (t' :: ts) := by
  rw [joinedText, List.intercalate_cons_cons, List.append_assoc]
  rfl

@[simp] theorem length_joinedLines (p : ℕ) (ts : List (List UInt8)) :
    (joinedLines p ts).length = ts.length := by
  induction ts generalizing p with
  | nil => rfl
  | cons t ts ih => simp [joinedLines, ih]

/-! ### One text -/

/-- The bytes of the text at `p`. -/
theorem charAt_text {t rest : List UInt8} {i : ℕ} (h : body.bytes.drop p = t ++ rest)
    (hi : i < t.length) : body.charAt (p + i) = t[i] := by
  rw [CString.charAt_add, h, List.getD_append _ _ _ _ hi, List.getD_eq_getElem]

/-- The byte behind it. -/
theorem charAt_behind {t rest : List UInt8} (h : body.bytes.drop p = t ++ rest) :
    body.charAt (p + t.length) = rest.getD 0 0 := by
  rw [CString.charAt_add, h, List.getD_append_right _ _ _ _ (Nat.le_refl _), Nat.sub_self]

theorem drop_behind {t rest : List UInt8} {c : UInt8} (h : body.bytes.drop p = t ++ c :: rest) :
    body.bytes.drop (p + t.length + 1) = rest := by
  rw [Nat.add_assoc, ← List.drop_drop, h]
  simp

theorem lineText_of_drop {t rest : List UInt8} (h : body.bytes.drop p = t ++ rest) :
    lineText body ⟨p, t.length⟩ = t := by
  rw [lineText, slice, h, Nat.add_sub_cancel_left, List.take_left]

/-- A text that ends in front of a newline, or at the end of the body, is scanned as one line. -/
theorem IsLineText.scanned {t rest : List UInt8} (ht : IsLineText t) (hp : p ≤ body.strlen)
    (h : body.bytes.drop p = t ++ rest) (hrest : ¬ Utf8.IsContinuation (rest.getD 0 0)) :
    Scanned body p (p + t.length) where
  le := Nat.le_add_right ..
  fits := Nat.add_le_add_left ht.fits p
  le_strlen := by
    have hlen := congrArg List.length h
    rw [List.length_drop, List.length_append] at hlen
    simp only [CString.strlen] at hp ⊢
    omega
  no_newline i h1 h2 := by
    obtain ⟨j, rfl⟩ := Nat.exists_eq_add_of_le h1
    rw [charAt_text h (by omega)]
    exact fun heq => ht.no_newline (heq ▸ List.getElem_mem _)
  head hlt := by
    have hpos : 0 < t.length := by omega
    rw [← Nat.add_zero p, charAt_text h hpos]
    refine ht.head _ ?_
    rw [List.head?_eq_getElem?, List.getElem?_eq_getElem hpos]
    rfl
  aligned := sequenceSteps_to (Nat.le_add_right ..) (by rwa [charAt_behind h])

/-! ### All texts -/

/-- **Joined texts are laid out as they are.** Every text but the last is ended by the rule for
newlines; the last one, even if it is empty, by the end of the body. -/
theorem laidOut_of_emitted_joined {t : List UInt8} (hls : Emitted body ls p) (hp : p ≤ body.strlen)
    (hfresh : ls = [] ∨ body.charAt (p - 1) = newline)
    (htext : ∀ t' ∈ t :: ts, IsLineText t') (h : body.bytes.drop p = joinedText (t :: ts)) :
    LaidOut body (ls ++ joinedLines p (t :: ts)) := by
  have ht := htext t (List.mem_cons_self ..)
  induction ts generalizing t ls p with
  | nil =>
    rw [joinedText_singleton, ← List.append_nil t] at h
    have hscan := ht.scanned hp h not_isContinuation_zero
    have hend : p + t.length = body.strlen := by
      have hlen := congrArg List.length h
      rw [List.length_drop, List.append_nil] at hlen
      simp only [CString.strlen] at hp ⊢
      omega
    have hline : t.length = body.strlen - p := by omega
    rw [joinedLines, joinedLines, hline]
    refine .last hls (hend ▸ hscan) ?_
    rcases Nat.eq_or_lt_of_le hp with heq | hlt
    · rw [← heq]
      exact Or.inr hfresh
    · exact Or.inl hlt
  | cons t' ts ih =>
    rw [joinedText_cons_cons] at h
    have hscan := ht.scanned hp h not_isContinuation_newline
    have hnl : body.charAt (p + t.length) = newline := charAt_behind h
    have hlt := lt_strlen_of_newline hnl
    have hnext := hls.newline hscan hnl
    rw [Nat.add_sub_cancel_left] at hnext
    have hlaid := ih hnext hlt (Or.inr hnl)
      (fun x hx => htext x (List.mem_cons_of_mem t hx)) (drop_behind h)
      (htext t' (List.mem_cons_of_mem t (List.mem_cons_self ..)))
    rwa [List.append_assoc] at hlaid

theorem map_lineText_joinedLines (h : body.bytes.drop p = joinedText ts) :
    (joinedLines p ts).map (lineText body) = ts := by
  induction ts generalizing p with
  | nil => rfl
  | cons t ts ih =>
    cases ts with
    | nil =>
      rw [joinedText_singleton, ← List.append_nil t] at h
      simp [joinedLines, lineText_of_drop h]
    | cons t' ts =>
      rw [joinedText_cons_cons] at h
      rw [joinedLines, List.map_cons, lineText_of_drop h, ih (drop_behind h)]

/-- The complete layout of joined texts. -/
theorem laidOut_joinedLines (hne : ts ≠ []) (htext : ∀ t ∈ ts, IsLineText t)
    (h : body.bytes = joinedText ts) : LaidOut body (joinedLines 0 ts) := by
  obtain ⟨t, ts, rfl⟩ := List.exists_cons_of_ne_nil hne
  exact laidOut_of_emitted_joined .start (Nat.zero_le _) (Or.inl rfl) htext h

theorem trueLines_joined {maxLines : ℕ} (lines : ℕ → PresenceLine) (hne : ts ≠ [])
    (htext : ∀ t ∈ ts, IsLineText t) (h : body.bytes = joinedText ts)
    (hmax : ts.length ≤ maxLines) : (trueLines body lines maxLines).map (lineText body) = ts := by
  rw [(laidOut_joinedLines hne htext h).trueLines_eq,
    List.take_of_length_le (by rwa [length_joinedLines]),
    map_lineText_joinedLines (by rwa [List.drop_zero])]

/-! ### The lines of a layout -/

theorem Scanned.isLineText {e q : ℕ} (h : Scanned body p q) (hpe : p ≤ e) (heq : e ≤ q) :
    IsLineText (lineText body ⟨p, e - p⟩) where
  fits := by
    have hwidth := (h.goodLine hpe heq).width
    rw [lineText, slice]
    exact (List.length_take_le ..).trans (by simpa using hwidth)
  nulFree hmem := by
    obtain ⟨i, -, hi, hz⟩ := mem_slice_bytes hmem
    have := CString.charAt_eq_zero_iff.mp hz
    have := h.le_strlen
    simp only at hi
    omega
  no_newline hmem := by
    obtain ⟨i, h1, h2, hnl⟩ := mem_slice_bytes hmem
    exact (h.goodLine hpe heq).no_newline i h1 h2 hnl
  head c hc := by
    have hlt : p < e := by
      by_contra hge
      have : e - p = 0 := by omega
      simp [lineText, this] at hc
    rw [lineText, List.head?_eq_getElem?, getElem?_slice (by simp only; omega)] at hc
    have hlt' : p < body.strlen := by
      have := h.le_strlen
      omega
    rw [Nat.add_zero, CString.getElem?_bytes hlt', Option.mem_some_iff] at hc
    exact hc ▸ h.head (by omega)

theorem Emitted.isLineText (h : Emitted body ls p) : ∀ l ∈ ls, IsLineText (lineText body l) := by
  induction h with
  | start => simp
  | skip _ _ ih => exact ih
  | newline _ hs _ ih =>
    simp only [List.forall_mem_append, List.forall_mem_singleton]
    exact ⟨ih, hs.isLineText hs.le (Nat.le_refl _)⟩
  | wrap _ hs _ hb ih =>
    simp only [List.forall_mem_append, List.forall_mem_singleton]
    exact ⟨ih, hs.isLineText (Nat.le_of_lt hb.1) (Nat.le_of_lt hb.2.1)⟩
  | split _ hs _ _ ih =>
    simp only [List.forall_mem_append, List.forall_mem_singleton]
    exact ⟨ih, hs.isLineText hs.le (Nat.le_refl _)⟩

theorem LaidOut.isLineText (h : LaidOut body ls) : ∀ l ∈ ls, IsLineText (lineText body l) := by
  cases h with
  | last hls hs _ =>
    simp only [List.forall_mem_append, List.forall_mem_singleton]
    exact ⟨hls.isLineText, hs.isLineText hs.le (Nat.le_refl _)⟩
  | done hls _ _ => exact hls.isLineText

/-! ### The layout and the join -/

/-- The texts of the lines, as they are laid out. -/
def lineTexts (body : CString) (lines : ℕ → PresenceLine) (maxLines : ℕ) : List (List UInt8) :=
  (trueLines body lines maxLines).map (lineText body)

/-- **The texts of a layout are laid out as they are.** -/
theorem lineTexts_relaid {body body' : CString} (lines lines' : ℕ → PresenceLine)
    {maxLines maxLines' : ℕ} (hpos : 0 < maxLines)
    (h : body'.bytes = joinedText (lineTexts body lines maxLines))
    (hmax : (lineTexts body lines maxLines).length ≤ maxLines') :
    lineTexts body' lines' maxLines' = lineTexts body lines maxLines := by
  obtain ⟨fs, hfs⟩ := exists_laidOut body
  have heq := hfs.trueLines_eq lines maxLines
  refine trueLines_joined lines' ?_ ?_ h hmax
  · simp [lineTexts, heq, hfs.ne_nil, hpos.ne']
  · intro t ht
    obtain ⟨l, hl, rfl⟩ := List.mem_map.mp ht
    rw [heq] at hl
    exact hfs.isLineText l (List.mem_of_mem_take hl)

/-- The layout undoes the join. -/
structure LayoutUndoesJoin (lines : ℕ → PresenceLine) : Prop where
  /-- Pre-formatted text comes back as it is, one line a text. -/
  texts : ∀ (body : CString) (ts : List (List UInt8)) (maxLines : ℕ), ts ≠ [] →
    (∀ t ∈ ts, IsLineText t) → body.bytes = joinedText ts → body.strlen ≤ 65535 →
    ts.length ≤ maxLines →
      (layoutLines (presenceLayoutBody (some body) (some lines) maxLines)).map (lineText body) = ts
  /-- So do the texts of any layout, of a body of any length. -/
  relaid : ∀ (body body' : CString) (lines' : ℕ → PresenceLine) (maxLines maxLines' : ℕ),
    0 < maxLines → body'.bytes = joinedText (lineTexts body lines maxLines) →
    (lineTexts body lines maxLines).length ≤ maxLines' →
      lineTexts body' lines' maxLines' = lineTexts body lines maxLines
  /-- What 16-bit offsets can address is returned just so, also for a `NULL` body. -/
  returned : ∀ (body : Option CString) (maxLines : ℕ), (body.getD default).strlen ≤ 65535 →
    (layoutLines (presenceLayoutBody body (some lines) maxLines)).map (lineText (body.getD default))
      = lineTexts (body.getD default) lines maxLines

/-- **Layout undoes join.** -/
theorem presenceLayoutBody_joined (lines : ℕ → PresenceLine) : LayoutUndoesJoin lines where
  texts body ts maxLines hne htext h hlen hmax := by
    rw [layoutLines_eq_trueLines lines maxLines hlen]
    exact trueLines_joined lines hne htext h hmax
  relaid body body' lines' maxLines maxLines' hpos h hmax :=
    lineTexts_relaid lines lines' hpos h hmax
  returned body maxLines hlen := by
    cases body with
    | none =>
      rw [presenceLayoutBody_none]
      exact congrArg (List.map _) (layoutLines_eq_trueLines lines maxLines hlen)
    | some body => exact congrArg (List.map _) (layoutLines_eq_trueLines lines maxLines hlen)

/-- Three texts: one with blanks at its end, an empty one and a short one. -/
def joinedBody : CString := .ofString "a b  \n\nc"

theorem presenceLayoutBody_joined_joinedBody :
    (layoutLines (presenceLayoutBody (some joinedBody) (some fun _ => default) 3)).map
      (lineText joinedBody) = [[97, 32, 98, 32, 32], [], [99]] :=
  (presenceLayoutBody_joined fun _ => default).texts joinedBody [[97, 32, 98, 32, 32], [], [99]] 3
    (by decide) (by
      intro t ht
      simp only [List.mem_cons, List.not_mem_nil, or_false] at ht
      rcases ht with rfl | rfl | rfl <;>
        exact ⟨by decide, by decide, by decide, by rintro c ⟨⟩ <;> decide⟩)
    (by decide) (by decide) (by decide)

end PresenceDevice

import PresenceDevice.LayoutTrace
import PresenceDevice.Library.Tiling

/-!
# The lines partition the body

Every line is a segment of the body, and what the layout drops between two lines is blanks and at
most one newline. The rules of `Emitted` build the corresponding tiling from the left: a new line
turns the last gap into a gap before it and opens a new one, and a skipped blank makes the last
gap longer.

## Main definitions

* `lineText`, `lineGaps`: the bytes of a line, and the bytes dropped around the lines
* `LayoutPartition`: what it means for lines to partition a body

## Main results

* `LaidOut.partition`: a complete layout partitions its body
* `presenceLayoutBody_partition`: so does the result of `presence_layout_body`
-/

namespace PresenceDevice

open Tiling

variable {body : CString} {ls : List PresenceLine}

/-- A byte that the layout may drop. -/
def IsGap (character : UInt8) : Prop := IsBlank character ∨ character = newline

instance : DecidablePred IsGap := fun _ => inferInstanceAs (Decidable (_ ∨ _))

/-- The offsets of a line. -/
def PresenceLine.segment (l : PresenceLine) : ℕ × ℕ := (l.start, l.start + l.length)

/-- The bytes of a line. -/
def lineText (body : CString) (l : PresenceLine) : List UInt8 :=
  slice body.bytes l.start (l.start + l.length)

/-- The bytes before, between and after the lines. -/
def lineGaps (body : CString) (ls : List PresenceLine) : List (List UInt8) :=
  gaps body.bytes 0 (ls.map PresenceLine.segment)

/-- What the layout may drop between two lines: droppable bytes, with one newline at most. -/
def GapBetween (body : CString) (a b : ℕ) : Prop :=
  (∀ i, a ≤ i → i < b → IsGap (body.charAt i)) ∧ (slice body.bytes a b).count newline ≤ 1

/-- The lines partition the body: they are in order, inside it and narrow enough, the body is the
concatenation of gaps and lines, and each byte that is not droppable has its place in one line. -/
structure LayoutPartition (body : CString) (ls : List PresenceLine) : Prop where
  ordered : ls.Pairwise fun l l' => l.start + l.length ≤ l'.start
  inside : ∀ l ∈ ls, l.start + l.length ≤ body.strlen
  width : ∀ l ∈ ls, l.length ≤ presenceLineChars
  no_newline : ∀ l ∈ ls, newline ∉ lineText body l
  concat : weave (lineGaps body ls) (ls.map (lineText body)) = body.bytes
  gaps_blank : ∀ g ∈ lineGaps body ls, ∀ c ∈ g, IsGap c
  gaps_newline : ∀ g ∈ lineGaps body ls, g.count newline ≤ 1
  one_line : ∀ i < body.strlen, ¬ IsGap (body.charAt i) →
    ∃! k : Fin ls.length, ls[k].start ≤ i ∧ i < ls[k].start + ls[k].length
  in_order : (ls.flatMap (lineText body)).filter (¬ IsGap ·) = body.bytes.filter (¬ IsGap ·)

/-! ### The gaps -/

theorem GapBetween.refl (a : ℕ) : GapBetween body a a :=
  ⟨fun i h1 h2 => by omega, by simp⟩

/-- A single dropped byte. -/
theorem GapBetween.single {a : ℕ} (h : IsGap (body.charAt a)) : GapBetween body a (a + 1) := by
  refine ⟨fun i h1 h2 => ?_, ?_⟩
  · obtain rfl : i = a := by omega
    exact h
  · refine Nat.le_trans List.count_le_length ?_
    rw [slice, List.length_take]
    omega

/-- A skipped blank extends a gap. -/
theorem GapBetween.blank {a b : ℕ} (h : GapBetween body a b) (hab : a ≤ b)
    (hb : IsBlank (body.charAt b)) : GapBetween body a (b + 1) := by
  refine ⟨fun i h1 h2 => ?_, ?_⟩
  · rcases Nat.lt_or_ge i b with hlt | hge
    · exact h.1 i h1 hlt
    · obtain rfl : i = b := by omega
      exact Or.inl hb
  · have hlt := CString.lt_strlen_of_charAt_ne_zero hb.ne_zero
    rw [slice_succ hab (CString.getElem?_bytes hlt), List.count_append,
      List.count_singleton, if_neg (by simpa using hb.ne_newline)]
    exact h.2

/-! ### The tiling -/

theorem tiles_concat_line {G : ℕ → ℕ → Prop} {p e q : ℕ}
    (h : Tiles G 0 (ls.map PresenceLine.segment) p) (hpe : p ≤ e) (heq : e ≤ q) (hG : G e q) :
    Tiles G 0 ((ls ++ [(⟨p, e - p⟩ : PresenceLine)]).map PresenceLine.segment) q := by
  have hseg : PresenceLine.segment ⟨p, e - p⟩ = (p, e) := by
    simp only [PresenceLine.segment, Prod.mk.injEq, true_and]
    omega
  rw [List.map_append, List.map_singleton, hseg]
  exact h.concat hpe heq hG

theorem Emitted.tiles {p : ℕ} (h : Emitted body ls p) :
    Tiles (GapBetween body) 0 (ls.map PresenceLine.segment) p := by
  induction h with
  | start => exact ⟨Nat.le_refl 0, .refl 0⟩
  | skip _ hb ih => exact ih.extend (Nat.le_succ _) fun a ha hgap => hgap.blank ha hb
  | newline _ hs hn ih => exact tiles_concat_line ih hs.le (Nat.le_succ _) (.single (Or.inr hn))
  | wrap _ _ _ hb ih =>
    exact tiles_concat_line ih (Nat.le_of_lt hb.1) (Nat.le_succ _) (.single (Or.inl hb.2.2.1))
  | split _ hs _ _ ih => exact tiles_concat_line ih hs.le (Nat.le_refl _) (.refl _)

theorem LaidOut.tiles (h : LaidOut body ls) :
    Tiles (GapBetween body) 0 (ls.map PresenceLine.segment) body.strlen := by
  cases h with
  | last hls hs _ => exact tiles_concat_line hls.tiles hs.le (Nat.le_refl _) (.refl _)
  | done hls _ _ => exact hls.tiles

/-! ### Each line -/

/-- What holds of every single line: it is narrow enough and holds no newline. -/
structure GoodLine (body : CString) (l : PresenceLine) : Prop where
  width : l.length ≤ presenceLineChars
  no_newline : ∀ i, l.start ≤ i → i < l.start + l.length → body.charAt i ≠ newline

/-- The part of a scanned line that ends at `e` is a good line. -/
theorem Scanned.goodLine {a e q : ℕ} (h : Scanned body a q) (hae : a ≤ e) (heq : e ≤ q) :
    GoodLine body ⟨a, e - a⟩ where
  width := by
    have := h.fits
    simp only
    omega
  no_newline i h1 h2 := h.no_newline i h1 (by simp only at h1 h2; omega)

theorem Emitted.goodLine {p : ℕ} (h : Emitted body ls p) : ∀ l ∈ ls, GoodLine body l := by
  induction h with
  | start => simp
  | skip _ _ ih => exact ih
  | newline _ hs _ ih =>
    simp only [List.forall_mem_append, List.forall_mem_singleton]
    exact ⟨ih, hs.goodLine hs.le (Nat.le_refl _)⟩
  | wrap _ hs _ hb ih =>
    simp only [List.forall_mem_append, List.forall_mem_singleton]
    exact ⟨ih, hs.goodLine (Nat.le_of_lt hb.1) (Nat.le_of_lt hb.2.1)⟩
  | split _ hs _ _ ih =>
    simp only [List.forall_mem_append, List.forall_mem_singleton]
    exact ⟨ih, hs.goodLine hs.le (Nat.le_refl _)⟩

theorem LaidOut.goodLine (h : LaidOut body ls) : ∀ l ∈ ls, GoodLine body l := by
  cases h with
  | last hls hs _ =>
    simp only [List.forall_mem_append, List.forall_mem_singleton]
    exact ⟨hls.goodLine, hs.goodLine hs.le (Nat.le_refl _)⟩
  | done hls _ _ => exact hls.goodLine

theorem LaidOut.inside (h : LaidOut body ls) : ∀ l ∈ ls, l.start + l.length ≤ body.strlen :=
  fun _ hl => (h.tiles.mem_bounds (List.mem_map_of_mem hl)).2.2

/-- In a body that fits 16-bit offsets, storing the lines loses nothing. -/
theorem LaidOut.map_stored (h : LaidOut body ls) (hlen : body.strlen ≤ 65535) :
    ls.map PresenceLine.stored = ls := by
  refine (List.map_congr_left fun l hl => ?_).trans (List.map_id ls)
  have hin := h.inside l hl
  have hwidth := (h.goodLine l hl).width
  simp only [presenceLineChars] at hwidth
  simp only [PresenceLine.stored, PresenceLine.cast, id_eq]
  rw [Nat.mod_eq_of_lt (by omega), Nat.mod_eq_of_lt (by omega)]

/-- A complete layout has at most one line more than the body has bytes. -/
theorem LaidOut.length_le (h : LaidOut body ls) : ls.length ≤ body.strlen + 1 := by
  cases h with
  | last hls hs _ =>
    have := hls.length_le
    have := hs.le
    simp only [List.length_append, List.length_singleton]
    omega
  | done hls _ _ => exact Nat.le_succ_of_le hls.length_le

theorem LaidOut.ne_nil (h : LaidOut body ls) : ls ≠ [] := by
  cases h with
  | last => simp
  | done _ hne _ => exact hne

/-! ### The partition -/

theorem mem_slice_bytes {a b : ℕ} {c : UInt8} (h : c ∈ slice body.bytes a b) :
    ∃ i, a ≤ i ∧ i < b ∧ body.charAt i = c := by
  obtain ⟨i, ha, hb, hi⟩ := mem_slice_iff.mp h
  have hlt : i < body.strlen := (List.getElem?_eq_some_iff.mp hi).1
  refine ⟨i, ha, hb, ?_⟩
  rw [CString.getElem?_bytes hlt] at hi
  exact Option.some.inj hi

/-- A gap never reaches past a byte that cannot be dropped. -/
theorem GapBetween.le_of_not_isGap {a b i : ℕ} (h : GapBetween body a b)
    (hi : ¬ IsGap (body.charAt i)) (ha : a ≤ i) : b ≤ i :=
  Nat.le_of_not_lt fun hlt => hi (h.1 i ha hlt)

theorem LaidOut.partition (h : LaidOut body ls) : LayoutPartition body ls := by
  have htiles := h.tiles
  have hgaps : ∀ g ∈ lineGaps body ls, ∃ a b, GapBetween body a b ∧ g = slice body.bytes a b := by
    intro g hg
    obtain ⟨a, b, -, hab, rfl⟩ := htiles.mem_gaps hg
    exact ⟨a, b, hab, rfl⟩
  have hblank : ∀ g ∈ lineGaps body ls, ∀ c ∈ g, IsGap c := by
    intro g hg c hc
    obtain ⟨a, b, hab, rfl⟩ := hgaps g hg
    obtain ⟨i, ha, hb, rfl⟩ := mem_slice_bytes hc
    exact hab.1 i ha hb
  have hconcat : weave (lineGaps body ls) (ls.map (lineText body)) = body.bytes := by
    have := weave_gaps (l := body.bytes) htiles
    rwa [List.map_map, List.drop_zero] at this
  constructor
  case ordered => exact List.pairwise_map.mp htiles.pairwise
  case inside => exact h.inside
  case width => exact fun l hl => (h.goodLine l hl).width
  case no_newline =>
    intro l hl hmem
    obtain ⟨i, ha, hb, hi⟩ := mem_slice_bytes hmem
    exact (h.goodLine l hl).no_newline i ha hb hi
  case concat => exact hconcat
  case gaps_blank => exact hblank
  case gaps_newline =>
    intro g hg
    obtain ⟨a, b, hab, rfl⟩ := hgaps g hg
    exact hab.2
  case one_line =>
    intro i hi hgap
    obtain ⟨k, hk, huniq⟩ := htiles.existsUnique (Nat.zero_le i) hi
      fun a b hab ha => hab.le_of_not_isGap hgap ha
    have hlen : (ls.map PresenceLine.segment).length = ls.length := List.length_map ..
    refine ⟨k.cast hlen, by simpa [PresenceLine.segment] using hk, ?_⟩
    intro j hj
    have hjk := huniq (j.cast hlen.symm) (by simpa [PresenceLine.segment] using hj)
    exact Fin.ext (show (j : ℕ) = k from congrArg Fin.val hjk)
  case in_order =>
    conv_rhs => rw [← hconcat]
    rw [filter_weave, List.flatMap_def]
    · rw [lineGaps, length_gaps, List.length_map, List.length_map]
    · intro g hg c hc
      simpa using hblank g hg c hc

/-- **The layout partitions the body**, for any bytes. -/
theorem presenceLayoutBody_partition (body : CString) (lines : ℕ → PresenceLine) (maxLines : ℕ)
    (hlen : body.strlen ≤ 65535) (hmax : body.strlen < maxLines) :
    LayoutPartition body (layoutLines (presenceLayoutBody (some body) (some lines) maxLines)) := by
  obtain ⟨ls, hls, heq⟩ := presenceLayoutBody_laidOut body lines hmax
  rw [heq, hls.map_stored hlen]
  exact hls.partition

/-- A body with a newline. -/
def newlineBody : CString := .ofString "one\n\nthree"

theorem presenceLayoutBody_partition_newlineBody :
    LayoutPartition newlineBody (layoutLines (presenceLayoutBody (some newlineBody)
      (some fun _ => default) presenceMaxBodyLines)) :=
  presenceLayoutBody_partition newlineBody (fun _ => default) presenceMaxBodyLines (by decide)
    (by decide)

end PresenceDevice

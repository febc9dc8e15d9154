import Mathlib.Data.List.GetD
import Mathlib.Data.List.TakeWhile

/-!
# NUL-terminated strings

A pointer to a C string gives access to its bytes and to the NUL that ends them. `CString`
carries the absence of an inner NUL as a field, so that a length, a read and a copy never have to
restate it. A character array is a plain list of bytes; `CString.ofBuffer` is the string a reader
finds in it.
-/

/-- The bytes of a C string, without the terminator. -/
@[ext] structure CString where
  bytes : List UInt8
  nulFree : 0 ∉ bytes
  deriving DecidableEq

namespace CString

/-- `strlen`. -/
def strlen (s : CString) : ℕ := s.bytes.length

/-- Reading byte `i` through the pointer; the byte after the last one is the terminator. -/
def charAt (s : CString) (i : ℕ) : UInt8 := s.bytes.getD i 0

/-- `strnlen`. -/
def strnlen (s : CString) (maxBytes : ℕ) : ℕ := min s.strlen maxBytes

/-- The string found in an array: its bytes up to the first NUL. -/
def ofBuffer (buffer : List UInt8) : CString where
  bytes := buffer.takeWhile (· ≠ 0)
  nulFree h := by simpa using List.mem_takeWhile_imp h

/-- The first `k` bytes as a string of their own. -/
def take (s : CString) (k : ℕ) : CString where
  bytes := s.bytes.take k
  nulFree h := s.nulFree (List.mem_of_mem_take h)

/-- A string literal: its UTF-8 bytes, up to an inner NUL. -/
def ofString (literal : String) : CString := ofBuffer literal.toUTF8.data.toList

instance : Inhabited CString := ⟨⟨[], by simp⟩⟩

variable {s : CString} {i : ℕ}

theorem charAt_eq_getElem (h : i < s.strlen) : s.charAt i = s.bytes.get ⟨i, h⟩ :=
  List.getD_eq_getElem _ _ h

theorem charAt_of_le (h : s.strlen ≤ i) : s.charAt i = 0 :=
  List.getD_eq_default _ _ h

theorem charAt_ne_zero (h : i < s.strlen) : s.charAt i ≠ 0 := by
  rw [charAt_eq_getElem h]
  exact fun h0 => s.nulFree (h0 ▸ List.get_mem _ _)

/-- Only the terminator reads as NUL. -/
@[simp] theorem charAt_eq_zero_iff : s.charAt i = 0 ↔ s.strlen ≤ i := by
  refine ⟨fun h => ?_, charAt_of_le⟩
  by_contra hlt
  exact charAt_ne_zero (Nat.lt_of_not_le hlt) h

theorem lt_strlen_of_charAt_ne_zero (h : s.charAt i ≠ 0) : i < s.strlen :=
  Nat.lt_of_not_le fun hle => h (charAt_of_le hle)

/-- Reading through a pointer into the string. -/
theorem charAt_add (s : CString) (p i : ℕ) : s.charAt (p + i) = (s.bytes.drop p).getD i 0 := by
  simp [charAt, List.getD_eq_getElem?_getD]

/-- A NUL-free prefix followed by a NUL is the string the array holds. -/
theorem bytes_ofBuffer_append_nul {l : List UInt8} (h : 0 ∉ l) (rest : List UInt8) :
    (ofBuffer (l ++ 0 :: rest)).bytes = l := by
  have hl : ∀ b ∈ l, decide (b ≠ 0) = true := by
    intro b hb
    rw [decide_eq_true_eq]
    rintro rfl
    exact h hb
  simp only [ofBuffer]
  rw [List.takeWhile_append_of_pos hl, List.takeWhile_cons_of_neg (by simp), List.append_nil]

theorem ofBuffer_append_nul (s : CString) (rest : List UInt8) :
    ofBuffer (s.bytes ++ 0 :: rest) = s :=
  CString.ext (bytes_ofBuffer_append_nul s.nulFree rest)

theorem bytes_ofBuffer_prefix (buffer : List UInt8) : (ofBuffer buffer).bytes <+: buffer :=
  List.takeWhile_prefix _

/-- Without a NUL the whole array is read. -/
theorem bytes_ofBuffer_of_nulFree {l : List UInt8} (h : 0 ∉ l) : (ofBuffer l).bytes = l := by
  refine List.takeWhile_eq_self_iff.mpr ?_
  intro b hb
  rw [decide_eq_true_eq]
  rintro rfl
  exact h hb

/-- An array longer than the string it holds is terminated. -/
theorem zero_mem_of_strlen_lt {buffer : List UInt8} (h : (ofBuffer buffer).strlen < buffer.length) :
    0 ∈ buffer := by
  by_contra hnul
  exact h.ne (congrArg List.length (bytes_ofBuffer_of_nulFree hnul))

/-- A prefix without a NUL is read first. -/
theorem bytes_ofBuffer_append {l : List UInt8} (h : 0 ∉ l) (rest : List UInt8) :
    (ofBuffer (l ++ rest)).bytes = l ++ (ofBuffer rest).bytes := by
  refine List.takeWhile_append_of_pos ?_
  intro b hb
  rw [decide_eq_true_eq]
  rintro rfl
  exact h hb

/-- What follows a NUL is not read, whatever stands before it. -/
theorem ofBuffer_append_zero_cons (l rest : List UInt8) :
    ofBuffer (l ++ 0 :: rest) = ofBuffer l := by
  apply CString.ext
  simp only [ofBuffer]
  induction l with
  | nil => simp
  | cons b l ih =>
    rw [List.cons_append, List.takeWhile_cons, List.takeWhile_cons]
    split_ifs
    · rw [ih]
    · rfl

theorem ofBuffer_zero_cons (rest : List UInt8) : ofBuffer (0 :: rest) = default :=
  ofBuffer_append_nul default rest

@[simp] theorem strlen_take (s : CString) (k : ℕ) : (s.take k).strlen = min k s.strlen :=
  List.length_take

theorem take_of_strlen_le {k : ℕ} (h : s.strlen ≤ k) : s.take k = s :=
  CString.ext (List.take_of_length_le h)

theorem getElem?_bytes {i : ℕ} (h : i < s.strlen) : s.bytes[i]? = some (s.charAt i) := by
  rw [List.getElem?_eq_getElem h, charAt_eq_getElem h]
  rfl

end CString

import PresenceDevice.CJsonGrammar

/-!
# Printing and parsing again

The part of `cJSON.c` behind `cJSON_Print` and `cJSON_PrintUnformatted`. The items are those of the
parser, but with the values of their numbers. The arithmetic of a `double` and its text are
parameters, with what `sprintf` promises. Raw items, which no parser makes, are left out, and
allocations succeed.

The text of an item is one of those that `ValueText` lists for it, so the grammar of the parser is
all there is to compare the printer with. A number that is not finite is printed as `null`. The
names that the elements of an array happen to have are not printed, and a member without a name
gets an empty one.

## Main definitions

* `CDouble`, `CJsonNode`, `CJsonNode.item`: items with numbers, and what the parser makes of them
* `printNumber`, `printStringPtr`, `printValue`, `cJsonPrint`: the printer

## Main results

* `cJsonPrint_spec`: what is printed is read back, and whatever can be read can be printed
-/

namespace PresenceDevice

variable {Number : Type}

/-- What `print_number` asks about a `double`: whether it is finite, whether it is an integer, its
text by `sprintf` with `"%1.15g"` and with `"%1.17g"`, and whether `sscanf` and `compare_double`
recover it from a text. -/
structure CDouble (Number : Type) where
  isnan : Number → Bool
  isinf : Number → Bool
  eqInt : Number → Int32 → Bool
  format15 : Number → List UInt8
  format17 : Number → List UInt8
  recovers : List UInt8 → Number → Bool

/-- A `cJSON` with the values of its numbers. -/
inductive CJsonNode (Number : Type)
  | null
  | false
  | true
  | number (valuedouble : Number) (valueint : Int32)
  | string (valuestring : CString)
  | array (child : List (Option CString × CJsonNode Number))
  | object (child : List (Option CString × CJsonNode Number))

/-- Induction over an item: a property of the children carries over to an array or object. -/
@[elab_as_elim]
theorem CJsonNode.induction {P : CJsonNode Number → Prop} (null : P .null) (false : P .false)
    (true : P .true) (number : ∀ valuedouble valueint, P (.number valuedouble valueint))
    (string : ∀ valuestring, P (.string valuestring))
    (array : ∀ child, (∀ x ∈ child, P x.2) → P (.array child))
    (object : ∀ child, (∀ x ∈ child, P x.2) → P (.object child)) (node : CJsonNode Number) :
    P node :=
  @CJsonNode.rec Number P (fun child => ∀ x ∈ child, P x.2) (fun x => P x.2) null false true
    number string array object nofun
    (fun _ _ hx hnext => List.forall_mem_cons.mpr ⟨hx, hnext⟩) (fun _ _ h => h) node

/-! ### Strings -/

/-- A hexadecimal digit as `%x` prints it. -/
def hexChar (digit : ℕ) : UInt8 :=
  if digit < 10 then .ofNat ('0'.toNat + digit) else .ofNat ('a'.toNat + (digit - 10))

/-- One character in the second loop of `print_string_ptr`. -/
def printChar (c : UInt8) : List UInt8 :=
  if 31 < c ∧ c ≠ quotationMark ∧ c ≠ backslash then [c]
  else
    backslash ::
      if c = backslash then [backslash]
      else if c = quotationMark then [quotationMark]
      else if c = 8 then ['b'.toUInt8]
      else if c = 12 then ['f'.toUInt8]
      else if c = 10 then ['n'.toUInt8]
      else if c = 13 then ['r'.toUInt8]
      else if c = 9 then ['t'.toUInt8]
      else 'u'.toUInt8 :: [12, 8, 4, 0].map fun shift => hexChar (c.toNat >>> shift &&& 0xF)

/-- `print_string_ptr`. -/
def printStringPtr (input : Option CString) : List UInt8 :=
  quotationMark :: (input.elim [] fun s => s.bytes.flatMap printChar) ++ [quotationMark]

/-! ### Numbers -/

/-- An `int` as `%d` prints it. -/
def printInteger (d : ℤ) : List UInt8 :=
  if d < 0 then '-'.toUInt8 :: decimal d.natAbs else decimal d.natAbs

/-- The `number_buffer` of `print_number`. -/
def numberBuffer (double : CDouble Number) (valuedouble : Number) (valueint : Int32) :
    List UInt8 :=
  if double.isnan valuedouble || double.isinf valuedouble then (CString.ofString "null").bytes
  else if double.eqInt valuedouble valueint then printInteger valueint.toInt
  else
    let text := double.format15 valuedouble
    if double.recovers text valuedouble then text else double.format17 valuedouble

/-- `print_number`. The buffer has 26 bytes, and the decimal point in it is a point. -/
def printNumber (double : CDouble Number) (valuedouble : Number) (valueint : Int32) :
    Option (List UInt8) :=
  let text := numberBuffer double valuedouble valueint
  if text.length > 25 then none else some text

/-! ### Values -/

/-- Blanks that are printed for the reader only. -/
def layoutBlanks (format : Bool) (blanks : List UInt8) : List UInt8 := if format then blanks else []

section Print

variable (double : CDouble Number) (format : Bool)

mutual

/-- `print_value`, with `print_array` and `print_object`. Their loops run one level deeper. -/
def printValue (depth : ℕ) : CJsonNode Number → Option (List UInt8)
  | .null => some (CString.ofString "null").bytes
  | .false => some (CString.ofString "false").bytes
  | .true => some (CString.ofString "true").bytes
  | .number valuedouble valueint => printNumber double valuedouble valueint
  | .string valuestring => some (printStringPtr (some valuestring))
  | .array child =>
    if depth ≥ cJsonNestingLimit then none
    else (printElements (depth + 1) child).map fun text =>
      '['.toUInt8 :: text ++ [']'.toUInt8]
  | .object child =>
    if depth ≥ cJsonNestingLimit then none
    else (printMembers (depth + 1) child).map fun text =>
      '{'.toUInt8 :: layoutBlanks format ['\n'.toUInt8] ++ text ++
        layoutBlanks format (List.replicate depth '\t'.toUInt8) ++ ['}'.toUInt8]

/-- The loop of `print_array`. -/
def printElements (depth : ℕ) : List (Option CString × CJsonNode Number) → Option (List UInt8)
  | [] => some []
  | x :: next =>
    (printElement depth x).bind fun text => (printElements depth next).map fun more =>
      text ++ if next.isEmpty then [] else
        ','.toUInt8 :: (layoutBlanks format [' '.toUInt8] ++ more)

/-- An element, whose name is not looked at. -/
def printElement (depth : ℕ) : Option CString × CJsonNode Number → Option (List UInt8)
  | (_, item) => printValue depth item

/-- The loop of `print_object`. -/
def printMembers (depth : ℕ) : List (Option CString × CJsonNode Number) → Option (List UInt8)
  | [] => some []
  | x :: next =>
    (printMember depth x).bind fun text => (printMembers depth next).map fun more =>
      text ++ ((if next.isEmpty then [] else [','.toUInt8]) ++
        (layoutBlanks format ['\n'.toUInt8] ++ more))

/-- A member behind its tabs, with the key and the colon. -/
def printMember (depth : ℕ) : Option CString × CJsonNode Number → Option (List UInt8)
  | (string, item) =>
    (printValue depth item).map fun text =>
      layoutBlanks format (List.replicate depth '\t'.toUInt8) ++
        ((printStringPtr string ++ ':'.toUInt8 :: layoutBlanks format ['\t'.toUInt8]) ++ text)

end

/-- `cJSON_Print`, or `cJSON_PrintUnformatted` without `format`. -/
def cJsonPrint (item : CJsonNode Number) : Option CString :=
  (printValue double format 0 item).map .ofBuffer

end Print

/-! ### What the parser makes of an item -/

section Item

variable (double : CDouble Number)

mutual

/-- The item as the parser would have built it from its text. -/
def CJsonNode.item : CJsonNode Number → CJsonItem
  | .null => .null
  | .false => .false
  | .true => .true
  | .number valuedouble _ =>
    if double.isnan valuedouble || double.isinf valuedouble then .null else .number
  | .string valuestring => .string valuestring
  | .array child => .array (elementItems child)
  | .object child => .object (memberItems child)

/-- Elements without names. -/
def elementItems : List (Option CString × CJsonNode Number) → List (Option CString × CJsonItem)
  | [] => []
  | x :: next => elementItem x :: elementItems next

def elementItem : Option CString × CJsonNode Number → Option CString × CJsonItem
  | (_, item) => (none, item.item)

/-- Members with names. -/
def memberItems : List (Option CString × CJsonNode Number) → List (Option CString × CJsonItem)
  | [] => []
  | x :: next => memberItem x :: memberItems next

def memberItem : Option CString × CJsonNode Number → Option CString × CJsonItem
  | (string, item) => (some (string.getD default), item.item)

end

end Item

/-! ### The text of a string -/

variable {c : UInt8} {w r : List UInt8}

theorem unescape_char (hc : c ≠ backslash) (u : List UInt8) :
    unescape 0 (c :: u) = (unescape 0 u).map (c :: ·) := by
  rw [unescape, if_neg hc]

/-- An escape sequence of two characters. -/
theorem unescape_pair {d : UInt8} (h : ∀ u, escapeSequence (backslash :: d :: u) = some ([c], 2))
    (u : List UInt8) :
    unescape 0 (backslash :: d :: u) = (unescape 0 u).map (c :: ·) := by
  rw [unescape, if_pos rfl, h]
  rfl

theorem hexChar_plain : ∀ digit : Fin 16, hexChar digit ≠ quotationMark ∧
    hexChar digit ≠ backslash := by
  decide

/-- A control character is printed with four digits, which are read as its code. -/
theorem parseHex4_printChar :
    ∀ c : Fin 32, parseHex4 ([12, 8, 4, 0].map fun shift => hexChar ((c : ℕ) >>> shift &&& 0xF)) =
      c := by
  decide

/-- Four digits that are the code of a control character. -/
theorem unescape_hex4 {code : List UInt8} (hlen : code.length = 4)
    (hcode : parseHex4 code = c.toNat) (hc : c < 32) (u : List UInt8) :
    unescape 0 (backslash :: 'u'.toUInt8 :: (code ++ u)) = (unescape 0 u).map (c :: ·) := by
  have hlt : c.toNat < 32 := hc
  have hread : parseHex4 (code ++ u) = c.toNat := by
    rw [← hcode, parseHex4, parseHex4, List.take_left' hlen, List.take_of_length_le hlen.le]
  have hbyte : UInt8.ofNat (c.toNat &&& 0x7F) = c := by
    rw [show c.toNat &&& 0x7F = c.toNat % 2 ^ 7 from Nat.and_two_pow_sub_one_eq_mod c.toNat 7,
      Nat.mod_eq_of_lt (by omega), UInt8.ofNat_toNat]
  have hescape : escapeSequence (backslash :: 'u'.toUInt8 :: (code ++ u)) = some ([c], 6) := by
    have hsix : ¬ (backslash :: 'u'.toUInt8 :: (code ++ u)).length < 6 := by
      simp only [List.length_cons, List.length_append, hlen]
      omega
    have hutf : utf16LiteralToUtf8 (backslash :: 'u'.toUInt8 :: (code ++ u)) = some ([c], 6) := by
      rw [utf16LiteralToUtf8, if_neg hsix]
      simp only [List.drop_succ_cons, List.drop_zero, hread, codepointToUtf8]
      rw [if_neg (by omega), if_neg (by omega), if_pos (by omega), hbyte]
      rfl
    exact hutf
  obtain ⟨d1, d2, d3, d4, rfl⟩ := List.length_eq_four.mp hlen
  rw [unescape, if_pos rfl, hescape]
  rfl

/-- What is printed for a character is read as that character. -/
theorem unescape_printChar (hc : c ≠ 0) (u : List UInt8) :
    unescape 0 (printChar c ++ u) = (unescape 0 u).map (c :: ·) := by
  unfold printChar
  split_ifs with hplain hback hquote hb hf hn hr ht
  · exact unescape_char hplain.2.2 u
  · subst hback
    exact unescape_pair (fun u => rfl) u
  · subst hquote
    exact unescape_pair (fun u => rfl) u
  · subst hb
    exact unescape_pair (fun u => rfl) u
  · subst hf
    exact unescape_pair (fun u => rfl) u
  · subst hn
    exact unescape_pair (fun u => rfl) u
  · subst hr
    exact unescape_pair (fun u => rfl) u
  · subst ht
    exact unescape_pair (fun u => rfl) u
  · have hlt : c < 32 := by
      rw [← UInt8.not_le]
      intro hle
      exact hplain ⟨UInt8.lt_of_lt_of_le (by decide) hle, hquote, hback⟩
    exact unescape_hex4 rfl (parseHex4_printChar ⟨c.toNat, hlt⟩) hlt u

/-- What is printed for a character does not end the string. -/
theorem isLiteral_printChar (hw : IsLiteral w) : IsLiteral (printChar c ++ w) := by
  have hhex : ∀ code : List UInt8, (∀ d ∈ code, d ≠ quotationMark ∧ d ≠ backslash) →
      IsLiteral (code ++ w) := by
    intro code hcode
    induction code with
    | nil => exact hw
    | cons d code ih =>
      obtain ⟨hd, hcode⟩ := List.forall_mem_cons.mp hcode
      exact .char hd.1 hd.2 (ih hcode)
  unfold printChar
  split_ifs with hplain
  case pos => exact .char hplain.2.1 hplain.2.2 hw
  case neg =>
    refine .escape (hhex _ ?_)
    rintro d hd
    obtain ⟨shift, -, rfl⟩ := List.mem_map.mp hd
    exact hexChar_plain ⟨_, Nat.and_lt_two_pow (n := 4) _ (by decide)⟩
  all_goals exact .escape hw

/-- **What is printed for a string is read as that string.** -/
theorem stringText_printStringPtr (s : CString) :
    StringText s (printStringPtr (some s)) := by
  have hread : ∀ input : List UInt8, 0 ∉ input → IsLiteral (input.flatMap printChar) ∧
      unescape 0 (input.flatMap printChar) = some input := by
    intro input hnul
    induction input with
    | nil => exact ⟨.nil, rfl⟩
    | cons c input ih =>
      obtain ⟨hc, hnul⟩ := not_or.mp (List.mem_cons.not.mp hnul)
      obtain ⟨hliteral, hunescape⟩ := ih hnul
      rw [List.flatMap_cons]
      refine ⟨isLiteral_printChar hliteral, ?_⟩
      rw [unescape_printChar (Ne.symm hc), hunescape]
      rfl
  obtain ⟨hliteral, hunescape⟩ := hread s.bytes s.nulFree
  have hs : s = .ofBuffer s.bytes := CString.ext (CString.bytes_ofBuffer_of_nulFree s.nulFree).symm
  exact ⟨_, s.bytes, hliteral, hunescape, hs, rfl⟩

/-- A missing name reads as an empty one. -/
theorem stringText_printStringPtr_getD (s : Option CString) :
    StringText (s.getD default) (printStringPtr s) := by
  cases s with
  | none => exact stringText_printStringPtr default
  | some s => exact stringText_printStringPtr s

/-! ### The text of a number -/

variable {double : CDouble Number}

theorem isDigit_decimal {n : ℕ} (hc : c ∈ decimal n) : isDigit c := by
  obtain ⟨digit, hdigit, rfl⟩ := List.mem_map.mp hc
  have hchar := Nat.isDigit_of_mem_toDigits (by decide) (by decide) hdigit
  rw [Char.isDigit, Bool.and_eq_true, decide_eq_true_eq, decide_eq_true_eq] at hchar
  have h0 : 48 ≤ digit.toNat := hchar.1
  have h9 : digit.toNat ≤ 57 := hchar.2
  have htoNat : digit.toUInt8.toNat = digit.toNat := by
    rw [Char.toUInt8, UInt32.toNat_toUInt8]
    exact Nat.mod_eq_of_lt (h9.trans_lt (by decide))
  rw [isDigit_iff, UInt8.le_iff_toNat_le, UInt8.le_iff_toNat_le, htoNat]
  exact ⟨h0, h9⟩

/-- Digits are converted completely. -/
theorem mantissaLength_of_digits (hw : ∀ b ∈ w, isDigit b) : mantissaLength w = w.length := by
  have hdigits : digitsLength w = w.length := by
    rw [digitsLength, List.takeWhile_eq_self_iff.mpr hw]
  simp [mantissaLength, hdigits]

theorem isNumberChar_of_isDigit (h : isDigit c) : isNumberChar c := by
  simp [isNumberChar, h]

/-- An integer is a number, with its sign. -/
theorem leafText_printInteger (d : ℤ) : LeafText .number (printInteger d) := by
  have hdigits : ∀ b ∈ decimal d.natAbs, isDigit b := fun b hb => isDigit_decimal hb
  have hmantissa := mantissaLength_of_digits hdigits
  have hne : decimal d.natAbs ≠ [] := by
    rw [decimal, Ne, List.map_eq_nil_iff]
    exact Nat.toDigits_ne_nil
  have hpos : (decimal d.natAbs).length ≠ 0 := List.length_eq_zero_iff.not.mpr hne
  obtain ⟨b, more, hcons⟩ := List.exists_cons_of_ne_nil hne
  have hb : isDigit b := hdigits b (by rw [hcons]; exact List.mem_cons_self ..)
  have hend : exponentLength [] = 0 := rfl
  unfold printInteger
  split_ifs
  · refine .number ⟨_, rfl, Or.inl rfl⟩ ⟨List.cons_ne_nil _ _, ?_, ?_⟩
    · intro c hc
      rcases List.mem_cons.mp hc with rfl | hc
      · rfl
      · exact isNumberChar_of_isDigit (hdigits c hc)
    · have hsign : signLength ('-'.toUInt8 :: decimal d.natAbs) = 1 := rfl
      simp only [strtodLength, hsign, List.drop_succ_cons, List.drop_zero, hmantissa, if_neg hpos,
        Nat.add_comm 1, List.drop_length, hend, List.length_cons, Nat.add_zero]
  · refine .number ⟨b, by rw [hcons]; rfl, Or.inr hb⟩ ⟨hne, ?_, ?_⟩
    · exact fun c hc => isNumberChar_of_isDigit (hdigits c hc)
    · have hsign : signLength (decimal d.natAbs) = 0 := by
        rw [signLength, hcons, if_neg]
        rintro (h | h)
        · obtain rfl := Option.some.inj h
          exact absurd hb (by decide)
        · obtain rfl := Option.some.inj h
          exact absurd hb (by decide)
      simp only [strtodLength, hsign, List.drop_zero, hmantissa, if_neg hpos, Nat.zero_add,
        List.drop_length, hend, Nat.add_zero]

/-- The text of an `int` fits in the buffer. -/
theorem length_printInteger_le (i : Int32) : (printInteger i.toInt).length ≤ 25 := by
  have hlow := i.le_toInt
  have hhigh := i.toInt_lt
  have hdigits : (decimal i.toInt.natAbs).length ≤ 10 := by
    rw [decimal, List.length_map, Nat.length_toDigits_le_iff (by decide) (by decide)]
    omega
  unfold printInteger
  split_ifs
  · rw [List.length_cons]
    omega
  · omega

/-- What `sprintf` promises for a finite number: a decimal number that fits in the buffer. -/
def CDouble.Formats (double : CDouble Number) : Prop :=
  ∀ d, (double.isnan d || double.isinf d) = Bool.false →
    ∀ text ∈ [double.format15 d, double.format17 d], text.length ≤ 25 ∧ LeafText .number text

/-- What is printed for a number is a number, or `null` if it is not finite. -/
theorem leafText_numberBuffer (hformats : double.Formats) (d : Number) (i : Int32) :
    (numberBuffer double d i).length ≤ 25 ∧
      LeafText ((CJsonNode.number d i).item double) (numberBuffer double d i) := by
  rw [numberBuffer, CJsonNode.item]
  split_ifs with hinfinite hint
  · exact ⟨by decide, .null⟩
  · exact ⟨length_printInteger_le i, leafText_printInteger _⟩
  · refine hformats d (Bool.eq_false_iff.mpr hinfinite) _ ?_
    show (if double.recovers (double.format15 d) d then double.format15 d
      else double.format17 d) ∈ [double.format15 d, double.format17 d]
    split_ifs <;> simp

/-- `print_number` does not fail. -/
theorem leafText_printNumber (hformats : double.Formats) (d : Number) (i : Int32) :
    ∃ text, printNumber double d i = some text ∧
      LeafText ((CJsonNode.number d i).item double) text := by
  obtain ⟨hlen, htext⟩ := leafText_numberBuffer hformats d i
  exact ⟨_, if_neg (Nat.not_lt.mpr hlen), htext⟩

/-! ### The text of a value -/

variable {format : Bool} {depth levels : ℕ} {text more : List UInt8}
  {x : Option CString × CJsonNode Number}
  {child : List (Option CString × CJsonNode Number)} {node : CJsonNode Number}
  {V : CJsonItem → List UInt8 → Prop}

theorem skipped_layoutBlanks {blanks : List UInt8} (h : Skipped blanks) :
    Skipped (layoutBlanks format blanks) := by
  unfold layoutBlanks
  split_ifs
  · exact h
  · exact nofun

theorem skipped_replicate (hc : c ≤ 32) (n : ℕ) : Skipped (List.replicate n c) := by
  intro b hb
  rwa [List.eq_of_mem_replicate hb]

theorem skipped_singleton (hc : c ≤ 32) : Skipped [c] := skipped_replicate hc 1

/-- Whitespace behind the last child belongs to it. -/
theorem children_append_skipped {N : Option CString → List UInt8 → Prop}
    {child : List (Option CString × CJsonItem)} {ws : List UInt8} (hws : Skipped ws)
    (h : Reader.SepBy (ChildText N V) c child w) :
    Reader.SepBy (ChildText N V) c child (w ++ ws) := by
  induction h with
  | single h =>
    obtain ⟨ws', n, v, ws'', hws', hn, hv, hws'', rfl⟩ := h
    exact .single ⟨ws', n, v, ws'' ++ ws, hws', hn, hv, hws''.append_left hws, by simp⟩
  | cons h _ ih =>
    rw [List.append_assoc, List.cons_append]
    exact .cons h ih

/-- The loop of `print_array` prints elements. -/
theorem sepBy_printElements
    (hV : ∀ x ∈ child, ∀ text, printValue double format depth x.2 = some text →
      V (x.2.item double) text)
    (hne : child ≠ []) (h : printElements double format depth child = some text) :
    Reader.SepBy (ChildText ArrayName V) ','.toUInt8 (elementItems double child) text := by
  induction child generalizing text with
  | nil => exact absurd rfl hne
  | cons x next ih =>
    obtain ⟨hx, hnext⟩ := List.forall_mem_cons.mp hV
    rw [printElements, Option.bind_eq_some_iff] at h
    obtain ⟨v, hv, h⟩ := h
    obtain ⟨more, hmore, rfl⟩ := Option.map_eq_some_iff.mp h
    have hchild : ChildText ArrayName V (elementItem double x) v := by
      obtain ⟨string, item⟩ := x
      exact ⟨[], [], v, [], nofun, ⟨rfl, rfl⟩, hx v hv, nofun, by simp⟩
    rw [elementItems]
    cases next with
    | nil => simpa [elementItems] using Reader.SepBy.single hchild
    | cons y next =>
      have hblank : Skipped (layoutBlanks format [' '.toUInt8]) :=
        skipped_layoutBlanks (skipped_singleton (by decide))
      have hrest := skipped_append_children hblank (ih hnext (by simp) hmore)
      exact .cons hchild hrest

/-- The loop of `print_object` prints members. -/
theorem sepBy_printMembers
    (hV : ∀ x ∈ child, ∀ text, printValue double format depth x.2 = some text →
      V (x.2.item double) text)
    (hne : child ≠ []) (h : printMembers double format depth child = some text) :
    Reader.SepBy (ChildText MemberName V) ','.toUInt8 (memberItems double child) text := by
  have hline : Skipped (layoutBlanks format ['\n'.toUInt8]) :=
    skipped_layoutBlanks (skipped_singleton (by decide))
  have htab : Skipped (layoutBlanks format ['\t'.toUInt8]) :=
    skipped_layoutBlanks (skipped_singleton (by decide))
  have htabs : Skipped (layoutBlanks format (List.replicate depth '\t'.toUInt8)) :=
    skipped_layoutBlanks (skipped_replicate (by decide) depth)
  induction child generalizing text with
  | nil => exact absurd rfl hne
  | cons x next ih =>
    obtain ⟨hx, hnext⟩ := List.forall_mem_cons.mp hV
    rw [printMembers, Option.bind_eq_some_iff] at h
    obtain ⟨v, hv, h⟩ := h
    obtain ⟨more, hmore, rfl⟩ := Option.map_eq_some_iff.mp h
    have hchild : ChildText MemberName V (memberItem double x) v := by
      obtain ⟨string, item⟩ := x
      rw [printMember, Option.map_eq_some_iff] at hv
      obtain ⟨value, hvalue, rfl⟩ := hv
      refine ⟨_, _, value, [], htabs, ?_, hx value hvalue, nofun, by rw [List.append_nil]⟩
      exact ⟨_, _, [], _, rfl, stringText_printStringPtr_getD string, nofun, htab, rfl⟩
    rw [memberItems]
    cases next with
    | nil =>
      obtain rfl : more = [] := (Option.some.inj hmore).symm
      simpa [memberItems] using children_append_skipped hline (Reader.SepBy.single hchild)
    | cons y next =>
      have hrest := skipped_append_children hline (ih hnext (by simp) hmore)
      exact Reader.SepBy.cons hchild hrest

theorem LeafText.valueText {item : CJsonItem} (h : LeafText item w) : ValueText levels item w := by
  cases levels with
  | zero => exact h
  | succ levels => exact Or.inl h

/-- **A printed value is a text of its item**, with the levels that are left at its depth. -/
theorem valueText_printValue (hformats : double.Formats) (node : CJsonNode Number) :
    ∀ {depth levels text}, depth + levels = cJsonNestingLimit →
      printValue double format depth node = some text →
        ValueText levels (node.item double) text := by
  induction node using CJsonNode.induction with
  | null =>
    rintro depth levels text - h
    obtain rfl := Option.some.inj h
    exact LeafText.null.valueText
  | false =>
    rintro depth levels text - h
    obtain rfl := Option.some.inj h
    exact LeafText.false.valueText
  | true =>
    rintro depth levels text - h
    obtain rfl := Option.some.inj h
    exact LeafText.true.valueText
  | number valuedouble valueint =>
    rintro depth levels text - h
    obtain ⟨text', htext, hleaf⟩ := leafText_printNumber hformats valuedouble valueint
    obtain rfl := Option.some.inj (htext.symm.trans h)
    exact hleaf.valueText
  | string valuestring =>
    rintro depth levels text - h
    obtain rfl := Option.some.inj h
    exact (LeafText.string (stringText_printStringPtr valuestring)).valueText
  | array child ih =>
    intro depth levels text hlevels h
    rw [printValue] at h
    split_ifs at h with hdepth
    obtain ⟨inside, hinside, rfl⟩ := Option.map_eq_some_iff.mp h
    obtain ⟨levels, rfl⟩ : ∃ k, levels = k + 1 := ⟨levels - 1, by omega⟩
    refine Or.inr (.array ?_)
    cases child with
    | nil =>
      obtain rfl := Option.some.inj hinside
      exact Or.inl ⟨rfl, [], nofun, rfl⟩
    | cons x next =>
      refine Or.inr ⟨inside, sepBy_printElements (fun x hx text htext => ?_) (by simp) hinside, rfl⟩
      have hbelow : depth + 1 + levels = cJsonNestingLimit := by omega
      exact ih x hx hbelow htext
  | object child ih =>
    intro depth levels text hlevels h
    rw [printValue] at h
    split_ifs at h with hdepth
    obtain ⟨inside, hinside, rfl⟩ := Option.map_eq_some_iff.mp h
    obtain ⟨levels, rfl⟩ : ∃ k, levels = k + 1 := ⟨levels - 1, by omega⟩
    have hline : Skipped (layoutBlanks format ['\n'.toUInt8]) :=
      skipped_layoutBlanks (skipped_singleton (by decide))
    have htabs : Skipped (layoutBlanks format (List.replicate depth '\t'.toUInt8)) :=
      skipped_layoutBlanks (skipped_replicate (by decide) depth)
    refine Or.inr (.object ?_)
    cases child with
    | nil =>
      obtain rfl := Option.some.inj hinside
      exact Or.inl ⟨rfl, _, hline.append_left htabs, by simp⟩
    | cons x next =>
      refine Or.inr ⟨_, ?_, rfl⟩
      refine children_append_skipped htabs (skipped_append_children hline ?_)
      refine sepBy_printMembers (fun x hx text htext => ?_) (by simp) hinside
      have hbelow : depth + 1 + levels = cJsonNestingLimit := by omega
      exact ih x hx hbelow htext

/-! ### Whatever has a text can be printed -/

theorem elementItems_eq_map : elementItems double child = child.map (elementItem double) := by
  induction child with
  | nil => rfl
  | cons x next ih => rw [elementItems, ih, List.map_cons]

theorem memberItems_eq_map : memberItems double child = child.map (memberItem double) := by
  induction child with
  | nil => rfl
  | cons x next ih => rw [memberItems, ih, List.map_cons]

/-- Every child has a text of its own. -/
theorem ChildrenText.exists_text {N : Option CString → List UInt8 → Prop} {close : UInt8}
    {child : List (Option CString × CJsonItem)} (h : ChildrenText close N V child w) :
    ∀ x ∈ child, ∃ v, V x.2 v := by
  obtain ⟨rfl, -⟩ | ⟨v, hv, -⟩ := h
  · exact nofun
  · intro x hx
    obtain ⟨text, -, -, value, -, -, -, hvalue, -⟩ := hv.exists_text x hx
    exact ⟨value, hvalue⟩

/-- An array or object takes one level, its children the others. -/
theorem ValueText.children {item : CJsonItem} {child : List (Option CString × CJsonItem)}
    (h : ValueText levels item w) (hitem : item = .array child ∨ item = .object child) :
    ∃ k, levels = k + 1 ∧ ∀ x ∈ child, ∃ v, ValueText k x.2 v := by
  cases levels with
  | zero => obtain rfl | rfl := hitem <;> cases h
  | succ levels =>
    refine ⟨levels, rfl, ?_⟩
    obtain h | h := h
    · obtain rfl | rfl := hitem <;> cases h
    · obtain rfl | rfl := hitem
      · cases h with
        | array h => exact h.exists_text
      · cases h with
        | object h => exact h.exists_text

theorem exists_printElements
    (h : ∀ x ∈ child, ∃ text, printValue double format depth x.2 = some text) :
    ∃ text, printElements double format depth child = some text := by
  induction child with
  | nil => exact ⟨[], rfl⟩
  | cons x next ih =>
    obtain ⟨⟨text, htext⟩, hnext⟩ := List.forall_mem_cons.mp h
    obtain ⟨more, hmore⟩ := ih hnext
    obtain ⟨string, item⟩ := x
    have hx : printElement double format depth (string, item) = some text := htext
    rw [printElements, hx, hmore]
    exact ⟨_, rfl⟩

theorem exists_printMembers
    (h : ∀ x ∈ child, ∃ text, printValue double format depth x.2 = some text) :
    ∃ text, printMembers double format depth child = some text := by
  induction child with
  | nil => exact ⟨[], rfl⟩
  | cons x next ih =>
    obtain ⟨⟨text, htext⟩, hnext⟩ := List.forall_mem_cons.mp h
    obtain ⟨more, hmore⟩ := ih hnext
    obtain ⟨string, item⟩ := x
    rw [printMembers, printMember, htext, hmore]
    exact ⟨_, rfl⟩

/-- The printer gives up on no item that has a text within the levels left. -/
theorem exists_printValue (hformats : double.Formats) (node : CJsonNode Number) :
    ∀ {depth levels w}, depth + levels = cJsonNestingLimit → ValueText levels (node.item double) w →
      ∃ text, printValue double format depth node = some text := by
  induction node using CJsonNode.induction with
  | null | false | true | string => exact fun _ _ => ⟨_, rfl⟩
  | number valuedouble valueint =>
    intro depth levels w _ _
    obtain ⟨text, htext, -⟩ := leafText_printNumber hformats valuedouble valueint
    exact ⟨text, htext⟩
  | array child ih =>
    intro depth levels w hlevels h
    obtain ⟨levels, rfl, htext⟩ := h.children (Or.inl rfl)
    have hchild : ∀ x ∈ child, ∃ text,
        printValue double format (depth + 1) x.2 = some text := by
      rintro ⟨string, item⟩ hx
      have hmem : elementItem double (string, item) ∈ elementItems double child := by
        rw [elementItems_eq_map]
        exact List.mem_map_of_mem hx
      obtain ⟨v, hv⟩ := htext _ hmem
      exact ih _ hx (by omega) hv
    obtain ⟨inside, hinside⟩ := exists_printElements hchild
    rw [printValue, if_neg (by omega), hinside]
    exact ⟨_, rfl⟩
  | object child ih =>
    intro depth levels w hlevels h
    obtain ⟨levels, rfl, htext⟩ := h.children (Or.inr rfl)
    have hchild : ∀ x ∈ child, ∃ text,
        printValue double format (depth + 1) x.2 = some text := by
      rintro ⟨string, item⟩ hx
      have hmem : memberItem double (string, item) ∈ memberItems double child := by
        rw [memberItems_eq_map]
        exact List.mem_map_of_mem hx
      obtain ⟨v, hv⟩ := htext _ hmem
      exact ih _ hx (by omega) hv
    obtain ⟨inside, hinside⟩ := exists_printMembers hchild
    rw [printValue, if_neg (by omega), hinside]
    exact ⟨_, rfl⟩

/-! ### Printing and parsing -/

theorem not_mem_layoutBlanks (format : Bool) {blanks : List UInt8} (h : 0 ∉ blanks) :
    0 ∉ layoutBlanks format blanks := by
  unfold layoutBlanks
  split_ifs
  · exact h
  · exact List.not_mem_nil

theorem not_mem_tabs (n : ℕ) : (0 : UInt8) ∉ List.replicate n '\t'.toUInt8 := by
  intro h
  exact absurd (List.eq_of_mem_replicate h) (by decide)

theorem hexChar_ne_zero : ∀ digit : Fin 16, hexChar digit ≠ 0 := by decide

theorem not_mem_printChar (hc : c ≠ 0) : 0 ∉ printChar c := by
  have hhex : 0 ∉ [12, 8, 4, 0].map fun shift => hexChar (c.toNat >>> shift &&& 0xF) := by
    intro h
    obtain ⟨shift, -, hshift⟩ := List.mem_map.mp h
    exact hexChar_ne_zero ⟨_, Nat.and_lt_two_pow (n := 4) _ (by decide)⟩ hshift
  unfold printChar
  split_ifs
  case pos => simpa using hc.symm
  case neg =>
    rw [List.mem_cons, List.mem_cons, not_or, not_or]
    exact ⟨by decide, by decide, hhex⟩
  all_goals decide

theorem not_mem_printStringPtr (input : Option CString) : 0 ∉ printStringPtr input := by
  have hquote : (0 : UInt8) ≠ quotationMark := by decide
  cases input with
  | none => decide
  | some s =>
    have hinside : 0 ∉ s.bytes.flatMap printChar := by
      intro h
      obtain ⟨c, hc, h⟩ := List.mem_flatMap.mp h
      refine not_mem_printChar ?_ h
      rintro rfl
      exact s.nulFree hc
    simp [printStringPtr, hquote, hinside]

theorem not_mem_numberText {d : Number} {i : Int32}
    (h : LeafText ((CJsonNode.number d i).item double) w) : 0 ∉ w := by
  rw [CJsonNode.item] at h
  split_ifs at h
  · cases h
    exact CString.nulFree _
  · cases h with
    | number _ hw =>
      intro hmem
      exact absurd (hw.2.1 0 hmem) (by decide)

theorem not_mem_printElements (h : printElements double format depth child = some text)
    (hchild : ∀ x ∈ child, ∀ text, printValue double format depth x.2 = some text →
      0 ∉ text) : 0 ∉ text := by
  have hcomma : (0 : UInt8) ≠ ','.toUInt8 := by decide
  have hblank := not_mem_layoutBlanks format (by decide : 0 ∉ [' '.toUInt8])
  induction child generalizing text with
  | nil =>
    obtain rfl := Option.some.inj h
    exact List.not_mem_nil
  | cons x next ih =>
    obtain ⟨hx, hnext⟩ := List.forall_mem_cons.mp hchild
    rw [printElements, Option.bind_eq_some_iff] at h
    obtain ⟨v, hv, h⟩ := h
    obtain ⟨more, hmore, rfl⟩ := Option.map_eq_some_iff.mp h
    obtain ⟨string, item⟩ := x
    have hv : 0 ∉ v := hx v hv
    have hmore : 0 ∉ more := ih hmore hnext
    split_ifs <;> simp [hv, hcomma, hblank, hmore]

theorem not_mem_printMembers (h : printMembers double format depth child = some text)
    (hchild : ∀ x ∈ child, ∀ text, printValue double format depth x.2 = some text →
      0 ∉ text) : 0 ∉ text := by
  have hcomma : (0 : UInt8) ≠ ','.toUInt8 := by decide
  have hcolon : (0 : UInt8) ≠ ':'.toUInt8 := by decide
  have hline := not_mem_layoutBlanks format (by decide : 0 ∉ ['\n'.toUInt8])
  have htab := not_mem_layoutBlanks format (by decide : 0 ∉ ['\t'.toUInt8])
  have htabs := not_mem_layoutBlanks format (not_mem_tabs depth)
  induction child generalizing text with
  | nil =>
    obtain rfl := Option.some.inj h
    exact List.not_mem_nil
  | cons x next ih =>
    obtain ⟨hx, hnext⟩ := List.forall_mem_cons.mp hchild
    rw [printMembers, Option.bind_eq_some_iff] at h
    obtain ⟨v, hv, h⟩ := h
    obtain ⟨more, hmore, rfl⟩ := Option.map_eq_some_iff.mp h
    obtain ⟨string, item⟩ := x
    rw [printMember, Option.map_eq_some_iff] at hv
    obtain ⟨value, hvalue, rfl⟩ := hv
    have hstring := not_mem_printStringPtr string
    have hvalue : 0 ∉ value := hx value hvalue
    have hmore : 0 ∉ more := ih hmore hnext
    split_ifs <;> simp [hcomma, hcolon, hline, htab, htabs, hstring, hvalue, hmore]

/-- A printed value has no NUL in it, so the C string that is handed out is the whole text. -/
theorem not_mem_printValue (hformats : double.Formats) (node : CJsonNode Number) :
    ∀ {depth text}, printValue double format depth node = some text → 0 ∉ text := by
  induction node using CJsonNode.induction with
  | null | false | true =>
    intro depth text h
    obtain rfl := Option.some.inj h
    exact CString.nulFree _
  | number valuedouble valueint =>
    intro depth text h
    obtain ⟨text', htext, hleaf⟩ := leafText_printNumber hformats valuedouble valueint
    obtain rfl := Option.some.inj (htext.symm.trans h)
    exact not_mem_numberText hleaf
  | string valuestring =>
    intro depth text h
    obtain rfl := Option.some.inj h
    exact not_mem_printStringPtr _
  | array child ih =>
    intro depth text h
    rw [printValue] at h
    split_ifs at h
    obtain ⟨inside, hinside, rfl⟩ := Option.map_eq_some_iff.mp h
    have hinside := not_mem_printElements hinside fun x hx text => ih x hx
    have hopen : (0 : UInt8) ≠ '['.toUInt8 := by decide
    have hclose : (0 : UInt8) ≠ ']'.toUInt8 := by decide
    simp [hopen, hinside, hclose]
  | object child ih =>
    intro depth text h
    rw [printValue] at h
    split_ifs at h
    obtain ⟨inside, hinside, rfl⟩ := Option.map_eq_some_iff.mp h
    have hinside := not_mem_printMembers hinside fun x hx text => ih x hx
    have hline := not_mem_layoutBlanks format (by decide : 0 ∉ ['\n'.toUInt8])
    have htabs := not_mem_layoutBlanks format (not_mem_tabs depth)
    have hopen : (0 : UInt8) ≠ '{'.toUInt8 := by decide
    have hclose : (0 : UInt8) ≠ '}'.toUInt8 := by decide
    simp [hopen, hline, htabs, hinside, hclose]

/-- A C string that is a text of an item, and nothing else, is parsed as that item. -/
theorem cJsonParseWithOpts_of_valueText {s : CString} {item : CJsonItem}
    (h : ValueText cJsonNestingLimit item s.bytes) :
    cJsonParseWithOpts s Bool.true = some item := by
  have hskip : bufferSkipWhitespace (skipUtf8Bom (s.bytes ++ [0])) = s.bytes ++ [0] :=
    bufferSkipWhitespace_skipUtf8Bom ⟨[], nofun, List.not_mem_nil, Or.inl rfl⟩ h []
  have hend : Delimited item [0] := delimited_append_nul (r := []) fun _ => nofun
  have hread := (reads_parseValue _).apply_append h hend
  have hlen : (s.bytes ++ [0]).length ≠ 0 := by simp
  rw [cJsonParseWithOpts, cJsonParseWithLengthOpts, if_neg hlen, hskip, hread]
  rfl

/-- Without `require_null_terminated` no less is parsed. -/
theorem cJsonParse_of_nullTerminated {s : CString} {item : CJsonItem}
    (h : cJsonParseWithOpts s Bool.true = some item) : cJsonParse s = some item := by
  have hlen : (s.bytes ++ [0]).length ≠ 0 := by simp
  rw [cJsonParseWithOpts, cJsonParseWithLengthOpts, if_neg hlen, Option.bind_eq_some_iff] at h
  obtain ⟨x, hx, h⟩ := h
  simp only [if_true] at h
  split_ifs at h
  rw [cJsonParse, cJsonParseWithOpts, cJsonParseWithLengthOpts, if_neg hlen, hx]
  exact h

/-- **What is printed is read back, and whatever can be read can be printed.** With blanks for the
reader or without, the text of an item is parsed as that item, to its very end; and where the
printer gives up, no text at all would be parsed as the item. -/
theorem cJsonPrint_spec (hformats : double.Formats) (format : Bool) (node : CJsonNode Number) :
    (∃ text, cJsonPrint double format node = some text ∧
        cJsonParseWithOpts text Bool.true = some (node.item double)) ∨
      (cJsonPrint double format node = none ∧
        ∀ text, cJsonParse text ≠ some (node.item double)) := by
  cases h : printValue double format 0 node with
  | some text =>
    have hbytes : (CString.ofBuffer text).bytes = text :=
      CString.bytes_ofBuffer_of_nulFree (not_mem_printValue hformats node h)
    refine Or.inl ⟨.ofBuffer text, by rw [cJsonPrint, h]; rfl, ?_⟩
    refine cJsonParseWithOpts_of_valueText ?_
    rw [hbytes]
    exact valueText_printValue hformats node (Nat.zero_add _) h
  | none =>
    refine Or.inr ⟨by rw [cJsonPrint, h]; rfl, fun text htext => ?_⟩
    have hne : node.item double ≠ .number := by
      intro hitem
      cases node with
      | number valuedouble valueint =>
        obtain ⟨text, htext, -⟩ := leafText_printNumber hformats valuedouble valueint
        cases htext.symm.trans h
      | _ => simp [CJsonNode.item] at hitem
    obtain ⟨-, v, -, -, -, hv⟩ := (cJsonParse_eq_some_iff hne).mp htext
    obtain ⟨text, hprint⟩ : ∃ text, printValue double format 0 node = some text :=
      exists_printValue hformats node (Nat.zero_add _) hv
    cases h.symm.trans hprint

/-- The `double`s that are an `int`, and NaN. -/
def intDouble : CDouble (Option Int32) where
  isnan d := d.isNone
  isinf _ := Bool.false
  eqInt d i := d == some i
  format15 d := d.elim [] fun i => printInteger i.toInt
  format17 d := d.elim [] fun i => printInteger i.toInt
  recovers _ _ := Bool.true

theorem intDouble_formats : intDouble.Formats := by
  intro d hfinite text htext
  cases d with
  | none => cases hfinite
  | some i =>
    obtain rfl : text = printInteger i.toInt := by simpa [intDouble] using htext
    exact ⟨length_printInteger_le i, leafText_printInteger _⟩

/-- An object with an integer, an escaped string, NaN and an empty array. -/
def statusNode : CJsonNode (Option Int32) :=
  .object [(some (.ofString "count"), .number (some (-12)) (-12)),
    (some (.ofString "quo\"te"),
      .array [(none, .string (.ofString "a\nb")), (none, .number none 0), (none, .array [])])]

theorem cJsonPrint_spec_statusNode :
    (∃ text, cJsonPrint intDouble Bool.true statusNode = some text ∧
        cJsonParseWithOpts text Bool.true = some (statusNode.item intDouble)) ∨
      (cJsonPrint intDouble Bool.true statusNode = none ∧
        ∀ text, cJsonParse text ≠ some (statusNode.item intDouble)) :=
  cJsonPrint_spec intDouble_formats Bool.true statusNode

end PresenceDevice

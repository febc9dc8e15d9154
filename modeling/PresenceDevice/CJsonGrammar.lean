import PresenceDevice.CJsonParser

/-!
# The texts that the JSON library reads

`ValueText` says which texts are a JSON value for cJSON, and which item each of them denotes. It
is JSON with some liberties: any byte up to 32 is whitespace, a string may hold control
characters, and a number is what `strtod` takes. The parser is compared with it piece by piece,
from the strings and numbers up to the values, in both directions.

## Main definitions

* `Skipped`, `StringText`, `NumberText`, `MemberName`: the pieces
* `ChildrenText`, `ValueText`: the inside of an array or object, and the values

## Main results

* `reads_parseValue`: `parse_value` reads the texts of `ValueText`
-/

namespace PresenceDevice

open Reader

variable {u w r ws : List UInt8} {c close : UInt8} {item : CJsonItem}

/-! ### Whitespace -/

/-- Bytes that `buffer_skip_whitespace` passes. -/
def Skipped (w : List UInt8) : Prop := ∀ b ∈ w, b ≤ 32

/-- The text starts with a byte that is not skipped. -/
def Solid (r : List UInt8) : Prop := ∃ c ∈ r.head?, 32 < c

theorem Solid.append (h : Solid w) (r : List UInt8) : Solid (w ++ r) := by
  obtain ⟨c, hc, hlt⟩ := h
  exact ⟨c, List.mem_head?_append_of_mem_head? hc, hlt⟩

theorem Skipped.append_left {ws' : List UInt8} (h : Skipped ws) (h' : Skipped ws') :
    Skipped (ws ++ ws') := by
  intro b hb
  exact (List.mem_append.mp hb).elim (h b) (h' b)

theorem bufferSkipWhitespace_append (h : Skipped ws) (hr : Solid r) :
    bufferSkipWhitespace (ws ++ r) = r := by
  obtain ⟨c, hc, hlt⟩ := hr
  obtain ⟨t, rfl⟩ : ∃ t, r = c :: t := ⟨r.tail, (List.cons_head?_tail hc).symm⟩
  have hne : ¬ c ≤ 32 := UInt8.not_le.mpr hlt
  have hdrop : ∀ b ∈ ws, decide (b ≤ 32) = true := fun b hb => decide_eq_true (h b hb)
  rw [bufferSkipWhitespace, if_neg, List.dropWhile_append_of_pos hdrop,
    List.dropWhile_cons_of_neg (by simpa using hne)]
  rw [List.all_eq_true]
  intro hall
  exact hne (by simpa using hall c (by simp))

/-- Before a byte that stays, whitespace is skipped and nothing else. -/
theorem bufferSkipWhitespace_eq_iff (hr : Solid r) :
    bufferSkipWhitespace u = r ↔ ∃ ws, Skipped ws ∧ u = ws ++ r := by
  constructor
  · rintro rfl
    unfold bufferSkipWhitespace at hr ⊢
    split_ifs at hr ⊢ with hall
    · obtain ⟨c, hc, hlt⟩ := hr
      have hle := List.all_eq_true.mp hall c (List.mem_of_mem_drop (List.mem_of_mem_head? hc))
      exact absurd (of_decide_eq_true hle) (UInt8.not_le.mpr hlt)
    · refine ⟨u.takeWhile (· ≤ 32), ?_, (List.takeWhile_append_dropWhile ..).symm⟩
      intro b hb
      simpa using List.mem_takeWhile_imp hb
  · rintro ⟨ws, hws, rfl⟩
    exact bufferSkipWhitespace_append hws hr

theorem bufferSkipWhitespace_suffix (u : List UInt8) : bufferSkipWhitespace u <:+ u := by
  unfold bufferSkipWhitespace
  split_ifs
  · exact List.drop_suffix ..
  · exact List.dropWhile_suffix _

/-- The skipping stops before any byte that is not skipped. -/
theorem solid_bufferSkipWhitespace (hc : c ∈ u) (hlt : 32 < c) :
    Solid (bufferSkipWhitespace u) := by
  have hne : ¬ u.all (· ≤ 32) := by
    intro hall
    exact absurd (of_decide_eq_true (List.all_eq_true.mp hall c hc)) (UInt8.not_le.mpr hlt)
  have hnil : u.dropWhile (· ≤ 32) ≠ [] := by
    rwa [ne_eq, List.dropWhile_eq_nil_iff, ← List.all_eq_true]
  rw [bufferSkipWhitespace, if_neg hne]
  refine ⟨_, List.head_mem_head? hnil, ?_⟩
  simpa using List.head_dropWhile_not _ hnil

/-- Only whitespace is skipped up to the terminator. -/
theorem head?_bufferSkipWhitespace_append_nul :
    (bufferSkipWhitespace (r ++ [0])).head? = some 0 ↔ Skipped r := by
  constructor
  · intro hhead b hb
    by_contra hle
    obtain ⟨c, hc, hlt⟩ :=
      solid_bufferSkipWhitespace (List.mem_append_left [0] hb) (UInt8.not_le.mp hle)
    rw [hhead] at hc
    obtain rfl := Option.some.inj hc
    exact absurd hlt (by decide)
  · intro hr
    have hall : (r ++ [0]).all (· ≤ 32) = Bool.true := by
      rw [List.all_eq_true]
      intro b hb
      rcases List.mem_append.mp hb with hb | hb
      · exact decide_eq_true (hr b hb)
      · obtain rfl := List.mem_singleton.mp hb
        rfl
    rw [bufferSkipWhitespace, if_pos hall, List.length_append, List.length_singleton,
      Nat.add_sub_cancel, List.drop_left]
    rfl

/-! ### Strings -/

/-- The inside of a string: a backslash takes the byte behind it along. -/
inductive IsLiteral : List UInt8 → Prop
  | nil : IsLiteral []
  | char {c : UInt8} {w : List UInt8} : c ≠ quotationMark → c ≠ backslash → IsLiteral w →
      IsLiteral (c :: w)
  | escape {d : UInt8} {w : List UInt8} : IsLiteral w → IsLiteral (backslash :: d :: w)

def StringText (s : CString) (w : List UInt8) : Prop :=
  ∃ literal output, IsLiteral literal ∧ unescape 0 literal = some output ∧
    s = .ofBuffer output ∧ w = quotationMark :: (literal ++ [quotationMark])

theorem stringLiteral_quotationMark (r : List UInt8) :
    stringLiteral (quotationMark :: r) = some ([], r) := by
  cases r <;> simp [stringLiteral]

theorem stringLiteral_char (hc : c ≠ quotationMark) (hb : c ≠ backslash) (u : List UInt8) :
    stringLiteral (c :: u) = (stringLiteral u).map fun x => (c :: x.1, x.2) := by
  cases u <;> simp [stringLiteral, hc, hb]

theorem stringLiteral_eq_some_iff {literal : List UInt8} :
    stringLiteral u = some (literal, r) ↔
      IsLiteral literal ∧ u = literal ++ quotationMark :: r := by
  have hne : backslash ≠ quotationMark := by decide
  constructor
  · intro h
    induction u using stringLiteral.induct generalizing literal with
    | case1 => cases h
    | case2 rest =>
      rw [stringLiteral_quotationMark] at h
      obtain ⟨rfl, rfl⟩ := Prod.mk.inj (Option.some.inj h)
      exact ⟨.nil, rfl⟩
    | case3 => simp [stringLiteral, hne] at h
    | case4 d rest _ ih =>
      simp only [stringLiteral, hne, if_false, if_true] at h
      obtain ⟨x, hx, heq⟩ := Option.map_eq_some_iff.mp h
      obtain ⟨rfl, rfl⟩ := Prod.mk.inj heq
      obtain ⟨hliteral, rfl⟩ := ih hx
      exact ⟨.escape hliteral, rfl⟩
    | case5 c rest hc hb ih =>
      rw [stringLiteral_char hc hb] at h
      obtain ⟨x, hx, heq⟩ := Option.map_eq_some_iff.mp h
      obtain ⟨rfl, rfl⟩ := Prod.mk.inj heq
      obtain ⟨hliteral, rfl⟩ := ih hx
      exact ⟨.char hc hb hliteral, rfl⟩
  · rintro ⟨h, rfl⟩
    induction h with
    | nil => exact stringLiteral_quotationMark r
    | char hc hb _ ih => simp [stringLiteral_char hc hb, ih]
    | escape _ ih => simp [stringLiteral, hne, ih]

/-- `parse_string` reads a string, whatever follows. -/
theorem reads_parseString : Reads parseString StringText fun _ _ => True := by
  intro s r _ u
  unfold parseString
  constructor
  · intro h
    split_ifs at h with hhead
    obtain ⟨x, hx, hmap⟩ := Option.bind_eq_some_iff.mp h
    obtain ⟨output, houtput, heq⟩ := Option.map_eq_some_iff.mp hmap
    obtain ⟨rfl, rfl⟩ := Prod.mk.inj heq
    obtain ⟨hliteral, htail⟩ := stringLiteral_eq_some_iff.mp hx
    refine ⟨_, ⟨x.1, output, hliteral, houtput, rfl, rfl⟩, ?_⟩
    rw [← List.cons_head?_tail hhead, htail]
    simp
  · rintro ⟨w, ⟨literal, output, hliteral, houtput, rfl, rfl⟩, rfl⟩
    have hread : stringLiteral (literal ++ quotationMark :: r) = some (literal, r) :=
      stringLiteral_eq_some_iff.mpr ⟨hliteral, rfl⟩
    simp [hread, houtput]

theorem StringText.head {s : CString} (h : StringText s w) : w.head? = some quotationMark := by
  obtain ⟨literal, output, -, -, -, rfl⟩ := h
  rfl

/-! ### Numbers -/

/-- A number that `strtod` converts completely. -/
def NumberText (w : List UInt8) : Prop :=
  w ≠ [] ∧ (∀ b ∈ w, isNumberChar b) ∧ strtodLength w = w.length

/-- A number ends where no character of a number follows. -/
def Delimited (item : CJsonItem) (r : List UInt8) : Prop :=
  item = .number → ∀ c ∈ r.head?, isNumberChar c = Bool.false

theorem digitsLength_le (w : List UInt8) : digitsLength w ≤ w.length :=
  (List.takeWhile_sublist _).length_le

theorem length_pos_of_head? (h : w.head? = some c) : 0 < w.length :=
  List.length_pos_iff.mpr (List.ne_nil_of_mem (List.mem_of_head? h))

theorem signLength_le (w : List UInt8) : signLength w ≤ w.length := by
  unfold signLength
  split_ifs with h
  · exact h.elim length_pos_of_head? length_pos_of_head?
  · exact Nat.zero_le _

theorem mantissaLength_le (w : List UInt8) : mantissaLength w ≤ w.length := by
  have hwhole := digitsLength_le w
  have hfraction := digitsLength_le (w.drop (digitsLength w)).tail
  simp only [List.length_tail, List.length_drop] at hfraction
  simp only [mantissaLength]
  split_ifs with hpoint hzero
  · exact Nat.zero_le _
  · have hpos := length_pos_of_head? hpoint
    rw [List.length_drop] at hpos
    omega
  · exact hwhole

theorem exponentLength_le (w : List UInt8) : exponentLength w ≤ w.length := by
  have hsign := signLength_le w.tail
  have hdigits := digitsLength_le (w.tail.drop (signLength w.tail))
  simp only [List.length_tail, List.length_drop] at hsign hdigits
  simp only [exponentLength]
  split_ifs with hmark hzero
  · exact Nat.zero_le _
  · have hpos : 0 < w.length := hmark.elim length_pos_of_head? length_pos_of_head?
    omega
  · exact Nat.zero_le _

theorem not_isNumberChar_of_le (h : c ≤ 32) : isNumberChar c = Bool.false := by
  have hdigit : ¬ '0'.toUInt8 ≤ c := fun h0 => absurd (UInt8.le_trans h0 h) (by decide)
  have hne : ∀ d : UInt8, 32 < d → c ≠ d := by
    rintro d hd rfl
    exact UInt8.not_le.mpr hd h
  simp [isNumberChar, isDigit, hdigit, hne _ (by decide : 32 < '+'.toUInt8),
    hne _ (by decide : 32 < '-'.toUInt8), hne _ (by decide : 32 < 'e'.toUInt8),
    hne _ (by decide : 32 < 'E'.toUInt8), hne _ (by decide : 32 < '.'.toUInt8)]

/-- `strtod` converts no more than it is given. -/
theorem strtodLength_le (w : List UInt8) : strtodLength w ≤ w.length := by
  have hsign := signLength_le w
  have hmantissa := mantissaLength_le (w.drop (signLength w))
  have hexponent :=
    exponentLength_le (w.drop (signLength w + mantissaLength (w.drop (signLength w))))
  simp only [List.length_drop] at hmantissa hexponent
  simp only [strtodLength]
  split_ifs
  · exact Nat.zero_le _
  · omega

theorem takeWhile_isNumberChar_append (hw : ∀ b ∈ w, isNumberChar b)
    (hr : ∀ c ∈ r.head?, isNumberChar c = Bool.false) :
    (w ++ r).takeWhile isNumberChar = w := by
  rw [List.takeWhile_append_of_pos hw]
  cases r with
  | nil => simp
  | cons c r => rw [List.takeWhile_cons_of_neg (by simp [hr c rfl]), List.append_nil]

/-- `parse_number` reads a number that is delimited. -/
theorem reads_parseNumber :
    Reads parseNumber (fun item w => item = .number ∧ NumberText w) Delimited := by
  intro item r hr u
  simp only [parseNumber]
  constructor
  · intro h
    split_ifs at h with hzero
    obtain ⟨rfl, rfl⟩ := Prod.mk.inj (Option.some.inj h)
    set run := u.takeWhile isNumberChar with hrun
    have hsplit : u = run ++ u.dropWhile isNumberChar := (List.takeWhile_append_dropWhile ..).symm
    have hall : ∀ b ∈ run, isNumberChar b := fun b hb => List.mem_takeWhile_imp hb
    -- the rest does not start inside the run
    have hlen : strtodLength run = run.length := by
      by_contra hne
      have hlt := Nat.lt_of_le_of_ne (strtodLength_le run) hne
      have hget : u[strtodLength run]? = some (run.get ⟨_, hlt⟩) := by
        conv_lhs => rw [hsplit]
        rw [List.getElem?_append_left hlt, List.getElem?_eq_getElem hlt]
        rfl
      have hfalse := hr rfl (run.get ⟨_, hlt⟩) (by rw [List.head?_drop, hget]; rfl)
      rw [hall _ (List.get_mem ..)] at hfalse
      cases hfalse
    have hne : run ≠ [] := by
      intro hnil
      rw [hnil] at hzero
      exact hzero rfl
    refine ⟨run, ⟨rfl, hne, hall, hlen⟩, ?_⟩
    rw [hlen]
    conv_lhs => rw [← List.take_append_drop run.length u]
    rw [show u.take run.length = run by conv_lhs => rw [hsplit, List.take_left]]
  · rintro ⟨w, ⟨rfl, hne, hall, hlen⟩, rfl⟩
    rw [takeWhile_isNumberChar_append hall (hr rfl), hlen, if_neg, List.drop_left]
    rw [List.length_eq_zero_iff]
    exact hne

/-! ### The inside of arrays and objects -/

/-- The elements of an array have no name. -/
def ArrayName (name : Option CString) (w : List UInt8) : Prop := name = none ∧ w = []

/-- A member has a string for a name, and a colon. -/
def MemberName (name : Option CString) (w : List UInt8) : Prop :=
  ∃ s v ws ws', name = some s ∧ StringText s v ∧ Skipped ws ∧ Skipped ws' ∧
    w = v ++ (ws ++ ':'.toUInt8 :: ws')

theorem reads_arrayName :
    Reads (fun buffer => some (none, buffer)) ArrayName fun _ => Solid := by
  intro name r _ u
  constructor
  · intro h
    obtain ⟨rfl, rfl⟩ := Prod.mk.inj (Option.some.inj h)
    exact ⟨[], ⟨rfl, rfl⟩, rfl⟩
  · rintro ⟨w, ⟨rfl, rfl⟩, rfl⟩
    rfl

theorem reads_parseName : Reads parseName MemberName fun _ => Solid := by
  intro name r hr u
  have hcolon : ∀ r, Solid (':'.toUInt8 :: r) := fun r => ⟨_, rfl, by decide⟩
  simp only [parseName]
  rw [Option.bind_eq_some_iff]
  constructor
  · rintro ⟨⟨s, t⟩, hs, h⟩
    split_ifs at h with hhead
    obtain ⟨hname, hskip'⟩ := Prod.mk.inj (Option.some.inj h)
    obtain ⟨t', hskip⟩ := List.head?_eq_some_iff.mp hhead
    rw [hskip, List.tail_cons] at hskip'
    obtain ⟨ws, hws, rfl⟩ := (bufferSkipWhitespace_eq_iff (hcolon t')).mp hskip
    obtain ⟨ws', hws', rfl⟩ := (bufferSkipWhitespace_eq_iff hr).mp hskip'
    obtain ⟨v, hv, rfl⟩ := reads_parseString.exists_text trivial hs
    exact ⟨_, ⟨s, v, ws, ws', hname.symm, hv, hws, hws', rfl⟩, by simp⟩
  · rintro ⟨w, ⟨s, v, ws, ws', rfl, hv, hws, hws', rfl⟩, rfl⟩
    have hread := reads_parseString.apply_append hv (r := ws ++ ':'.toUInt8 :: (ws' ++ r)) trivial
    refine ⟨(s, ws ++ ':'.toUInt8 :: (ws' ++ r)), by simpa using hread, ?_⟩
    simp only [bufferSkipWhitespace_append hws (hcolon _), List.head?_cons, if_true,
      List.tail_cons, bufferSkipWhitespace_append hws' hr]

theorem MemberName.head {name : Option CString} (h : MemberName name w) :
    w.head? = some quotationMark := by
  obtain ⟨s, v, ws, ws', -, hv, -, -, rfl⟩ := h
  rw [List.head?_append, hv.head]
  rfl

/-- The rest starts with a byte that is neither skipped nor part of a number. -/
def Ends (r : List UInt8) : Prop := ∃ c ∈ r.head?, 32 < c ∧ isNumberChar c = Bool.false

theorem Ends.solid (h : Ends r) : Solid r := by
  obtain ⟨c, hc, hlt, -⟩ := h
  exact ⟨c, hc, hlt⟩

/-- Whitespace delimits a number. -/
theorem Skipped.delimited (h : Skipped ws) : Delimited item ws := fun _ c hc =>
  not_isNumberChar_of_le (h c (List.mem_of_mem_head? hc))

theorem Ends.delimited (h : Ends r) (hws : Skipped ws) : Delimited item (ws ++ r) := by
  rintro - c hc
  cases ws with
  | nil =>
    obtain ⟨d, hd, -, hd'⟩ := h
    obtain rfl := Option.mem_unique hc hd
    exact hd'
  | cons b ws =>
    obtain rfl := Option.some.inj hc
    exact not_isNumberChar_of_le (hws b (List.mem_cons_self ..))

section Children

variable {readName : CJsonReader (Option CString)} {value : CJsonReader CJsonItem}
  {N : Option CString → List UInt8 → Prop} {V : CJsonItem → List UInt8 → Prop}

/-- A child, with the whitespace around it. -/
def ChildText (N : Option CString → List UInt8 → Prop) (V : CJsonItem → List UInt8 → Prop)
    (x : Option CString × CJsonItem) (w : List UInt8) : Prop :=
  ∃ ws n v ws', Skipped ws ∧ N x.1 n ∧ V x.2 v ∧ Skipped ws' ∧ w = ws ++ (n ++ (v ++ ws'))

/-- The inside of an array or object, with the closing bracket. -/
def ChildrenText (close : UInt8) (N : Option CString → List UInt8 → Prop)
    (V : CJsonItem → List UInt8 → Prop) (child : List (Option CString × CJsonItem))
    (w : List UInt8) : Prop :=
  (child = [] ∧ ∃ ws, Skipped ws ∧ w = ws ++ [close]) ∨
    ∃ v, SepBy (ChildText N V) ','.toUInt8 child v ∧ w = v ++ [close]

theorem reads_parseChild (hname : Reads readName N fun _ => Solid)
    (hvalue : Reads value V Delimited) (hV : ∀ item v, V item v → Solid v)
    (hNV : ∀ name n item v, N name n → V item v → Solid (n ++ v)) :
    Reads (parseChild readName value) (ChildText N V) fun _ => Ends := by
  rintro ⟨name, item⟩ r hr u
  simp only [parseChild]
  rw [Option.bind_eq_some_iff]
  constructor
  · rintro ⟨⟨name', s⟩, hs, h⟩
    obtain ⟨⟨item', t⟩, ht, heq⟩ := Option.map_eq_some_iff.mp h
    obtain ⟨hpair, hskip⟩ := Prod.mk.inj heq
    obtain ⟨rfl, rfl⟩ := Prod.mk.inj hpair
    obtain ⟨ws', hws', rfl⟩ := (bufferSkipWhitespace_eq_iff hr.solid).mp hskip
    obtain ⟨v, hv, rfl⟩ := hvalue.exists_text (hr.delimited hws') ht
    obtain ⟨n, hn, hread⟩ := hname.exists_text ((hV _ _ hv).append _) hs
    rw [← List.append_assoc] at hread
    obtain ⟨ws, hws, rfl⟩ :=
      (bufferSkipWhitespace_eq_iff ((hNV _ _ _ _ hn hv).append _)).mp hread
    exact ⟨_, ⟨ws, n, v, ws', hws, hn, hv, hws', rfl⟩, by simp⟩
  · rintro ⟨w, ⟨ws, n, v, ws', hws, hn, hv, hws', rfl⟩, rfl⟩
    have hskip : bufferSkipWhitespace (ws ++ (n ++ (v ++ ws')) ++ r) = n ++ (v ++ (ws' ++ r)) := by
      have hsolid := (hNV _ _ _ _ hn hv).append (ws' ++ r)
      simpa using bufferSkipWhitespace_append hws hsolid
    refine ⟨(name, v ++ (ws' ++ r)), ?_, ?_⟩
    · rw [hskip]
      exact hname.apply_append hn ((hV _ _ hv).append _)
    · simp only [hvalue.apply_append hv (hr.delimited hws'), Option.map_some,
        bufferSkipWhitespace_append hws' hr.solid]

/-- The whitespace before the first child can be longer. -/
theorem skipped_append_children {child : List (Option CString × CJsonItem)} (hws : Skipped ws)
    (h : SepBy (ChildText N V) c child w) : SepBy (ChildText N V) c child (ws ++ w) := by
  have hchild : ∀ x w, ChildText N V x w → ChildText N V x (ws ++ w) := by
    rintro x w ⟨ws', n, v, ws'', hws', hn, hv, hws'', rfl⟩
    exact ⟨ws ++ ws', n, v, ws'', hws.append_left hws', hn, hv, hws'', by simp⟩
  cases h with
  | single h => exact .single (hchild _ _ h)
  | cons h hrest =>
    rw [← List.append_assoc]
    exact .cons (hchild _ _ h) hrest

/-- Without the whitespace, the first child starts with a byte that does not close the list. -/
theorem exists_opens {child : List (Option CString × CJsonItem)}
    (hNV : ∀ name n item v, N name n → V item v → ∃ d ∈ (n ++ v).head?, 32 < d ∧ d ≠ close)
    (h : SepBy (ChildText N V) c child w) :
    ∃ ws v, Skipped ws ∧ SepBy (ChildText N V) c child v ∧ w = ws ++ v ∧
      ∃ d ∈ v.head?, 32 < d ∧ d ≠ close := by
  have hchild : ∀ x w, ChildText N V x w → ∃ ws v, Skipped ws ∧ ChildText N V x v ∧ w = ws ++ v ∧
      ∃ d ∈ v.head?, 32 < d ∧ d ≠ close := by
    rintro x w ⟨ws, n, v, ws', hws, hn, hv, hws', rfl⟩
    obtain ⟨d, hd, hlt, hne⟩ := hNV _ _ _ _ hn hv
    refine ⟨ws, n ++ (v ++ ws'), hws, ⟨[], n, v, ws', nofun, hn, hv, hws', rfl⟩, rfl, d, ?_, hlt,
      hne⟩
    rw [← List.append_assoc]
    exact List.mem_head?_append_of_mem_head? hd
  cases h with
  | single h =>
    obtain ⟨ws, v, hws, hv, rfl, hopens⟩ := hchild _ _ h
    exact ⟨ws, v, hws, .single hv, rfl, hopens⟩
  | cons h hrest =>
    obtain ⟨ws, v, hws, hv, rfl, d, hd, hopens⟩ := hchild _ _ h
    exact ⟨ws, _, hws, .cons hv hrest, List.append_assoc .., d,
      List.mem_head?_append_of_mem_head? hd, hopens⟩

/-- The children are read one after the other, up to the closing bracket. -/
theorem reads_sepBy_parseChild (hclose : 32 < close ∧ isNumberChar close = Bool.false ∧
      close ≠ ','.toUInt8) (hname : Reads readName N fun _ => Solid)
    (hvalue : Reads value V Delimited) (hV : ∀ item v, V item v → Solid v)
    (hNV : ∀ name n item v, N name n → V item v → Solid (n ++ v)) :
    Reads (fun u => sepBy (parseChild readName value) ','.toUInt8 (u.length + 1) u)
      (SepBy (ChildText N V) ','.toUInt8) fun _ r => r.head? = some close := by
  obtain ⟨hlt, hnumber, hcomma⟩ := hclose
  refine reads_sepBy (reads_parseChild hname hvalue hV hNV) ?_ ?_ ?_
  · exact fun _ r => ⟨_, rfl, by decide, by decide⟩
  · exact fun _ r hr => ⟨close, hr, hlt, hnumber⟩
  · intro r hr hr'
    rw [hr] at hr'
    exact hcomma (Option.some.inj hr')

/-- **The inside of an array or object is read**, with the closing bracket. -/
theorem reads_parseChildren (hclose : 32 < close ∧ isNumberChar close = Bool.false ∧
      close ≠ ','.toUInt8) (hname : Reads readName N fun _ => Solid)
    (hvalue : Reads value V Delimited) (hV : ∀ item v, V item v → Solid v)
    (hNV : ∀ name n item v, N name n → V item v → ∃ d ∈ (n ++ v).head?, 32 < d ∧ d ≠ close) :
    Reads (parseChildren close readName value) (ChildrenText close N V) fun _ _ => True := by
  have hlt := hclose.1
  have hsolid : ∀ r, Solid (close :: r) := fun r => ⟨close, rfl, hlt⟩
  have hread := reads_sepBy_parseChild hclose hname hvalue hV fun name n item v hn hv => by
    obtain ⟨d, hd, hlt, -⟩ := hNV name n item v hn hv
    exact (⟨d, hd, hlt⟩ : Solid (n ++ v))
  intro child r _ u
  simp only [parseChildren]
  constructor
  · intro h
    split_ifs at h with hhead
    · obtain ⟨rfl, rfl⟩ := Prod.mk.inj (Option.some.inj h)
      obtain ⟨t, ht⟩ := List.head?_eq_some_iff.mp hhead
      obtain ⟨ws, hws, rfl⟩ := (bufferSkipWhitespace_eq_iff (hsolid t)).mp ht
      exact ⟨_, Or.inl ⟨rfl, ws, hws, rfl⟩, by simp [ht]⟩
    · obtain ⟨⟨child', s⟩, hs, h⟩ := Option.bind_eq_some_iff.mp h
      split_ifs at h with hhead'
      obtain ⟨rfl, rfl⟩ := Prod.mk.inj (Option.some.inj h)
      obtain ⟨t, ht⟩ := List.head?_eq_some_iff.mp hhead'
      obtain rfl : s = close :: t := ht
      obtain ⟨v, hv, hskip⟩ := hread.exists_text rfl hs
      have hmem : close ∈ bufferSkipWhitespace u := by rw [hskip]; simp
      have hskipped :=
        solid_bufferSkipWhitespace ((bufferSkipWhitespace_suffix u).mem hmem) hlt
      rw [hskip] at hskipped
      obtain ⟨ws, hws, rfl⟩ := (bufferSkipWhitespace_eq_iff hskipped).mp hskip
      exact ⟨_, Or.inr ⟨_, skipped_append_children hws hv, rfl⟩, by simp⟩
  · rintro ⟨w, ⟨rfl, ws, hws, rfl⟩ | ⟨v, hv, rfl⟩, rfl⟩
    · rw [List.append_assoc, List.singleton_append, bufferSkipWhitespace_append hws (hsolid r)]
      simp
    · obtain ⟨ws, v, hws, hv', rfl, d, hd, hlt', hne⟩ := exists_opens hNV hv
      have hhead : (v ++ close :: r).head? = some d := List.mem_head?_append_of_mem_head? hd
      have hskip : bufferSkipWhitespace (ws ++ v ++ [close] ++ r) = v ++ close :: r := by
        simpa using bufferSkipWhitespace_append hws (Solid.append ⟨d, hd, hlt'⟩ (close :: r))
      have hsep := hread.apply_append hv' (r := close :: r) rfl
      rw [hskip, hhead, if_neg (by simpa using hne), hsep]
      simp

end Children

/-! ### Values -/

/-- The values that are no array or object. -/
inductive LeafText : CJsonItem → List UInt8 → Prop
  | null : LeafText .null (CString.ofString "null").bytes
  | false : LeafText .false (CString.ofString "false").bytes
  | true : LeafText .true (CString.ofString "true").bytes
  | string {s : CString} {w : List UInt8} : StringText s w → LeafText (.string s) w
  | number {w : List UInt8} : (∃ c ∈ w.head?, c = '-'.toUInt8 ∨ isDigit c) → NumberText w →
      LeafText .number w

/-- An array or object of the values `V`. -/
inductive NodeText (V : CJsonItem → List UInt8 → Prop) : CJsonItem → List UInt8 → Prop
  | array {child : List (Option CString × CJsonItem)} {w : List UInt8} :
      ChildrenText ']'.toUInt8 ArrayName V child w → NodeText V (.array child) ('['.toUInt8 :: w)
  | object {child : List (Option CString × CJsonItem)} {w : List UInt8} :
      ChildrenText '}'.toUInt8 MemberName V child w →
      NodeText V (.object child) ('{'.toUInt8 :: w)

/-- The values with at most `levels` arrays and objects inside each other. -/
def ValueText : ℕ → CJsonItem → List UInt8 → Prop
  | 0 => LeafText
  | levels + 1 => fun item w => LeafText item w ∨ NodeText (ValueText levels) item w

/-- The bytes that a value can start with. -/
def StartsValue (c : UInt8) : Prop :=
  c = 'n'.toUInt8 ∨ c = 'f'.toUInt8 ∨ c = 't'.toUInt8 ∨ c = quotationMark ∨ c = '-'.toUInt8 ∨
    isDigit c ∨ c = '['.toUInt8 ∨ c = '{'.toUInt8

theorem LeafText.head (h : LeafText item w) : ∃ c ∈ w.head?, StartsValue c := by
  cases h with
  | null => exact ⟨_, rfl, Or.inl rfl⟩
  | false => exact ⟨_, rfl, Or.inr (Or.inl rfl)⟩
  | true => exact ⟨_, rfl, Or.inr (Or.inr (Or.inl rfl))⟩
  | string h => exact ⟨_, h.head, by simp [StartsValue]⟩
  | number h _ =>
    obtain ⟨c, hc, rfl | hdigit⟩ := h
    · exact ⟨_, hc, by simp [StartsValue]⟩
    · exact ⟨c, hc, by simp [StartsValue, hdigit]⟩

theorem ValueText.head {levels : ℕ} (h : ValueText levels item w) :
    ∃ c ∈ w.head?, StartsValue c := by
  cases levels with
  | zero => exact LeafText.head h
  | succ levels =>
    rcases h with h | h
    · exact h.head
    · cases h with
      | array _ => exact ⟨_, rfl, by simp [StartsValue]⟩
      | object _ => exact ⟨_, rfl, by simp [StartsValue]⟩

theorem isDigit_iff : isDigit c ↔ '0'.toUInt8 ≤ c ∧ c ≤ '9'.toUInt8 := by
  simp [isDigit]

/-- A value starts with a character of ASCII that is neither skipped nor a closing bracket. -/
theorem StartsValue.spec (h : StartsValue c) :
    32 < c ∧ c < 0x80 ∧ c ≠ ']'.toUInt8 ∧ c ≠ '}'.toUInt8 := by
  rcases h with rfl | rfl | rfl | rfl | rfl | hdigit | rfl | rfl
  case inr.inr.inr.inr.inr.inl =>
    obtain ⟨h0, h9⟩ := isDigit_iff.mp hdigit
    refine ⟨UInt8.lt_of_lt_of_le (by decide) h0, UInt8.lt_of_le_of_lt h9 (by decide), ?_, ?_⟩
    · rintro rfl
      exact absurd h9 (by decide)
    · rintro rfl
      exact absurd h9 (by decide)
  all_goals decide

theorem startsNumber_spec (h : c = '-'.toUInt8 ∨ isDigit c) :
    quotationMark < c ∧ c < 'f'.toUInt8 := by
  rcases h with rfl | hdigit
  · decide
  · obtain ⟨h0, h9⟩ := isDigit_iff.mp hdigit
    exact ⟨UInt8.lt_of_lt_of_le (by decide) h0, UInt8.lt_of_le_of_lt h9 (by decide)⟩

theorem StartsValue.solid (h : StartsValue c) (hc : w.head? = some c) : Solid w :=
  ⟨c, hc, h.spec.1⟩

theorem not_prefix_of_head {l : List UInt8} {b : UInt8} (hl : l.head? = some b)
    (hu : u.head? = some c) (hne : b ≠ c) : ¬ l <+: u := by
  rintro ⟨t, rfl⟩
  rw [List.head?_append, hl] at hu
  exact hne (Option.some.inj hu)

theorem eq_append_drop {l : List UInt8} {k : ℕ} (h : l <+: u) (hk : l.length = k) :
    u = l ++ u.drop k := by
  obtain ⟨t, rfl⟩ := h
  rw [← hk, List.drop_left]

section ParseValue

variable {nested : Option (CJsonReader CJsonItem)} {V : CJsonItem → List UInt8 → Prop}

/-- The branches of the characters, when no word can be there. -/
theorem parseValueWith_of_head (hc : u.head? = some c) (hn : c ≠ 'n'.toUInt8)
    (hf : c ≠ 'f'.toUInt8) (ht : c ≠ 't'.toUInt8) :
    parseValueWith nested u =
      if c = quotationMark then (parseString u).map fun x => (.string x.1, x.2)
      else if c = '-'.toUInt8 ∨ isDigit c then parseNumber u
      else if c = '['.toUInt8 then nested.bind fun value => parseArray value u.tail
      else if c = '{'.toUInt8 then nested.bind fun value => parseObject value u.tail
      else none := by
  have hnull := not_prefix_of_head (l := (CString.ofString "null").bytes) rfl hc hn.symm
  have hfalse := not_prefix_of_head (l := (CString.ofString "false").bytes) rfl hc hf.symm
  have htrue := not_prefix_of_head (l := (CString.ofString "true").bytes) rfl hc ht.symm
  simp only [parseValueWith, if_neg hnull, if_neg hfalse, if_neg htrue, hc, Option.any_some,
    Option.some.injEq]

theorem reads_parseArray {value : CJsonReader CJsonItem} (hvalue : Reads value V Delimited)
    (hV : ∀ item v, V item v → ∃ c ∈ v.head?, StartsValue c) :
    Reads (parseChildren ']'.toUInt8 (fun buffer => some (none, buffer)) value)
      (ChildrenText ']'.toUInt8 ArrayName V) fun _ _ => True := by
  refine reads_parseChildren (by decide) reads_arrayName hvalue ?_ ?_
  · intro item v hv
    obtain ⟨c, hc, hstart⟩ := hV item v hv
    exact hstart.solid hc
  · rintro name n item v ⟨-, rfl⟩ hv
    obtain ⟨c, hc, hstart⟩ := hV item v hv
    exact ⟨c, hc, hstart.spec.1, hstart.spec.2.2.1⟩

theorem reads_parseObject {value : CJsonReader CJsonItem} (hvalue : Reads value V Delimited)
    (hV : ∀ item v, V item v → ∃ c ∈ v.head?, StartsValue c) :
    Reads (parseChildren '}'.toUInt8 parseName value)
      (ChildrenText '}'.toUInt8 MemberName V) fun _ _ => True := by
  refine reads_parseChildren (by decide) reads_parseName hvalue ?_ ?_
  · intro item v hv
    obtain ⟨c, hc, hstart⟩ := hV item v hv
    exact hstart.solid hc
  · intro name n item v hn _
    exact ⟨quotationMark, List.mem_head?_append_of_mem_head? hn.head, by decide⟩

theorem parseValueWith_sound (hnested : ∀ value ∈ nested, Reads value V Delimited)
    (hV : ∀ item v, V item v → ∃ c ∈ v.head?, StartsValue c) (hr : Delimited item r)
    (h : parseValueWith nested u = some (item, r)) :
    ∃ w, (LeafText item w ∨ nested.isSome ∧ NodeText V item w) ∧ u = w ++ r := by
  unfold parseValueWith at h
  split_ifs at h with hnull hfalse htrue hquote hnumber harray hobject
  · obtain ⟨rfl, rfl⟩ := Prod.mk.inj (Option.some.inj h)
    exact ⟨_, Or.inl .null, eq_append_drop hnull rfl⟩
  · obtain ⟨rfl, rfl⟩ := Prod.mk.inj (Option.some.inj h)
    exact ⟨_, Or.inl .false, eq_append_drop hfalse rfl⟩
  · obtain ⟨rfl, rfl⟩ := Prod.mk.inj (Option.some.inj h)
    exact ⟨_, Or.inl .true, eq_append_drop htrue rfl⟩
  · obtain ⟨x, hx, heq⟩ := Option.map_eq_some_iff.mp h
    obtain ⟨rfl, rfl⟩ := Prod.mk.inj heq
    obtain ⟨w, hw, rfl⟩ := reads_parseString.exists_text trivial hx
    exact ⟨w, Or.inl (.string hw), rfl⟩
  · obtain ⟨w, ⟨rfl, hw⟩, rfl⟩ := reads_parseNumber.exists_text hr h
    refine ⟨w, Or.inl (.number ?_ hw), rfl⟩
    obtain ⟨c, w, rfl⟩ := List.exists_cons_of_ne_nil hw.1
    simpa using hnumber
  · obtain ⟨value, hvalue, h⟩ := Option.bind_eq_some_iff.mp h
    obtain ⟨x, hx, heq⟩ := Option.map_eq_some_iff.mp h
    obtain ⟨rfl, rfl⟩ := Prod.mk.inj heq
    obtain ⟨w, hw, htail⟩ := (reads_parseArray (hnested _ hvalue) hV).exists_text trivial hx
    refine ⟨_, Or.inr ⟨Option.isSome_of_mem hvalue, .array hw⟩, ?_⟩
    rw [← List.cons_head?_tail harray, htail, List.cons_append]
  · obtain ⟨value, hvalue, h⟩ := Option.bind_eq_some_iff.mp h
    obtain ⟨x, hx, heq⟩ := Option.map_eq_some_iff.mp h
    obtain ⟨rfl, rfl⟩ := Prod.mk.inj heq
    obtain ⟨w, hw, htail⟩ := (reads_parseObject (hnested _ hvalue) hV).exists_text trivial hx
    refine ⟨_, Or.inr ⟨Option.isSome_of_mem hvalue, .object hw⟩, ?_⟩
    rw [← List.cons_head?_tail hobject, htail, List.cons_append]

theorem parseValueWith_of_leafText (h : LeafText item w) (hr : Delimited item r) :
    parseValueWith nested (w ++ r) = some (item, r) := by
  cases h with
  | null =>
    have hlen : (CString.ofString "null").bytes.length = 4 := rfl
    rw [parseValueWith, if_pos (List.prefix_append ..), List.drop_left' hlen]
  | false =>
    have hnull := not_prefix_of_head (l := (CString.ofString "null").bytes)
      (u := (CString.ofString "false").bytes ++ r) rfl rfl (by decide)
    have hlen : (CString.ofString "false").bytes.length = 5 := rfl
    rw [parseValueWith, if_neg hnull, if_pos (List.prefix_append ..), List.drop_left' hlen]
  | true =>
    have hnull := not_prefix_of_head (l := (CString.ofString "null").bytes)
      (u := (CString.ofString "true").bytes ++ r) rfl rfl (by decide)
    have hfalse := not_prefix_of_head (l := (CString.ofString "false").bytes)
      (u := (CString.ofString "true").bytes ++ r) rfl rfl (by decide)
    have hlen : (CString.ofString "true").bytes.length = 4 := rfl
    rw [parseValueWith, if_neg hnull, if_neg hfalse, if_pos (List.prefix_append ..),
      List.drop_left' hlen]
  | @string s w h =>
    have hhead : (w ++ r).head? = some quotationMark := List.mem_head?_append_of_mem_head? h.head
    rw [parseValueWith_of_head hhead (by decide) (by decide) (by decide), if_pos rfl,
      reads_parseString.apply_append h trivial]
    rfl
  | @number w hstart h =>
    obtain ⟨c, hc, hstart⟩ := hstart
    have hhead : (w ++ r).head? = some c := List.mem_head?_append_of_mem_head? hc
    obtain ⟨hquote, hlt⟩ := startsNumber_spec hstart
    have hne : ∀ d : UInt8, 'f'.toUInt8 ≤ d → c ≠ d := fun d hd =>
      UInt8.ne_of_lt (UInt8.lt_of_lt_of_le hlt hd)
    rw [parseValueWith_of_head hhead (hne _ (by decide)) (hne _ (by decide)) (hne _ (by decide)),
      if_neg (UInt8.ne_of_lt hquote).symm, if_pos hstart]
    exact reads_parseNumber.apply_append ⟨rfl, h⟩ hr

theorem parseValueWith_of_nodeText {value : CJsonReader CJsonItem}
    (hvalue : Reads value V Delimited) (hV : ∀ item v, V item v → ∃ c ∈ v.head?, StartsValue c)
    (h : NodeText V item w) (r : List UInt8) :
    parseValueWith (some value) (w ++ r) = some (item, r) := by
  cases h with
  | array h =>
    have hread := (reads_parseArray hvalue hV).apply_append h (r := r) trivial
    rw [parseValueWith_of_head (c := '['.toUInt8) rfl (by decide) (by decide) (by decide),
      if_neg (by decide), if_neg (by decide), if_pos rfl]
    simp [parseArray, hread]
  | object h =>
    have hread := (reads_parseObject hvalue hV).apply_append h (r := r) trivial
    rw [parseValueWith_of_head (c := '{'.toUInt8) rfl (by decide) (by decide) (by decide),
      if_neg (by decide), if_neg (by decide), if_neg (by decide), if_pos rfl]
    simp [parseObject, hread]

end ParseValue

/-- **`parse_value` reads the values**: exactly the texts of the grammar, up to their end. -/
theorem reads_parseValue (levels : ℕ) :
    Reads (parseValue levels) (ValueText levels) Delimited := by
  induction levels with
  | zero =>
    have hnested : ∀ value ∈ (none : Option (CJsonReader CJsonItem)),
        Reads value (fun _ _ => False) Delimited := by
      rintro value ⟨⟩
    intro item r hr u
    constructor
    · intro h
      obtain ⟨w, hw | ⟨hsome, -⟩, rfl⟩ :=
        parseValueWith_sound hnested (fun _ _ hfalse => hfalse.elim) hr h
      · exact ⟨w, hw, rfl⟩
      · cases hsome
    · rintro ⟨w, hw, rfl⟩
      exact parseValueWith_of_leafText hw hr
  | succ levels ih =>
    have hnested : ∀ value ∈ some (parseValue levels),
        Reads value (ValueText levels) Delimited := by
      intro value hvalue
      rw [← Option.some.inj hvalue]
      exact ih
    have hV : ∀ item v, ValueText levels item v → ∃ c ∈ v.head?, StartsValue c :=
      fun _ _ => ValueText.head
    intro item r hr u
    constructor
    · intro h
      obtain ⟨w, hw | ⟨-, hw⟩, rfl⟩ := parseValueWith_sound hnested hV hr h
      · exact ⟨w, Or.inl hw, rfl⟩
      · exact ⟨w, Or.inr hw, rfl⟩
    · rintro ⟨w, hw | hw, rfl⟩
      · exact parseValueWith_of_leafText hw hr
      · exact parseValueWith_of_nodeText ih hV hw r

/-- Nor can the terminator go on with a number. -/
theorem delimited_append_nul (h : Delimited item r) : Delimited item (r ++ [0]) := by
  intro hnumber c hc
  cases r with
  | nil =>
    obtain rfl := Option.some.inj hc
    rfl
  | cons b r => exact h hnumber c hc

/-! ### The entry point -/

/-- What `skip_utf8_bom` and `buffer_skip_whitespace` pass in front of a value. -/
def SkippedLead (lead : List UInt8) : Prop :=
  ∃ ws, Skipped ws ∧ 0 ∉ ws ∧ (lead = ws ∨ lead = [0xEF, 0xBB, 0xBF] ++ ws)

theorem ChildrenText.last {N : Option CString → List UInt8 → Prop}
    {V : CJsonItem → List UInt8 → Prop} {child : List (Option CString × CJsonItem)}
    (h : ChildrenText close N V child w) : w.getLast? = some close := by
  rcases h with ⟨-, ws, -, rfl⟩ | ⟨v, -, rfl⟩ <;> simp

/-- A value does not end with the terminator. -/
theorem ValueText.last {levels : ℕ} (h : ValueText levels item w) : w.getLast? ≠ some 0 := by
  have hleaf : ∀ {item w}, LeafText item w → w.getLast? ≠ some 0 := by
    rintro item w (_ | _ | _ | ⟨-, -, -, -, -, rfl⟩ | ⟨-, -, hall, -⟩)
    · decide
    · decide
    · decide
    · rw [List.getLast?_cons, List.getLast?_append]
      simpa using (by decide : quotationMark ≠ 0)
    · intro hlast
      exact absurd (hall 0 (List.mem_of_getLast? hlast)) (by decide)
  have hnode : ∀ {close : UInt8} {a : UInt8} {w : List UInt8}, close ≠ 0 →
      w.getLast? = some close → (a :: w).getLast? ≠ some 0 := by
    intro close a w hne hlast
    rw [List.getLast?_cons, hlast]
    simpa using hne
  cases levels with
  | zero => exact hleaf h
  | succ levels =>
    rcases h with h | h
    · exact hleaf h
    · cases h with
      | array h => exact hnode (by decide) h.last
      | object h => exact hnode (by decide) h.last

theorem skipUtf8Bom_append (hlen : 2 ≤ u.length) :
    skipUtf8Bom ([0xEF, 0xBB, 0xBF] ++ u) = u := by
  rw [skipUtf8Bom, if_pos]
  · rfl
  · refine ⟨?_, List.prefix_append ..⟩
    simp only [List.length_append, List.length_cons, List.length_nil]
    omega

/-- Without the first byte of the mark, nothing is passed. -/
theorem skipUtf8Bom_of_head (hc : u.head? = some c) (hne : c ≠ 0xEF) : skipUtf8Bom u = u := by
  rw [skipUtf8Bom, if_neg]
  rintro ⟨-, hprefix⟩
  exact not_prefix_of_head rfl hc hne.symm hprefix

theorem exists_skipUtf8Bom (u : List UInt8) :
    ∃ bom, (bom = [] ∨ bom = [0xEF, 0xBB, 0xBF]) ∧ u = bom ++ skipUtf8Bom u := by
  unfold skipUtf8Bom
  split_ifs with h
  · exact ⟨_, Or.inr rfl, eq_append_drop h.2 rfl⟩
  · exact ⟨[], Or.inl rfl, rfl⟩

/-- Before a value, the byte order mark and whitespace are skipped. -/
theorem bufferSkipWhitespace_skipUtf8Bom {lead v : List UInt8} {levels : ℕ}
    (h : SkippedLead lead) (hv : ValueText levels item v) (rest : List UInt8) :
    bufferSkipWhitespace (skipUtf8Bom (lead ++ (v ++ (rest ++ [0])))) = v ++ (rest ++ [0]) := by
  obtain ⟨c, hc, hstart⟩ := hv.head
  obtain ⟨-, hascii, -⟩ := hstart.spec
  have hsolid := (hstart.solid hc).append (rest ++ [0])
  have hhead : (v ++ (rest ++ [0])).head? = some c := List.mem_head?_append_of_mem_head? hc
  obtain ⟨ws, hws, -, rfl | rfl⟩ := h
  · have hbom : skipUtf8Bom (lead ++ (v ++ (rest ++ [0]))) = lead ++ (v ++ (rest ++ [0])) := by
      cases lead with
      | nil =>
        exact skipUtf8Bom_of_head hhead (UInt8.ne_of_lt (UInt8.lt_trans hascii (by decide)))
      | cons b ws =>
        have hle := hws b (List.mem_cons_self ..)
        exact skipUtf8Bom_of_head rfl (UInt8.ne_of_lt (UInt8.lt_of_le_of_lt hle (by decide)))
    rw [hbom, bufferSkipWhitespace_append hws hsolid]
  · rw [List.append_assoc, skipUtf8Bom_append, bufferSkipWhitespace_append hws hsolid]
    have hlen := length_pos_of_head? hc
    simp only [List.length_append, List.length_singleton]
    omega

/-- The terminator is not part of a value. -/
theorem exists_eq_append_nul {text lead v : List UInt8} (hne : v ≠ [])
    (hlast : v.getLast? ≠ some 0) (h : text ++ [0] = lead ++ (v ++ r)) :
    ∃ rest, r = rest ++ [0] ∧ text = lead ++ (v ++ rest) := by
  rcases List.eq_nil_or_concat' r with rfl | ⟨rest, b, rfl⟩
  · refine absurd ?_ hlast
    calc v.getLast? = (lead ++ v).getLast? := (List.getLast?_append_of_ne_nil _ hne).symm
      _ = (text ++ [0]).getLast? := by rw [h, List.append_nil]
      _ = some 0 := by simp
  · have hconcat : text ++ [0] = lead ++ (v ++ rest) ++ [b] := by
      rw [h]
      simp
    obtain ⟨htext, hb⟩ := List.append_inj' hconcat rfl
    obtain rfl : 0 = b := (List.cons.inj hb).1
    exact ⟨rest, rfl, htext⟩

/-- What the parser takes of a C string with its terminator: the skipped bytes and a value. The
value of a number may end where another could go on, so numbers are left out. -/
theorem parseValue_skip_eq_some_iff {text : CString} (hitem : item ≠ .number) :
    parseValue cJsonNestingLimit (bufferSkipWhitespace (skipUtf8Bom (text.bytes ++ [0]))) =
        some (item, r) ↔
      ∃ lead v rest, r = rest ++ [0] ∧ text.bytes = lead ++ (v ++ rest) ∧ SkippedLead lead ∧
        ValueText cJsonNestingLimit item v := by
  have hdelimited : ∀ r, Delimited item r := fun _ hnumber => absurd hnumber hitem
  constructor
  · intro h
    obtain ⟨v, hv, hskip⟩ := (reads_parseValue _).exists_text (hdelimited r) h
    obtain ⟨c, hc, hstart⟩ := hv.head
    have hsolid := (hstart.solid hc).append r
    obtain ⟨bom, hbom, hu⟩ := exists_skipUtf8Bom (text.bytes ++ [0])
    obtain ⟨ws, hws, hskipped⟩ := (bufferSkipWhitespace_eq_iff hsolid).mp hskip
    rw [hskipped] at hu
    rw [← List.append_assoc] at hu
    have hne : v ≠ [] := List.ne_nil_of_mem (List.mem_of_mem_head? hc)
    obtain ⟨rest, rfl, htext⟩ := exists_eq_append_nul hne hv.last hu
    have hnul : 0 ∉ ws := by
      intro hmem
      have hnulFree := text.nulFree
      rw [htext] at hnulFree
      exact hnulFree (List.mem_append_left _ (List.mem_append_right _ hmem))
    refine ⟨bom ++ ws, v, rest, rfl, htext, ⟨ws, hws, hnul, ?_⟩, hv⟩
    rcases hbom with rfl | rfl
    · exact Or.inl rfl
    · exact Or.inr rfl
  · rintro ⟨lead, v, rest, rfl, htext, hlead, hv⟩
    rw [htext, show lead ++ (v ++ rest) ++ [0] = lead ++ (v ++ (rest ++ [0])) by simp,
      bufferSkipWhitespace_skipUtf8Bom hlead hv]
    exact (reads_parseValue _).apply_append hv (hdelimited _)

/-- **A text is accepted when it starts with a value**, behind what is skipped. What follows the
value is not looked at. -/
theorem cJsonParse_eq_some_iff {text : CString} (hitem : item ≠ .number) :
    cJsonParse text = some item ↔
      ∃ lead v rest, text.bytes = lead ++ (v ++ rest) ∧ SkippedLead lead ∧
        ValueText cJsonNestingLimit item v := by
  have hlen : (text.bytes ++ [0]).length ≠ 0 := by simp
  rw [cJsonParse, cJsonParseWithOpts, cJsonParseWithLengthOpts, if_neg hlen,
    Option.bind_eq_some_iff]
  constructor
  · rintro ⟨⟨item', r⟩, hparse, heq⟩
    obtain rfl := Option.some.inj heq
    obtain ⟨lead, v, rest, -, h⟩ := (parseValue_skip_eq_some_iff hitem).mp hparse
    exact ⟨lead, v, rest, h⟩
  · rintro ⟨lead, v, rest, h⟩
    exact ⟨(item, rest ++ [0]),
      (parseValue_skip_eq_some_iff hitem).mpr ⟨lead, v, rest, rfl, h⟩, rfl⟩

/-- **With `require_null_terminated`, nothing but whitespace may follow** the value. -/
theorem cJsonParseWithOpts_true_eq_some_iff {text : CString} (hitem : item ≠ .number) :
    cJsonParseWithOpts text Bool.true = some item ↔
      ∃ lead v rest, text.bytes = lead ++ (v ++ rest) ∧ SkippedLead lead ∧
        ValueText cJsonNestingLimit item v ∧ Skipped rest := by
  have hlen : (text.bytes ++ [0]).length ≠ 0 := by simp
  rw [cJsonParseWithOpts, cJsonParseWithLengthOpts, if_neg hlen, Option.bind_eq_some_iff]
  constructor
  · rintro ⟨⟨item', r⟩, hparse, heq⟩
    simp only [if_true] at heq
    split_ifs at heq with hend
    obtain rfl := Option.some.inj heq
    obtain ⟨lead, v, rest, rfl, htext, hlead, hv⟩ := (parseValue_skip_eq_some_iff hitem).mp hparse
    exact ⟨lead, v, rest, htext, hlead, hv, head?_bufferSkipWhitespace_append_nul.mp hend⟩
  · rintro ⟨lead, v, rest, htext, hlead, hv, hrest⟩
    refine ⟨(item, rest ++ [0]),
      (parseValue_skip_eq_some_iff hitem).mpr ⟨lead, v, rest, rfl, htext, hlead, hv⟩, ?_⟩
    simp only [if_true, head?_bufferSkipWhitespace_append_nul.mpr hrest]

end PresenceDevice

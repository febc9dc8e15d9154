import PresenceDevice.HttpServer
import PresenceDevice.PresenceRun

/-!
# A message is posted completely or not at all

The receive loop is compared with `Receives`, which says what bytes a request delivers with no
buffer and no counters. From there on the handler is a function of the bytes alone, so it does not
matter how they were cut, and the message is shown exactly when every check succeeds.

## Main definitions

* `Receives`: the bytes that the calls of `httpd_req_recv` deliver
* `Accepts`: the message that a request carries

## Main results

* `recvLoop_exits`: the receive loop ends
* `messagePostHandler_allOrNothing`: the handler shows the message of the request, or does nothing
-/

namespace PresenceDevice

variable {recv : Recv} {contentLen : ℕ} {s : RecvState}

/-- From call `k` on, `httpd_req_recv` delivers the `remaining` bytes that are still missing. -/
inductive Receives (recv : Recv) : ℕ → ℕ → List UInt8 → Prop
  | done {k : ℕ} : Receives recv k 0 []
  | chunk {k remaining : ℕ} {data rest : List UInt8} {hne : data ≠ []}
      {hle : data.length ≤ remaining} : 0 < remaining →
      recv k remaining = .received data hne hle →
      Receives recv (k + 1) (remaining - data.length) rest →
      Receives recv k remaining (data ++ rest)

theorem Receives.length {k remaining : ℕ} {bytes : List UInt8}
    (h : Receives recv k remaining bytes) : bytes.length = remaining := by
  induction h with
  | done => rfl
  | @chunk k remaining data rest _ hle _ _ _ ih =>
    rw [List.length_append, ih]
    omega

theorem receives_zero_iff {k : ℕ} {bytes : List UInt8} : Receives recv k 0 bytes ↔ bytes = [] := by
  refine ⟨fun h => List.length_eq_zero_iff.mp h.length, ?_⟩
  rintro rfl
  exact .done

/-- While bytes are missing, it depends on the next call. -/
theorem receives_iff_of_pos {k remaining : ℕ} {bytes : List UInt8} (h : 0 < remaining) :
    Receives recv k remaining bytes ↔
      ∃ data hne hle rest, recv k remaining = .received data hne hle ∧
        Receives recv (k + 1) (remaining - data.length) rest ∧ bytes = data ++ rest := by
  constructor
  · intro hrec
    cases hrec with
    | done => cases h
    | chunk _ hcall hrest => exact ⟨_, _, _, _, hcall, hrest, rfl⟩
  · rintro ⟨data, hne, hle, rest, hcall, hrest, rfl⟩
    exact .chunk h hcall hrest

/-! ### The receive loop -/

/-- The loop has received `t` bytes. The buffer starts with them, all writes were inside it, and
what the request delivers is these bytes and what is still to come. -/
structure RecvInv (contentLen : ℕ) (recv : Recv) (s : RecvState) (t : ℕ) : Prop where
  total : s.totalReceived = t
  le : t ≤ contentLen
  length : s.buffer.length = postBufferSize
  writes : ∀ w ∈ s.writes, 0 ≤ w.1 ∧ w.1 + w.2 ≤ (postBufferSize : ℤ)
  receives : ∀ bytes, Receives recv 0 contentLen bytes ↔
    s.failed = false ∧ ∃ rest, Receives recv s.calls (contentLen - t) rest ∧
      bytes = s.buffer.take t ++ rest

theorem toSizeT_natCast {n : ℕ} (h : n < postBufferSize) : toSizeT n = n := by
  simp only [postBufferSize] at h
  simp only [toSizeT]
  omega

theorem length_writeAt {buffer data : List UInt8} {offset : ℕ}
    (h : offset + data.length ≤ buffer.length) :
    (writeAt buffer offset data).length = buffer.length := by
  simp only [writeAt, List.length_append, List.length_take, List.length_drop]
  omega

theorem take_writeAt {buffer data : List UInt8} {offset : ℕ} (h : offset ≤ buffer.length) :
    (writeAt buffer offset data).take (offset + data.length) = buffer.take offset ++ data := by
  rw [writeAt, List.take_append_of_le_length, List.take_of_length_le]
  · simp [List.length_take, Nat.min_eq_left h]
  · simp [List.length_take, Nat.min_eq_left h]

theorem recvStart_inv {buffer : List UInt8} (h : buffer.length = postBufferSize) :
    RecvInv contentLen recv ⟨buffer, 0, 0, false, []⟩ 0 where
  total := rfl
  le := Nat.zero_le _
  length := h
  writes := by simp
  receives bytes := by simp

/-- A pass asks for the bytes that are still missing. -/
theorem RecvInv.step_cases {s' : RecvState} {t : ℕ} (h : RecvInv contentLen recv s t)
    (hlen : contentLen < postBufferSize) (hstep : recvStep contentLen recv s = some s') :
    s.failed = false ∧ t < contentLen ∧ s' = s.next (recv s.calls (contentLen - t)) := by
  have hsize : toSizeT s.totalReceived = t := by
    rw [h.total]
    exact toSizeT_natCast (h.le.trans_lt hlen)
  have hasked : toSizeT (contentLen - s.totalReceived) = contentLen - t := by
    rw [h.total, ← Nat.cast_sub h.le]
    exact toSizeT_natCast (by omega)
  unfold recvStep at hstep
  rw [hsize, hasked] at hstep
  split_ifs at hstep with hguard
  obtain ⟨hfailed, hmore⟩ := not_or.mp hguard
  exact ⟨Bool.eq_false_of_not_eq_true hfailed, not_not.mp hmore, (Option.some.inj hstep).symm⟩

/-- An error means that the bytes do not all arrive. -/
theorem RecvInv.failed {t : ℕ} {code : ℤ} {hcode : code ≤ 0} (h : RecvInv contentLen recv s t)
    (hmore : t < contentLen) (hcall : recv s.calls (contentLen - t) = .failed code hcode) :
    RecvInv contentLen recv (s.next (recv s.calls (contentLen - t))) t := by
  rw [hcall]
  refine ⟨h.total, h.le, h.length, h.writes, ?_⟩
  intro bytes
  rw [h.receives]
  refine iff_of_false ?_ (by simp [RecvState.next])
  rintro ⟨-, rest, hrest, -⟩
  obtain ⟨data, hne, hle, rest', hcall', -, -⟩ :=
    (receives_iff_of_pos (Nat.sub_pos_of_lt hmore)).mp hrest
  rw [hcall] at hcall'
  cases hcall'

/-- A piece is appended to the bytes received so far. -/
theorem RecvInv.received {t : ℕ} {data : List UInt8} {hne : data ≠ []}
    {hle : data.length ≤ contentLen - t} (h : RecvInv contentLen recv s t)
    (hlen : contentLen < postBufferSize) (hmore : t < contentLen)
    (hcall : recv s.calls (contentLen - t) = .received data hne hle) :
    RecvInv contentLen recv (s.next (recv s.calls (contentLen - t))) (t + data.length) := by
  have hbuffer := h.length
  have hnat : s.totalReceived.toNat = t := by
    rw [h.total]
    exact Int.toNat_natCast t
  have htake : (writeAt s.buffer s.totalReceived.toNat data).take (t + data.length) =
      s.buffer.take t ++ data := by
    rw [hnat]
    exact take_writeAt (by omega)
  rw [hcall]
  refine ⟨?_, by omega, ?_, ?_, fun bytes => ?_⟩
  · show s.totalReceived + data.length = _
    rw [h.total]
    exact (Nat.cast_add _ _).symm
  · rw [RecvState.next, hnat, length_writeAt (by omega), hbuffer]
  · intro w hw
    rcases List.mem_append.mp hw with hw | hw
    · exact h.writes w hw
    · obtain rfl := List.mem_singleton.mp hw
      show 0 ≤ s.totalReceived ∧ s.totalReceived + (data.length : ℤ) ≤ _
      rw [h.total]
      omega
  · rw [h.receives]
    refine and_congr_right ?_
    intro _
    simp only [RecvState.next, htake, ← Nat.sub_sub]
    have hpos := Nat.sub_pos_of_lt hmore
    constructor
    · rintro ⟨rest, hrest, rfl⟩
      obtain ⟨data', hne', hle', rest', hcall', hrest', rfl⟩ :=
        (receives_iff_of_pos hpos).mp hrest
      rw [hcall] at hcall'
      obtain rfl := RecvResult.received.inj hcall'
      exact ⟨rest', hrest', by rw [List.append_assoc]⟩
    · rintro ⟨rest, hrest, rfl⟩
      exact ⟨data ++ rest, .chunk hpos hcall hrest, by rw [List.append_assoc]⟩

/-- **One pass receives one piece**, or ends the loop. -/
theorem recvStep_inv {s' : RecvState} {t : ℕ} (hlen : contentLen < postBufferSize)
    (h : RecvInv contentLen recv s t) (hstep : recvStep contentLen recv s = some s') :
    s.failed = false ∧ t < contentLen ∧
      (RecvInv contentLen recv s' t ∧ s'.failed = true ∨
        ∃ t', t < t' ∧ RecvInv contentLen recv s' t' ∧ s'.failed = false) := by
  obtain ⟨hfailed, hmore, rfl⟩ := h.step_cases hlen hstep
  refine ⟨hfailed, hmore, ?_⟩
  cases hcall : recv s.calls (contentLen - t) with
  | failed code hcode =>
    have hinv := h.failed hmore hcall
    rw [hcall] at hinv
    exact Or.inl ⟨hinv, rfl⟩
  | received data hne hle =>
    have hinv := h.received hlen hmore hcall
    rw [hcall] at hinv
    have hdata := List.length_pos_iff.mpr hne
    exact Or.inr ⟨t + data.length, by omega, hinv, hfailed⟩

theorem recvLoop_inv (recv : Recv) {buffer : List UInt8} (hlen : contentLen < postBufferSize)
    (hbuffer : buffer.length = postBufferSize) :
    ∃ t, RecvInv contentLen recv (recvLoop contentLen recv buffer) t := by
  refine Loop.run_invariant (I := fun s => ∃ t, RecvInv contentLen recv s t) ?_
    ⟨0, recvStart_inv hbuffer⟩ _
  rintro s s' ⟨t, h⟩ hstep
  obtain ⟨-, -, ⟨h', -⟩ | ⟨t', -, h', -⟩⟩ := recvStep_inv hlen h hstep
  · exact ⟨t, h'⟩
  · exact ⟨t', h'⟩

/-- **The receive loop ends**, whatever the calls return. -/
theorem recvLoop_exits (recv : Recv) {buffer : List UInt8} (hlen : contentLen < postBufferSize)
    (hbuffer : buffer.length = postBufferSize) :
    recvStep contentLen recv (recvLoop contentLen recv buffer) = none := by
  -- each pass either fails, for good, or leaves fewer bytes missing
  refine Loop.run_exits (I := fun s => ∃ t, RecvInv contentLen recv s t)
    (fun s => if s.failed then 0 else contentLen - s.totalReceived.toNat + 1) ?_
    ⟨0, recvStart_inv hbuffer⟩ (by simp)
  rintro s s' ⟨t, h⟩ hstep
  have hnat : s.totalReceived.toNat = t := by
    rw [h.total]
    exact Int.toNat_natCast t
  obtain ⟨hfailed, hmore, ⟨h', hfailed'⟩ | ⟨t', hlt, h', hfailed'⟩⟩ := recvStep_inv hlen h hstep
  · exact ⟨⟨t, h'⟩, by simp [hfailed, hfailed']⟩
  · have hnat' : s'.totalReceived.toNat = t' := by
      rw [h'.total]
      exact Int.toNat_natCast t'
    refine ⟨⟨t', h'⟩, ?_⟩
    simp only [hfailed, hfailed', hnat, hnat', Bool.false_eq_true, if_false]
    omega

/-- The loop ends with the bytes of the request in the buffer, or with an error because they did
not all arrive. -/
theorem recvLoop_spec (recv : Recv) {buffer : List UInt8} (hlen : contentLen < postBufferSize)
    (hbuffer : buffer.length = postBufferSize) :
    let s := recvLoop contentLen recv buffer
    s.buffer.length = postBufferSize ∧
      (∀ w ∈ s.writes, 0 ≤ w.1 ∧ w.1 + w.2 ≤ (postBufferSize : ℤ)) ∧
      (s.failed = false → s.totalReceived = contentLen) ∧
      ∀ bytes, Receives recv 0 contentLen bytes ↔
        s.failed = false ∧ bytes = s.buffer.take contentLen := by
  obtain ⟨t, h⟩ := recvLoop_inv recv hlen hbuffer
  have hexit := recvLoop_exits recv hlen hbuffer
  have hend : (recvLoop contentLen recv buffer).failed = false → t = contentLen := by
    intro hfailed
    have hsize : toSizeT (recvLoop contentLen recv buffer).totalReceived = t := by
      rw [h.total]
      exact toSizeT_natCast (h.le.trans_lt hlen)
    rw [recvStep, hsize] at hexit
    split_ifs at hexit with hguard
    rcases hguard with hfailed' | hmore
    · rw [hfailed] at hfailed'
      cases hfailed'
    · exact Nat.le_antisymm h.le (Nat.le_of_not_lt hmore)
  refine ⟨h.length, h.writes, fun hfailed => hend hfailed ▸ h.total, ?_⟩
  intro bytes
  rw [h.receives]
  refine and_congr_right ?_
  intro hfailed
  obtain rfl := hend hfailed
  simp [receives_zero_iff]

/-! ### The message of a request -/

/-- The member `name` of `json` is the string `value`. -/
def HasString (cjson : CJson) (json : cjson.Node) (name : String) (value : CString) : Prop :=
  ∃ item, cjson.getObjectItem json (.ofString name) = some item ∧ cjson.isString item = true ∧
    cjson.valuestring item = value

/-- The level that a string names. -/
def NamesLevel (value : CString) (level : AgentMessageLevel) : Prop :=
  value = .ofString "INFO" ∧ level = .info ∨
    value = .ofString "WARNING" ∧ level = .warning ∨
      value = .ofString "ATTENTION" ∧ level = .attention

/-- The text is JSON and carries the message. -/
def Carries (cjson : CJson) (text : CString) (m : AgentMessage) : Prop :=
  ∃ json source title body level, cjson.parse text = some json ∧
    HasString cjson json "source" source ∧ HasString cjson json "title" title ∧
    HasString cjson json "body" body ∧ HasString cjson json "level" level ∧
    NamesLevel level m.level ∧
    m.source = some source ∧ m.title = some title ∧ m.body = some body

/-- The request is small enough, arrives completely and carries the message in the bytes up to the
first NUL. -/
def Accepts (cjson : CJson) (contentLen : ℕ) (recv : Recv) (m : AgentMessage) : Prop :=
  contentLen ≤ 511 ∧ ∃ bytes, Receives recv 0 contentLen bytes ∧
    Carries cjson (.ofBuffer bytes) m

theorem stringItem_eq_some_iff {cjson : CJson} {json : cjson.Node} {name : String}
    {value : CString} :
    cjson.stringItem json name = some value ↔ HasString cjson json name value := by
  simp only [CJson.stringItem, HasString, Option.map_eq_some_iff, Option.filter_eq_some_iff,
    and_assoc]

theorem parseLevel_eq_some_iff {value : CString} {level : AgentMessageLevel} :
    parseLevel value = some level ↔ NamesLevel value level := by
  have h1 : CString.ofString "INFO" ≠ .ofString "WARNING" := by decide
  have h2 : CString.ofString "INFO" ≠ .ofString "ATTENTION" := by decide
  have h3 : CString.ofString "WARNING" ≠ .ofString "ATTENTION" := by decide
  unfold parseLevel NamesLevel
  split_ifs with hinfo hwarning hattention
  · simp [hinfo, h1, h2, eq_comm]
  · simp [hwarning, h1.symm, h3, eq_comm]
  · simp [hattention, h2.symm, h3.symm, eq_comm]
  · simp [hinfo, hwarning, hattention]

/-- The handler shows the message that the text carries. -/
theorem postText_of_carries {cjson : CJson} {text : CString} {m : AgentMessage}
    (h : Carries cjson text m) (writes : List (ℤ × ℕ)) (p : Presence) :
    postText cjson text writes p =
      ⟨writes, [m], .send "MESSAGE RECEIVED", presenceShowMessage (some m) p⟩ := by
  obtain ⟨json, source, title, body, level, hparse, hsource, htitle, hbody, hlevel, hnames, h1, h2,
    h3⟩ := h
  obtain ⟨msource, mtitle, mbody, mlevel⟩ := m
  simp only at h1 h2 h3 hnames
  subst h1 h2 h3
  simp only [postText, hparse, stringItem_eq_some_iff.mpr hsource,
    stringItem_eq_some_iff.mpr htitle, stringItem_eq_some_iff.mpr hbody,
    stringItem_eq_some_iff.mpr hlevel, parseLevel_eq_some_iff.mpr hnames]
  rfl

/-- A text that carries no message changes nothing. -/
theorem postText_of_not_carries {cjson : CJson} {text : CString}
    (h : ∀ m, ¬ Carries cjson text m) (writes : List (ℤ × ℕ)) (p : Presence) :
    (postText cjson text writes p).handled = [] ∧ (postText cjson text writes p).presence = p ∧
      (postText cjson text writes p).reply ≠ .send "MESSAGE RECEIVED" := by
  unfold postText
  split
  · exact ⟨rfl, rfl, nofun⟩
  · rename_i json hparse
    split
    · rename_i source title body level hsource htitle hbody hlevel
      split
      · exact ⟨rfl, rfl, nofun⟩
      · rename_i l hl
        exact absurd ⟨json, source, title, body, level, hparse, stringItem_eq_some_iff.mp hsource,
          stringItem_eq_some_iff.mp htitle, stringItem_eq_some_iff.mp hbody,
          stringItem_eq_some_iff.mp hlevel, parseLevel_eq_some_iff.mp hl, rfl, rfl, rfl⟩
          (h ⟨some source, some title, some body, l⟩)
    · exact ⟨rfl, rfl, nofun⟩

/-- The rest of the handler only adds to the record of its writes. -/
theorem postText_eq (cjson : CJson) (text : CString) (writes : List (ℤ × ℕ)) (p : Presence) :
    postText cjson text writes p = { postText cjson text [] p with writes := writes } := by
  unfold postText
  split
  · rfl
  · split
    · split <;> rfl
    · rfl

/-! ### The handler -/

/-- What the handler does with a request, in full. -/
structure AllOrNothing (cjson : CJson) (contentLen : ℕ) (recv : Recv) (p : Presence)
    (o : PostOutcome) : Prop where
  /-- No write is outside `buffer[0..511]`. -/
  writes_inside : ∀ w ∈ o.writes, 0 ≤ w.1 ∧ w.1 + w.2 ≤ 512
  /-- `message_handler_handle` is called once, with the message of the request. -/
  handled_iff : ∀ m, o.handled = [m] ↔ Accepts cjson contentLen recv m
  accepted : ∀ m, Accepts cjson contentLen recv m →
    o.presence = presenceShowMessage (some m) p ∧ o.reply = .send "MESSAGE RECEIVED"
  /-- Without a message nothing happens, and the sender is not told otherwise. -/
  refused : (∀ m, ¬ Accepts cjson contentLen recv m) →
    o.handled = [] ∧ o.presence = p ∧ o.reply ≠ .send "MESSAGE RECEIVED"
  /-- A connection that fails before the whole request has arrived gets no reply. -/
  lost : contentLen ≤ 511 → (∀ bytes, ¬ Receives recv 0 contentLen bytes) → o.reply = .nothing

theorem Carries.unique {cjson : CJson} {text : CString} {m m' : AgentMessage}
    (h : Carries cjson text m) (h' : Carries cjson text m') : m = m' := by
  -- both are the message that the handler shows
  have heq := (postText_of_carries h [] (.static oledPowerUp)).symm.trans
    (postText_of_carries h' [] (.static oledPowerUp))
  exact (List.cons.inj (congrArg PostOutcome.handled heq)).1

/-- When the request has arrived, the handler goes on with its bytes. -/
theorem messagePostHandler_of_receives (cjson : CJson) {buffer bytes : List UInt8}
    (hlen : contentLen < postBufferSize) (hbuffer : buffer.length = postBufferSize)
    (hbytes : Receives recv 0 contentLen bytes) (p : Presence) :
    ∃ writes, (∀ w ∈ writes, 0 ≤ w.1 ∧ w.1 + w.2 ≤ (512 : ℤ)) ∧
      messagePostHandler cjson contentLen recv buffer p =
        postText cjson (.ofBuffer bytes) writes p := by
  obtain ⟨hsize, hwrites, htotal, hreceives⟩ := recvLoop_spec recv hlen hbuffer
  obtain ⟨hfailed, rfl⟩ := (hreceives bytes).mp hbytes
  have hnat : (recvLoop contentLen recv buffer).totalReceived.toNat = contentLen := by
    rw [htotal hfailed]
    exact Int.toNat_natCast contentLen
  refine ⟨(recvLoop contentLen recv buffer).writes ++
    [((recvLoop contentLen recv buffer).totalReceived, 1)], fun w hw => ?_, ?_⟩
  · rcases List.mem_append.mp hw with hw | hw
    · exact hwrites w hw
    · obtain rfl := List.mem_singleton.mp hw
      simp only [postBufferSize] at hlen
      show 0 ≤ RecvState.totalReceived _ ∧ RecvState.totalReceived _ + (1 : ℤ) ≤ 512
      rw [htotal hfailed]
      omega
  · rw [messagePostHandler, if_neg (Nat.not_le_of_lt hlen)]
    simp only [hfailed, Bool.false_eq_true, if_false, hnat]
    rw [writeAt, List.append_assoc, List.singleton_append, CString.ofBuffer_append_zero_cons]

/-- A request whose bytes do not all arrive is dropped without a reply. -/
theorem messagePostHandler_of_lost (cjson : CJson) {buffer : List UInt8}
    (hlen : contentLen < postBufferSize) (hbuffer : buffer.length = postBufferSize)
    (hlost : ∀ bytes, ¬ Receives recv 0 contentLen bytes) (p : Presence) :
    ∃ writes, (∀ w ∈ writes, 0 ≤ w.1 ∧ w.1 + w.2 ≤ (512 : ℤ)) ∧
      messagePostHandler cjson contentLen recv buffer p = ⟨writes, [], .nothing, p⟩ := by
  obtain ⟨-, hwrites, -, hreceives⟩ := recvLoop_spec recv hlen hbuffer
  have hfailed : (recvLoop contentLen recv buffer).failed = true := by
    by_contra hne
    exact hlost _ ((hreceives _).mpr ⟨Bool.eq_false_of_not_eq_true hne, rfl⟩)
  refine ⟨_, hwrites, ?_⟩
  simp only [messagePostHandler, if_neg (Nat.not_le_of_lt hlen), hfailed, if_true]

/-- A request that does not fit is refused before a byte is received. -/
theorem messagePostHandler_of_large {cjson : CJson} {buffer : List UInt8}
    (hlen : postBufferSize ≤ contentLen) (p : Presence) :
    messagePostHandler cjson contentLen recv buffer p =
      ⟨[], [], .sendErr .contentTooLarge "Request body too large", p⟩ :=
  if_pos hlen

theorem messagePostHandler_inside {cjson : CJson} {buffer : List UInt8}
    (hbuffer : buffer.length = postBufferSize) (p : Presence) :
    ∀ w ∈ (messagePostHandler cjson contentLen recv buffer p).writes,
      0 ≤ w.1 ∧ w.1 + w.2 ≤ (512 : ℤ) := by
  rcases Nat.lt_or_ge contentLen postBufferSize with hlen | hlen
  · by_cases hbytes : ∃ bytes, Receives recv 0 contentLen bytes
    · obtain ⟨bytes, hbytes⟩ := hbytes
      obtain ⟨writes, hwrites, heq⟩ :=
        messagePostHandler_of_receives cjson hlen hbuffer hbytes p
      rw [heq, postText_eq]
      exact hwrites
    · obtain ⟨writes, hwrites, heq⟩ := messagePostHandler_of_lost cjson hlen hbuffer
        (fun bytes h => hbytes ⟨bytes, h⟩) p
      rw [heq]
      exact hwrites
  · rw [messagePostHandler_of_large hlen]
    intro w hw
    cases hw

/-- An accepted request is shown. -/
theorem messagePostHandler_of_accepts {cjson : CJson} {buffer : List UInt8} {m : AgentMessage}
    (hbuffer : buffer.length = postBufferSize) (h : Accepts cjson contentLen recv m)
    (p : Presence) :
    let o := messagePostHandler cjson contentLen recv buffer p
    o.handled = [m] ∧ o.presence = presenceShowMessage (some m) p ∧
      o.reply = .send "MESSAGE RECEIVED" := by
  obtain ⟨hle, bytes, hbytes, hcarries⟩ := h
  obtain ⟨writes, -, heq⟩ := messagePostHandler_of_receives cjson
    (Nat.lt_succ_of_le hle) hbuffer hbytes p
  rw [heq, postText_of_carries hcarries]
  exact ⟨rfl, rfl, rfl⟩

/-- Any other request changes nothing. -/
theorem messagePostHandler_of_not_accepts {cjson : CJson} {buffer : List UInt8}
    (hbuffer : buffer.length = postBufferSize) (h : ∀ m, ¬ Accepts cjson contentLen recv m)
    (p : Presence) :
    let o := messagePostHandler cjson contentLen recv buffer p
    o.handled = [] ∧ o.presence = p ∧ o.reply ≠ .send "MESSAGE RECEIVED" := by
  rcases Nat.lt_or_ge contentLen postBufferSize with hlen | hlen
  · by_cases hbytes : ∃ bytes, Receives recv 0 contentLen bytes
    · obtain ⟨bytes, hbytes⟩ := hbytes
      have hcarries : ∀ m, ¬ Carries cjson (.ofBuffer bytes) m :=
        fun m hm => h m ⟨Nat.le_of_lt_succ hlen, bytes, hbytes, hm⟩
      obtain ⟨writes, -, heq⟩ :=
        messagePostHandler_of_receives cjson hlen hbuffer hbytes p
      rw [heq]
      exact postText_of_not_carries hcarries writes p
    · obtain ⟨writes, -, heq⟩ := messagePostHandler_of_lost cjson hlen hbuffer
        (fun bytes h => hbytes ⟨bytes, h⟩) p
      rw [heq]
      exact ⟨rfl, rfl, nofun⟩
  · rw [messagePostHandler_of_large hlen]
    exact ⟨rfl, rfl, nofun⟩

/-- **A request is handled completely or not at all**, the receive loop ends, and the outcome
depends on the bytes that arrive and not on how they are cut. -/
theorem messagePostHandler_allOrNothing (cjson : CJson) (contentLen : ℕ) (recv : Recv)
    (buffer : List UInt8) (hbuffer : buffer.length = postBufferSize) (p : Presence) :
    let o := messagePostHandler cjson contentLen recv buffer p
    AllOrNothing cjson contentLen recv p o ∧
      (contentLen < postBufferSize →
        recvStep contentLen recv (recvLoop contentLen recv buffer) = none) ∧
      ∀ (recv' : Recv) (buffer' : List UInt8), buffer'.length = postBufferSize →
        ∀ bytes, Receives recv 0 contentLen bytes → Receives recv' 0 contentLen bytes →
          let o' := messagePostHandler cjson contentLen recv' buffer' p
          o'.handled = o.handled ∧ o'.reply = o.reply ∧ o'.presence = o.presence := by
  refine ⟨?_, fun hlen => recvLoop_exits recv hlen hbuffer, ?_⟩
  · constructor
    case writes_inside => exact messagePostHandler_inside hbuffer p
    case handled_iff =>
      intro m
      constructor
      · intro hm
        by_contra hnot
        by_cases hsome : ∃ m', Accepts cjson contentLen recv m'
        · obtain ⟨m', hm'⟩ := hsome
          rw [(messagePostHandler_of_accepts hbuffer hm' p).1] at hm
          obtain rfl := (List.cons.inj hm).1
          exact hnot hm'
        · rw [(messagePostHandler_of_not_accepts hbuffer (not_exists.mp hsome) p).1] at hm
          cases hm
      · intro hm
        exact (messagePostHandler_of_accepts hbuffer hm p).1
    case accepted =>
      intro m hm
      exact (messagePostHandler_of_accepts hbuffer hm p).2
    case refused =>
      intro hnone
      exact messagePostHandler_of_not_accepts hbuffer hnone p
    case lost =>
      intro hlen hlost
      obtain ⟨writes, -, heq⟩ := messagePostHandler_of_lost cjson
        (Nat.lt_succ_of_le hlen) hbuffer hlost p
      rw [heq]
  · intro recv' buffer' hbuffer' bytes hbytes hbytes'
    rcases Nat.lt_or_ge contentLen postBufferSize with hlen | hlen
    · obtain ⟨writes, -, heq⟩ :=
        messagePostHandler_of_receives cjson hlen hbuffer hbytes p
      obtain ⟨writes', -, heq'⟩ :=
        messagePostHandler_of_receives cjson hlen hbuffer' hbytes' p
      rw [heq, heq', postText_eq _ _ writes, postText_eq _ _ writes']
      exact ⟨rfl, rfl, rfl⟩
    · rw [messagePostHandler_of_large hlen, messagePostHandler_of_large hlen]
      exact ⟨rfl, rfl, rfl⟩

/-- `httpd_req_recv` when the pieces arrive one by one, until the connection is closed. -/
def inPieces (pieces : List (List UInt8)) : Recv := fun k asked =>
  match pieces[k]? with
  | some data =>
    if h : data ≠ [] ∧ data.length ≤ asked then .received data h.1 h.2 else .failed 0 le_rfl
  | none => .failed 0 le_rfl

/-- A JSON library that knows one text, an object with strings for members. The object is the node
`none`. -/
def objectCJson (text : CString) (members : List (CString × CString)) : CJson where
  Node := Option CString
  parse s := if s = text then some none else none
  getObjectItem node name := if node.isNone then (members.lookup name).map some else none
  isString := Option.isSome
  valuestring node := node.getD default

/-- A request in two pieces. -/
def buildRequest : List (List UInt8) :=
  [(CString.ofString "\x7b\"source\":\"agent\",\"title\":").bytes,
    (CString.ofString "\"Build\",\"body\":\"done\",\"level\":\"INFO\"\x7d").bytes]

def buildCJson : CJson :=
  objectCJson (.ofBuffer buildRequest.flatten)
    [(.ofString "source", .ofString "agent"), (.ofString "title", .ofString "Build"),
      (.ofString "body", .ofString "done"), (.ofString "level", .ofString "INFO")]

theorem buildRequest_accepted : Accepts buildCJson 63 (inPieces buildRequest) buildMessage := by
  refine ⟨by decide, buildRequest.flatten,
    .chunk (by decide) rfl (.chunk (by decide) rfl .done), ?_⟩
  have hparse : buildCJson.parse (.ofBuffer buildRequest.flatten) = some none := by
    simp [buildCJson, objectCJson]
  have hmember : ∀ name value, buildCJson.stringItem none name = some value →
      HasString buildCJson none name value := fun _ _ => stringItem_eq_some_iff.mp
  exact ⟨none, .ofString "agent", .ofString "Build", .ofString "done", .ofString "INFO", hparse,
    hmember _ _ (by decide), hmember _ _ (by decide), hmember _ _ (by decide),
    hmember _ _ (by decide), Or.inl ⟨rfl, rfl⟩, rfl, rfl, rfl⟩

theorem messagePostHandler_allOrNothing_build :
    let o := messagePostHandler buildCJson 63 (inPieces buildRequest)
      (List.replicate postBufferSize 0) (presenceStart oledPowerUp)
    o.handled = [buildMessage] ∧ o.reply = .send "MESSAGE RECEIVED" ∧
      o.presence.presenceState = ⟨.unread, 0, buildMessage.pageCount⟩ := by
  obtain ⟨h, -, -⟩ := messagePostHandler_allOrNothing buildCJson 63 (inPieces buildRequest)
    (List.replicate postBufferSize 0) (List.length_replicate ..) (presenceStart oledPowerUp)
  obtain ⟨hpresence, hreply⟩ := h.accepted _ buildRequest_accepted
  refine ⟨(h.handled_iff _).mpr buildRequest_accepted, hreply, ?_⟩
  rw [hpresence, presenceShowMessage_some (presenceStart_represents oledPowerUp)]
  rfl

end PresenceDevice

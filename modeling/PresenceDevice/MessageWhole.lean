import PresenceDevice.CJsonGrammar
import PresenceDevice.MessagePost

/-!
# Bytes that a request carries in vain

The handler hands the received bytes to `cJSON_Parse` as a C string. The parser stops behind the
first value, and the C string stops at the first NUL, so a request can go on after its message:
the sender is told of success, and what followed is lost. `IsJsonText` says what a request should
be when it is accepted.

## Main definitions

* `IsJsonText`: one JSON value with JSON whitespace around it
* `IsMessage`: a JSON value with the members of a message
* `AcceptsOnlyJson`: success means that the request was one JSON text

## Main results

* `acceptsOnlyJson_iff`: that is so exactly when a request has only whitespace around its message
* `not_acceptsOnlyJson_trailing`: a request with a letter behind its message
-/

namespace PresenceDevice

variable {recv : Recv} {contentLen : ℕ} {bytes lead v rest : List UInt8} {item : CJsonItem}

/-- The whitespace of JSON: space, tab, line feed and carriage return. -/
def JsonWhitespace (w : List UInt8) : Prop := ∀ b ∈ w, b = 0x20 ∨ b = 0x09 ∨ b = 0x0A ∨ b = 0x0D

/-- One JSON value, as the library reads it, with whitespace around it and nothing else. -/
def IsJsonText (bytes : List UInt8) : Prop :=
  ∃ ws v ws' item, bytes = ws ++ (v ++ ws') ∧ JsonWhitespace ws ∧ JsonWhitespace ws' ∧ 0 ∉ v ∧
    ValueText cJsonNestingLimit item v

/-- The item has the four strings of a message. -/
def HoldsMessage (item : CJsonItem) : Prop :=
  ∃ source title body level l, HasString cJson item "source" source ∧
    HasString cJson item "title" title ∧ HasString cJson item "body" body ∧
    HasString cJson item "level" level ∧ NamesLevel level l

/-- The text of a JSON value with the four strings of a message. -/
def IsMessage (v : List UInt8) : Prop :=
  ∃ item, ValueText cJsonNestingLimit item v ∧ 0 ∉ v ∧ HoldsMessage item

/-- If the handler sends the success reply, all bytes of the request are one JSON text. -/
def AcceptsOnlyJson (contentLen : ℕ) (recv : Recv) (buffer : List UInt8) (p : Presence) : Prop :=
  (messagePostHandler cJson contentLen recv buffer p).reply = .send "MESSAGE RECEIVED" →
    ∃ bytes, Receives recv 0 contentLen bytes ∧ IsJsonText bytes

/-- The calls of `httpd_req_recv` deliver one request. -/
theorem Receives.unique {k remaining : ℕ} {bytes' : List UInt8}
    (h : Receives recv k remaining bytes) (h' : Receives recv k remaining bytes') :
    bytes = bytes' := by
  induction h generalizing bytes' with
  | done => exact (receives_zero_iff.mp h').symm
  | chunk hpos hcall _ ih =>
    obtain ⟨data, hne, hle, rest', hcall', hrest', rfl⟩ := (receives_iff_of_pos hpos).mp h'
    rw [hcall] at hcall'
    obtain rfl := RecvResult.received.inj hcall'
    rw [ih hrest']

/-- Only an object has members. -/
theorem HoldsMessage.ne_number (h : HoldsMessage item) : item ≠ .number := by
  rintro rfl
  obtain ⟨source, -, -, -, -, ⟨i, hi, -⟩, -⟩ := h
  cases hi

theorem exists_carries_iff {text : CString} :
    (∃ m, Carries cJson text m) ↔ ∃ item, cJsonParse text = some item ∧ HoldsMessage item := by
  constructor
  · rintro ⟨m, item, source, title, body, level, hparse, hsource, htitle, hbody, hlevel, hnames, -⟩
    exact ⟨item, hparse, source, title, body, level, m.level, hsource, htitle, hbody, hlevel,
      hnames⟩
  · rintro ⟨item, hparse, source, title, body, level, l, hsource, htitle, hbody, hlevel, hnames⟩
    exact ⟨⟨some source, some title, some body, l⟩, item, source, title, body, level, hparse,
      hsource, htitle, hbody, hlevel, hnames, rfl, rfl, rfl⟩

/-- A request is accepted for a message that it starts with, behind what the parser skips. -/
theorem exists_carries_ofBuffer_iff :
    (∃ m, Carries cJson (.ofBuffer bytes) m) ↔
      ∃ lead v rest, bytes = lead ++ (v ++ rest) ∧ SkippedLead lead ∧ IsMessage v := by
  rw [exists_carries_iff]
  constructor
  · rintro ⟨item, hparse, hmessage⟩
    obtain ⟨lead, v, rest, htext, hlead, hv⟩ :=
      (cJsonParse_eq_some_iff hmessage.ne_number).mp hparse
    obtain ⟨tail, htail⟩ := CString.bytes_ofBuffer_prefix bytes
    have hnul : 0 ∉ v := by
      intro hmem
      have hnulFree := (CString.ofBuffer bytes).nulFree
      rw [htext] at hnulFree
      exact hnulFree (List.mem_append_right _ (List.mem_append_left _ hmem))
    exact ⟨lead, v, rest ++ tail, by rw [← htail, htext]; simp, hlead, item, hv, hnul, hmessage⟩
  · rintro ⟨lead, v, rest, rfl, hlead, item, hv, hnul, hmessage⟩
    have hnul' : 0 ∉ lead ++ v := by
      obtain ⟨ws, -, hws, rfl | rfl⟩ := hlead
      · simp [hws, hnul]
      · simp [hws, hnul]
    refine ⟨item, (cJsonParse_eq_some_iff hmessage.ne_number).mpr
      ⟨lead, v, (CString.ofBuffer rest).bytes, ?_, hlead, hv⟩, hmessage⟩
    rw [← List.append_assoc, CString.bytes_ofBuffer_append hnul', List.append_assoc]

theorem JsonWhitespace.skipped (h : JsonWhitespace lead) : Skipped lead := by
  intro b hb
  rcases h b hb with rfl | rfl | rfl | rfl <;> decide

theorem JsonWhitespace.skippedLead (h : JsonWhitespace lead) : SkippedLead lead := by
  refine ⟨lead, h.skipped, ?_, Or.inl rfl⟩
  intro hnul
  exact absurd (h 0 hnul) (by decide)

/-- A text that starts with a message is a JSON text only if whitespace is all there is around
it. -/
theorem IsJsonText.whitespace (h : IsJsonText (lead ++ (v ++ rest))) (hlead : SkippedLead lead)
    (hv : IsMessage v) : JsonWhitespace lead ∧ JsonWhitespace rest := by
  obtain ⟨ws, v', ws', item', heq, hws, hws', -, hv'⟩ := h
  obtain ⟨item, hv, -, hmessage⟩ := hv
  -- both are what the parser skips and what it reads
  have hnul : lead ++ (v ++ (rest ++ [0])) = ws ++ (v' ++ (ws' ++ [0])) := by
    simpa using congrArg (· ++ [(0 : UInt8)]) heq
  have htail : v ++ (rest ++ [0]) = v' ++ (ws' ++ [0]) := by
    rw [← bufferSkipWhitespace_skipUtf8Bom hlead hv rest, hnul,
      bufferSkipWhitespace_skipUtf8Bom hws.skippedLead hv' ws']
  have hdelimited : Delimited item' (ws' ++ [0]) := delimited_append_nul hws'.skipped.delimited
  obtain ⟨-, -, hrest⟩ := (reads_parseValue _).unique hv
    (fun hnumber => absurd hnumber hmessage.ne_number) hv' hdelimited htail
  rw [htail] at hnul
  rw [List.append_cancel_right hnul, List.append_cancel_right hrest]
  exact ⟨hws, hws'⟩

/-- The handler sends the success reply for the requests that start with a message. -/
theorem reply_eq_send_iff {buffer : List UInt8} (hlen : contentLen ≤ 511)
    (hbuffer : buffer.length = postBufferSize) (p : Presence) :
    (messagePostHandler cJson contentLen recv buffer p).reply = .send "MESSAGE RECEIVED" ↔
      ∃ lead v rest, Receives recv 0 contentLen (lead ++ (v ++ rest)) ∧ SkippedLead lead ∧
        IsMessage v := by
  have hlt : contentLen < postBufferSize := Nat.lt_succ_of_le hlen
  by_cases hreceived : ∃ bytes, Receives recv 0 contentLen bytes
  · obtain ⟨bytes, hbytes⟩ := hreceived
    obtain ⟨writes, -, heq⟩ := messagePostHandler_of_receives cJson hlt hbuffer hbytes p
    rw [heq]
    constructor
    · intro hreply
      have hcarries : ∃ m, Carries cJson (.ofBuffer bytes) m := by
        by_contra hnone
        exact (postText_of_not_carries (not_exists.mp hnone) writes p).2.2 hreply
      obtain ⟨lead, v, rest, rfl, h⟩ := exists_carries_ofBuffer_iff.mp hcarries
      exact ⟨lead, v, rest, hbytes, h⟩
    · rintro ⟨lead, v, rest, hbytes', h⟩
      obtain ⟨m, hm⟩ :=
        exists_carries_ofBuffer_iff.mpr ⟨lead, v, rest, hbytes.unique hbytes', h⟩
      rw [postText_of_carries hm]
  · obtain ⟨writes, -, heq⟩ :=
      messagePostHandler_of_lost cJson hlt hbuffer (not_exists.mp hreceived) p
    rw [heq]
    refine iff_of_false nofun ?_
    rintro ⟨lead, v, rest, hbytes, -⟩
    exact hreceived ⟨_, hbytes⟩

/-- **Success means one JSON text exactly when whitespace is all there is around the message.**
Anything else in front of it that the parser skips, and anything else behind it, is lost. -/
theorem acceptsOnlyJson_iff (contentLen : ℕ) (hlen : contentLen ≤ 511) (recv : Recv)
    (buffer : List UInt8) (hbuffer : buffer.length = postBufferSize) (p : Presence) :
    AcceptsOnlyJson contentLen recv buffer p ↔
      ∀ lead v rest, Receives recv 0 contentLen (lead ++ (v ++ rest)) → SkippedLead lead →
        IsMessage v → JsonWhitespace lead ∧ JsonWhitespace rest := by
  rw [AcceptsOnlyJson, reply_eq_send_iff hlen hbuffer p]
  constructor
  · intro honly lead v rest hbytes hlead hv
    obtain ⟨bytes, hbytes', hjson⟩ := honly ⟨lead, v, rest, hbytes, hlead, hv⟩
    obtain rfl := hbytes'.unique hbytes
    exact hjson.whitespace hlead hv
  · rintro hwhole ⟨lead, v, rest, hbytes, hlead, hv⟩
    obtain ⟨hlead', hrest⟩ := hwhole lead v rest hbytes hlead hv
    obtain ⟨item, htext, hnul, -⟩ := hv
    exact ⟨_, hbytes, lead, v, rest, item, rfl, hlead', hrest, hnul, htext⟩

/-- The request of two pieces is one value. -/
theorem isJsonText_buildRequest : IsJsonText buildRequest.flatten := by
  have hparse : (parseValue cJsonNestingLimit buildRequest.flatten).map Prod.snd = some [] := by
    decide +kernel
  obtain ⟨⟨item, r⟩, hread, rfl⟩ := Option.map_eq_some_iff.mp hparse
  have hend : Delimited item [] := by
    rintro - c ⟨⟩
  obtain ⟨w, hw, heq⟩ := (reads_parseValue _).exists_text hend hread
  rw [List.append_nil] at heq
  refine ⟨[], w, [], item, by simp [heq], nofun, nofun, ?_, hw⟩
  rw [← heq]
  decide

/-- The library finds the message in the request, which is accepted and shown. -/
theorem messagePostHandler_buildRequest :
    let o := messagePostHandler cJson 63 (inPieces buildRequest) (List.replicate postBufferSize 0)
      (presenceStart oledPowerUp)
    o.reply = .send "MESSAGE RECEIVED" ∧
      o.presence.presenceState = ⟨.unread, 0, buildMessage.pageCount⟩ := by
  intro o
  have hreply : o.reply = .send "MESSAGE RECEIVED" := by decide +kernel
  have hhandled : o.handled = [buildMessage] := by decide +kernel
  obtain ⟨m, hm⟩ : ∃ m, Accepts cJson 63 (inPieces buildRequest) m := by
    by_contra hnone
    exact (messagePostHandler_of_not_accepts (List.length_replicate ..) (not_exists.mp hnone)
      (presenceStart oledPowerUp)).2.2 hreply
  obtain ⟨hhandled', hpresence, -⟩ := messagePostHandler_of_accepts (List.length_replicate ..) hm
    (presenceStart oledPowerUp)
  obtain rfl := List.singleton_inj.mp (hhandled.symm.trans hhandled')
  refine ⟨hreply, ?_⟩
  rw [show o.presence = _ from hpresence,
    presenceShowMessage_some (presenceStart_represents oledPowerUp)]
  rfl

theorem acceptsOnlyJson_iff_buildRequest :
    AcceptsOnlyJson 63 (inPieces buildRequest) (List.replicate postBufferSize 0)
        (presenceStart oledPowerUp) ∧
      (messagePostHandler cJson 63 (inPieces buildRequest) (List.replicate postBufferSize 0)
        (presenceStart oledPowerUp)).presence.presenceState =
          ⟨.unread, 0, buildMessage.pageCount⟩ := by
  refine ⟨(acceptsOnlyJson_iff 63 (by decide) _ _ (List.length_replicate ..) _).mpr ?_,
    messagePostHandler_buildRequest.2⟩
  intro lead v rest hbytes hlead hv
  have hpieces : Receives (inPieces buildRequest) 0 63 buildRequest.flatten :=
    .chunk (by decide) rfl (.chunk (by decide) rfl .done)
  have hjson := isJsonText_buildRequest
  rw [hpieces.unique hbytes] at hjson
  exact hjson.whitespace hlead hv

/-- The message, and a letter behind it. -/
def trailingRequest : List (List UInt8) := buildRequest ++ [(CString.ofString "x").bytes]

/-- **A request is accepted although it is no JSON**: the letter is not looked at. -/
theorem not_acceptsOnlyJson_trailing :
    ¬ AcceptsOnlyJson 64 (inPieces trailingRequest) (List.replicate postBufferSize 0)
      (presenceStart oledPowerUp) := by
  intro honly
  have hbuild := messagePostHandler_buildRequest.1
  have htrailing : (messagePostHandler cJson 64 (inPieces trailingRequest)
      (List.replicate postBufferSize 0) (presenceStart oledPowerUp)).reply =
        .send "MESSAGE RECEIVED" := by
    decide +kernel
  obtain ⟨lead, v, rest, hreceived, hlead, hv⟩ :=
    (reply_eq_send_iff (by decide) (List.length_replicate ..) _).mp hbuild
  have hpieces : Receives (inPieces buildRequest) 0 63 buildRequest.flatten :=
    .chunk (by decide) rfl (.chunk (by decide) rfl .done)
  have hpieces' : Receives (inPieces trailingRequest) 0 64 trailingRequest.flatten :=
    .chunk (by decide) rfl (.chunk (by decide) rfl (.chunk (by decide) rfl .done))
  obtain ⟨bytes, hbytes, hjson⟩ := honly htrailing
  have hflatten : bytes = lead ++ (v ++ (rest ++ (CString.ofString "x").bytes)) := by
    rw [hbytes.unique hpieces', trailingRequest, List.flatten_append, hpieces.unique hreceived]
    simp
  rw [hflatten] at hjson
  have hx : ∀ b ∈ (CString.ofString "x").bytes, b ∈ rest ++ (CString.ofString "x").bytes :=
    fun b hb => List.mem_append_right _ hb
  exact absurd ((hjson.whitespace hlead hv).2 0x78 (hx 0x78 (by decide))) (by decide)

end PresenceDevice

import PresenceDevice.Library.Loop
import PresenceDevice.Presence

/-!
# The HTTP endpoint

`http_server.c` and `message_handler.c`: the handler of `POST /message`. It receives the body into
a buffer on its stack, in as many pieces as the network delivers, parses it as JSON and shows the
message found there.

The server and the JSON library are other people's code. `Recv` stands for the results of
`httpd_req_recv`, one for each call, each of at most the length asked for; `CJson` for the
functions of cJSON that the handler calls. What the handler does with its calls does not depend on
the parser; where it matters, it is the bundled one of `CJsonParser`.

## Main definitions

* `RecvResult`, `Recv`, `CJson`: what the handler is given
* `recvStep`, `recvLoop`: the receive loop
* `parseLevel`, `messagePostHandler`: the functions of the source
* `PostOutcome`: everything the handler does
-/

namespace PresenceDevice

/-- `sizeof(buffer)`. -/
def postBufferSize : ℕ := 512

/-- What an `int` becomes in an expression with a `size_t`. -/
def toSizeT (n : ℤ) : ℕ := (n % 2 ^ 32).toNat

/-- The result of `httpd_req_recv` when `asked` bytes were asked for: an error, a closed
connection, or some bytes. -/
inductive RecvResult (asked : ℕ)
  | failed (code : ℤ) (nonpos : code ≤ 0)
  | received (data : List UInt8) (nonempty : data ≠ []) (le_asked : data.length ≤ asked)

/-- The results of the calls, in order. -/
abbrev Recv := ℕ → (asked : ℕ) → RecvResult asked

/-- The part of cJSON that the handler uses. A missing item is `none`. -/
structure CJson where
  Node : Type
  parse : CString → Option Node
  getObjectItem : Node → CString → Option Node
  isString : Node → Bool
  valuestring : Node → CString

/-- The string of a member of `json`. `cJSON_IsString(NULL)` is false. -/
def CJson.stringItem (cjson : CJson) (json : cjson.Node) (name : String) : Option CString :=
  ((cjson.getObjectItem json (.ofString name)).filter cjson.isString).map cjson.valuestring

inductive HttpdErrCode
  | contentTooLarge
  | badRequest
  deriving DecidableEq

/-- What is sent back. A handler that returns `ESP_FAIL` sends nothing. -/
inductive Reply
  | nothing
  | sendErr (code : HttpdErrCode) (text : String)
  | send (text : String)
  deriving DecidableEq

/-- The effects of the handler: its writes to the buffer, each with its offset and length, its
calls of `message_handler_handle`, the reply, and the presence module it leaves behind. -/
structure PostOutcome where
  writes : List (ℤ × ℕ)
  handled : List AgentMessage
  reply : Reply
  presence : Presence

/-- `parse_level`. -/
def parseLevel (value : CString) : Option AgentMessageLevel :=
  if value = .ofString "INFO" then some .info
  else if value = .ofString "WARNING" then some .warning
  else if value = .ofString "ATTENTION" then some .attention
  else none

/-- `message_handler_handle`. -/
def messageHandlerHandle (message : AgentMessage) (p : Presence) : Presence :=
  presenceShowMessage (some message) p

/-! ### Receiving the body -/

/-- Bytes stored in the buffer from `offset` on. -/
def writeAt (buffer : List UInt8) (offset : ℕ) (data : List UInt8) : List UInt8 :=
  buffer.take offset ++ data ++ buffer.drop (offset + data.length)

/-- The variables of the receive loop; `failed` once it has returned `ESP_FAIL`. -/
structure RecvState where
  buffer : List UInt8
  totalReceived : ℤ
  calls : ℕ
  failed : Bool
  writes : List (ℤ × ℕ)

/-- The body of the receive loop, for the result of `httpd_req_recv`. -/
def RecvState.next {asked : ℕ} (s : RecvState) : RecvResult asked → RecvState
  | .failed _ _ => { s with calls := s.calls + 1, failed := true }
  | .received data _ _ =>
    { s with
      buffer := writeAt s.buffer s.totalReceived.toNat data
      writes := s.writes ++ [(s.totalReceived, data.length)]
      totalReceived := s.totalReceived + data.length
      calls := s.calls + 1 }

/-- One pass of the receive loop. -/
def recvStep (contentLen : ℕ) (recv : Recv) (s : RecvState) : Option RecvState :=
  if s.failed ∨ ¬ toSizeT s.totalReceived < contentLen then none
  else some (s.next (recv s.calls (toSizeT (contentLen - s.totalReceived))))

/-- The receive loop, with as many passes as there may be: see `recvLoop_exits`. -/
def recvLoop (contentLen : ℕ) (recv : Recv) (buffer : List UInt8) : RecvState :=
  Loop.run (recvStep contentLen recv) (contentLen + 1) ⟨buffer, 0, 0, false, []⟩

/-! ### The handler -/

/-- The rest of `message_post_handler`, when the buffer holds `text`. -/
def postText (cjson : CJson) (text : CString) (writes : List (ℤ × ℕ)) (p : Presence) :
    PostOutcome :=
  match cjson.parse text with
  | none => ⟨writes, [], .sendErr .badRequest "Invalid JSON", p⟩
  | some json =>
    match cjson.stringItem json "source", cjson.stringItem json "title",
      cjson.stringItem json "body", cjson.stringItem json "level" with
    | some source, some title, some body, some level =>
      match parseLevel level with
      | none => ⟨writes, [], .sendErr .badRequest "Invalid level", p⟩
      | some level =>
        let message : AgentMessage := ⟨some source, some title, some body, level⟩
        ⟨writes, [message], .send "MESSAGE RECEIVED", messageHandlerHandle message p⟩
    | _, _, _, _ => ⟨writes, [], .sendErr .badRequest "Missing or invalid fields", p⟩

/-- `message_post_handler` for a request of `contentLen` bytes, with what happens to be in the
buffer. -/
def messagePostHandler (cjson : CJson) (contentLen : ℕ) (recv : Recv) (buffer : List UInt8)
    (p : Presence) : PostOutcome :=
  if contentLen ≥ postBufferSize then
    ⟨[], [], .sendErr .contentTooLarge "Request body too large", p⟩
  else
    let s := recvLoop contentLen recv buffer
    if s.failed then ⟨s.writes, [], .nothing, p⟩
    else
      postText cjson (.ofBuffer (writeAt s.buffer s.totalReceived.toNat [0]))
        (s.writes ++ [(s.totalReceived, 1)]) p

end PresenceDevice

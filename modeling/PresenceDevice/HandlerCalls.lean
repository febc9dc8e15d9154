import PresenceDevice.HttpServer
import PresenceDevice.Library.Script

/-!
# The handler and its calls

`message_post_handler` once more, call by call: the pieces of the body that it receives, the JSON
tree that it has parsed and must delete, the strings that it reads out of the tree, the message
that it passes on and the reply. Whatever it is answered, it must delete the tree once, not touch
it any more after that, and send one reply.

`HttpServer` says what the handler computes when the answers come from `Recv` and `CJson`. It is the
same handler.

## Main definitions

* `HandlerCall`, `messagePostHandlerCalls`: the calls of the handler
* `HandlerState`, `handlerProtocol`: what may be called when

## Main results

* `messagePostHandlerCalls_keeps`: no leak, no use after free, one reply
* `play_messagePostHandlerCalls`: the handler of `HttpServer` is this one
-/

namespace PresenceDevice

/-- The calls of the handler. What is read of the tree is a call on the tree. -/
inductive HandlerCall (Node : Type)
  | httpdReqRecv (asked : ℕ)
  | cJsonParse (text : CString)
  | cJsonGetObjectItem (json : Node) (name : String)
  | cJsonIsString (json item : Node)
  | valuestring (json : Node) (item : Option Node)
  | messageHandlerHandle (json : Node) (message : AgentMessage)
  | cJsonDelete (json : Node)
  | httpdResp (reply : Reply)

def HandlerCall.Answer {Node : Type} : HandlerCall Node → Type
  | .httpdReqRecv asked => RecvResult asked
  | .cJsonParse _ => Option Node
  | .cJsonGetObjectItem _ _ => Option Node
  | .cJsonIsString _ _ => Bool
  | .valuestring _ _ => CString
  | .messageHandlerHandle _ _ | .cJsonDelete _ | .httpdResp _ => Unit

abbrev Handler (Node : Type) := Script (HandlerCall Node) HandlerCall.Answer

variable {Node : Type}

/-! ### The calls of the source -/

def cJsonParseCall (text : CString) : Handler Node (Option Node) :=
  .perform (HandlerCall.cJsonParse text)

def getItem (json : Node) (name : String) : Handler Node (Option Node) :=
  .perform (HandlerCall.cJsonGetObjectItem json name)

/-- `cJSON_IsString`. A missing item is not looked at. -/
def isStringCalls (json : Node) : Option Node → Handler Node Bool
  | none => pure false
  | some item => .perform (HandlerCall.cJsonIsString json item)

/-- `item->valuestring`. -/
def readString (json : Node) (item : Option Node) : Handler Node CString :=
  .perform (HandlerCall.valuestring json item)

def handleMessage (json : Node) (message : AgentMessage) : Handler Node Unit :=
  .perform (HandlerCall.messageHandlerHandle json message)

def respond (reply : Reply) : Handler Node Unit := .perform (HandlerCall.httpdResp reply)

/-- Delete the tree and reply. -/
def deleteAndReply (json : Node) (reply : Reply) : Handler Node Unit :=
  .call (HandlerCall.cJsonDelete json) fun _ => respond reply

/-! ### The handler -/

/-- The receive loop, with as many passes as there may be. -/
def recvCalls (contentLen : ℕ) : ℕ → RecvState → Handler Node RecvState
  | 0, s => pure s
  | fuel + 1, s =>
    if s.failed ∨ ¬ toSizeT s.totalReceived < contentLen then pure s
    else
      .call (.httpdReqRecv (toSizeT (contentLen - s.totalReceived))) fun result =>
        recvCalls contentLen fuel (s.next result)

/-- The condition behind the four `cJSON_GetObjectItem`, which stops at the first item that is no
string. -/
def allStrings (json : Node) : List (Option Node) → Handler Node Bool
  | [] => pure true
  | item :: rest => do
    if ← isStringCalls json item then allStrings json rest else return false

/-- The end of the handler, when the level is `messageLevel`. -/
def acceptedCalls (json : Node) (source title body : Option Node)
    (messageLevel : AgentMessageLevel) : Handler Node Unit := do
  let source ← readString json source
  let title ← readString json title
  let body ← readString json body
  handleMessage json ⟨some source, some title, some body, messageLevel⟩
  deleteAndReply json (.send "MESSAGE RECEIVED")

/-- The handler behind `cJSON_Parse`. -/
def parsedCalls (json : Node) : Handler Node Unit := do
  let source ← getItem json "source"
  let title ← getItem json "title"
  let body ← getItem json "body"
  let level ← getItem json "level"
  if ← allStrings json [source, title, body, level] then
    let levelText ← readString json level
    (parseLevel levelText).elim (deleteAndReply json (.sendErr .badRequest "Invalid level"))
      (acceptedCalls json source title body)
  else deleteAndReply json (.sendErr .badRequest "Missing or invalid fields")

/-- The handler behind the receive loop. -/
def receivedCalls (s : RecvState) : Handler Node Unit :=
  if s.failed then pure ()
  else do
    let json ← cJsonParseCall (.ofBuffer (writeAt s.buffer s.totalReceived.toNat [0]))
    json.elim (respond (.sendErr .badRequest "Invalid JSON")) parsedCalls

/-- `message_post_handler`. -/
def messagePostHandlerCalls (contentLen : ℕ) (buffer : List UInt8) : Handler Node Unit :=
  if contentLen ≥ postBufferSize then respond (.sendErr .contentTooLarge "Request body too large")
  else recvCalls contentLen (contentLen + 1) ⟨buffer, 0, 0, false, []⟩ >>= receivedCalls

/-! ### What may be called when -/

/-- The tree that has been parsed and not yet been deleted, whether a reply has been sent, and
whether the connection was lost. -/
structure HandlerState (Node : Type) where
  live : Option Node
  replied : Bool
  lost : Bool

variable [DecidableEq Node]

/-- The tree is only touched while it is live, one tree at a time; no pointer that is `NULL` is
followed; and nothing comes after the reply. -/
def handlerProtocol (x : HandlerState Node) :
    (Σ c : HandlerCall Node, c.Answer) → Option (HandlerState Node)
  | ⟨.httpdReqRecv _, .failed _ _⟩ =>
    if x.live = none ∧ !x.replied ∧ !x.lost then some { x with lost := true } else none
  | ⟨.httpdReqRecv _, .received _ _ _⟩ =>
    if x.live = none ∧ !x.replied ∧ !x.lost then some x else none
  | ⟨.cJsonParse _, tree⟩ =>
    if x.live = none ∧ !x.replied ∧ !x.lost then some { x with live := tree } else none
  | ⟨.cJsonGetObjectItem json _, _⟩ | ⟨.cJsonIsString json _, _⟩
  | ⟨.messageHandlerHandle json _, _⟩ => if x.live = some json then some x else none
  | ⟨.valuestring json item, _⟩ =>
    if x.live = some json ∧ item.isSome then some x else none
  | ⟨.cJsonDelete json, _⟩ =>
    if x.live = some json then some { x with live := none } else none
  | ⟨.httpdResp _, _⟩ =>
    if x.live = none ∧ !x.replied ∧ !x.lost then some { x with replied := true } else none

variable {x : HandlerState Node} {json : Node} {items : List (Option Node)}
  {post : Option Unit → HandlerState Node → Prop}

/-- When all of them are strings, none of them is missing. -/
theorem keeps_allStrings {f : Bool → Handler Node Unit} (hlive : x.live = some json)
    (h : ∀ all, (all = true → ∀ item ∈ items, item.isSome) →
      Script.Keeps handlerProtocol (f all) post x) :
    Script.Keeps handlerProtocol (allStrings json items >>= f) post x := by
  induction items with
  | nil => exact h true fun _ => nofun
  | cons item rest ih =>
    cases item with
    | none => exact h false nofun
    | some item =>
      intro isString
      refine ⟨x, if_pos hlive, ?_⟩
      cases isString with
      | false => exact h false nofun
      | true =>
        refine ih fun all hall => h all fun hall' => ?_
        exact List.forall_mem_cons.mpr ⟨rfl, hall hall'⟩

/-- What the handler owes at its end: no tree is left, and a reply has been sent unless the
connection was lost. -/
def HandlerState.Done (x : HandlerState Node) : Prop := x.live = none ∧ x.replied = !x.lost

theorem keeps_deleteAndReply (hx : x = ⟨some json, false, false⟩) (reply : Reply) :
    Script.Keeps handlerProtocol (deleteAndReply json reply) (fun _ x => x.Done) x := by
  subst hx
  exact fun _ => ⟨⟨none, false, false⟩, if_pos rfl, fun _ => ⟨⟨none, true, false⟩, rfl, rfl, rfl⟩⟩

theorem keeps_readString {f : CString → Handler Node Unit} {item : Option Node}
    (hlive : x.live = some json) (hitem : item.isSome)
    (h : ∀ s, Script.Keeps handlerProtocol (f s) post x) :
    Script.Keeps handlerProtocol (readString json item >>= f) post x :=
  fun s => ⟨x, if_pos ⟨hlive, hitem⟩, h s⟩

theorem keeps_getItem {f : Option Node → Handler Node Unit} {name : String}
    (hlive : x.live = some json) (h : ∀ item, Script.Keeps handlerProtocol (f item) post x) :
    Script.Keeps handlerProtocol (getItem json name >>= f) post x :=
  fun item => ⟨x, if_pos hlive, h item⟩

/-- Behind `cJSON_Parse` the tree is live until it is deleted. -/
theorem keeps_parsedCalls (json : Node) :
    Script.Keeps handlerProtocol (parsedCalls json) (fun _ x => x.Done)
      ⟨some json, false, false⟩ := by
  refine keeps_getItem rfl fun source => keeps_getItem rfl fun title => keeps_getItem rfl
    fun body => keeps_getItem rfl fun level => keeps_allStrings rfl fun all hall => ?_
  cases all with
  | false => exact keeps_deleteAndReply rfl _
  | true =>
    obtain ⟨hsource, htitle, hbody, hlevel, -⟩ := by
      simpa only [List.forall_mem_cons] using hall rfl
    refine keeps_readString rfl hlevel fun levelText => ?_
    cases parseLevel levelText with
    | none => exact keeps_deleteAndReply rfl _
    | some messageLevel =>
      refine keeps_readString rfl hsource fun source => keeps_readString rfl htitle fun title =>
        keeps_readString rfl hbody fun body => ?_
      exact fun _ => ⟨_, if_pos rfl, keeps_deleteAndReply rfl _⟩

theorem keeps_receivedCalls (s : RecvState) :
    Script.Keeps handlerProtocol (receivedCalls s) (fun _ x => x.Done)
      (⟨none, false, s.failed⟩ : HandlerState Node) := by
  cases hfailed : s.failed with
  | true =>
    rw [receivedCalls, if_pos hfailed]
    exact ⟨rfl, rfl⟩
  | false =>
    rw [receivedCalls, if_neg (Bool.eq_false_iff.mp hfailed)]
    intro json
    cases json with
    | none => exact ⟨_, rfl, fun _ => ⟨⟨none, true, false⟩, rfl, rfl, rfl⟩⟩
    | some json => exact ⟨_, rfl, keeps_parsedCalls json⟩

/-- The receive loop touches no tree, and fails when the connection is lost. -/
theorem keeps_recvCalls (contentLen fuel : ℕ) (s : RecvState) :
    Script.Keeps handlerProtocol (recvCalls contentLen fuel s)
      (fun out x => ∃ s', out = some s' ∧ x = (⟨none, false, s'.failed⟩ : HandlerState Node))
      ⟨none, false, s.failed⟩ := by
  induction fuel generalizing s with
  | zero => exact ⟨s, rfl, rfl⟩
  | succ fuel ih =>
    rw [recvCalls]
    split_ifs with hend
    · exact ⟨s, rfl, rfl⟩
    · have hfailed : s.failed = false := Bool.eq_false_iff.mpr fun h => hend (Or.inl h)
      intro result
      cases result with
      | failed code nonpos =>
        exact ⟨⟨none, false, true⟩, by rw [hfailed]; rfl, ih (s.next (.failed code nonpos))⟩
      | received data nonempty le_asked =>
        refine ⟨⟨none, false, s.failed⟩, by rw [hfailed]; rfl, ?_⟩
        exact ih (s.next (.received data nonempty le_asked))

/-- **The handler keeps to the protocol**, whatever it is answered: it deletes the tree once and
does not touch it any more, follows no missing item, and sends one reply unless the connection was
lost. -/
theorem messagePostHandlerCalls_keeps (contentLen : ℕ) (buffer : List UInt8) :
    Script.Keeps handlerProtocol (messagePostHandlerCalls contentLen buffer)
      (fun _ x => x.Done) (⟨none, false, false⟩ : HandlerState Node) := by
  unfold messagePostHandlerCalls
  split_ifs with hlen
  · exact fun _ => ⟨⟨none, true, false⟩, rfl, rfl, rfl⟩
  · rw [Script.keeps_bind]
    refine (keeps_recvCalls contentLen _ ⟨buffer, 0, 0, false, []⟩).mono ?_
    rintro _ _ ⟨s, rfl, rfl⟩
    exact keeps_receivedCalls s

/-! ### The same handler -/

/-- What the handler does to the outside: the messages that it passes on and its replies. -/
def HandlerCall.effect : HandlerCall Node → Option (AgentMessage ⊕ Reply)
  | .messageHandlerHandle _ message => some (.inl message)
  | .httpdResp reply => some (.inr reply)
  | _ => none

def effects (log : List (Σ c : HandlerCall Node, c.Answer)) : List (AgentMessage ⊕ Reply) :=
  log.flatMap fun call => call.1.effect.toList

/-- The effects that `HttpServer` says the handler has. -/
def PostOutcome.effects (out : PostOutcome) : List (AgentMessage ⊕ Reply) :=
  out.handled.map .inl ++ if out.reply = .nothing then [] else [.inr out.reply]

/-- The answers of the network and of the parser. Nothing but `httpd_req_recv` is called before
`cJSON_Parse`, so that its results are counted by all the calls before. -/
def handlerAnswer (cjson : CJson) (recv : Recv)
    (past : List (Σ c : HandlerCall cjson.Node, c.Answer)) :
    (c : HandlerCall cjson.Node) → c.Answer
  | .httpdReqRecv asked => recv past.length asked
  | .cJsonParse text => cjson.parse text
  | .cJsonGetObjectItem json name => cjson.getObjectItem json (.ofString name)
  | .cJsonIsString _ item => cjson.isString item
  | .valuestring _ item => (item.map cjson.valuestring).getD (.ofString "")
  | .messageHandlerHandle _ _ | .cJsonDelete _ | .httpdResp _ => ()

section Play

variable {cjson : CJson} {recv : Recv} {contentLen : ℕ} {α β : Type}
  {past : List (Σ c : HandlerCall cjson.Node, c.Answer)} {s : Handler cjson.Node α} {a : α}

/-- The handler comes to `a` and the outside does not notice. -/
def Yields (cjson : CJson) (recv : Recv) (past : List (Σ c : HandlerCall cjson.Node, c.Answer))
    (s : Handler cjson.Node α) (a : α) : Prop :=
  ∃ log, s.play (handlerAnswer cjson recv) past = (log, some a) ∧ effects log = []

/-- Where the network is not asked any more, the past does not matter. -/
def Shows (cjson : CJson) (recv : Recv) (s : Handler cjson.Node α)
    (e : List (AgentMessage ⊕ Reply)) : Prop :=
  ∀ past, effects (s.play (handlerAnswer cjson recv) past).1 = e

theorem yields_pure (a : α) : Yields cjson recv past (pure a) a := ⟨[], rfl, rfl⟩

theorem yields_call {c : HandlerCall cjson.Node} {next : c.Answer → Handler cjson.Node α}
    (hc : c.effect = none)
    (h : Yields cjson recv (past ++ [⟨c, handlerAnswer cjson recv past c⟩])
      (next (handlerAnswer cjson recv past c)) a) :
    Yields cjson recv past (.call c next) a := by
  obtain ⟨log, hplay, hlog⟩ := h
  refine ⟨⟨c, handlerAnswer cjson recv past c⟩ :: log, ?_, ?_⟩
  · rw [Script.play, hplay]
  · rw [effects, List.flatMap_cons, hc]
    exact hlog

theorem Yields.bind {f : α → Handler cjson.Node β} {e : List (AgentMessage ⊕ Reply)}
    (h : Yields cjson recv past s a) (hf : Shows cjson recv (f a) e) :
    effects ((s >>= f).play (handlerAnswer cjson recv) past).1 = e := by
  obtain ⟨log, hplay, hlog⟩ := h
  rw [Script.play_bind, hplay, Option.elim_some, effects, List.flatMap_append]
  exact (congrArg (· ++ _) hlog).trans (hf _)

theorem shows_bind {f : α → Handler cjson.Node β} {e : List (AgentMessage ⊕ Reply)}
    (h : ∀ past, Yields cjson recv past s a) (hf : Shows cjson recv (f a) e) :
    Shows cjson recv (s >>= f) e := fun past => (h past).bind hf

theorem RecvState.calls_next {asked : ℕ} (s : RecvState) (result : RecvResult asked) :
    (s.next result).calls = s.calls + 1 := by
  cases result <;> rfl

/-- The receive loop is that of `HttpServer`. -/
theorem yields_recvCalls (fuel : ℕ) (s : RecvState)
    (past : List (Σ c : HandlerCall cjson.Node, c.Answer)) (hpast : past.length = s.calls) :
    Yields cjson recv past (recvCalls contentLen fuel s)
      (Loop.run (recvStep contentLen recv) fuel s) := by
  induction fuel generalizing s past with
  | zero => exact yields_pure s
  | succ fuel ih =>
    by_cases hend : s.failed ∨ ¬ toSizeT s.totalReceived < contentLen
    · have hstep : recvStep contentLen recv s = none := if_pos hend
      rw [recvCalls, if_pos hend, Loop.run_of_exit hstep]
      exact yields_pure s
    · have hstep : recvStep contentLen recv s = some _ := if_neg hend
      rw [recvCalls, if_neg hend, Loop.run_succ_of_step hstep, ← hpast]
      refine yields_call rfl (ih _ _ ?_)
      rw [List.length_append, List.length_singleton, hpast]
      exact (s.calls_next _).symm

theorem yields_allStrings (json : cjson.Node) (items : List (Option cjson.Node)) :
    ∀ past, Yields cjson recv past (allStrings json items)
      (items.all fun item => item.any cjson.isString) := by
  induction items with
  | nil => exact fun _ => yields_pure true
  | cons item rest ih =>
    intro past
    cases item with
    | none => exact yields_pure false
    | some item =>
      refine yields_call rfl ?_
      cases h : cjson.isString item with
      | false =>
        simp only [List.all_cons, Option.any_some, h, Bool.false_and, handlerAnswer]
        exact yields_pure false
      | true =>
        simp only [List.all_cons, Option.any_some, h, Bool.true_and, handlerAnswer]
        exact ih _

theorem shows_deleteAndReply (json : cjson.Node) (reply : Reply) :
    Shows cjson recv (deleteAndReply json reply) [.inr reply] := fun _ => rfl

/-- What is read of an item. A missing item is not read. -/
def itemText (cjson : CJson) (item : Option cjson.Node) : CString :=
  (item.map cjson.valuestring).getD (.ofString "")

theorem shows_acceptedCalls (json : cjson.Node) (source title body : Option cjson.Node)
    (level : AgentMessageLevel) :
    Shows cjson recv (acceptedCalls json source title body level)
      [.inl ⟨some (itemText cjson source), some (itemText cjson title),
        some (itemText cjson body), level⟩, .inr (.send "MESSAGE RECEIVED")] := fun _ => rfl

theorem stringItem_eq (json : cjson.Node) (name : String) :
    cjson.stringItem json name =
      if (cjson.getObjectItem json (.ofString name)).any cjson.isString then
        some (itemText cjson (cjson.getObjectItem json (.ofString name)))
      else none := by
  unfold CJson.stringItem
  cases cjson.getObjectItem json (.ofString name) with
  | none => rfl
  | some item =>
    rw [Option.filter_some, Option.any_some]
    split_ifs <;> rfl

theorem shows_getItem {f : Option cjson.Node → Handler cjson.Node α} {json : cjson.Node}
    {name : String} {e : List (AgentMessage ⊕ Reply)}
    (h : Shows cjson recv (f (cjson.getObjectItem json (.ofString name))) e) :
    Shows cjson recv (getItem json name >>= f) e :=
  shows_bind (fun _ => yields_call rfl (yields_pure _)) h

/-- Behind `cJSON_Parse` as well. -/
theorem shows_parsedCalls {text : CString} {json : cjson.Node} (h : cjson.parse text = some json)
    (writes : List (ℤ × ℕ)) (p : Presence) :
    Shows cjson recv (parsedCalls json) (postText cjson text writes p).effects := by
  simp only [postText, h, stringItem_eq]
  refine shows_getItem <| shows_getItem <| shows_getItem <| shows_getItem <|
    shows_bind (yields_allStrings json _) ?_
  generalize cjson.getObjectItem json (.ofString "source") = source
  generalize cjson.getObjectItem json (.ofString "title") = title
  generalize cjson.getObjectItem json (.ofString "body") = body
  generalize cjson.getObjectItem json (.ofString "level") = level
  simp only [List.all_cons, List.all_nil, Bool.and_true]
  cases source.any cjson.isString with
  | false => exact shows_deleteAndReply json _
  | true =>
  cases title.any cjson.isString with
  | false => exact shows_deleteAndReply json _
  | true =>
  cases body.any cjson.isString with
  | false => exact shows_deleteAndReply json _
  | true =>
  cases level.any cjson.isString with
  | false => exact shows_deleteAndReply json _
  | true =>
  simp only [if_true]
  refine shows_bind (fun _ => yields_call rfl (yields_pure _)) ?_
  show Shows cjson recv (Option.elim (parseLevel (itemText cjson level)) _ _) _
  cases parseLevel (itemText cjson level) with
  | none => exact shows_deleteAndReply json _
  | some messageLevel => exact shows_acceptedCalls json source title body messageLevel

/-- Behind the receive loop as well. -/
theorem shows_receivedCalls (s : RecvState) (writes : List (ℤ × ℕ)) (p : Presence) :
    Shows cjson recv (receivedCalls s)
      (if s.failed then ⟨s.writes, [], .nothing, p⟩
        else postText cjson (.ofBuffer (writeAt s.buffer s.totalReceived.toNat [0])) writes p :
        PostOutcome).effects := by
  unfold receivedCalls
  split_ifs with hfailed
  · exact fun _ => rfl
  · refine shows_bind (fun _ => yields_call rfl (yields_pure _)) ?_
    show Shows cjson recv (Option.elim (cjson.parse _) _ _) _
    cases h : cjson.parse (.ofBuffer (writeAt s.buffer s.totalReceived.toNat [0])) with
    | none =>
      simp only [postText, h]
      exact fun _ => rfl
    | some json => exact shows_parsedCalls h writes p

/-- **The handler is that of `HttpServer`**: with the same network and the same parser it passes
the same message on and sends the same reply, in this order. -/
theorem play_messagePostHandlerCalls (cjson : CJson) (recv : Recv) (contentLen : ℕ)
    (buffer : List UInt8) (p : Presence) :
    effects ((messagePostHandlerCalls contentLen buffer).play (handlerAnswer cjson recv) []).1 =
      (messagePostHandler cjson contentLen recv buffer p).effects := by
  unfold messagePostHandlerCalls messagePostHandler
  split_ifs with hlen
  · rfl
  · exact (yields_recvCalls (contentLen + 1) _ [] rfl).bind (shows_receivedCalls _ _ p)

end Play

end PresenceDevice

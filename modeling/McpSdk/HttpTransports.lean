import McpSdk.ShardOperations

/-!
# The HTTP transports

`McpShard::dispatch` and the handlers of `http_sse_transport.hh` and
`streamable_http_transport.hh`, with the writers of their stream bodies. Each is a coroutine on
the shard `j` that accepted the request. A writer is cut at the head of its loop: one turn of the
loop is a coroutine that says whether there is another.
-/

namespace McpSdk
open CppStandardLibrary CooperativeTasks

/-- A coroutine of the server on one shard. -/
abbrev ShardTask (α : Type) := Coroutine ShardI Input Exception α

/-- An HTTP request: `get_header` and `get_query_param` give the empty string for what is not
there. -/
structure Request where
  header : Str → Str := fun _ => []
  query : Str → Str := fun _ => []
  content : Str := []

section Dispatch
variable (L : JsonLibrary) (d : JsonRpcDispatcher HandlerI)

/-- The shape of a client's response to a request of the server. -/
def isClientResponse (j : Json) : Bool :=
  j.isObject && j.contains "id".toList && !j.contains "method".toList &&
    (j.contains "result".toList || j.contains "error".toList)

/-- The value `dispatch` gives to `_current_progress_token`. -/
def progressToken (body : Str) : Str :=
  match L.parse body with
  | none => []
  | some j =>
      if j.contains "params".toList && (j.getD "params".toList).contains "_meta".toList then
        match ((j.getD "params".toList).getD "_meta".toList).valueString
            "progressToken".toList [] with
        | .ok token => token
        | .error _ => []
      else []

/-- The first part of `dispatch`: was the body a response that a pending request takes? -/
def takeClientResponse (body : Str) : ShardTask Bool :=
  match L.parse body with
  | none => return false
  | some j =>
      if isClientResponse j then do
        match ← transport (.handleClientResponse j) with
        | .ok true => return true
        | _ => return false
      else return false

/-- `McpShard::dispatch`. -/
def dispatch (body sessionId : Str) : ShardTask (Option Str) := do
  transport (.dispatch body sessionId)
  let handled ← takeClientResponse L body
  if handled then return none
  else
    transport (.setContext sessionId (progressToken L body))
    (d.handleRequest L body).inl.coAwait

/-- `response_opt && response_opt->find("\\"error\\"") != npos`. -/
def isError (response : Option Str) : Bool :=
  match response with
  | some text => containsText text "\"error\"".toList
  | none => false

end Dispatch

section Security

/-- `_get_client_ip`. -/
def getClientIp (req : Request) : Str :=
  let realIp := req.header "x-real-ip".toList
  if !realIp.isEmpty then realIp
  else
    let forwarded := req.header "x-forwarded-for".toList
    let ip := match find forwarded ',' 0 with
      | some pos => substr forwarded 0 pos
      | none => forwarded
    ((ip.dropWhile (· == ' ')).reverse.dropWhile (· == ' ')).reverse

/-- `_get_api_key`. -/
def getApiKey (req : Request) : Str :=
  let key := req.header "x-api-key".toList
  if !key.isEmpty then key
  else
    let auth := req.header "authorization".toList
    if auth.length > 7 && substr auth 0 7 == "Bearer ".toList then auth.drop 7 else []

/-- `_security_reject`. -/
def securityReject : SecurityCheckResult → Reply
  | .forbidden => { status := 403, body := "\x7b\"error\":\"Forbidden\",\"code\":403\x7d".toList }
  | .unauthorized =>
      { status := 401
        headers := [("WWW-Authenticate".toList, "Bearer".toList)]
        body := "\x7b\"error\":\"Unauthorized\",\"code\":401\x7d".toList }
  | .tooManyRequests =>
      { status := 429
        headers := [("Retry-After".toList, "1".toList)]
        body := "\x7b\"error\":\"Too Many Requests\",\"code\":429\x7d".toList }
  | .serviceUnavailable | .connectionLimit =>
      { status := 503, body := "\x7b\"error\":\"Service Unavailable\",\"code\":503\x7d".toList }
  | .payloadTooLarge =>
      { status := 413, body := "\x7b\"error\":\"Payload Too Large\",\"code\":413\x7d".toList }
  | .ok => {}

def streamHeaders : List (Str × Str) :=
  [("Content-Type".toList, "text/event-stream".toList), ("Cache-Control".toList, "no-cache".toList),
    ("Connection".toList, "keep-alive".toList)]

end Security

/-- The response of a session request goes to the session's queue, on shard `target`. -/
def pushResponse (j target : ℕ) (sessionId msg : Str) : ShardTask Unit :=
  if target = j then onShard (.pushToSession sessionId msg)
  else Coroutine.send target (onShard (.pushToSession sessionId msg))

namespace HttpSseTransport
variable (L : JsonLibrary) (d : JsonRpcDispatcher HandlerI) (j : ℕ)

/-- `_parse_shard`. -/
def parseShard (sessionId : Str) : ℕ :=
  if sessionId.length > 1 && sessionId.head? == some 's' then
    match find sessionId '_' 0 with
    | some pos =>
        if pos > 1 then
          match stoul (substr sessionId 1 (pos - 1)) with
          | some n => n % 2 ^ 32
          | none => 0
        else 0
    | none => 0
  else 0

/-- `_handle_sse`. -/
def handleSse (req : Request) : ShardTask Reply := do
  let clientIp := getClientIp req
  let check ← transport (.checkRequest clientIp (getApiKey req))
  if check ≠ .ok then return securityReject check
  else
    let sessionId ← transport (.createSession clientIp)
    if sessionId.isEmpty then return securityReject .connectionLimit
    else
      match ← transport (.getSession sessionId) with
      | some session =>
          return { headers := streamHeaders, stream := some ⟨.sse, sessionId, session⟩ }
      | none => .throw (.std "null session".toList)

/-- `_handle_message`. -/
def handleMessage (req : Request) : ShardTask Reply := do
  let clientIp := getClientIp req
  let body := req.content
  if !(← transport (.checkBodySize body.length)) then return securityReject .payloadTooLarge
  else
    let check ← transport (.checkRequest clientIp (getApiKey req))
    if check ≠ .ok then return securityReject check
    else
      let sessionId := req.query "sessionId".toList
      let response ← (dispatch L d body sessionId).coAwait
      transport (.recordOutcome clientIp (isError response))
      if sessionId.isEmpty then
        match response with
        | some text => return { body := text }
        | none => return { status := 202 }
      else
        match response with
        | some text => pushResponse j (parseShard sessionId) sessionId text
        | none => pure ()
        return { status := 202 }

end HttpSseTransport

namespace StreamableHttpTransport
variable (L : JsonLibrary) (d : JsonRpcDispatcher HandlerI) (j : ℕ)

/-- `_parse_shard`. -/
def parseShard (id : Str) : ℕ :=
  let start := if id.length > 2 && id.head? == some 's' && id[1]? == some 'm' then 2 else 1
  match find id '_' start with
  | some pos =>
      if pos > start then
        match stoul (substr id start (pos - start)) with
        | some n => n % 2 ^ 32
        | none => 0
      else 0
  | none => 0

/-- The mode of `_handle_post` without a session. -/
def postDirect (clientIp body : Str) : ShardTask Reply := do
  let response ← (dispatch L d body []).coAwait
  transport (.recordOutcome clientIp (isError response))
  match response with
  | some text => return { body := text }
  | none => return { status := 202 }

/-- The mode of `_handle_post` that opens a session. -/
def postNewSession (clientIp body : Str) : ShardTask Reply := do
  let counter ← transport .nextCounter
  let sessionId := "sm".toList ++ toStr j ++ "_".toList ++ toStr counter
  match ← transport (.createSessionWithId sessionId clientIp) with
  | none => return securityReject .connectionLimit
  | some session =>
      let response ← (dispatch L d body sessionId).coAwait
      transport (.recordOutcome clientIp (isError response))
      match response with
      | some text => transport (.pushEventually session text)
      | none => pure ()
      return { headers := ("mcp-session-id".toList, sessionId) :: streamHeaders
               stream := some ⟨.post, sessionId, session⟩ }

/-- The mode of `_handle_post` that names a session. -/
def postSession (clientIp body sessionId : Str) : ShardTask Reply := do
  let response ← (dispatch L d body sessionId).coAwait
  transport (.recordOutcome clientIp (isError response))
  match response with
  | some text => pushResponse j (parseShard sessionId) sessionId text
  | none => pure ()
  return { status := 202 }

/-- `_handle_post`. -/
def handlePost (req : Request) : ShardTask Reply := do
  let clientIp := getClientIp req
  let body := req.content
  if !(← transport (.checkBodySize body.length)) then return securityReject .payloadTooLarge
  else
    let check ← transport (.checkRequest clientIp (getApiKey req))
    if check ≠ .ok then return securityReject check
    else
      let sessionId := req.header "mcp-session-id".toList
      let wantsSse := containsText (req.header "accept".toList) "text/event-stream".toList
      if !sessionId.isEmpty then postSession L d j clientIp body sessionId
      else if wantsSse then postNewSession L d j clientIp body
      else postDirect L d clientIp body

/-- `_handle_get`. -/
def handleGet (req : Request) : ShardTask Reply := do
  let check ← transport (.checkRequest (getClientIp req) (getApiKey req))
  if check ≠ .ok then return securityReject check
  else
    let sessionId := req.header "mcp-session-id".toList
    if sessionId.isEmpty then
      return { status := 400
               body := "\x7b\"error\":\"Mcp-Session-Id header required\"\x7d".toList }
    else
      match ← transport (.getSession sessionId) with
      | none =>
          return { status := 404
                   body := "\x7b\"error\":\"Session not found on this shard\"\x7d".toList }
      | some session =>
          return { headers := streamHeaders ++ [("mcp-session-id".toList, sessionId)]
                   stream := some ⟨.reconnect, sessionId, session⟩ }

/-- The closing of a session by `_handle_delete`, on the shard that has it. -/
def closeSession (sessionId : Str) : ShardTask Unit := do
  match ← transport (.getSession sessionId) with
  | some session =>
      transport (.deactivate session)
      transport (.pushEventually session [])
  | none => pure ()
  transport (.removeSession sessionId)

/-- `_handle_delete`. -/
def handleDelete (req : Request) : ShardTask Reply := do
  let sessionId := req.header "mcp-session-id".toList
  if !sessionId.isEmpty then
    if parseShard sessionId = j then closeSession sessionId
    else Coroutine.send (parseShard sessionId) (closeSession sessionId)
  return {}

end StreamableHttpTransport

section Writers

/-- Where a stream writer stands: before its first message, or at the head of its loop. -/
inductive WriterState
  | opening (s : Stream)
  | looping (s : Stream)

def WriterState.stream : WriterState → Stream
  | .opening s | .looping s => s

/-- `co_await out.write(text); co_await out.flush();`. -/
def writeOut (sessionId text : Str) : ShardTask Unit := do
  transport (.write sessionId text)
  let _ ← Coroutine.ofExcept (← Coroutine.external)
  let _ ← Coroutine.ofExcept (← Coroutine.external)

/-- `co_await session->messages.pop_eventually()`. -/
def popMessage (session : ℕ) : ShardTask Str := do
  match ← transport (.popEventually session) with
  | .message msg => (pure msg : ShardTask Str).coAwait
  | .waiter n =>
      let msg ← transportWait (.popWaiting session n)
      Coroutine.ofExcept msg

/-- One turn of the loop of a writer: is there another? -/
def writerTurn (s : Stream) : ShardTask Bool := do
  if !(← transport (.isActive s.session)) then return false
  else
    let msg ← popMessage s.session
    if msg.isEmpty || !(← transport (.isActive s.session)) then return false
    else
      writeOut s.sessionId ("data: ".toList ++ msg ++ "\n\n".toList)
      return true

/-- What follows the loop of a writer. Only the writer of a reconnected stream leaves the
subscriptions alone. -/
def closeStream (s : Stream) : ShardTask Unit := do
  if s.kind ≠ .reconnect then transport (.cleanupSubscriptions s.sessionId)
  transport (.removeSession s.sessionId)
  let _ ← Coroutine.external

/-- `catch (...) { session->active = false; }` around a part of a writer. -/
def guarded (s : Stream) (t : ShardTask Bool) : ShardTask (Option WriterState) := do
  let again ← t.tryCatch (fun _ => do
    transport (.deactivate s.session)
    return false)
  if again then return some (.looping s)
  else
    closeStream s
    return none

/-- A stream writer up to the next head of its loop. -/
def runWriter : WriterState → ShardTask (Option WriterState)
  | .opening s => guarded s (do
      writeOut s.sessionId
        ("event: endpoint\ndata: /message?sessionId=".toList ++ s.sessionId ++ "\n\n".toList)
      return true)
  | .looping s => guarded s (writerTurn s)

def Stream.writer (s : Stream) : WriterState :=
  match s.kind with
  | .sse => .opening s
  | .post | .reconnect => .looping s

@[simp] theorem stream_writer (s : Stream) : s.writer.stream = s := by
  unfold Stream.writer
  split <;> rfl

/-- What the server does once the head of a reply has been sent, or could not be. -/
def Reply.sent (reply : Reply) : Input → ShardTask (Option WriterState)
  | .ok _ => return reply.stream.map Stream.writer
  | .error _ => return none

/-- The HTTP server around a handler: an exception becomes an error reply, and when the head of
a reply with a stream has been sent the writer starts. -/
def serve (handler : ShardTask Reply) : ShardTask (Option WriterState) := do
  let reply ← handler.tryCatch (fun e => return { status := 500, body := match e with
    | .std what => what
    | .jsonRpc _ message _ => message })
  transport (.respond reply)
  match ← Coroutine.external with
  | .ok _ => return reply.stream.map Stream.writer
  | .error _ => return none

/-- A reply may be sent in phase `q`, and what may follow it satisfies `Q`. -/
structure Sends {Φ : Type} (C : Contract ShardI Φ) (Q : Option WriterState → Φ → Prop)
    (reply : Reply) (q : Φ) : Prop where
  allows : C.allows q (.inr (.respond reply))
  rests : C.rests (C.next q (.inr (.respond reply)) ())
  streams : Q (reply.stream.map Stream.writer) (C.next q (.inr (.respond reply)) ())
  fails : Q none (C.next q (.inr (.respond reply)) ())

theorem follows_serve {Φ : Type} {C : Contract ShardI Φ} {q : Φ} {handler : ShardTask Reply}
    {Q : Option WriterState → Φ → Prop} {E : Exception → Φ → Prop}
    (h : handler.Follows C q (fun reply q' => Sends C Q reply q')
      (fun _ q' => ∀ reply : Reply, reply.status = 500 → reply.stream = none →
        Sends C Q reply q')) :
    (serve handler).Follows C q Q E := by
  have hsend : ∀ {reply : Reply} {q' : Φ}, Sends C Q reply q' →
      ∀ input : Input, (match input with
        | .ok _ => (pure (reply.stream.map Stream.writer) : ShardTask (Option WriterState))
        | .error _ => pure none).Follows C (C.next q' (.inr (.respond reply)) ()) Q E := by
    intro reply q' hs input
    cases input with
    | ok _ => exact hs.streams
    | error _ => exact hs.fails
  apply (Coroutine.follows_bind _ _).mpr
  apply (Coroutine.follows_tryCatch _ _).mpr
  apply h.mono
  · exact fun reply q' hs => ⟨hs.allows, fun _ _ => ⟨hs.rests, hsend hs⟩⟩
  · intro e q' hs
    have hs : Sends C Q { status := 500, body := match e with
      | .std what => what
      | .jsonRpc _ message _ => message } q' := hs _ rfl rfl
    exact ⟨hs.allows, fun _ _ => ⟨hs.rests, hsend hs⟩⟩

theorem follows_guarded_of_closes {Φ : Type} {C : Contract ShardI Φ} {q : Φ} {s : Stream}
    {t : ShardTask Bool} {Q : Option WriterState → Φ → Prop} {E : Exception → Φ → Prop}
    (ht : t.Follows C q
      (fun again q' => if again then Q (some (.looping s)) q'
        else (closeStream s).Follows C q' (fun _ => Q none) E)
      (fun _ q' => C.allows q' (.inr (.deactivate s.session)) ∧
        (closeStream s).Follows C (C.next q' (.inr (.deactivate s.session)) ())
          (fun _ => Q none) E)) :
    (guarded s t).Follows C q Q E := by
  unfold guarded
  rw [Coroutine.follows_bind, Coroutine.follows_tryCatch]
  refine ht.mono ?_ ?_
  · intro again q' hq
    cases again with
    | true => exact hq
    | false => exact (Coroutine.follows_bind _ _).mpr hq
  · intro _ q' hq
    refine ⟨hq.1, fun _ _ => ?_⟩
    exact (Coroutine.follows_bind (closeStream s) (fun _ => pure none)).mpr hq.2

theorem follows_guarded {Φ : Type} {C : Contract ShardI Φ} {q q' : Φ} {s : Stream}
    {t : ShardTask Bool} {Q : Option WriterState → Φ → Prop} {E : Exception → Φ → Prop}
    (ht : t.Follows C q (fun _ q₁ => q₁ = q') (fun _ q₁ => q₁ = q'))
    (hallows : C.allows q' (.inr (.deactivate s.session)))
    (hnext : C.next q' (.inr (.deactivate s.session)) () = q')
    (hagain : Q (some (.looping s)) q')
    (hclose : (closeStream s).Follows C q' (fun _ => Q none) E) :
    (guarded s t).Follows C q Q E := by
  refine follows_guarded_of_closes (ht.mono ?_ ?_)
  · rintro again _ rfl
    split
    · exact hagain
    · exact hclose
  · rintro _ _ rfl
    rw [hnext]
    exact ⟨hallows, hclose⟩

end Writers

section Calls
variable {A : ShardI.Op → Prop} {T : ℕ → Prop}

theorem calls_transport {op : TransportCall} (hop : A (.inr op)) : (transport op).Calls A T :=
  Coroutine.Calls.perform (I := ShardI) hop

theorem calls_onShard {op : HandlerCall} (hop : A (.inl op)) : (onShard op).Calls A T :=
  Coroutine.Calls.perform (I := ShardI) hop

theorem calls_transportWait {op : TransportCall} (hop : A (.inr op)) :
    (transportWait op).Calls A T :=
  Coroutine.Calls.waitFor (I := ShardI) hop

theorem follows_takeClientResponse {L : JsonLibrary} {body : Str}
    (h : ∀ j, L.parse body = some j → A (.inr (.handleClientResponse j))) :
    (takeClientResponse L body).Follows (.calling ShardI A T) () (fun _ _ => True)
      (fun _ _ => False) := by
  unfold takeClientResponse
  split
  · trivial
  · rename_i j hj
    split
    · rw [Coroutine.follows_bind, follows_transport]
      refine ⟨h j hj, fun taken _ => ?_⟩
      split <;> trivial
    · trivial

theorem calls_takeClientResponse {L : JsonLibrary} {body : Str}
    (h : ∀ j, L.parse body = some j → A (.inr (.handleClientResponse j))) :
    (takeClientResponse L body).Calls A T :=
  (follows_takeClientResponse h).mono (fun _ _ _ => trivial) (fun _ _ h => h.elim)

theorem stream_securityReject (result : SecurityCheckResult) :
    (securityReject result).stream = none := by
  cases result <;> rfl

theorem forall_of_stream_none {reply : Reply} (h : reply.stream = none) {P : Stream → Prop} :
    ∀ s ∈ reply.stream, P s := by
  rw [h]
  exact nofun

/-- The calls of `dispatch` and of the handlers it runs. -/
def DispatchCall : ShardI.Op → Prop
  | .inl _ | .inr (.dispatch _ _) | .inr (.handleClientResponse _) | .inr (.setContext _ _) => True
  | _ => False

/-- The calls of a POST that opens no session: those of `dispatch` and what surrounds them. -/
def PostCall : ShardI.Op → Prop
  | .inl _ => True
  | .inr (.dispatch _ _) | .inr (.handleClientResponse _) | .inr (.setContext _ _)
  | .inr (.checkBodySize _) | .inr (.checkRequest _ _) | .inr (.recordOutcome _ _) => True
  | _ => False

theorem DispatchCall.postCall {op : ShardI.Op} (h : DispatchCall op) : PostCall op := by
  rcases op with op | op
  · trivial
  · cases op <;> trivial

section Posts
variable (L : JsonLibrary) (d : JsonRpcDispatcher HandlerI) (hT : ∀ n, T n)
include hT

theorem calls_dispatch (body sessionId : Str) :
    (dispatch L d body sessionId).Calls DispatchCall T := by
  have hhandle : (d.handleRequest L body).inl.Calls DispatchCall T :=
    Coroutine.Calls.inl (Coroutine.Addresses.of_all hT _)
  apply (calls_transport trivial).bind
  intro _
  apply (calls_takeClientResponse (fun _ _ => trivial)).bind
  intro handled
  split
  · exact .pure _
  · exact (calls_transport trivial).bind (fun _ => hhandle.coAwait)

theorem calls_pushResponse (j target : ℕ) (sessionId msg : Str) :
    (pushResponse j target sessionId msg).Calls PostCall T := by
  unfold pushResponse
  split
  · exact calls_onShard trivial
  · exact Coroutine.Calls.send (hT _) (calls_onShard trivial)

theorem yields_settled (body sessionId ip : Str) {R : Reply → Prop}
    {k : Option Str → ShardTask Reply} (hk : ∀ response, (k response).Yields PostCall T R) :
    (do
      let response ← (dispatch L d body sessionId).coAwait
      transport (.recordOutcome ip (isError response))
      k response : ShardTask Reply).Yields PostCall T R := by
  apply Coroutine.Yields.bind ((calls_dispatch L d hT _ _).coAwait.mono (fun _ h => h.postCall))
  intro response
  exact .bind (calls_transport trivial) (fun _ => hk response)

theorem yields_handleMessage (j : ℕ) (req : Request) :
    (HttpSseTransport.handleMessage L d j req).Yields PostCall T (·.stream = none) := by
  apply Coroutine.Yields.bind (calls_transport trivial)
  intro small
  split
  · cases small <;> exact .pure rfl
  · apply Coroutine.Yields.bind (calls_transport trivial)
    intro check
    split
    · exact .pure (stream_securityReject check)
    · apply yields_settled L d hT
      intro response
      split
      · split <;> exact .pure rfl
      · split
        · exact .bind (calls_pushResponse hT _ _ _ _) (fun _ => .pure rfl)
        · exact .pure rfl

theorem calls_handleMessage (j : ℕ) (req : Request) :
    (HttpSseTransport.handleMessage L d j req).Calls PostCall T :=
  (yields_handleMessage L d hT j req).calls

theorem yields_postDirect (clientIp body : Str) :
    (StreamableHttpTransport.postDirect L d clientIp body).Yields PostCall T (·.stream = none) := by
  apply yields_settled L d hT
  intro response
  split <;> exact .pure rfl

theorem calls_postDirect (clientIp body : Str) :
    (StreamableHttpTransport.postDirect L d clientIp body).Calls PostCall T :=
  (yields_postDirect L d hT clientIp body).calls

theorem yields_postSession (j : ℕ) (clientIp body sessionId : Str) :
    (StreamableHttpTransport.postSession L d j clientIp body sessionId).Yields PostCall T
      (·.stream = none) := by
  apply yields_settled L d hT
  intro response
  split
  · exact .bind (calls_pushResponse hT _ _ _ _) (fun _ => .pure rfl)
  · exact .pure rfl

theorem calls_postSession (j : ℕ) (clientIp body sessionId : Str) :
    (StreamableHttpTransport.postSession L d j clientIp body sessionId).Calls PostCall T :=
  (yields_postSession L d hT j clientIp body sessionId).calls

end Posts

def GetCall : ShardI.Op → Prop
  | .inr (.checkRequest _ _) | .inr (.createSession _) | .inr (.getSession _) => True
  | _ => False

theorem calls_handleSse (req : Request) : (HttpSseTransport.handleSse req).Calls GetCall T := by
  apply (calls_transport trivial).bind
  intro check
  split
  · exact .pure _
  · apply (calls_transport trivial).bind
    intro sessionId
    split
    · exact .pure _
    · apply (calls_transport trivial).bind
      intro session
      split
      · exact .pure _
      · exact .throw _

theorem yields_handleGet (req : Request) :
    (StreamableHttpTransport.handleGet req).Yields GetCall T
      (fun reply => ∀ s ∈ reply.stream, s.kind = .reconnect) := by
  apply Coroutine.Yields.bind (calls_transport trivial)
  intro check
  split
  · exact .pure (forall_of_stream_none (stream_securityReject check))
  · dsimp only
    split
    · exact .pure (forall_of_stream_none rfl)
    · apply Coroutine.Yields.bind (calls_transport trivial)
      intro session
      cases session with
      | none => exact .pure (forall_of_stream_none rfl)
      | some ref =>
        refine .pure (fun s hs => ?_)
        obtain rfl := Option.some.inj hs
        rfl

theorem calls_handleGet (req : Request) :
    (StreamableHttpTransport.handleGet req).Calls GetCall T :=
  (yields_handleGet req).calls

def ClosingCall : ShardI.Op → Prop
  | .inr (.getSession _) | .inr (.deactivate _) | .inr (.pushEventually _ _)
  | .inr (.removeSession _) => True
  | _ => False

theorem yields_handleDelete {j : ℕ} {req : Request}
    (h : T (StreamableHttpTransport.parseShard (req.header "mcp-session-id".toList))) :
    (StreamableHttpTransport.handleDelete j req).Yields ClosingCall T (·.stream = none) := by
  have close : ∀ id, (StreamableHttpTransport.closeSession id).Calls ClosingCall T := by
    intro id
    apply (calls_transport trivial).bind
    intro session
    split
    · apply (calls_transport trivial).bind
      intro _
      exact (calls_transport trivial).bind (fun _ => calls_transport trivial)
    · exact calls_transport trivial
  unfold StreamableHttpTransport.handleDelete
  dsimp only
  split
  · split
    · exact .bind (close _) (fun _ => .pure rfl)
    · exact .bind (Coroutine.Calls.send h (close _)) (fun _ => .pure rfl)
  · exact .pure rfl

theorem calls_handleDelete {j : ℕ} {req : Request}
    (h : T (StreamableHttpTransport.parseShard (req.header "mcp-session-id".toList))) :
    (StreamableHttpTransport.handleDelete j req).Calls ClosingCall T :=
  (yields_handleDelete h).calls

def WriterCall : ShardI.Op → Prop
  | .inr (.write _ _) | .inr (.isActive _) | .inr (.deactivate _) | .inr (.popEventually _)
  | .inr (.popWaiting _ _) | .inr (.cleanupSubscriptions _) | .inr (.removeSession _) => True
  | _ => False

def TurnCall : ShardI.Op → Prop
  | .inr (.write _ _) | .inr (.isActive _) | .inr (.deactivate _) | .inr (.popEventually _)
  | .inr (.popWaiting _ _) => True
  | _ => False

theorem TurnCall.writerCall {op : ShardI.Op} (h : TurnCall op) : WriterCall op := by
  rcases op with op | op
  · exact h
  · cases op <;> trivial

theorem calls_writeOut {sessionId text : Str} (h : A (.inr (.write sessionId text))) :
    (writeOut sessionId text).Calls A T := by
  apply (calls_transport h).bind
  intro _
  apply Coroutine.Calls.external.bind
  intro _
  apply (Coroutine.Calls.ofExcept _).bind
  intro _
  apply Coroutine.Calls.external.bind
  intro _
  exact (Coroutine.Calls.ofExcept _).bind (fun _ => .pure _)

theorem calls_closeStream (s : Stream) : (closeStream s).Calls WriterCall T := by
  have hrest : (do
      transport (.removeSession s.sessionId)
      let _ ← Coroutine.external : ShardTask Unit).Calls WriterCall T :=
    (calls_transport trivial).bind (fun _ => Coroutine.Calls.external.bind (fun _ => .pure _))
  unfold closeStream
  split
  · exact (calls_transport trivial).bind (fun _ => hrest)
  · exact hrest

theorem calls_writerTurn (s : Stream) : (writerTurn s).Calls TurnCall T := by
  apply (calls_transport trivial).bind
  intro active
  split
  · exact .pure _
  · apply Coroutine.Calls.bind
    · apply (calls_transport trivial).bind
      intro popped
      cases popped with
      | message msg => exact (Coroutine.Calls.pure msg).coAwait
      | waiter n =>
        exact (calls_transportWait trivial).bind (fun msg => Coroutine.Calls.ofExcept msg)
    · intro msg
      apply (calls_transport trivial).bind
      intro active
      split
      · exact .pure _
      · exact (calls_writeOut trivial).bind (fun _ => .pure _)

def BeforeReply : ShardI.Op → Prop
  | .inr (.respond _) | .inr (.write _ _) | .inr (.isActive _) | .inr (.popEventually _)
  | .inr (.popWaiting _ _) | .inr (.cleanupSubscriptions _) => False
  | _ => True

theorem PostCall.beforeReply {op : ShardI.Op} (h : PostCall op) : BeforeReply op := by
  rcases op with op | op
  · trivial
  · cases op <;> trivial

theorem GetCall.beforeReply {op : ShardI.Op} (h : GetCall op) : BeforeReply op := by
  rcases op with op | op
  · trivial
  · cases op <;> trivial

theorem ClosingCall.beforeReply {op : ShardI.Op} (h : ClosingCall op) : BeforeReply op := by
  rcases op with op | op
  · trivial
  · cases op <;> trivial

/-- The streams of POST /mcp. -/
theorem yields_handlePost (L : JsonLibrary) (d : JsonRpcDispatcher HandlerI) (hT : ∀ n, T n) (j : ℕ)
    (req : Request) : (StreamableHttpTransport.handlePost L d j req).Yields BeforeReply T
      (fun reply => ∀ s ∈ reply.stream, s.kind = .post) := by
  have rejected : ∀ result, ∀ s ∈ (securityReject result).stream, s.kind = .post :=
    fun result => forall_of_stream_none (stream_securityReject result)
  have plain : ∀ {t : ShardTask Reply}, t.Yields PostCall T (·.stream = none) →
      t.Yields BeforeReply T (fun reply => ∀ s ∈ reply.stream, s.kind = .post) :=
    fun ht => ht.weaken (fun _ h => h.beforeReply) (fun _ hnone => forall_of_stream_none hnone)
  apply Coroutine.Yields.bind (calls_transport trivial)
  intro small
  split
  · exact .pure (rejected _)
  · apply Coroutine.Yields.bind (calls_transport trivial)
    intro check
    split
    · exact .pure (rejected _)
    · dsimp only
      split
      · exact plain (yields_postSession L d hT j _ _ _)
      · split
        · apply Coroutine.Yields.bind (calls_transport trivial)
          intro counter
          apply Coroutine.Yields.bind (calls_transport trivial)
          intro session
          split
          · exact .pure (rejected _)
          · rename_i ref
            have opened : ∀ headers : List (Str × Str), ∀ id,
                ∀ s ∈ ({ headers := headers, stream := some ⟨.post, id, ref⟩ } : Reply).stream,
                  s.kind = .post := by
              rintro headers id s ⟨⟩
              rfl
            apply Coroutine.Yields.bind
            · exact (calls_dispatch L d hT _ _).coAwait.mono (fun _ h => h.postCall.beforeReply)
            · intro response
              apply Coroutine.Yields.bind (calls_transport trivial)
              intro _
              split
              · exact .bind (calls_transport trivial) (fun _ => .pure (opened _ _))
              · exact .pure (opened _ _)
        · exact plain (yields_postDirect L d hT _ _)

theorem calls_handlePost (L : JsonLibrary) (d : JsonRpcDispatcher HandlerI) (hT : ∀ n, T n) (j : ℕ)
    (req : Request) : (StreamableHttpTransport.handlePost L d j req).Calls BeforeReply T :=
  (yields_handlePost L d hT j req).calls

theorem calls_serve {handler : ShardTask Reply} (h : handler.Calls A T)
    (hrespond : ∀ reply, A (.inr (.respond reply))) : (serve handler).Calls A T := by
  apply (h.tryCatch (fun _ => .pure _)).bind
  intro reply
  apply (calls_transport (hrespond reply)).bind
  intro _
  apply Coroutine.Calls.external.bind
  intro input
  cases input <;> exact .pure _

theorem calls_runWriter (w : WriterState) : (runWriter w).Calls WriterCall T := by
  have guard : ∀ s {t}, t.Calls WriterCall T → (guarded s t).Calls WriterCall T := by
    intro s t ht
    apply (ht.tryCatch (fun _ => (calls_transport trivial).bind (fun _ => .pure _))).bind
    intro again
    split
    · exact .pure _
    · exact (calls_closeStream s).bind (fun _ => .pure _)
  cases w with
  | opening s =>
    exact guard s ((calls_writeOut trivial).bind (fun _ => .pure _))
  | looping s => exact guard s ((calls_writerTurn s).mono (fun _ h => h.writerCall))

end Calls

end McpSdk

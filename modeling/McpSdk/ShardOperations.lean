import McpSdk.McpShard
import McpSdk.JsonRpcDispatcher

/-!
# The operations of a shard

What the code that runs on a shard may call on it. `HandlerCall` is what the methods of
`McpShard` offer to handlers and to the application; `TransportCall` is what the transports and
`dispatch` use beside it. Every operation is one uninterrupted piece of the source.
-/

namespace McpSdk
open CppStandardLibrary CooperativeTasks

inductive HandlerCall
  | subscribeResource (uri : Str)
  | unsubscribeResource (uri : Str)
  | notifyResourceUpdated (uri : Str)
  | pushProgress (progress : Double) (total : Option Double)
  | pushToSession (id msg : Str)
  | broadcastNotification (notification : Str)
  | sendRequest (session method : Str) (params : Json)
  /-- The future of a request to the client, once it is there. -/
  | clientReply (id : ℕ)
  /-- The future of an `invoke_on_all` or `invoke_on_others`, once it is there: the last `n` tasks
  that the caller has sent to shards are at their ends. -/
  | gathered (n : ℕ)
  | setClientLogLevel (level : LogLevel)

/-- The three writers of stream bodies: of GET /sse, of a POST /mcp that opens a session, and of
GET /mcp. -/
inductive StreamKind
  | sse | post | reconnect
  deriving DecidableEq, Repr

/-- A stream body: which writer, and the session it is for. -/
structure Stream where
  kind : StreamKind
  sessionId : Str
  session : ℕ

/-- The reply a handler hands to the HTTP server. -/
structure Reply where
  status : ℕ := 200
  headers : List (Str × Str) := []
  body : Str := []
  stream : Option Stream := none

inductive TransportCall
  /-- The call of `dispatch` itself. It does nothing yet; histories show it. -/
  | dispatch (body sessionId : Str)
  | handleClientResponse (response : Json)
  /-- `_current_progress_token` and `_current_session_id` are assigned. -/
  | setContext (sessionId progressToken : Str)
  | checkBodySize (bodySize : ℕ)
  | checkRequest (clientIp apiKey : Str)
  | recordOutcome (clientIp : Str) (isRpcError : Bool)
  | createSession (clientIp : Str)
  /-- `create_session_with_id`, and `get_session` of what it has created. -/
  | createSessionWithId (id clientIp : Str)
  | nextCounter
  | getSession (id : Str)
  | removeSession (id : Str)
  | cleanupSubscriptions (id : Str)
  | isActive (ref : ℕ)
  | deactivate (ref : ℕ)
  | pushEventually (ref : ℕ) (msg : Str)
  | popEventually (ref : ℕ)
  /-- The end of a pop that waited. -/
  | popWaiting (ref n : ℕ)
  /-- `out.write` on the stream of a session. -/
  | write (id text : Str)
  /-- The server sends the reply of a handler. -/
  | respond (reply : Reply)

@[reducible] def HandlerCall.Res : HandlerCall → Type
  | .notifyResourceUpdated _ | .pushProgress _ _ => Except Exception Unit
  | .sendRequest _ _ _ => Except Exception ℕ
  | .clientReply _ => Except Exception Json
  | _ => Unit

@[reducible] def TransportCall.Res : TransportCall → Type
  | .handleClientResponse _ => Except Exception Bool
  | .checkBodySize _ | .isActive _ => Bool
  | .checkRequest _ _ => SecurityCheckResult
  | .createSession _ => Str
  | .nextCounter => ℕ
  | .createSessionWithId _ _ | .getSession _ => Option ℕ
  | .popEventually _ => Popped
  | .popWaiting _ _ => Except Exception Str
  | _ => Unit

namespace HandlerCall
variable (L : JsonLibrary)

def exec : (op : HandlerCall) → McpShard → op.Res × McpShard
  | .subscribeResource uri, s => ((), s.subscribeResource uri)
  | .unsubscribeResource uri, s => ((), s.unsubscribeResource uri)
  | .notifyResourceUpdated uri, s => s.notifyResourceUpdated L uri
  | .pushProgress progress total, s => s.pushProgress L progress total
  | .pushToSession id msg, s => ((), s.pushToSession id msg)
  | .broadcastNotification notification, s => ((), s.broadcastNotification notification)
  | .sendRequest session method params, s => s.sendRequest L session method params
  | .clientReply id, s => ((s.settled.lookup id).getD (.ok .null), s)
  | .gathered _, s => ((), s)
  | .setClientLogLevel level, s => ((), { s with clientLogLevel := level })

def ready : HandlerCall → McpShard → Bool
  | .clientReply id, s => (s.settled.lookup id).isSome
  | _, _ => true

end HandlerCall

namespace TransportCall
variable (cfg : McpServerConfig) (j : ℕ) (now : Int)

def exec : (op : TransportCall) → McpShard → op.Res × McpShard
  | .dispatch _ _, s => ((), s)
  | .handleClientResponse response, s => s.handleClientResponse response
  | .setContext sessionId token, s =>
      ((), { s with currentSessionId := sessionId, currentProgressToken := token })
  | .checkBodySize bodySize, s => (McpShard.checkBodySize cfg bodySize, s)
  | .checkRequest clientIp apiKey, s => s.checkRequest cfg now clientIp apiKey
  | .recordOutcome clientIp isRpcError, s => ((), s.recordOutcome now clientIp isRpcError)
  | .createSession clientIp, s => s.createSession cfg j clientIp
  | .createSessionWithId id clientIp, s =>
      let s := s.createSessionWithId id clientIp
      (s.getSession id, s)
  | .nextCounter, s => (s.nextCounter + 1, { s with nextCounter := s.nextCounter + 1 })
  | .getSession id, s => (s.getSession id, s)
  | .removeSession id, s => ((), s.removeSession id)
  | .cleanupSubscriptions id, s => ((), s.cleanupSubscriptions id)
  | .isActive ref, s => ((s.object ref).active, s)
  | .deactivate ref, s => ((), s.updateObject ref (fun o => { o with active := false }))
  | .pushEventually ref msg, s => ((), s.updateObject ref (·.pushEventually msg))
  | .popEventually ref, s =>
      ((s.object ref).popEventually.1, s.updateObject ref (fun o => o.popEventually.2))
  | .popWaiting ref n, s =>
      (((s.object ref).popWaiting n).1, s.updateObject ref (fun o => (o.popWaiting n).2))
  | .write _ _, s => ((), s)
  | .respond _, s => ((), s)

def ready : TransportCall → McpShard → Bool
  | .popWaiting ref n, s => (s.object ref).popReady n
  | _, _ => true

end TransportCall

/-- The operations handlers may call. -/
def HandlerI : Interface where
  Op := HandlerCall
  Res := HandlerCall.Res
  answer op := by
    cases op with
    | notifyResourceUpdated | pushProgress => exact ⟨.ok ()⟩
    | sendRequest => exact ⟨.ok 0⟩
    | clientReply => exact ⟨.ok .null⟩
    | _ => exact ⟨()⟩

/-- The operations of the transports and of `dispatch`. -/
def TransportI : Interface where
  Op := TransportCall
  Res := TransportCall.Res
  answer op := by
    cases op with
    | handleClientResponse => exact ⟨.ok false⟩
    | checkBodySize | isActive => exact ⟨false⟩
    | checkRequest => exact ⟨.ok⟩
    | createSession => exact ⟨[]⟩
    | nextCounter => exact ⟨0⟩
    | createSessionWithId | getSession => exact ⟨none⟩
    | popEventually => exact ⟨.waiter 0⟩
    | popWaiting => exact ⟨.ok []⟩
    | _ => exact ⟨()⟩

/-- All operations of a shard. -/
def ShardI : Interface := HandlerI.sum TransportI

/-- The effect of an operation on the shard `j` at time `now`. -/
def shardExec (L : JsonLibrary) (cfg : McpServerConfig) (j : ℕ) (now : Int) :
    (op : ShardI.Op) → McpShard → ShardI.Res op × McpShard
  | .inl op, s => op.exec L s
  | .inr op, s => op.exec cfg j now s

def shardReady : ShardI.Op → McpShard → Bool
  | .inl op, s => HandlerCall.ready op s
  | .inr op, s => TransportCall.ready op s

/-- The number of tasks whose ends the operation waits for. -/
def shardGathers : ShardI.Op → Option ℕ
  | .inl (.gathered n) => some n
  | _ => none

/-- One call on the shard a coroutine runs on. -/
def transport (op : TransportCall) : Coroutine ShardI Input Exception op.Res :=
  Coroutine.perform (I := ShardI) (.inr op)

/-- The same for the methods that handlers may call. -/
def onShard (op : HandlerCall) : Coroutine ShardI Input Exception op.Res :=
  Coroutine.perform (I := ShardI) (.inl op)

/-- A suspension that lasts until `op` can be performed. -/
def transportWait (op : TransportCall) : Coroutine ShardI Input Exception op.Res :=
  Coroutine.waitFor (I := ShardI) (.inr op)

section Rules
variable {Φ : Type} {C : Contract ShardI Φ} {q : Φ} {E : Exception → Φ → Prop}

@[simp] theorem follows_transport (op : TransportCall) {Q : op.Res → Φ → Prop} :
    (transport op).Follows C q Q E ↔
      C.allows q (.inr op) ∧ ∀ r : op.Res, C.answers (.inr op) r → Q r (C.next q (.inr op) r) :=
  Iff.rfl

@[simp] theorem follows_onShard (op : HandlerCall) {Q : op.Res → Φ → Prop} :
    (onShard op).Follows C q Q E ↔
      C.allows q (.inl op) ∧ ∀ r : op.Res, C.answers (.inl op) r → Q r (C.next q (.inl op) r) :=
  Iff.rfl

@[simp] theorem follows_transportWait (op : TransportCall) {Q : op.Res → Φ → Prop} :
    (transportWait op).Follows C q Q E ↔ C.rests q ∧ C.allows q (.inr op) ∧
      ∀ r : op.Res, C.answers (.inr op) r → Q r (C.next q (.inr op) r) :=
  Iff.rfl

end Rules

end McpSdk

import McpSdk.ClusterRuns
import McpSdk.ShardOperations

/-!
# What the operations of a shard leave alone

Each method of `McpShard` changes a few fields of the state. The lemmas name those fields and say
nothing of what becomes of them; whatever else is asked of the state after an operation is then
read off by definition.
-/

namespace McpSdk
open CppStandardLibrary

namespace McpShard

theorem pushToSession_frame (id msg : Str) (s : McpShard) :
    ∃ objects, objects.length = s.objects.length ∧
      s.pushToSession id msg = { s with objects := objects } := by
  unfold pushToSession
  split
  · split
    · exact ⟨_, List.length_modify _ _ _, rfl⟩
    · exact ⟨s.objects, rfl, rfl⟩
  · exact ⟨s.objects, rfl, rfl⟩

theorem pushAll_frame (ids : List Str) (msg : Str) (s : McpShard) :
    ∃ objects, objects.length = s.objects.length ∧
      ids.foldl (fun s id => s.pushToSession id msg) s = { s with objects := objects } := by
  induction ids generalizing s with
  | nil => exact ⟨s.objects, rfl, rfl⟩
  | cons id ids ih =>
    obtain ⟨objects, hlength, hpush⟩ := pushToSession_frame id msg s
    obtain ⟨objects', hlength', hrest⟩ := ih { s with objects := objects }
    refine ⟨objects', hlength'.trans hlength, ?_⟩
    rw [List.foldl_cons, hpush, hrest]

theorem notifyResourceUpdated_frame (L : JsonLibrary) (uri : Str) (s : McpShard) :
    ∃ objects, objects.length = s.objects.length ∧
      (s.notifyResourceUpdated L uri).2 = { s with objects := objects } := by
  unfold notifyResourceUpdated
  split
  · exact ⟨s.objects, rfl, rfl⟩
  · split
    · exact ⟨s.objects, rfl, rfl⟩
    · exact pushAll_frame _ _ s

theorem pushProgressTo_frame (L : JsonLibrary) (session token : Str) (progress : Double)
    (total : Option Double) (s : McpShard) :
    ∃ objects, objects.length = s.objects.length ∧
      (s.pushProgressTo L session token progress total).2 = { s with objects := objects } := by
  unfold pushProgressTo
  split
  · exact ⟨s.objects, rfl, rfl⟩
  · split
    · exact ⟨s.objects, rfl, rfl⟩
    · exact pushToSession_frame _ _ s

theorem sendRequest_frame (L : JsonLibrary) (session method : Str) (params : Json)
    (s : McpShard) : ∃ objects, objects.length = s.objects.length ∧
      (s.sendRequest L session method params).2 =
        { s with
          objects := objects
          serverRequestCounter := s.serverRequestCounter + 1
          pendingClientRequests := (s.serverRequestCounter + 1) :: s.pendingClientRequests } := by
  unfold sendRequest
  dsimp only
  split
  · exact ⟨s.objects, rfl, rfl⟩
  · exact pushToSession_frame session _
      { s with
        serverRequestCounter := s.serverRequestCounter + 1
        pendingClientRequests := (s.serverRequestCounter + 1) :: s.pendingClientRequests }

theorem subscribeResource_eq (uri : Str) (s : McpShard) :
    s.subscribeResource uri = { s with
      subscriptions := if s.currentSessionId.isEmpty then s.subscriptions
        else s.subscriptions.add uri s.currentSessionId } := by
  by_cases h : s.currentSessionId.isEmpty <;> simp [subscribeResource, h]

theorem unsubscribeResource_eq (uri : Str) (s : McpShard) :
    s.unsubscribeResource uri = { s with
      subscriptions := if s.currentSessionId.isEmpty then s.subscriptions
        else s.subscriptions.remove uri s.currentSessionId } := by
  by_cases h : s.currentSessionId.isEmpty <;> simp [unsubscribeResource, h]

theorem checkRequest_frame (cfg : McpServerConfig) (now : Int) (clientIp apiKey : Str)
    (s : McpShard) : ∃ rateLimiter circuitBreaker, (s.checkRequest cfg now clientIp apiKey).2 =
      { s with rateLimiter := rateLimiter, circuitBreaker := circuitBreaker } := by
  unfold checkRequest
  split
  · exact ⟨s.rateLimiter, s.circuitBreaker, rfl⟩
  · dsimp only
    split
    · exact ⟨_, s.circuitBreaker, rfl⟩
    · split <;> exact ⟨_, _, rfl⟩

theorem recordOutcome_frame (now : Int) (clientIp : Str) (isRpcError : Bool) (s : McpShard) :
    ∃ circuitBreaker, s.recordOutcome now clientIp isRpcError =
      { s with circuitBreaker := circuitBreaker } := by
  unfold recordOutcome
  split <;> exact ⟨_, rfl⟩

theorem handleClientResponse_frame (response : Json) (s : McpShard) :
    ∃ pending settled, (s.handleClientResponse response).2 =
      { s with pendingClientRequests := pending, settled := settled } := by
  unfold handleClientResponse
  split
  · exact ⟨s.pendingClientRequests, s.settled, rfl⟩
  · split
    · exact ⟨s.pendingClientRequests, s.settled, rfl⟩
    · split
      · exact ⟨_, _, rfl⟩
      · split
        · exact ⟨s.pendingClientRequests, s.settled, rfl⟩
        · exact ⟨_, _, rfl⟩

theorem trackIpConn_frame (sessionId clientIp : Str) (s : McpShard) :
    ∃ sessionToIp ipConnCount, s.trackIpConn sessionId clientIp =
      { s with sessionToIp := sessionToIp, ipConnCount := ipConnCount } := by
  unfold trackIpConn
  split
  · exact ⟨s.sessionToIp, s.ipConnCount, rfl⟩
  · exact ⟨_, _, rfl⟩

theorem releaseIpConn_frame (id : Str) (s : McpShard) :
    ∃ sessionToIp ipConnCount, s.releaseIpConn id =
      { s with sessionToIp := sessionToIp, ipConnCount := ipConnCount } := by
  unfold releaseIpConn
  split
  · exact ⟨s.sessionToIp, s.ipConnCount, rfl⟩
  · exact ⟨_, _, rfl⟩

theorem newSession_trackIpConn_frame (id clientIp : Str) (s : McpShard) :
    ∃ sessionToIp ipConnCount, (s.newSession id).trackIpConn id clientIp =
      { s with
        sessions := s.sessions.insert id s.objects.length
        objects := s.objects ++ [{}]
        sessionToIp := sessionToIp
        ipConnCount := ipConnCount } :=
  (s.newSession id).trackIpConn_frame id clientIp

theorem createSession_eq (cfg : McpServerConfig) (j : ℕ) (clientIp : Str) (s : McpShard) :
    s.createSession cfg j clientIp = ([], s) ∨
      ∃ sessionToIp ipConnCount, s.createSession cfg j clientIp =
        ("s".toList ++ toStr j ++ "_".toList ++ toStr (s.sessionCounter + 1), { s with
          sessionCounter := s.sessionCounter + 1
          sessions := s.sessions.insert
            ("s".toList ++ toStr j ++ "_".toList ++ toStr (s.sessionCounter + 1)) s.objects.length
          objects := s.objects ++ [{}]
          sessionToIp := sessionToIp
          ipConnCount := ipConnCount }) := by
  unfold createSession
  split
  · exact .inl rfl
  · obtain ⟨sessionToIp, ipConnCount, h⟩ := newSession_trackIpConn_frame
      ("s".toList ++ toStr j ++ "_".toList ++ toStr (s.sessionCounter + 1)) clientIp
      { s with sessionCounter := s.sessionCounter + 1 }
    exact .inr ⟨sessionToIp, ipConnCount, congrArg (Prod.mk _) h⟩

theorem createSession_frame (cfg : McpServerConfig) (j : ℕ) (clientIp : Str) (s : McpShard) :
    (s.createSession cfg j clientIp).2 = s ∨
      ∃ sessionToIp ipConnCount, (s.createSession cfg j clientIp).2 =
        { s with
          sessionCounter := s.sessionCounter + 1
          sessions := s.sessions.insert
            ("s".toList ++ toStr j ++ "_".toList ++ toStr (s.sessionCounter + 1)) s.objects.length
          objects := s.objects ++ [{}]
          sessionToIp := sessionToIp
          ipConnCount := ipConnCount } := by
  rcases createSession_eq cfg j clientIp s with h | ⟨sessionToIp, ipConnCount, h⟩
  · exact .inl (congrArg Prod.snd h)
  · exact .inr ⟨sessionToIp, ipConnCount, congrArg Prod.snd h⟩

theorem removeSession_frame (id : Str) (s : McpShard) :
    ∃ sessionToIp ipConnCount, s.removeSession id =
      { s with
        sessions := s.sessions.erase id
        sessionToIp := sessionToIp
        ipConnCount := ipConnCount } := by
  obtain ⟨sessionToIp, ipConnCount, h⟩ := s.releaseIpConn_frame id
  exact ⟨sessionToIp, ipConnCount, by rw [removeSession, h]⟩

end McpShard

section Groups

def AssignsContext : ShardI.Op → Prop
  | .inr (.setContext _ _) => True
  | _ => False

def ChangesRequests : ShardI.Op → Prop
  | .inl (.sendRequest _ _ _) | .inr (.handleClientResponse _) => True
  | _ => False

def ChangesSubscriptions : ShardI.Op → Prop
  | .inl (.subscribeResource _) | .inl (.unsubscribeResource _)
  | .inr (.cleanupSubscriptions _) => True
  | _ => False

def ChangesSessions : ShardI.Op → Prop
  | .inr (.createSession _) | .inr (.createSessionWithId _ _) | .inr (.removeSession _) => True
  | _ => False

def CountsSessions : ShardI.Op → Prop
  | .inr (.createSession _) => True
  | _ => False

def CountsStreams : ShardI.Op → Prop
  | .inr .nextCounter => True
  | _ => False

/-- An operation changes each group of fields only if it is one of the operations for it. No
operation takes an object away. -/
structure Frame (op : ShardI.Op) (s s' : McpShard) : Prop where
  context : ¬AssignsContext op → s'.currentSessionId = s.currentSessionId ∧
    s'.currentProgressToken = s.currentProgressToken
  requests : ¬ChangesRequests op → s'.serverRequestCounter = s.serverRequestCounter ∧
    s'.pendingClientRequests = s.pendingClientRequests ∧ s'.settled = s.settled
  subscriptions : ¬ChangesSubscriptions op → s'.subscriptions = s.subscriptions
  sessions : ¬ChangesSessions op → s'.sessions = s.sessions ∧
    s'.sessionToIp = s.sessionToIp ∧ s'.ipConnCount = s.ipConnCount
  objects : s.objects.length ≤ s'.objects.length
  sessionCounter : ¬CountsSessions op → s'.sessionCounter = s.sessionCounter
  nextCounter : ¬CountsStreams op → s'.nextCounter = s.nextCounter

theorem Frame.of_rest (op : ShardI.Op) (s : McpShard) {objects : List SseSession}
    (h : s.objects.length ≤ objects.length) (level : LogLevel) (limiter : PerIpRateLimiter)
    (breaker : PerIpCircuitBreaker) :
    Frame op s { s with
      objects := objects
      clientLogLevel := level
      rateLimiter := limiter
      circuitBreaker := breaker } :=
  ⟨fun _ => ⟨rfl, rfl⟩, fun _ => ⟨rfl, rfl, rfl⟩, fun _ => rfl, fun _ => ⟨rfl, rfl, rfl⟩, h,
    fun _ => rfl, fun _ => rfl⟩

theorem frame_handlerCall (L : JsonLibrary) (op : HandlerCall) (s : McpShard) :
    Frame (.inl op) s (op.exec L s).2 := by
  have frame_of_objects : ∀ {s' : McpShard},
      (∃ objects, objects.length = s.objects.length ∧ s' = { s with objects := objects }) →
      Frame (.inl op) s s' := by
    rintro _ ⟨objects, hlength, rfl⟩
    exact .of_rest _ s hlength.ge _ _ _
  cases op with
  | subscribeResource uri =>
    simp only [HandlerCall.exec, s.subscribeResource_eq uri]
    exact ⟨fun _ => ⟨rfl, rfl⟩, fun _ => ⟨rfl, rfl, rfl⟩, absurd trivial, fun _ => ⟨rfl, rfl, rfl⟩,
      le_rfl, fun _ => rfl, fun _ => rfl⟩
  | unsubscribeResource uri =>
    simp only [HandlerCall.exec, s.unsubscribeResource_eq uri]
    exact ⟨fun _ => ⟨rfl, rfl⟩, fun _ => ⟨rfl, rfl, rfl⟩, absurd trivial, fun _ => ⟨rfl, rfl, rfl⟩,
      le_rfl, fun _ => rfl, fun _ => rfl⟩
  | notifyResourceUpdated uri => exact frame_of_objects (s.notifyResourceUpdated_frame L uri)
  | pushProgress progress total => exact frame_of_objects (s.pushProgressTo_frame L _ _ _ _)
  | pushToSession id msg => exact frame_of_objects (s.pushToSession_frame id msg)
  | broadcastNotification text => exact frame_of_objects (s.pushAll_frame s.sessions.keys text)
  | sendRequest session method params =>
    obtain ⟨objects, hlength, h⟩ := s.sendRequest_frame L session method params
    simp only [HandlerCall.exec, h]
    exact ⟨fun _ => ⟨rfl, rfl⟩, absurd trivial, fun _ => rfl, fun _ => ⟨rfl, rfl, rfl⟩, hlength.ge,
      fun _ => rfl, fun _ => rfl⟩
  | clientReply | gathered | setClientLogLevel => exact .of_rest _ s le_rfl _ _ _

theorem frame_transportCall (cfg : McpServerConfig) (j : ℕ) (now : Int) (op : TransportCall)
    (s : McpShard) : Frame (.inr op) s (op.exec cfg j now s).2 := by
  cases op with
  | handleClientResponse response =>
    obtain ⟨pending, settled, h⟩ := s.handleClientResponse_frame response
    simp only [TransportCall.exec, h]
    exact ⟨fun _ => ⟨rfl, rfl⟩, absurd trivial, fun _ => rfl, fun _ => ⟨rfl, rfl, rfl⟩, le_rfl,
      fun _ => rfl, fun _ => rfl⟩
  | setContext sessionId token =>
    exact ⟨absurd trivial, fun _ => ⟨rfl, rfl, rfl⟩, fun _ => rfl, fun _ => ⟨rfl, rfl, rfl⟩, le_rfl,
      fun _ => rfl, fun _ => rfl⟩
  | checkRequest clientIp apiKey =>
    obtain ⟨limiter, breaker, h⟩ := s.checkRequest_frame cfg now clientIp apiKey
    simp only [TransportCall.exec, h]
    exact .of_rest _ s le_rfl _ _ _
  | recordOutcome clientIp isRpcError =>
    obtain ⟨breaker, h⟩ := s.recordOutcome_frame now clientIp isRpcError
    simp only [TransportCall.exec, h]
    exact .of_rest _ s le_rfl _ _ _
  | createSession clientIp =>
    rcases s.createSession_frame cfg j clientIp with h | ⟨_, _, h⟩ <;>
      simp only [TransportCall.exec, h]
    · exact .of_rest _ s le_rfl _ _ _
    · exact ⟨fun _ => ⟨rfl, rfl⟩, fun _ => ⟨rfl, rfl, rfl⟩, fun _ => rfl, absurd trivial, by simp,
        absurd trivial, fun _ => rfl⟩
  | createSessionWithId id clientIp =>
    obtain ⟨sessionToIp, ipConnCount, h⟩ := s.newSession_trackIpConn_frame id clientIp
    simp only [TransportCall.exec, McpShard.createSessionWithId, h]
    exact ⟨fun _ => ⟨rfl, rfl⟩, fun _ => ⟨rfl, rfl, rfl⟩, fun _ => rfl, absurd trivial, by simp,
      fun _ => rfl, fun _ => rfl⟩
  | removeSession id =>
    obtain ⟨sessionToIp, ipConnCount, h⟩ := s.removeSession_frame id
    simp only [TransportCall.exec, h]
    exact ⟨fun _ => ⟨rfl, rfl⟩, fun _ => ⟨rfl, rfl, rfl⟩, fun _ => rfl, absurd trivial, le_rfl,
      fun _ => rfl, fun _ => rfl⟩
  | cleanupSubscriptions id =>
    exact ⟨fun _ => ⟨rfl, rfl⟩, fun _ => ⟨rfl, rfl, rfl⟩, absurd trivial, fun _ => ⟨rfl, rfl, rfl⟩,
      le_rfl, fun _ => rfl, fun _ => rfl⟩
  | deactivate | pushEventually | popEventually | popWaiting =>
    exact .of_rest _ s (List.length_modify ..).ge _ _ _
  | nextCounter =>
    exact ⟨fun _ => ⟨rfl, rfl⟩, fun _ => ⟨rfl, rfl, rfl⟩, fun _ => rfl, fun _ => ⟨rfl, rfl, rfl⟩,
      le_rfl, fun _ => rfl, absurd trivial⟩
  | dispatch | checkBodySize | getSession | isActive | write | respond =>
    exact .of_rest _ s le_rfl _ _ _

theorem frame_shardExec (L : JsonLibrary) (cfg : McpServerConfig) (j : ℕ) (now : Int)
    (op : ShardI.Op) (s : McpShard) : Frame op s (shardExec L cfg j now op s).2 := by
  rcases op with op | op
  · exact frame_handlerCall L op s
  · exact frame_transportCall cfg j now op s

theorem Frame.of_exec {L : JsonLibrary} {cfg : McpServerConfig} {O : Type}
    {e : ClusterRuns.Event ShardI O McpShard}
    (h : shardExec L cfg e.shard e.now e.op e.before = (e.res, e.after)) :
    Frame e.op e.before e.after := by
  have hafter : e.after = (shardExec L cfg e.shard e.now e.op e.before).2 :=
    (congrArg Prod.snd h).symm
  rw [hafter]
  exact frame_shardExec L cfg e.shard e.now e.op e.before

end Groups

section Settings

def levelSet : ShardI.Op → Option LogLevel
  | .inl (.setClientLogLevel level) => some level
  | _ => none

/-- The log level is the one set last, and only checks change the limiter. -/
theorem settings_shardExec (L : JsonLibrary) (cfg : McpServerConfig) (j : ℕ) (now : Int)
    (op : ShardI.Op) (s : McpShard) :
    (shardExec L cfg j now op s).2.clientLogLevel = (levelSet op).getD s.clientLogLevel ∧
      ((∀ clientIp apiKey, op ≠ .inr (.checkRequest clientIp apiKey)) →
        (shardExec L cfg j now op s).2.rateLimiter = s.rateLimiter) := by
  have of_eq : ∀ {p : Prop} {s' t : McpShard}, s' = t → t.clientLogLevel = s.clientLogLevel →
      t.rateLimiter = s.rateLimiter →
      s'.clientLogLevel = s.clientLogLevel ∧ (p → s'.rateLimiter = s.rateLimiter) := by
    rintro p s' t rfl hlevel hlimiter
    exact ⟨hlevel, fun _ => hlimiter⟩
  have of_objects : ∀ {p : Prop} {s' : McpShard},
      (∃ objects, objects.length = s.objects.length ∧ s' = { s with objects := objects }) →
      s'.clientLogLevel = s.clientLogLevel ∧ (p → s'.rateLimiter = s.rateLimiter) := by
    rintro p s' ⟨objects, -, heq⟩
    exact of_eq heq rfl rfl
  rcases op with op | op
  · cases op with
    | subscribeResource uri => exact of_eq (s.subscribeResource_eq uri) rfl rfl
    | unsubscribeResource uri => exact of_eq (s.unsubscribeResource_eq uri) rfl rfl
    | notifyResourceUpdated uri => exact of_objects (s.notifyResourceUpdated_frame L uri)
    | pushProgress progress total => exact of_objects (s.pushProgressTo_frame L _ _ _ _)
    | pushToSession id msg => exact of_objects (s.pushToSession_frame id msg)
    | broadcastNotification text => exact of_objects (s.pushAll_frame s.sessions.keys text)
    | sendRequest session method params =>
      obtain ⟨_, -, heq⟩ := s.sendRequest_frame L session method params
      exact of_eq heq rfl rfl
    | clientReply | gathered | setClientLogLevel => exact ⟨rfl, fun _ => rfl⟩
  · cases op with
    | checkRequest clientIp apiKey =>
      obtain ⟨_, _, heq⟩ := s.checkRequest_frame cfg now clientIp apiKey
      exact ⟨(congrArg McpShard.clientLogLevel heq).trans rfl, fun hop => absurd rfl (hop _ _)⟩
    | createSession clientIp =>
      rcases s.createSession_frame cfg j clientIp with heq | ⟨_, _, heq⟩
      · exact of_eq heq rfl rfl
      · exact of_eq heq rfl rfl
    | createSessionWithId id clientIp =>
      obtain ⟨_, _, heq⟩ := s.newSession_trackIpConn_frame id clientIp
      exact of_eq heq rfl rfl
    | removeSession id =>
      obtain ⟨_, _, heq⟩ := s.removeSession_frame id
      exact of_eq heq rfl rfl
    | recordOutcome clientIp isRpcError =>
      obtain ⟨_, heq⟩ := s.recordOutcome_frame now clientIp isRpcError
      exact of_eq heq rfl rfl
    | handleClientResponse response =>
      obtain ⟨_, _, heq⟩ := s.handleClientResponse_frame response
      exact of_eq heq rfl rfl
    | _ => exact ⟨rfl, fun _ => rfl⟩

end Settings

end McpSdk

import McpSdk.SseSession
import McpSdk.IpFilter
import McpSdk.PerIpRateLimiter
import McpSdk.PerIpCircuitBreaker

/-!
# The state of a shard

`McpShard` of `mcp_shard.hh`, one for each core: its sessions, subscriptions, the context of the
dispatch in progress, the requests it has sent to clients, its security components and its
connection counts. The methods are functions on that state; those that are coroutines in the
source appear here up to their first suspension. Sessions are held by number, as shared
pointers: an object outlives its entry in `_sessions`.
-/

namespace McpSdk
open CppStandardLibrary

/-- `seastar::log_level`, as far as the server sets it. -/
inductive LogLevel
  | error | warn | info | debug
  deriving DecidableEq, Repr

/-- What the shards are started with: the policy and the IP filter that `start` builds from it. -/
structure McpServerConfig where
  security : SecurityPolicy := {}
  ipFilter : IpFilter := {}
  built : IpFilter.ofConfig security.ipFilter = .ok ipFilter := by rfl

def McpServerConfig.standard : McpServerConfig := {}

abbrev Subscriptions := UnorderedMap Str (List Str)

namespace Subscriptions

/-- `_subscriptions[uri]`, empty where there is none. -/
def subscribers (m : Subscriptions) (uri : Str) : List Str := (m.lookup uri).getD []

/-- `_subscriptions[uri].insert(session)`. -/
def add (m : Subscriptions) (uri session : Str) : Subscriptions :=
  m.insert uri ((m.subscribers uri).insert session)

/-- Erase a session under one resource, and the resource with its last session. -/
def remove (m : Subscriptions) (uri session : Str) : Subscriptions :=
  match m.lookup uri with
  | none => m
  | some sessions =>
      let rest := sessions.filter (· ≠ session)
      if rest.isEmpty then m.erase uri else m.insert uri rest

def removeAll (m : Subscriptions) (session : Str) : Subscriptions :=
  m.keys.foldl (fun m uri => m.remove uri session) m

end Subscriptions

structure McpShard where
  sessions : UnorderedMap Str ℕ := ∅
  objects : List SseSession := []
  sessionCounter : ℕ := 0
  currentSessionId : Str := []
  subscriptions : Subscriptions := ∅
  currentProgressToken : Str := []
  clientLogLevel : LogLevel := .warn
  serverRequestCounter : ℕ := 0
  /-- The keys of `_pending_client_requests`. -/
  pendingClientRequests : List ℕ := []
  /-- What the promises taken out of `_pending_client_requests` have been given. -/
  settled : UnorderedMap ℕ (Except Exception Json) := ∅
  rateLimiter : PerIpRateLimiter := {}
  circuitBreaker : PerIpCircuitBreaker := {}
  sessionToIp : UnorderedMap Str Str := ∅
  ipConnCount : UnorderedMap Str ℕ := ∅
  /-- The counter of `StreamableHttpTransport::_next_counter`, one for each thread. -/
  nextCounter : ℕ := 0

/-- A shard after `start`. -/
def McpServerConfig.shard (cfg : McpServerConfig) : McpShard where
  rateLimiter := { cfg := cfg.security.rateLimit }
  circuitBreaker := { cfg := cfg.security.circuitBreaker }

namespace McpShard

section Security
variable (cfg : McpServerConfig)

/-- The first two steps of `check_request`, which look at the request alone: the refusal they
end in, if they do. -/
def refusal (clientIp apiKey : Str) : Option SecurityCheckResult :=
  if !cfg.ipFilter.isAllowed clientIp then some .forbidden
  else if cfg.security.apiKey.enabled && !cfg.security.apiKey.keys.contains apiKey then
    some .unauthorized
  else none

def checkRequest (now : Int) (clientIp apiKey : Str) (s : McpShard) :
    SecurityCheckResult × McpShard :=
  match refusal cfg clientIp apiKey with
  | some result => (result, s)
  | none =>
      let (acquired, rateLimiter) := s.rateLimiter.tryAcquire now clientIp
      let s := { s with rateLimiter := rateLimiter }
      if !acquired then (.tooManyRequests, s)
      else
        let (allowed, circuitBreaker) := s.circuitBreaker.allow now clientIp
        let s := { s with circuitBreaker := circuitBreaker }
        if !allowed then (.serviceUnavailable, s) else (.ok, s)

def recordOutcome (now : Int) (clientIp : Str) (isRpcError : Bool) (s : McpShard) : McpShard :=
  if isRpcError then
    { s with circuitBreaker := s.circuitBreaker.recordFailure now clientIp }
  else { s with circuitBreaker := s.circuitBreaker.recordSuccess clientIp }

def checkBodySize (bodySize : ℕ) : Bool := bodySize ≤ cfg.security.sizeLimits.maxBodyBytes

end Security

section Sessions

def object (s : McpShard) (ref : ℕ) : SseSession := (s.objects[ref]?).getD {}

def updateObject (s : McpShard) (ref : ℕ) (f : SseSession → SseSession) : McpShard :=
  { s with objects := s.objects.modify ref f }

/-- `_sessions[id] = std::make_shared<SseSession>()`. -/
def newSession (s : McpShard) (id : Str) : McpShard :=
  { s with sessions := s.sessions.insert id s.objects.length, objects := s.objects ++ [{}] }

/-- `_ip_conn_count[ip]`, 0 where there is none. -/
def ipConnections (s : McpShard) (ip : Str) : ℕ := (s.ipConnCount.lookup ip).getD 0

/-- `_track_ip_conn`. -/
def trackIpConn (s : McpShard) (sessionId clientIp : Str) : McpShard :=
  if clientIp.isEmpty then s
  else
    { s with
      sessionToIp := s.sessionToIp.insert sessionId clientIp
      ipConnCount := s.ipConnCount.insert clientIp (s.ipConnections clientIp + 1) }

/-- The limits that `create_session` checks. -/
def hasRoom (cfg : McpServerConfig) (clientIp : Str) (s : McpShard) : Bool :=
  !cfg.security.connectionLimit.enabled ||
    (s.sessions.keys.length < cfg.security.connectionLimit.maxTotal &&
      (clientIp.isEmpty || s.ipConnections clientIp < cfg.security.connectionLimit.maxPerIp))

/-- `create_session` on shard `j`: the new id, or the empty string. -/
def createSession (cfg : McpServerConfig) (j : ℕ) (clientIp : Str) (s : McpShard) :
    Str × McpShard :=
  if !s.hasRoom cfg clientIp then ([], s)
  else
    let id := "s".toList ++ toStr j ++ "_".toList ++ toStr (s.sessionCounter + 1)
    (id, ({ s with sessionCounter := s.sessionCounter + 1 }.newSession id).trackIpConn id clientIp)

def createSessionWithId (id clientIp : Str) (s : McpShard) : McpShard :=
  (s.newSession id).trackIpConn id clientIp

def getSession (s : McpShard) (id : Str) : Option ℕ := s.sessions.lookup id

theorem getSession_createSessionWithId (s : McpShard) (id clientIp : Str) :
    (s.createSessionWithId id clientIp).getSession id = some s.objects.length := by
  have hsessions : (s.createSessionWithId id clientIp).sessions =
      s.sessions.insert id s.objects.length := by
    unfold createSessionWithId trackIpConn
    split <;> rfl
  rw [getSession, hsessions, AList.lookup_insert]

/-- The release of an IP's connection in `remove_session`. -/
def releaseIpConn (s : McpShard) (id : Str) : McpShard :=
  match s.sessionToIp.lookup id with
  | none => s
  | some ip =>
      { s with
        ipConnCount := match s.ipConnCount.lookup ip with
          | none => s.ipConnCount
          | some n => if n - 1 = 0 then s.ipConnCount.erase ip else s.ipConnCount.insert ip (n - 1)
        sessionToIp := s.sessionToIp.erase id }

def removeSession (id : Str) (s : McpShard) : McpShard :=
  { s.releaseIpConn id with sessions := s.sessions.erase id }

end Sessions

section Messages

def pushToSession (id msg : Str) (s : McpShard) : McpShard :=
  match s.getSession id with
  | some ref =>
      if (s.object ref).active then s.updateObject ref (·.pushEventually msg) else s
  | none => s

def broadcastNotification (notification : Str) (s : McpShard) : McpShard :=
  s.sessions.keys.foldl (fun s id => s.pushToSession id notification) s

def subscribeResource (uri : Str) (s : McpShard) : McpShard :=
  if s.currentSessionId.isEmpty then s
  else { s with subscriptions := s.subscriptions.add uri s.currentSessionId }

def unsubscribeResource (uri : Str) (s : McpShard) : McpShard :=
  if s.currentSessionId.isEmpty then s
  else { s with subscriptions := s.subscriptions.remove uri s.currentSessionId }

def cleanupSubscriptions (sessionId : Str) (s : McpShard) : McpShard :=
  { s with subscriptions := s.subscriptions.removeAll sessionId }

def notification (method : Str) (params : Json) : Json :=
  .ofMembers [("jsonrpc".toList, .string "2.0".toList), ("method".toList, .string method),
    ("params".toList, params)]

/-- `notifications/resources/updated`. -/
def resourceUpdated (uri : Str) : Json :=
  notification "notifications/resources/updated".toList (.ofMembers [("uri".toList, .string uri)])

def notifyResourceUpdated (L : JsonLibrary) (uri : Str) (s : McpShard) :
    Except Exception Unit × McpShard :=
  match s.subscriptions.lookup uri with
  | none => (.ok (), s)
  | some sessions =>
      match L.dumpText (resourceUpdated uri) with
      | .error e => (.error e, s)
      | .ok msg => (.ok (), sessions.foldl (fun s id => s.pushToSession id msg) s)

/-- `notifications/progress`. -/
def progressNotification (token : Str) (progress : Double) (total : Option Double) : Json :=
  notification "notifications/progress".toList
    (.ofMembers ([("progressToken".toList, .string token),
      ("progress".toList, .floating progress)] ++
      (total.map (fun t => ("total".toList, .floating t))).toList))

/-- `notifications/message`. -/
def logNotification (level loggerName : Str) (data : Json) : Json :=
  notification "notifications/message".toList (.ofMembers [("level".toList, .string level),
    ("logger".toList, .string loggerName), ("data".toList, data)])

/-- `push_progress` under a given session and token. -/
def pushProgressTo (L : JsonLibrary) (session token : Str) (progress : Double)
    (total : Option Double) (s : McpShard) : Except Exception Unit × McpShard :=
  if session.isEmpty || token.isEmpty then (.ok (), s)
  else
    match L.dumpText (progressNotification token progress total) with
    | .error e => (.error e, s)
    | .ok msg => (.ok (), s.pushToSession session msg)

def pushProgress (L : JsonLibrary) (progress : Double) (total : Option Double) (s : McpShard) :
    Except Exception Unit × McpShard :=
  s.pushProgressTo L s.currentSessionId s.currentProgressToken progress total

end Messages

section ClientRequests

def clientRequest (id : ℕ) (method : Str) (params : Json) : Json :=
  .ofMembers [("jsonrpc".toList, .string "2.0".toList), ("id".toList, .integer id),
    ("method".toList, .string method), ("params".toList, params)]

/-- `send_request_to_client` up to its first suspension: the id of the request. -/
def sendRequest (L : JsonLibrary) (session method : Str) (params : Json) (s : McpShard) :
    Except Exception ℕ × McpShard :=
  let id := s.serverRequestCounter + 1
  let s := { s with
    serverRequestCounter := id
    pendingClientRequests := id :: s.pendingClientRequests }
  match L.dumpText (clientRequest id method params) with
  | .error e => (.error e, s)
  | .ok msg => (.ok id, s.pushToSession session msg)

/-- A pending request gets its value or exception and leaves the table. -/
def settle (id : ℕ) (outcome : Except Exception Json) (s : McpShard) : McpShard :=
  { s with
    settled := s.settled.insert id outcome
    pendingClientRequests := s.pendingClientRequests.filter (· ≠ id) }

/-- The number a client response carries in its `id`. -/
def responseId (response : Json) : Option ℕ :=
  if response.contains "id".toList then (response.getD "id".toList).getUInt64.toOption else none

def handleClientResponse (response : Json) (s : McpShard) : Except Exception Bool × McpShard :=
  match responseId response with
  | none => (.ok false, s)
  | some id =>
      if id ∉ s.pendingClientRequests then (.ok false, s)
      else if response.contains "result".toList then
        (.ok true, s.settle id (.ok (response.getD "result".toList)))
      else
        match (response.getD "error".toList).valueString "message".toList
            "client error".toList with
        | .error e => (.error e, s)
        | .ok text => (.ok true, s.settle id (.error (.std text)))

end ClientRequests

/-- `stop`: the sessions are closed, and the requests that are still pending fail. -/
def stop (s : McpShard) : McpShard :=
  let s := s.sessions.entries.foldl (fun s session => s.updateObject session.2
    (fun o => ({ o with active := false } : SseSession).pushEventually [])) s
  let s := { s with sessions := ∅ }
  { s with
    settled := s.pendingClientRequests.foldl (fun settled id =>
      settled.insert id (.error (.std "server stopped".toList))) s.settled
    pendingClientRequests := [] }

end McpShard
end McpSdk

import McpSdk.HttpTransports
import McpSdk.ClusterRuns

/-!
# The server

The shards of `McpServer`, the HTTP requests that arrive on them, and the code of the
application: the handlers registered on each shard, and jobs it runs beside the requests, such
as broadcasts and requests to clients. Any table of handlers and any jobs will do, as long as
they address shards that exist; `invoke_on` is not defined on others.
-/

namespace McpSdk
open CppStandardLibrary CooperativeTasks ClusterRuns

/-- What work is for: a request to one of the five endpoints, or a job. -/
inductive Work (Job : Type)
  | getSse (req : Request)
  | postMessage (req : Request)
  | postMcp (req : Request)
  | getMcp (req : Request)
  | deleteMcp (req : Request)
  | job (x : Job)

/-- A piece of work, with the shard that it arrives on. -/
structure Origin (Job : Type) where
  shard : ℕ
  work : Work Job

structure McpServer where
  L : JsonLibrary
  cfg : McpServerConfig
  count : ℕ
  /-- The handlers registered on each shard. -/
  methods : ℕ → Str → Option (MethodHandler HandlerI)
  notifications : ℕ → Str → Option (NotificationHandler HandlerI)
  Job : Type
  job : ℕ → Job → Coroutine HandlerI Input Exception Unit
  count_pos : 0 < count
  methods_inRange : ∀ j name handler, methods j name = some handler →
    ∀ params, (handler params).Addresses (· < count)
  notifications_inRange : ∀ j name handler, notifications j name = some handler →
    ∀ params t, handler params = .ok t → t.Addresses (· < count)
  job_inRange : ∀ j x, (job j x).Addresses (· < count)

namespace McpServer

/-- A server without handlers and jobs. -/
def plain (L : JsonLibrary) (cfg : McpServerConfig) (count : ℕ) (h : 0 < count) : McpServer where
  L := L
  cfg := cfg
  count := count
  methods _ _ := none
  notifications _ _ := none
  Job := Empty
  job _ x := x.elim
  count_pos := h
  methods_inRange _ _ _ h := nomatch h
  notifications_inRange _ _ _ h := nomatch h
  job_inRange _ x := x.elim

variable (srv : McpServer)

/-- The dispatcher of shard `j`. -/
def dispatcher (j : ℕ) : JsonRpcDispatcher HandlerI where
  methods := srv.methods j
  notifications := srv.notifications j
  maxBatchSize := srv.cfg.security.sizeLimits.maxBatchSize.toNat

/-- What runs on shard `j` for a piece of work. -/
def program (j : ℕ) : Work srv.Job → ShardTask (Option WriterState)
  | .getSse req => serve (HttpSseTransport.handleSse req)
  | .postMessage req => serve (HttpSseTransport.handleMessage srv.L (srv.dispatcher j) j req)
  | .postMcp req => serve (StreamableHttpTransport.handlePost srv.L (srv.dispatcher j) j req)
  | .getMcp req => serve (StreamableHttpTransport.handleGet req)
  | .deleteMcp req => serve (StreamableHttpTransport.handleDelete j req)
  | .job x => do
      (srv.job j x).inl
      return none

def system : System ShardI Input Exception (Origin srv.Job) WriterState McpShard where
  count := srv.count
  init _ := srv.cfg.shard
  exec := shardExec srv.L srv.cfg
  ready := shardReady
  gathers := shardGathers
  place := Origin.shard
  program o := srv.program o.shard o.work
  again _ := runWriter

theorem program_cases (j : ℕ) (work : Work srv.Job) :
    (∃ handler, srv.program j work = serve handler ∧ handler.Calls BeforeReply (fun _ => True)) ∨
    ∃ x, srv.program j work = (do
      (srv.job j x).inl
      return none : ShardTask (Option WriterState)) := by
  have hT : ∀ n : ℕ, (fun _ => True) n := fun _ => trivial
  cases work with
  | getSse req => exact .inl ⟨_, rfl, (calls_handleSse req).mono (fun _ h => h.beforeReply)⟩
  | postMessage req =>
    exact .inl ⟨_, rfl, (calls_handleMessage _ _ hT j req).mono (fun _ h => h.beforeReply)⟩
  | postMcp req => exact .inl ⟨_, rfl, calls_handlePost _ _ hT j req⟩
  | getMcp req => exact .inl ⟨_, rfl, (calls_handleGet req).mono (fun _ h => h.beforeReply)⟩
  | deleteMcp req =>
    exact .inl ⟨_, rfl, (calls_handleDelete trivial).mono (fun _ h => h.beforeReply)⟩
  | job x => exact .inr ⟨x, rfl⟩

/-- A state of the server, with the histories. -/
abbrev State := Cluster ShardI Input Exception (Origin srv.Job) WriterState McpShard

/-- The server reaches the state by these steps. -/
def Reaches (steps : List (Label Input (Origin srv.Job))) (c : srv.State) : Prop :=
  LabelledRuns.run srv.system.step srv.system.start steps = some c

/-- A method that does something for the `uri` among its parameters. -/
def withUri (op : Str → HandlerCall) : MethodHandler HandlerI := fun params => do
  let uri ← Coroutine.ofExcept (params.valueString "uri".toList [])
  if uri.isEmpty then return .object []
  else
    let _ ← Coroutine.perform (I := HandlerI) (op uri)
    return .object []

/-- The method `resources/subscribe`. -/
def resourcesSubscribe : MethodHandler HandlerI := withUri .subscribeResource

/-- The method `resources/unsubscribe`. -/
def resourcesUnsubscribe : MethodHandler HandlerI := withUri .unsubscribeResource

theorem addresses_withUri (op : Str → HandlerCall) (params : Json) {T : ℕ → Prop} :
    (withUri op params).Addresses T := by
  apply (Coroutine.Calls.ofExcept _).bind
  intro uri
  split
  · exact .pure _
  · exact (Coroutine.Calls.perform trivial).bind (fun _ => .pure _)

/-- `broadcast_resource_updated`. -/
def broadcastResourceUpdated (count : ℕ) (uri : Str) : Coroutine HandlerI Input Exception Unit :=
  Coroutine.invokeOnAll (I := HandlerI) .gathered count (do
    let notified ← Coroutine.perform (I := HandlerI) (.notifyResourceUpdated uri)
    Coroutine.ofExcept notified)

theorem addresses_broadcastResourceUpdated (count : ℕ) (uri : Str) :
    (broadcastResourceUpdated count uri).Addresses (· < count) := by
  apply Coroutine.Calls.invokeOnAll (fun _ => trivial) (fun _ h => h)
  exact (Coroutine.Calls.perform trivial).bind (fun notified => Coroutine.Calls.ofExcept notified)

/-- `broadcast_log_notification` of a shard. The level that clients have set is not consulted. -/
def shardLogNotification (L : JsonLibrary) (level loggerName : Str) (data : Json) :
    Coroutine HandlerI Input Exception Unit := do
  let text ← Coroutine.ofExcept (L.dumpText (McpShard.logNotification level loggerName data))
  (Coroutine.perform (I := HandlerI) (.broadcastNotification text)).coAwait

/-- `broadcast_log_notification`. -/
def broadcastLogNotification (L : JsonLibrary) (count : ℕ) (level loggerName : Str) (data : Json) :
    Coroutine HandlerI Input Exception Unit :=
  Coroutine.invokeOnAll (I := HandlerI) .gathered count
    (shardLogNotification L level loggerName data)

theorem addresses_broadcastLogNotification (L : JsonLibrary) (count : ℕ) (level loggerName : Str)
    (data : Json) : (broadcastLogNotification L count level loggerName data).Addresses
      (· < count) := by
  apply Coroutine.Calls.invokeOnAll (fun _ => trivial) (fun _ h => h)
  apply (Coroutine.Calls.ofExcept _).bind
  intro text
  exact (Coroutine.Calls.perform (I := HandlerI) trivial).coAwait

/-- `send_request_to_client`. -/
def sendRequestToClient (session method : Str) (params : Json) :
    Coroutine HandlerI Input Exception Json := do
  let sent ← Coroutine.perform (I := HandlerI) (.sendRequest session method params)
  let id ← Coroutine.ofExcept sent
  let _ ← Coroutine.external
  let reply ← Coroutine.waitFor (I := HandlerI) (.clientReply id)
  Coroutine.ofExcept reply

/-- `push_progress`. -/
def pushProgress (progress : Double) (total : Option Double) :
    Coroutine HandlerI Input Exception Unit := do
  let pushed ← Coroutine.perform (I := HandlerI) (.pushProgress progress total)
  Coroutine.coAwait (Coroutine.ofExcept pushed)

end McpServer
end McpSdk

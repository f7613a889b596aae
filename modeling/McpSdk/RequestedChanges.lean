import McpSdk.CompactJson
import McpSdk.JsonRpcConformance
import McpSdk.McpMethods
import McpSdk.SessionRouting
import McpSdk.SubscriptionCleanup

/-!
# Nothing unasked

What the code of the application does not do itself, the server does only on request: a handler
call has its cause in a POST, whose body holds a request for just this call. So whoever is
subscribed has been subscribed by such a request, and so with the log levels. The only other
calls are those that hand a response to the session which the POST names.
-/

namespace McpSdk.RequestedChanges
open CppStandardLibrary CooperativeTasks ClusterRuns JsonRpcDispatcher JsonRpcConformance

section Requests
variable (L : JsonLibrary) (maxBatchSize : ℕ)

/-- The values in a body that are handled as requests. -/
def elementsOf (body : Str) : List Json :=
  match L.parse body with
  | none => []
  | some (.array elems) => if elems.length ≤ maxBatchSize then elems else []
  | some v => [v]

/-- The value is a request for the call. -/
def Asks (v : Json) (op : HandlerCall) : Prop :=
  ∃ method, IsRequest v method ∧ v.contains "id".toList ∧ Requests method (paramsOf v) op

def bodyOf {Job : Type} : Work Job → Option Str
  | .postMessage req | .postMcp req => some req.content
  | _ => none

/-- The work is a POST whose body asks for the call. -/
def Asked {Job : Type} (work : Work Job) (op : HandlerCall) : Prop :=
  ∃ body, bodyOf work = some body ∧ ∃ v ∈ elementsOf L maxBatchSize body, Asks v op

/-- The work is a POST that names the session of the message. -/
def Responding {Job : Type} (work : Work Job) (op : HandlerCall) : Prop :=
  (bodyOf work).isSome ∧ ∃ endpoint id msg, SessionRouting.named work = some (endpoint, id) ∧
    op = .pushToSession id msg

end Requests

/-- The code of the application does not make the call. -/
structure Refrains (app : Application) (op : HandlerCall) : Prop where
  registry : app.registry.Calls (· ≠ op) (fun _ => True)
  job : ∀ j x, Coroutine.Calls (I := HandlerI) (· ≠ op) (fun _ => True) (app.job j x)

section Dispatcher
variable {L : JsonLibrary} {d : JsonRpcDispatcher HandlerI} {A : HandlerCall → Prop}
  {T : ℕ → Prop}

theorem calls_reply (r : JsonRpcResponse) :
    Coroutine.Calls (I := HandlerI) A T (reply L r) := by
  apply Coroutine.Calls.bind (.ofExcept _)
  exact fun _ => .pure _

/-- A value causes the calls of the handler that it names, if it names one. -/
theorem calls_handleSingle {v : Json}
    (hmethods : ∀ method handler, d.methods method = some handler → IsRequest v method →
      v.contains "id".toList → Coroutine.Calls (I := HandlerI) A T (handler (paramsOf v)))
    (hnotifications : ∀ method handler, d.notifications method = some handler →
      IsRequest v method → ∀ t, handler (paramsOf v) = .ok t →
        Coroutine.Calls (I := HandlerI) A T t) :
    Coroutine.Calls (I := HandlerI) A T (d.handleSingle L v) := by
  by_cases hm : malformed v = true
  · rw [handleSingle, if_pos hm]
    exact (Coroutine.Calls.ofExcept _).bind (fun _ => calls_reply _)
  · rw [Bool.not_eq_true] at hm
    cases hmethod : v.getD "method".toList with
    | string method =>
      have hrequest : IsRequest v method := (isRequest_iff hm hmethod).mpr rfl
      rw [handleSingle_of_request hm hmethod]
      split
      · rename_i hid
        cases hhandler : d.methods method with
        | none => exact calls_reply _
        | some handler =>
          have hcalls := hmethods method handler hhandler hrequest hid
          refine Coroutine.Calls.bind ?_ (fun _ => calls_reply _)
          exact (hcalls.coAwait.bind (fun _ => .pure _)).tryCatch (fun _ => .pure _)
      · cases hhandler : d.notifications method with
        | none => exact .pure _
        | some handler =>
          dsimp only
          cases ht : handler (paramsOf v) with
          | ok t =>
            have hcalls := hnotifications method handler hhandler hrequest t ht
            exact hcalls.background.bind (fun _ => .pure _)
          | error e => exact (Coroutine.Calls.throw e).bind (fun _ => .pure _)
    | _ =>
      simp only [handleSingle, hm, hmethod, Json.getString]
      exact .throw _

/-- A body causes the calls of its values. -/
theorem calls_handleRequest {body : Str} (h : ∀ v ∈ elementsOf L d.maxBatchSize body,
    Coroutine.Calls (I := HandlerI) A T (d.handleSingle L v)) :
    Coroutine.Calls (I := HandlerI) A T (d.handleRequest L body) := by
  have elements : ∀ elems, (∀ v ∈ elems,
      Coroutine.Calls (I := HandlerI) A T (d.handleSingle L v)) → ∀ responses,
      Coroutine.Calls (I := HandlerI) A T (d.handleElements L responses elems) := by
    intro elems
    induction elems with
    | nil => exact fun _ _ => .pure _
    | cons v elems ih =>
      intro helems responses
      have hhead := helems v (.head _)
      have htail := ih (fun v hv => helems v (.tail _ hv))
      apply hhead.coAwait.bind
      intro resp
      split
      · exact htail _
      · exact htail _
  unfold JsonRpcDispatcher.handleRequest
  unfold elementsOf at h
  split
  · exact calls_reply _
  · rename_i elems hparse
    rw [hparse] at h
    split
    · exact calls_reply _
    · split
      · exact calls_reply _
      · rename_i hlength
        simp only [if_pos (Nat.le_of_not_lt hlength)] at h
        apply (elements elems h []).bind
        intro responses
        split
        · exact .pure _
        · exact (Coroutine.Calls.ofExcept _).bind (fun _ => .pure _)
  · rename_i v hother hparse
    rw [hparse] at h
    have hv : v ∈ [v] := .head _
    cases v with
    | array elems => exact absurd rfl (hother elems)
    | _ => exact (h _ hv).coAwait

end Dispatcher

section Programs

/-- The calls of a program whose handlers make those of `B`. -/
def Within (B : HandlerCall → Prop) : ShardI.Op → Prop
  | .inl op => B op
  | .inr _ => True

theorem within_of_transport {B : HandlerCall → Prop} {op : ShardI.Op}
    (h : ∀ call, op ≠ .inl call) : Within B op := by
  cases op with
  | inl call => exact absurd rfl (h call)
  | inr call => trivial

theorem within_of_getCall {B : HandlerCall → Prop} (op : ShardI.Op) (h : GetCall op) :
    Within B op := by
  apply within_of_transport
  rintro call rfl
  exact h

theorem within_of_closingCall {B : HandlerCall → Prop} (op : ShardI.Op) (h : ClosingCall op) :
    Within B op := by
  apply within_of_transport
  rintro call rfl
  exact h

theorem within_of_writerCall {B : HandlerCall → Prop} (op : ShardI.Op) (h : WriterCall op) :
    Within B op := by
  apply within_of_transport
  rintro call rfl
  exact h

variable {L : JsonLibrary} {d : JsonRpcDispatcher HandlerI} {B : HandlerCall → Prop} {body : Str}
  {T : ℕ → Prop}

theorem calls_dispatch (hd : Coroutine.Calls (I := HandlerI) B T (d.handleRequest L body))
    (sessionId : Str) : (dispatch L d body sessionId).Calls (Within B) T := by
  have hhandle : (d.handleRequest L body).inl.Calls (Within B) T := Coroutine.Calls.inl hd
  apply (calls_transport trivial).bind
  intro _
  apply (calls_takeClientResponse (fun _ _ => trivial)).bind
  intro handled
  split
  · exact .pure _
  · apply (calls_transport trivial).bind
    exact fun _ => hhandle.coAwait

theorem calls_settled (hd : Coroutine.Calls (I := HandlerI) B T (d.handleRequest L body))
    (sessionId ip : Str) {k : Option Str → ShardTask Reply}
    (hk : ∀ response, (k response).Calls (Within B) T) : (do
      let response ← (dispatch L d body sessionId).coAwait
      transport (.recordOutcome ip (isError response))
      k response : ShardTask Reply).Calls (Within B) T := by
  apply (calls_dispatch hd sessionId).coAwait.bind
  intro response
  apply (calls_transport trivial).bind
  exact fun _ => hk response

theorem calls_pushResponse {id : Str} (hB : ∀ msg, B (.pushToSession id msg)) (hT : ∀ n, T n)
    (j target : ℕ) (msg : Str) : (pushResponse j target id msg).Calls (Within B) T := by
  unfold pushResponse
  split
  · exact calls_onShard (hB msg)
  · exact Coroutine.Calls.send (hT target) (calls_onShard (hB msg))

theorem calls_handleMessage {req : Request}
    (hd : Coroutine.Calls (I := HandlerI) B T (d.handleRequest L req.content))
    (hB : ∀ msg, B (.pushToSession (req.query "sessionId".toList) msg)) (hT : ∀ n, T n) (j : ℕ) :
    (HttpSseTransport.handleMessage L d j req).Calls (Within B) T := by
  apply (calls_transport trivial).bind
  intro small
  split
  · exact .pure _
  · apply (calls_transport trivial).bind
    intro check
    split
    · exact .pure _
    · apply calls_settled hd
      intro response
      split
      · split <;> exact .pure _
      · split
        · exact (calls_pushResponse hB hT _ _ _).bind (fun _ => .pure _)
        · exact .pure _

/-- POST /mcp. -/
theorem calls_handlePost {req : Request}
    (hd : Coroutine.Calls (I := HandlerI) B T (d.handleRequest L req.content))
    (hB : ∀ msg, B (.pushToSession (req.header "mcp-session-id".toList) msg)) (hT : ∀ n, T n)
    (j : ℕ) : (StreamableHttpTransport.handlePost L d j req).Calls (Within B) T := by
  apply (calls_transport trivial).bind
  intro small
  split
  · exact .pure _
  · apply (calls_transport trivial).bind
    intro check
    split
    · exact .pure _
    · dsimp only
      split
      · apply calls_settled hd
        intro response
        split
        · exact (calls_pushResponse hB hT _ _ _).bind (fun _ => .pure _)
        · exact .pure _
      · split
        · apply (calls_transport trivial).bind
          intro counter
          apply (calls_transport trivial).bind
          intro session
          split
          · exact .pure _
          · apply calls_settled hd
            intro response
            split
            · exact (calls_transport trivial).bind (fun _ => .pure _)
            · exact .pure _
        · apply calls_settled hd
          intro response
          split <;> exact .pure _

theorem calls_program (srv : McpServer) (hT : ∀ n, T n) (j : ℕ) {work : Work srv.Job}
    (hhandle : ∀ body, bodyOf work = some body →
      Coroutine.Calls (I := HandlerI) B T ((srv.dispatcher j).handleRequest srv.L body))
    (hjob : ∀ x, work = .job x → Coroutine.Calls (I := HandlerI) B T (srv.job j x))
    (hresponding : ∀ op, Responding work op → B op) :
    (srv.program j work).Calls (Within B) T := by
  cases work with
  | getSse req =>
    exact calls_serve ((calls_handleSse req).mono within_of_getCall) (fun _ => trivial)
  | postMessage req =>
    apply calls_serve _ (fun _ => trivial)
    refine calls_handleMessage (hhandle req.content rfl) (fun msg => ?_) hT j
    exact hresponding _ ⟨rfl, _, _, msg, rfl, rfl⟩
  | postMcp req =>
    apply calls_serve _ (fun _ => trivial)
    refine calls_handlePost (hhandle req.content rfl) (fun msg => ?_) hT j
    exact hresponding _ ⟨rfl, _, _, msg, rfl, rfl⟩
  | getMcp req =>
    exact calls_serve ((calls_handleGet req).mono within_of_getCall) (fun _ => trivial)
  | deleteMcp req =>
    exact calls_serve ((calls_handleDelete (hT _)).mono within_of_closingCall) (fun _ => trivial)
  | job x => exact (Coroutine.Calls.inl (hjob x rfl)).bind (fun _ => .pure _)

end Programs

section Runs
variable {app : Application} {steps : List (Label Input (Origin app.Job))} {c : app.server.State}

/-- How many values of a batch the server takes. -/
def batchLimit (app : Application) : ℕ := app.cfg.security.sizeLimits.maxBatchSize.toNat

/-- The call has its cause in the request, or hands over its response. -/
def Caused (app : Application) (work : Work app.Job) (op : HandlerCall) : Prop :=
  Asked app.L (batchLimit app) work op ∨ Responding work op

/-- What is done for an origin has its cause in it, if it is `op`. -/
def causes (app : Application) (op : HandlerCall) (o : Origin app.Job) : Contract ShardI Unit :=
  .calling ShardI (Within (fun call => call = op → Caused app o.work op)) (fun _ => True)

theorem calls_asked {B : HandlerCall → Prop} {T : ℕ → Prop} (hT : ∀ n, T n)
    (hregistry : app.registry.Calls B T) (j : ℕ) {work : Work app.Job}
    (hasked : ∀ op, Asked app.L (batchLimit app) work op → B op) {body : Str}
    (hbody : bodyOf work = some body) : Coroutine.Calls (I := HandlerI) B T
      ((app.server.dispatcher j).handleRequest app.L body) := by
  apply calls_handleRequest
  intro v hv
  apply calls_handleSingle
  · intro method handler hhandler hrequest hid
    refine calls_mcpMethods hregistry (fun n _ => hT n) hhandler (fun op hop => ?_)
    exact hasked op ⟨body, hbody, v, hv, method, hrequest, hid, hop⟩
  · intro method handler hhandler _ t ht
    exact calls_mcpNotifications hhandler ht

theorem keeps_causes {op : HandlerCall} (h : Refrains app op) :
    Keeps app.server.system (causes app op) (fun _ => True) (fun _ _ _ => True) where
  answers _ _ _ _ _ := trivial
  program o _ := by
    have hprogram : (app.server.program o.shard o.work).Calls
        (Within (fun call => call = op → Caused app o.work op)) (fun _ => True) := by
      refine calls_program app.server (fun _ => trivial) o.shard ?_ ?_ ?_
      · intro body hbody
        refine calls_asked (fun _ => trivial) ?_ o.shard ?_ hbody
        · exact ⟨fun name tool htool args => (h.registry.tools name tool htool args).mono
              (fun call hne heq => absurd heq hne),
            fun uri res hres => (h.registry.resources uri res hres).mono
              (fun call hne heq => absurd heq hne),
            fun name prompt hprompt args => (h.registry.prompts name prompt hprompt args).mono
              (fun call hne heq => absurd heq hne)⟩
        · rintro call hasked rfl
          exact .inl hasked
      · rintro x -
        exact (h.job o.shard x).mono (fun call hne heq => absurd heq hne)
      · rintro call hresponding rfl
        exact .inr hresponding
    exact Coroutine.Follows.mono hprogram (fun x _ _ => by cases x <;> trivial)
      (fun _ _ _ => trivial)
  again o w _ _ := by
    have hwriter : (runWriter w).Calls
        (Within (fun call => call = op → Caused app o.work op)) (fun _ => True) :=
      (calls_runWriter w).mono within_of_writerCall
    exact Coroutine.Follows.mono hwriter (fun x _ _ => by cases x <;> trivial)
      (fun _ _ _ => trivial)

theorem caused_of_run (h : app.server.Reaches steps c) {op : HandlerCall} (hop : Refrains app op)
    {e : Event ShardI (Origin app.Job) McpShard} (he : e ∈ c.log) (heop : e.op = .inl op) :
    Caused app e.origin.work op := by
  have hlawful := (onTrack_of_run (keeps_causes hop) (fun l _ => l.launches_true) h).2 e he
  have hallows : Within (fun call => call = op → Caused app e.origin.work op) e.op :=
    hlawful.1.1
  rw [heop] at hallows
  exact hallows rfl

theorem subscribed_by_event (h : app.server.Reaches steps c) {j : ℕ} {id uri : Str} (hid : id ≠ [])
    (hsubscribed : id ∈ (c.shards j).subscriptions.subscribers uri) :
    ∃ e ∈ c.log, e.shard = j ∧ e.op = .inl (.subscribeResource uri) ∧
      e.before.currentSessionId = id := by
  have hinv := (coherent_of_run h).invariant
    (fun j s => id ∈ s.subscriptions.subscribers uri → ∃ e ∈ c.log, e.shard = j ∧
      e.op = .inl (.subscribeResource uri) ∧ e.before.currentSessionId = id)
    (fun _ hmem => by cases hmem) ?_
  · exact hinv.1 j hsubscribed
  · intro e he hexec hbefore hafter
    rcases SubscriptionCleanup.subscribed_of_event hexec hid hafter with ⟨hop, hsession⟩ | ⟨-, hold⟩
    · exact ⟨e, he, rfl, hop, hsession⟩
    · exact hbefore hold

theorem level_by_event (h : app.server.Reaches steps c) {j : ℕ}
    (hlevel : (c.shards j).clientLogLevel ≠ app.server.cfg.shard.clientLogLevel) :
    ∃ e ∈ c.log, e.shard = j ∧ e.op = .inl (.setClientLogLevel (c.shards j).clientLogLevel) := by
  have hnewest := (coherent_of_run h).eq_newest McpShard.clientLogLevel (fun e => levelSet e.op)
    (fun e _ hexec => by
      have hexec' : shardExec app.server.L app.server.cfg e.shard e.now e.op e.before =
          (e.res, e.after) := hexec
      have hset := (settings_shardExec app.server.L app.server.cfg e.shard e.now e.op e.before).1
      rwa [hexec'] at hset) j
  cases hw : newest (fun e => levelSet e.op) j c.log with
  | none =>
    rw [hw] at hnewest
    exact absurd hnewest hlevel
  | some level =>
    rw [hw] at hnewest
    obtain rfl : (c.shards j).clientLogLevel = level := hnewest
    obtain ⟨newer, e, older, hlog, hj, hset, -⟩ := newest_eq_some_iff.mp hw
    refine ⟨e, by rw [hlog]; simp, hj, ?_⟩
    unfold levelSet at hset
    split at hset
    · rename_i hop
      rw [hop, Option.some.inj hset]
    · cases hset

theorem handleClientResponse_of_nil {s : McpShard} (h : s.pendingClientRequests = [])
    (response : Json) : (s.handleClientResponse response).2 = s := by
  unfold McpShard.handleClientResponse
  split
  · rfl
  · rename_i id _
    have hnot : id ∉ s.pendingClientRequests := by simp [h]
    rw [if_pos hnot]

/-- Requests to clients are made by events. -/
theorem pending_by_event (h : app.server.Reaches steps c) {j : ℕ}
    (hpending : (c.shards j).pendingClientRequests ≠ []) :
    ∃ e ∈ c.log, e.shard = j ∧ ∃ session method params,
      e.op = .inl (.sendRequest session method params) := by
  have hinv := (coherent_of_run h).invariant
    (fun j s => s.pendingClientRequests ≠ [] → ∃ e ∈ c.log, e.shard = j ∧
      ∃ session method params, e.op = .inl (.sendRequest session method params))
    (fun _ hne => absurd rfl hne) ?_
  · exact hinv.1 j hpending
  · intro e he hexec hbefore hafter
    by_cases hsend : ∃ session method params, e.op = .inl (.sendRequest session method params)
    · exact ⟨e, he, rfl, hsend⟩
    · apply hbefore
      intro hempty
      apply hafter
      have hafter' : e.after =
          (shardExec app.server.L app.server.cfg e.shard e.now e.op e.before).2 :=
        (congrArg Prod.snd hexec).symm
      by_cases hresponse : ∃ response, e.op = .inr (.handleClientResponse response)
      · obtain ⟨response, hop⟩ := hresponse
        rw [hafter', hop]
        exact (congrArg McpShard.pendingClientRequests
          (handleClientResponse_of_nil hempty response)).trans hempty
      · have hchanges : ¬ChangesRequests e.op := by
          intro hchanges
          unfold ChangesRequests at hchanges
          split at hchanges
          · exact hsend ⟨_, _, _, ‹_›⟩
          · exact hresponse ⟨_, ‹_›⟩
          · exact hchanges
        rw [((Frame.of_exec hexec).requests hchanges).2.1, hempty]

/-- What the code of the application refrains from is done on request only. So in every reached
state each subscription to a resource goes back to a request for it, carried out on this shard for
the session that was current then; so does each log level but the first; and nothing is asked of
clients. -/
theorem requested_of_run (app : Application) {steps : List (Label Input (Origin app.Job))}
    {c : app.server.State} (h : app.server.Reaches steps c) :
    (∀ op, Refrains app op → ∀ e ∈ c.log, e.op = .inl op → Caused app e.origin.work op) ∧
    (∀ uri, Refrains app (.subscribeResource uri) → ∀ j,
      ∀ id ∈ (c.shards j).subscriptions.subscribers uri, ∃ e ∈ c.log, e.shard = j ∧
        e.op = .inl (.subscribeResource uri) ∧ e.before.currentSessionId = id ∧
        Asked app.L (batchLimit app) e.origin.work (.subscribeResource uri)) ∧
    (∀ j, Refrains app (.setClientLogLevel (c.shards j).clientLogLevel) →
      (c.shards j).clientLogLevel ≠ .warn → ∃ e ∈ c.log, e.shard = j ∧
        e.op = .inl (.setClientLogLevel (c.shards j).clientLogLevel) ∧
        Asked app.L (batchLimit app) e.origin.work
          (.setClientLogLevel (c.shards j).clientLogLevel)) ∧
    ((∀ session method params, Refrains app (.sendRequest session method params)) →
      ∀ j, (c.shards j).pendingClientRequests = []) := by
  have asked_of_caused : ∀ {work : Work app.Job} {op : HandlerCall},
      (∀ id msg, op ≠ .pushToSession id msg) → Caused app work op →
      Asked app.L (batchLimit app) work op := by
    rintro work op hop (hasked | ⟨-, endpoint, id, msg, -, rfl⟩)
    · exact hasked
    · exact absurd rfl (hop id msg)
  refine ⟨?_, ?_, ?_, ?_⟩
  · intro op hop e he heop
    exact caused_of_run h hop he heop
  · intro uri hrefrains j id hid
    have hne : id ≠ [] := by
      rintro rfl
      exact SubscriptionCleanup.nil_notMem_subscribers h j uri hid
    obtain ⟨e, he, hj, hop, hsession⟩ := subscribed_by_event h hne hid
    have hcaused := caused_of_run h hrefrains he hop
    exact ⟨e, he, hj, hop, hsession, asked_of_caused (fun _ _ => HandlerCall.noConfusion) hcaused⟩
  · intro j hrefrains hlevel
    obtain ⟨e, he, hj, hop⟩ := level_by_event h hlevel
    have hcaused := caused_of_run h hrefrains he hop
    exact ⟨e, he, hj, hop, asked_of_caused (fun _ _ => HandlerCall.noConfusion) hcaused⟩
  · intro hrefrains j
    by_contra hpending
    obtain ⟨e, he, -, session, method, params, hop⟩ := pending_by_event h hpending
    have hcaused := caused_of_run h (hrefrains session method params) he hop
    obtain ⟨_, _, v, _, _, _, _, hrequests⟩ :=
      asked_of_caused (fun _ _ => HandlerCall.noConfusion) hcaused
    exact hrequests

end Runs

section Examples

def bareApp : Application where
  L := CompactJson.library
  cfg := .standard
  count := 2
  Job := Empty
  job _ x := x.elim
  count_pos := Nat.two_pos
  registry_inRange := ⟨fun _ _ h => (by cases h), fun _ _ h => (by cases h), fun _ _ h => (by cases h)⟩
  job_inRange _ x := x.elim

theorem refrains_bareApp (op : HandlerCall) : Refrains bareApp op where
  registry := ⟨fun _ _ h => (by cases h), fun _ _ h => (by cases h), fun _ _ h => (by cases h)⟩
  job _ x := x.elim

def subscribing : List (Label Input (Origin Empty)) :=
  [.launch ⟨0, .getSse {}⟩, .advance 0, .advance 0, .advance 0, .advance 0,
    .launch ⟨0, .postMessage ResourceUpdates.subscribePost⟩, .advance 1, .advance 1, .advance 1,
    .advance 1, .advance 1]

/-- The subscription goes back to its request. -/
theorem requested_of_run_subscribing : ∃ c, bareApp.server.Reaches subscribing c ∧
    ResourceUpdates.firstSession ∈ (c.shards 0).subscriptions.subscribers "u".toList ∧
    ∃ e ∈ c.log, e.shard = 0 ∧ e.op = .inl (.subscribeResource "u".toList) ∧
      e.before.currentSessionId = ResourceUpdates.firstSession ∧
      Asked bareApp.L (batchLimit bareApp) e.origin.work (.subscribeResource "u".toList) := by
  have hrun : (LabelledRuns.run bareApp.server.system.step bareApp.server.system.start
      subscribing).any (fun c => decide (ResourceUpdates.firstSession ∈
        (c.shards 0).subscriptions.subscribers "u".toList)) := by
    decide +kernel
  obtain ⟨c, hc, hp⟩ := (Option.any_eq_true _ _).mp hrun
  have hsubscribed := of_decide_eq_true hp
  exact ⟨c, hc, hsubscribed,
    (requested_of_run bareApp hc).2.1 _ (refrains_bareApp _) 0 _ hsubscribed⟩

end Examples

end McpSdk.RequestedChanges

import McpSdk.JsonRpcConformance
import McpSdk.RequestPromises
import McpSdk.SessionIds
import McpSdk.TaskOutcomes

/-!
# Where session requests act

A session stands in the table of the shard that has opened it, and its id says which. A request
that names it may arrive on any shard: POST and DELETE send what they do to the session to its own
shard, GET looks for it in the table of the shard that it has come to. Only the answer to a POST is
sent: its body is compared with the pending requests, and handled, on the shard it has come to.
-/

namespace McpSdk.SessionPlacement
open CppStandardLibrary CooperativeTasks ClusterRuns SessionIds
  SessionRouting

section Tables

variable (L : JsonLibrary) (cfg : McpServerConfig) (j : ℕ) (now : Int)

/-- An operation puts no session into the table but the one it opens. -/
theorem mem_sessions_shardExec (op : ShardI.Op) (s : McpShard) {id : Str}
    (h : id ∈ (shardExec L cfg j now op s).2.sessions) :
    id ∈ s.sessions ∨ issuedBy op (shardExec L cfg j now op s).1 = some id := by
  have hframe := frame_shardExec L cfg j now op s
  by_cases hop : ChangesSessions op
  · rcases op with op | op
    · exact hop.elim
    · cases op with
      | createSession clientIp =>
        change id ∈ (s.createSession cfg j clientIp).2.sessions at h
        change id ∈ s.sessions ∨
          issuedBy (.inr (.createSession clientIp)) (s.createSession cfg j clientIp).1 = some id
        rcases s.createSession_eq cfg j clientIp with hfull | ⟨sessionToIp, ipConnCount, hnew⟩
        · rw [hfull] at h
          exact .inl h
        · rw [hnew] at h ⊢
          rcases (AList.mem_insert s.sessions).mp h with rfl | h
          · exact .inr (issuedBy_createSession clientIp j _)
          · exact .inl h
      | createSessionWithId id' clientIp =>
        obtain ⟨sessionToIp, ipConnCount, hnew⟩ := s.newSession_trackIpConn_frame id' clientIp
        change id ∈ (s.createSessionWithId id' clientIp).sessions at h
        rw [McpShard.createSessionWithId, hnew] at h
        rcases (AList.mem_insert s.sessions).mp h with rfl | h
        · exact .inr rfl
        · exact .inl h
      | removeSession id' =>
        obtain ⟨sessionToIp, ipConnCount, hremoved⟩ := s.removeSession_frame id'
        change id ∈ (s.removeSession id').sessions at h
        rw [hremoved] at h
        exact .inl (AList.mem_erase.mp h).2
      | _ => exact hop.elim
  · rw [(hframe.sessions hop).1] at h
    exact .inl h

end Tables

section Runs
variable {srv : McpServer} {steps : List (Label Input (Origin srv.Job))} {c : srv.State}

theorem id_of_session (h : srv.Reaches steps c) {j : ℕ} {id : Str}
    (hid : id ∈ (c.shards j).sessions) : ∃ n, id = sseId j n ∨ id = streamId j n := by
  refine ((coherent_of_run h).invariant (fun j (s : McpShard) => ∀ id ∈ s.sessions,
    ∃ n, id = sseId j n ∨ id = streamId j n) (fun _ _ hid => ?_) ?_).1 j id hid
  · cases hid
  · intro e he hexec hbefore id hid
    have hres : e.res = (shardExec srv.L srv.cfg e.shard e.now e.op e.before).1 :=
      (congrArg Prod.fst hexec).symm
    rw [after_eq hexec] at hid
    rcases mem_sessions_shardExec _ _ _ _ _ _ hid with hid | hid
    · exact hbefore id hid
    · rw [← hres] at hid
      exact ((ids_of_run srv).1 steps c h).2 e he id hid

theorem parseShard_of_session (h : srv.Reaches steps c) {K : UInt32} {id : Str}
    (hid : id ∈ (c.shards K.toNat).sessions) :
    StreamableHttpTransport.parseShard id = K.toNat := by
  obtain ⟨n, rfl | rfl⟩ := id_of_session h hid
  · exact mcp_parseShard_sseId K.toNat_lt n
  · exact mcp_parseShard_streamId K.toNat_lt n

theorem shard_of_session (h : srv.Reaches steps c) {j k : ℕ} {id : Str}
    (hj : id ∈ (c.shards j).sessions) (hk : id ∈ (c.shards k).sessions) : j = k := by
  obtain ⟨n, rfl | rfl⟩ := id_of_session h hj
  · obtain ⟨m, hm | hm⟩ := id_of_session h hk
    · exact (sseId_inj hm).1
    · exact absurd hm (sseId_ne_streamId _ _ _ _)
  · obtain ⟨m, hm | hm⟩ := id_of_session h hk
    · exact absurd hm.symm (sseId_ne_streamId _ _ _ _)
    · exact (streamId_inj hm).1

theorem ne_nil_of_session (h : srv.Reaches steps c) {j : ℕ} {id : Str}
    (hid : id ∈ (c.shards j).sessions) : id ≠ [] := by
  obtain ⟨n, rfl | rfl⟩ := id_of_session h hid
  · exact sseId_ne_nil j n
  · rw [streamId_eq]
    exact List.cons_ne_nil _ _

end Runs

section Requests

/-- The requests that name a session of POST /mcp. -/
inductive SessionMethod
  | post | get | delete
  deriving DecidableEq

/-- A call on a shard that does something for the session: it changes what the session is
subscribed to, or gives it a message. -/
def concerns (session : Str) : ShardI.Op → McpShard → Bool
  | .inl (.subscribeResource _), s | .inl (.unsubscribeResource _), s =>
      s.currentSessionId == session
  | .inl (.pushProgress _ _), s =>
      s.currentSessionId == session && !s.currentProgressToken.isEmpty
  | .inl (.pushToSession id _), _ | .inl (.sendRequest id _ _), _ => id == session
  | _, _ => false

variable (srv : McpServer) (now : Int) (meanwhile : (ℕ → McpShard) → (ℕ → McpShard) → Prop)

/-- The server around a request: `meanwhile` is what the other tasks do to the shards while the
request is suspended, and what it sends to another shard is done there. The clock is for the
security checks alone. -/
def amid : Surroundings ShardI McpShard where
  exec i := shardExec srv.L srv.cfg i now
  ready := shardReady
  meanwhile := meanwhile
  later := False

/-- The same, with a mark on each shard where the request does something for the session. -/
abbrev watched (session : Str) : Surroundings ShardI (McpShard × Bool) :=
  (amid srv now meanwhile).marking (concerns session)

def unmarked (s : ℕ → McpShard) : ℕ → McpShard × Bool := fun i => (s i, false)

/-- The handler of the request on shard `j`. -/
def handle (j : ℕ) : SessionMethod → Request → ShardTask Reply
  | .post, req => StreamableHttpTransport.handlePost srv.L (srv.dispatcher j) j req
  | .get, req => StreamableHttpTransport.handleGet req
  | .delete, req => StreamableHttpTransport.handleDelete j req

/-- What `check_request` says of the request on a shard, and what it leaves. -/
def checked (req : Request) (s : McpShard) : SecurityCheckResult × McpShard :=
  s.checkRequest srv.cfg now (getClientIp req) (getApiKey req)

/-- The shard accepts the request: the checks that its handler makes let it pass. -/
def Accepts (s : McpShard) : SessionMethod → Request → Prop
  | .post, req =>
      McpShard.checkBodySize srv.cfg req.content.length ∧ (checked srv now req s).1 = .ok
  | .get, req => (checked srv now req s).1 = .ok
  | .delete, _ => True

/-- The states in which the body of an accepted request is dispatched on shard `j`. -/
def admitted (j : ℕ) (req : Request) (s : ℕ → McpShard) : ℕ → McpShard :=
  Function.update s j (checked srv now req (s j)).2

/-- The states in which its handlers run. -/
def entered (j : ℕ) (session : Str) (req : Request) (s : ℕ → McpShard) : ℕ → McpShard :=
  Function.update s j { (checked srv now req (s j)).2 with
    currentSessionId := session
    currentProgressToken := progressToken srv.L req.content }

/-- What the handlers of shard `j` do with the body. -/
def handlers (j : ℕ) (body : Str) : ShardTask (Option Str) :=
  ((srv.dispatcher j).handleRequest srv.L body).inl

/-- The response, if there is one, is pushed on the shard of the session, and enters the queue if
the session is open. Nothing else happens to the shard but to its circuit breaker. -/
def Enqueues (session : Str) (response : Option Str) (x x' : McpShard × Bool) : Prop :=
  x'.2 = (x.2 || response.isSome) ∧ ∃ objects circuitBreaker,
    x'.1 = { x.1 with objects := objects, circuitBreaker := circuitBreaker } ∧
    ∀ ref, x.1.sessions.lookup session = some ref → (x.1.object ref).active →
      objects = match response with
        | some text => x.1.objects.modify ref (·.pushEventually text)
        | none => x.1.objects

variable (j k : ℕ) (session : Str) (ref : ℕ) (s : ℕ → McpShard)

/-- What the answer to a POST should be, with the states in which it is there: a client's response
to a request that is pending on shard `k` completes this request and has no answer, and
everything else is answered by the handlers. -/
def Due (req : Request) (answer : Option Str) (x : ℕ → McpShard × Bool) : Prop :=
  match RequestPromises.taken srv.L (s k) req.content with
  | some (n, value) => answer = none ∧
      meanwhile (Function.update (admitted srv now j req s) k
        ((admitted srv now j req s k).settle n value)) (fun i => (x i).1)
  | none => (handlers srv j req.content).coAwait.coAwait.Ends (watched srv now meanwhile session) j
      (unmarked (entered srv now j session req s)) (.ok answer) x

/-- On shard `j` the request acts as on shard `k` on the session that `k` has under this name. POST
answers 202 and puts the answer that is due into its queue, and nothing is done for the session on
another shard than its own; GET attaches a stream to it; DELETE closes it and takes it out of the
table. -/
def ActsAmid : SessionMethod → Request → Prop
  | .post, req => ∀ out x',
      (handle srv j .post req).Ends (watched srv now meanwhile session) j (unmarked s) out x' →
        (j ≠ k → (x' j).2 = false) ∧ ∀ reply, out = .ok reply → reply.status = 202 ∧
          ∃ answer x, Due srv now meanwhile j k session s req answer x ∧
            Enqueues session answer (x k) (x' k)
  | .get, req => ∀ out s', (handle srv j .get req).Ends (amid srv now meanwhile) j s out s' →
      ∃ reply, out = .ok reply ∧ reply.stream = some ⟨.reconnect, session, ref⟩
  | .delete, req => ∀ out s', (handle srv j .delete req).Ends (amid srv now meanwhile) j s out s' →
      (∃ reply, out = .ok reply ∧ reply.status = 200) ∧
        (s' k).sessions.lookup session = none ∧ ((s' k).object ref).active = false

/-- So it does whatever the other tasks do in the meantime. -/
def ActsOn (method : SessionMethod) (req : Request) : Prop :=
  ∀ meanwhile, (∀ s, meanwhile s s) → ActsAmid srv now meanwhile j k session ref s method req

/-- The handlers of the body do nothing for the session on shard `j`. -/
def HandlersApart (req : Request) : Prop :=
  ∀ meanwhile, (∀ s, meanwhile s s) → ∀ out x, (handlers srv j req.content).Ends
    (watched srv now meanwhile session) j (unmarked (entered srv now j session req s)) out x →
      (x j).2 = false

section Post
variable {srv now meanwhile j k session ref s} {x x' : ℕ → McpShard × Bool}

theorem objects_pushToSession (s : McpShard) (text : Str) {r : ℕ}
    (hopen : s.sessions.lookup session = some r) (hactive : (s.object r).active) :
    (s.pushToSession session text).objects = s.objects.modify r (·.pushEventually text) := by
  rw [McpShard.pushToSession, McpShard.getSession, hopen]
  dsimp only
  rw [if_pos hactive]
  rfl

theorem unmarked_update (s' : McpShard) :
    Function.update (unmarked s) j (s', false) = unmarked (Function.update s j s') := by
  funext i
  by_cases hi : i = j
  · subst hi
    rw [Function.update_self, unmarked, Function.update_self]
  · rw [Function.update_of_ne hi, unmarked, unmarked, Function.update_of_ne hi]

theorem update_perform (op : TransportCall) : ((watched srv now meanwhile session).exec j (.inr op)
    (x j)) = ((shardExec srv.L srv.cfg j now (.inr op) (x j).1).1,
      (shardExec srv.L srv.cfg j now (.inr op) (x j).1).2, (x j).2) :=
  Prod.ext rfl (Prod.ext rfl (Bool.or_false _))

/-- A body that is taken for a response ends the call, and others go to the handlers. -/
theorem ends_dispatch {body : Str} {out : Except Exception (Option Str)} :
    (dispatch srv.L (srv.dispatcher j) body session).Ends (watched srv now meanwhile session) j x
        out x' ↔
      match RequestPromises.taken srv.L (x j).1 body with
      | some (n, value) => out = .ok none ∧
          x' = Function.update x j ((x j).1.settle n value, (x j).2)
      | none => (handlers srv j body).coAwait.Ends (watched srv now meanwhile session) j
          (Function.update x j ({ (x j).1 with
            currentSessionId := session
            currentProgressToken := progressToken srv.L body }, (x j).2)) out x' := by
  have hcalls : (takeClientResponse srv.L body).Calls
      (fun op : ShardI.Op => ∃ response, op = .inr (.handleClientResponse response))
      (fun _ => True) := by
    unfold takeClientResponse
    split
    · exact .pure _
    · split
      · refine (calls_transport ⟨_, rfl⟩).bind (fun taken => ?_)
        split <;> exact .pure _
      · exact .pure _
  have htake :=
    Coroutine.proceed_marking (S := amid srv now meanwhile) (f := concerns session) hcalls
    (fun _ _ h => by obtain ⟨_, rfl⟩ := h; rfl)
    (RequestPromises.proceed_takeClientResponse srv.L srv.cfg j now (x j).1 body) (x j).2
  have hfirst : (dispatch srv.L (srv.dispatcher j) body session).Ends
      (watched srv now meanwhile session) j x out x' ↔ (do
        let handled ← takeClientResponse srv.L body
        if handled then return none
        else RequestPromises.asRequest srv.L body (srv.dispatcher j) session :
          ShardTask (Option Str)).Ends (watched srv now meanwhile session) j x out x' := by
    refine Coroutine.ends_perform_bind.trans ?_
    rw [update_perform]
    exact iff_of_eq (congrArg (Coroutine.Ends _ j _ · out x') (Function.update_eq_self j x))
  rw [hfirst, Coroutine.ends_bind_of_proceed htake]
  cases RequestPromises.taken srv.L (x j).1 body with
  | some p => rfl
  | none =>
    rw [Option.elim_none, Function.update_eq_self]
    refine Coroutine.ends_perform_bind.trans ?_
    rw [update_perform]
    rfl

theorem ends_pushResponse {text : Str} {out : Except Exception Unit} :
    (pushResponse j k session text).Ends (watched srv now meanwhile session) j x out x' ↔
      out = .ok () ∧ x' = Function.update x k ((x k).1.pushToSession session text, true) := by
  have hpush : ((watched srv now meanwhile session).exec k (.inl (.pushToSession session text))
      (x k)) = ((), (x k).1.pushToSession session text, true) := by
    refine Prod.ext rfl (Prod.ext rfl ?_)
    change ((x k).2 || session == session) = true
    rw [beq_self_eq_true, Bool.or_true]
  have hperform : ∀ {i : ℕ} {out : Except Exception Unit} {x₁ : ℕ → McpShard × Bool}, i = k →
      ((onShard (.pushToSession session text)).Ends (watched srv now meanwhile session) i x out x₁ ↔
        out = .ok () ∧ x₁ = Function.update x k ((x k).1.pushToSession session text, true)) := by
    rintro _ out x₁ rfl
    refine Coroutine.ends_perform.trans ?_
    rw [hpush]
    rfl
  unfold pushResponse
  split
  · exact hperform (Eq.symm ‹_›)
  · refine Coroutine.ends_send.trans ((or_iff_left (fun h => h.1)).trans ?_)
    constructor
    · rintro ⟨out₁, x₁, h, hout, rfl⟩
      exact ⟨hout, ((hperform rfl).mp h).2⟩
    · rintro ⟨hout, hx⟩
      exact ⟨.ok (), x', (hperform rfl).mpr ⟨rfl, hx⟩, hout, rfl⟩

def recorded (now : Int) (j : ℕ) (clientIp : Str) (response : Option Str)
    (x : ℕ → McpShard × Bool) : ℕ → McpShard × Bool :=
  Function.update x j ((x j).1.recordOutcome now clientIp (isError response), (x j).2)

def delivered (now : Int) (j k : ℕ) (session clientIp : Str) (response : Option Str)
    (x : ℕ → McpShard × Bool) : ℕ → McpShard × Bool :=
  match response with
  | some text => Function.update (recorded now j clientIp response x) k
      ((recorded now j clientIp response x k).1.pushToSession session text, true)
  | none => recorded now j clientIp response x

/-- A POST for a session that is accepted dispatches its body and delivers the answer. -/
theorem ends_post {req : Request} (hsession : req.header "mcp-session-id".toList = session)
    (hne : session ≠ []) (hshard : StreamableHttpTransport.parseShard session = k)
    (haccepts : Accepts srv now (s j) .post req) {out : Except Exception Reply} :
    (handle srv j .post req).Ends (watched srv now meanwhile session) j (unmarked s) out x' ↔
      ∃ res x, (dispatch srv.L (srv.dispatcher j) req.content session).coAwait.Ends
          (watched srv now meanwhile session) j (unmarked (admitted srv now j req s)) res x ∧
        match res with
        | .ok response => out = .ok { status := 202 } ∧
            x' = delivered now j k session (getClientIp req) response x
        | .error e => out = .error e ∧ x' = x := by
  obtain ⟨hsize, hcheck⟩ := haccepts
  have hchecked : (watched srv now meanwhile session).exec j
      (.inr (.checkRequest (getClientIp req) (getApiKey req))) (unmarked s j) =
        (.ok, (checked srv now req (s j)).2, false) :=
    (update_perform _).trans (Prod.ext hcheck rfl)
  have hsized : (watched srv now meanwhile session).exec j
      (.inr (.checkBodySize req.content.length)) (unmarked s j) = (true, unmarked s j) :=
    (update_perform _).trans (Prod.ext hsize rfl)
  have hcall : (handle srv j .post req).Ends (watched srv now meanwhile session) j (unmarked s) out
      x' ↔ (StreamableHttpTransport.postSession srv.L (srv.dispatcher j) j (getClientIp req)
        req.content session).Ends (watched srv now meanwhile session) j
          (unmarked (admitted srv now j req s)) out x' := by
    refine Coroutine.ends_perform_bind.trans ?_
    rw [hsized, Function.update_eq_self]
    refine Coroutine.ends_perform_bind.trans ?_
    rw [hchecked, unmarked_update]
    simp only [if_false, ne_eq, not_true_eq_false, hsession, List.isEmpty_eq_false_iff.mpr hne,
      Bool.not_false, if_true]
    rfl
  have hrecord : ∀ response (x : ℕ → McpShard × Bool), Function.update x j
      ((watched srv now meanwhile session).exec j
        (.inr (.recordOutcome (getClientIp req) (isError response))) (x j)).2 =
      recorded now j (getClientIp req) response x := fun response x => by
    rw [update_perform]
    rfl
  rw [hcall, StreamableHttpTransport.postSession, Coroutine.ends_bind]
  constructor
  · rintro (⟨response, x, hdispatch, h⟩ | ⟨e, hdispatch, rfl⟩)
    · have h := Coroutine.ends_perform_bind.mp h
      rw [hrecord] at h
      refine ⟨.ok response, x, hdispatch, ?_⟩
      cases response with
      | some text =>
        rcases Coroutine.ends_bind.mp h with ⟨_, x₁, hpush, hout, rfl⟩ | ⟨e, hpush, -⟩
        · rw [hshard] at hpush
          exact ⟨hout, (ends_pushResponse.mp hpush).2⟩
        · cases (ends_pushResponse.mp hpush).1
      | none => exact h
    · exact ⟨.error e, x', hdispatch, rfl, rfl⟩
  · rintro ⟨res, x, hdispatch, h⟩
    cases res with
    | ok response =>
      obtain ⟨rfl, rfl⟩ := h
      refine .inl ⟨response, x, hdispatch, Coroutine.ends_perform_bind.mpr ?_⟩
      rw [hrecord]
      cases response with
      | some text =>
        rw [hshard]
        exact Coroutine.ends_bind.mpr (.inl ⟨(), _, ends_pushResponse.mpr ⟨rfl, rfl⟩, rfl, rfl⟩)
      | none => exact ⟨rfl, rfl⟩
    | error e =>
      obtain ⟨rfl, rfl⟩ := h
      exact .inr ⟨e, hdispatch, rfl⟩

theorem mark_delivered (hjk : j ≠ k) (clientIp : Str) (response : Option Str)
    (x : ℕ → McpShard × Bool) :
    (delivered now j k session clientIp response x j).2 = (x j).2 := by
  cases response with
  | some text => rw [delivered, Function.update_of_ne hjk, recorded, Function.update_self]
  | none => rw [delivered, recorded, Function.update_self]

theorem enqueues_delivered (clientIp : Str) (response : Option Str)
    (x : ℕ → McpShard × Bool) :
    Enqueues session response (x k) (delivered now j k session clientIp response x k) := by
  obtain ⟨circuitBreaker, hrecorded⟩ : ∃ circuitBreaker, recorded now j clientIp response x k =
      ({ (x k).1 with circuitBreaker := circuitBreaker }, (x k).2) := by
    by_cases hk : k = j
    · subst hk
      obtain ⟨circuitBreaker, hframe⟩ :=
        McpShard.recordOutcome_frame now clientIp (isError response) (x k).1
      exact ⟨circuitBreaker, by rw [recorded, Function.update_self, hframe]⟩
    · exact ⟨(x k).1.circuitBreaker, by rw [recorded, Function.update_of_ne hk]⟩
  cases response with
  | some text =>
    obtain ⟨objects, -, hframe⟩ := McpShard.pushToSession_frame session text
      { (x k).1 with circuitBreaker := circuitBreaker }
    rw [delivered, Function.update_self, hrecorded, hframe]
    refine ⟨(Bool.or_true _).symm, objects, circuitBreaker, rfl, fun ref hopen hactive => ?_⟩
    have hobjects := objects_pushToSession { (x k).1 with circuitBreaker := circuitBreaker } text
      hopen hactive
    rw [hframe] at hobjects
    exact hobjects
  | none =>
    rw [delivered, hrecorded]
    exact ⟨(Bool.or_false _).symm, _, circuitBreaker, rfl, fun _ _ _ => rfl⟩

theorem taken_admitted (req : Request) (i : ℕ) (body : Str) :
    RequestPromises.taken srv.L (admitted srv now j req s i) body =
      RequestPromises.taken srv.L (s i) body := by
  by_cases hi : i = j
  · subst hi
    obtain ⟨rateLimiter, circuitBreaker, h⟩ :=
      McpShard.checkRequest_frame srv.cfg now (getClientIp req) (getApiKey req) (s i)
    rw [admitted, Function.update_self, checked, h]
    rfl
  · rw [admitted, Function.update_of_ne hi]

theorem ends_dispatch_of_none {req : Request} {out : Except Exception (Option Str)}
    (hnone : RequestPromises.taken srv.L (s j) req.content = none) :
    (dispatch srv.L (srv.dispatcher j) req.content session).coAwait.Ends
        (watched srv now meanwhile session) j (unmarked (admitted srv now j req s)) out x' ↔
      (handlers srv j req.content).coAwait.coAwait.Ends (watched srv now meanwhile session) j
        (unmarked (entered srv now j session req s)) out x' := by
  rw [Coroutine.ends_coAwait, Coroutine.ends_coAwait]
  refine exists_congr fun x => and_congr_left' (ends_dispatch.trans ?_)
  rw [unmarked, taken_admitted, hnone]
  dsimp only
  have hentered : Function.update (unmarked (admitted srv now j req s)) j
      ({ admitted srv now j req s j with
        currentSessionId := session
        currentProgressToken := progressToken srv.L req.content }, false) =
      unmarked (entered srv now j session req s) := by
    rw [unmarked_update, admitted, Function.update_self, Function.update_idem, entered]
  exact iff_of_eq (congrArg (Coroutine.Ends _ j _ · out x) hentered)

/-- The answer that is due is delivered, if no request of another shard takes the body. -/
theorem actsAmid_post {req : Request} (hsession : req.header "mcp-session-id".toList = session)
    (hne : session ≠ []) (hshard : StreamableHttpTransport.parseShard session = k)
    (haccepts : Accepts srv now (s j) .post req) (hmean : ∀ s, meanwhile s s)
    (hfree : j ≠ k → RequestPromises.taken srv.L (s k) req.content = none ∧
      RequestPromises.taken srv.L (s j) req.content = none ∧
      HandlersApart srv now j session s req) :
    ActsAmid srv now meanwhile j k session ref s .post req := by
  intro out x' h
  obtain ⟨res, x, hdispatch, hres⟩ := (ends_post hsession hne hshard haccepts).mp h
  constructor
  · intro hjk
    obtain ⟨-, hnone, hapart⟩ := hfree hjk
    obtain ⟨x₁, hhandlers, hlast⟩ :=
      Coroutine.ends_coAwait.mp ((ends_dispatch_of_none hnone).mp hdispatch)
    obtain ⟨x₂, hhandlers, hmiddle⟩ := Coroutine.ends_coAwait.mp hhandlers
    have hmark : (x j).2 = false :=
      (hlast.2 j).trans ((hmiddle.2 j).trans (hapart meanwhile hmean _ _ hhandlers))
    cases res with
    | ok response =>
      obtain ⟨-, rfl⟩ := hres
      rw [mark_delivered hjk]
      exact hmark
    | error e =>
      obtain ⟨-, rfl⟩ := hres
      exact hmark
  · rintro reply rfl
    cases res with
    | error e => cases hres.1
    | ok response =>
      obtain ⟨hreply, rfl⟩ := hres
      cases hreply
      refine ⟨rfl, response, x, ?_, enqueues_delivered _ response x⟩
      unfold Due
      cases htaken : RequestPromises.taken srv.L (s k) req.content with
      | none =>
        have hnone : RequestPromises.taken srv.L (s j) req.content = none := by
          by_cases hjk : j = k
          · rw [hjk, htaken]
          · exact (hfree hjk).2.1
        exact (ends_dispatch_of_none hnone).mp hdispatch
      | some p =>
        obtain rfl : j = k := by
          by_contra hjk
          rw [(hfree hjk).1] at htaken
          cases htaken
        obtain ⟨x₁, hdispatch, hlast⟩ := Coroutine.ends_coAwait.mp hdispatch
        have hsettled := ends_dispatch.mp hdispatch
        rw [unmarked, taken_admitted, htaken] at hsettled
        obtain ⟨hresponse, rfl⟩ := hsettled
        refine ⟨Except.ok.inj hresponse, ?_⟩
        have hstates := hlast.1
        change meanwhile (fun i => (Function.update (unmarked (admitted srv now j req s)) j
          ((admitted srv now j req s j).settle p.1 p.2, false) i).1) _ at hstates
        rw [unmarked_update] at hstates
        exact hstates

theorem handlers_of_taken {s' : McpShard} {body : Str} {p : ℕ × Except Exception Json}
    (h : RequestPromises.taken srv.L s' body = some p) :
    ∃ text, handlers srv j body = .await (fun _ => .ret (some text)) := by
  obtain ⟨n, value⟩ := p
  obtain ⟨response, hparse, hshape, -⟩ := RequestPromises.taken_eq_some_iff.mp h
  simp only [isClientResponse, Bool.and_eq_true, Bool.not_eq_true'] at hshape
  obtain ⟨⟨⟨hobject, -⟩, hmethod⟩, -⟩ := hshape
  have hmalformed : JsonRpcDispatcher.malformed response := by
    rw [JsonRpcDispatcher.malformed, hmethod, Bool.not_false, Bool.or_true]
  have hser : (JsonRpcResponse.mk (response.getD "id".toList) (some .null)
      (some ⟨.invalidRequest, "Invalid Request".toList, .null⟩)).toJson.serialisable :=
    JsonRpcConformance.serialisable_error (JsonRpcConformance.serialisable_getD
      (srv.L.serialisable_of_parse _ _ hparse) _) (by decide) rfl
  obtain ⟨text, htext⟩ := Option.isSome_iff_exists.mp ((srv.L.dump_isSome _).trans hser)
  refine ⟨text, ?_⟩
  have hsingle : (srv.dispatcher j).handleRequest srv.L body =
      ((srv.dispatcher j).handleSingle srv.L response).coAwait := by
    rw [JsonRpcDispatcher.handleRequest, hparse]
    cases response with
    | object members => rfl
    | _ => cases hobject
  rw [handlers, hsingle, JsonRpcConformance.handleSingle_of_malformed hobject hmalformed,
    JsonRpcDispatcher.refuse, JsonRpcDispatcher.reply, JsonLibrary.dumpText, htext]
  rfl

theorem ends_await_eq (srv : McpServer) (now : Int) (session : Str) {text : Str}
    {out : Except Exception (Option Str)} :
    (Coroutine.await (fun _ => .ret (some text)) : ShardTask (Option Str)).coAwait.coAwait.Ends
        (watched srv now (· = ·) session) j x out x' ↔ out = .ok (some text) ∧ x' = x := by
  have hsame : ∀ {x x' : ℕ → McpShard × Bool},
      (watched srv now (· = ·) session).meanwhile x x' ↔ x' = x := by
    intro x x'
    constructor
    · rintro ⟨hstates, hmarks⟩
      exact funext fun i => Prod.ext (congrFun hstates i).symm (hmarks i)
    · rintro rfl
      exact ⟨rfl, fun _ => rfl⟩
  rw [Coroutine.ends_coAwait]
  simp only [Coroutine.ends_coAwait, hsame, exists_eq_right']
  constructor
  · rintro ⟨v, x₁, hx₁, hout, rfl⟩
    exact ⟨hout, hsame.mp hx₁⟩
  · rintro ⟨hout, rfl⟩
    exact ⟨.ok .null, _, hsame.mpr rfl, hout, rfl⟩

/-- What comes of a client's response on another shard than that of the session: no request of the
latter is completed, and nothing is pushed if one of the former is. -/
theorem exists_ends_post {req : Request} (hsession : req.header "mcp-session-id".toList = session)
    (hne : session ≠ []) (hshard : StreamableHttpTransport.parseShard session = k)
    (haccepts : Accepts srv now (s j) .post req) (hjk : j ≠ k) {text : Str}
    (hhandlers : handlers srv j req.content = .await (fun _ => .ret (some text))) :
    ∃ x, (handle srv j .post req).Ends (watched srv now (· = ·) session) j (unmarked s)
        (.ok { status := 202 }) x ∧
      (x k).1.pendingClientRequests = (s k).pendingClientRequests ∧
      (RequestPromises.taken srv.L (s j) req.content ≠ none → (x k).2 = false) := by
  have hat : ∀ {s' : McpShard}, unmarked (Function.update s j s') k = (s k, false) := by
    intro s'
    rw [unmarked, Function.update_of_ne (Ne.symm hjk)]
  cases htaken : RequestPromises.taken srv.L (s j) req.content with
  | some p =>
    have hdispatch : (dispatch srv.L (srv.dispatcher j) req.content session).coAwait.Ends
        (watched srv now (· = ·) session) j (unmarked (admitted srv now j req s)) (.ok none)
        (unmarked (Function.update (admitted srv now j req s) j
          ((admitted srv now j req s j).settle p.1 p.2))) := by
      refine Coroutine.ends_coAwait.mpr ⟨_, ends_dispatch.mpr ?_, rfl, fun _ => rfl⟩
      rw [unmarked, taken_admitted, htaken]
      exact ⟨rfl, (unmarked_update _).symm⟩
    refine ⟨_, (ends_post hsession hne hshard haccepts).mpr ⟨_, _, hdispatch, rfl, rfl⟩, ?_⟩
    rw [delivered, recorded, Function.update_of_ne (Ne.symm hjk), admitted, Function.update_idem,
      hat]
    exact ⟨rfl, fun _ => rfl⟩
  | none =>
    have hdispatch := (ends_dispatch_of_none htaken).mpr (hhandlers ▸
      (ends_await_eq srv now session).mpr ⟨rfl, rfl⟩)
    refine ⟨_, (ends_post hsession hne hshard haccepts).mpr ⟨_, _, hdispatch, rfl, rfl⟩, ?_,
      fun h => (h rfl).elim⟩
    obtain ⟨objects, -, hframe⟩ := McpShard.pushToSession_frame session text (s k)
    rw [delivered, Function.update_self, recorded, Function.update_of_ne (Ne.symm hjk), entered, hat,
      hframe]

/-- A POST on another shard than that of its session acts on it as there only if no request of
either shard takes its body and the handlers do nothing for the session. -/
theorem free_of_actsOn {req : Request} (hsession : req.header "mcp-session-id".toList = session)
    (hne : session ≠ []) (hshard : StreamableHttpTransport.parseShard session = k)
    (haccepts : Accepts srv now (s j) .post req) (hjk : j ≠ k)
    (h : ActsOn srv now j k session ref s .post req) :
    RequestPromises.taken srv.L (s k) req.content = none ∧
      RequestPromises.taken srv.L (s j) req.content = none ∧
      HandlersApart srv now j session s req := by
  have hacts := h (· = ·) (fun _ => rfl)
  have hnone : RequestPromises.taken srv.L (s k) req.content = none := by
    rw [Option.eq_none_iff_forall_ne_some]
    rintro ⟨n, value⟩ htaken
    -- the request of shard `k` is still pending
    obtain ⟨text, hhandlers⟩ := handlers_of_taken (j := j) htaken
    obtain ⟨x', hends, hpending, -⟩ :=
      exists_ends_post hsession hne hshard haccepts hjk hhandlers
    obtain ⟨-, answer, x, hdue, -, objects, circuitBreaker, hstate, -⟩ :=
      (hacts _ _ hends).2 _ rfl
    rw [Due, htaken] at hdue
    have hsettled : (x k).1 = (s k).settle n value := by
      rw [← congrFun hdue.2 k, Function.update_self, admitted, Function.update_of_ne (Ne.symm hjk)]
    obtain ⟨-, -, -, -, hn, -⟩ := RequestPromises.taken_eq_some_iff.mp htaken
    rw [← hpending, hstate, hsettled] at hn
    simp [McpShard.settle] at hn
  have hnone' : RequestPromises.taken srv.L (s j) req.content = none := by
    by_contra htaken
    -- the error that is due has not been pushed
    obtain ⟨p, hp⟩ := Option.ne_none_iff_exists'.mp htaken
    obtain ⟨text, hhandlers⟩ := handlers_of_taken (j := j) hp
    obtain ⟨x', hends, -, hmark⟩ := exists_ends_post hsession hne hshard haccepts hjk hhandlers
    obtain ⟨-, answer, x, hdue, hpushed, -⟩ := (hacts _ _ hends).2 _ rfl
    rw [Due, hnone, hhandlers] at hdue
    obtain ⟨hanswer, rfl⟩ := (ends_await_eq srv now session).mp hdue
    rw [Except.ok.inj hanswer, hmark htaken] at hpushed
    rw [Option.isSome_some, Bool.or_true] at hpushed
    cases hpushed
  refine ⟨hnone, hnone', fun meanwhile hmean out x hhandlers => ?_⟩
  have hself : ∀ x : ℕ → McpShard × Bool, (watched srv now meanwhile session).meanwhile x x :=
    fun x => ⟨hmean _, fun _ => rfl⟩
  have hdispatch := (ends_dispatch_of_none hnone').mpr
    (Coroutine.ends_coAwait.mpr ⟨x, Coroutine.ends_coAwait.mpr ⟨x, hhandlers, hself x⟩, hself x⟩)
  cases out with
  | ok response =>
    have hends := (ends_post hsession hne hshard haccepts).mpr ⟨_, _, hdispatch, rfl, rfl⟩
    rw [← mark_delivered hjk]
    exact (h meanwhile hmean _ _ hends).1 hjk
  | error e =>
    have hends := (ends_post hsession hne hshard haccepts).mpr ⟨_, _, hdispatch, rfl, rfl⟩
    exact (h meanwhile hmean _ _ hends).1 hjk

end Post

variable {srv now meanwhile j k session ref s} {s' : ℕ → McpShard}

/-- The reply of GET to a request that the shard accepts. -/
def getReply (session : Str) (s : McpShard) : Reply :=
  match s.sessions.lookup session with
  | none =>
      { status := 404
        body := "\x7b\"error\":\"Session not found on this shard\"\x7d".toList }
  | some ref =>
      { headers := streamHeaders ++ [("mcp-session-id".toList, session)]
        stream := some ⟨.reconnect, session, ref⟩ }

theorem ends_get {req : Request} (hsession : req.header "mcp-session-id".toList = session)
    (hne : session ≠ []) (haccepts : Accepts srv now (s j) .get req)
    {out : Except Exception Reply} :
    (handle srv j .get req).Ends (amid srv now meanwhile) j s out s' ↔
      out = .ok (getReply session (s j)) ∧
        s' = Function.update s j (checked srv now req (s j)).2 := by
  have hsessions : (checked srv now req (s j)).2.sessions = (s j).sessions := by
    obtain ⟨rateLimiter, circuitBreaker, h⟩ :=
      McpShard.checkRequest_frame srv.cfg now (getClientIp req) (getApiKey req) (s j)
    rw [checked, h]
  subst hsession
  refine Coroutine.ends_perform_bind.trans ?_
  rw [show ((amid srv now meanwhile).exec j (.inr (.checkRequest (getClientIp req) (getApiKey req)))
    (s j)) = checked srv now req (s j) from rfl, show (checked srv now req (s j)).1 = .ok from
    haccepts]
  simp only [ne_eq, not_true_eq_false, if_false, List.isEmpty_eq_false_iff.mpr hne,
    Bool.false_eq_true]
  refine Coroutine.ends_perform_bind.trans ?_
  rw [Function.update_self, Function.update_idem,
    show ((amid srv now meanwhile).exec j (.inr (.getSession (req.header "mcp-session-id".toList)))
      (checked srv now req (s j)).2) =
        ((s j).sessions.lookup (req.header "mcp-session-id".toList),
          (checked srv now req (s j)).2) from
        congrArg (fun m => (AList.lookup _ m, _)) hsessions]
  unfold getReply
  cases (s j).sessions.lookup (req.header "mcp-session-id".toList) <;> rfl

/-- The shard once the session with the object `ref` has been closed. -/
def closed (session : Str) (ref : ℕ) (s : McpShard) : McpShard :=
  ((s.updateObject ref (fun o => { o with active := false })).updateObject ref
    (·.pushEventually [])).removeSession session

theorem ends_closeSession (hopen : (s k).sessions.lookup session = some ref)
    {out : Except Exception Unit} :
    (StreamableHttpTransport.closeSession session).Ends (amid srv now meanwhile) k s out s' ↔
      out = .ok () ∧ s' = Function.update s k (closed session ref (s k)) := by
  refine Coroutine.ends_perform_bind.trans ?_
  rw [show ((amid srv now meanwhile).exec k (.inr (.getSession session)) (s k)) =
    ((s k).sessions.lookup session, s k) from rfl, hopen, Function.update_eq_self]
  refine Coroutine.ends_perform_bind.trans ?_
  refine Coroutine.ends_perform_bind.trans ?_
  refine Coroutine.ends_perform.trans ?_
  simp only [Function.update_self, Function.update_idem]
  rfl

/-- From every shard DELETE closes the session on its own. -/
theorem ends_delete {req : Request} (hsession : req.header "mcp-session-id".toList = session)
    (hne : session ≠ []) (hshard : StreamableHttpTransport.parseShard session = k)
    (hopen : (s k).sessions.lookup session = some ref) {out : Except Exception Reply} :
    (handle srv j .delete req).Ends (amid srv now meanwhile) j s out s' ↔
      out = .ok {} ∧ s' = Function.update s k (closed session ref (s k)) := by
  have hclose : ∀ {t : ShardTask Unit}, (∀ out s', t.Ends (amid srv now meanwhile) j s out s' ↔
      out = .ok () ∧ s' = Function.update s k (closed session ref (s k))) →
      ((do
        t
        return {} : ShardTask Reply).Ends (amid srv now meanwhile) j s out s' ↔
          out = .ok {} ∧ s' = Function.update s k (closed session ref (s k))) := by
    intro t ht
    rw [Coroutine.ends_bind]
    constructor
    · rintro (⟨_, s₁, h, hout, rfl⟩ | ⟨e, h, -⟩)
      · exact ⟨hout, ((ht _ _).mp h).2⟩
      · cases ((ht _ _).mp h).1
    · rintro ⟨hout, hs⟩
      exact .inl ⟨(), s', (ht _ _).mpr ⟨rfl, hs⟩, hout, rfl⟩
  have hnamed : handle srv j .delete req = (if k = j then (do
        StreamableHttpTransport.closeSession session
        return {} : ShardTask Reply)
      else do
        Coroutine.send k (StreamableHttpTransport.closeSession session)
        return {}) := by
    rw [handle, StreamableHttpTransport.handleDelete]
    simp only [hsession, List.isEmpty_eq_false_iff.mpr hne, Bool.not_false, if_true, hshard]
  rw [hnamed]
  split
  · rename_i hk
    subst hk
    exact hclose (fun _ _ => ends_closeSession hopen)
  · refine hclose (fun out s' => Coroutine.ends_send.trans ((or_iff_left (fun h => h.1)).trans ?_))
    constructor
    · rintro ⟨out₁, s₁, h, hout, rfl⟩
      exact ⟨hout, ((ends_closeSession hopen).mp h).2⟩
    · rintro ⟨hout, hs⟩
      exact ⟨.ok (), s', (ends_closeSession hopen).mpr ⟨rfl, hs⟩, hout, rfl⟩

theorem lookup_closed (session : Str) (ref : ℕ) (s : McpShard) :
    (closed session ref s).sessions.lookup session = none := by
  obtain ⟨sessionToIp, ipConnCount, h⟩ := McpShard.removeSession_frame session
    ((s.updateObject ref (fun o => { o with active := false })).updateObject ref
      (·.pushEventually []))
  rw [closed, h]
  exact AList.lookup_erase _ _

theorem active_closed {s : McpShard} (hbound : ref < s.objects.length) :
    ((closed session ref s).object ref).active = false := by
  obtain ⟨sessionToIp, ipConnCount, h⟩ := McpShard.removeSession_frame session
    ((s.updateObject ref (fun o => { o with active := false })).updateObject ref
      (·.pushEventually []))
  have hobject : (closed session ref s).object ref =
      ((s.updateObject ref (fun o => { o with active := false })).updateObject ref
        (·.pushEventually [])).object ref := by
    rw [closed, h]
    rfl
  have hbound' : ref < (s.updateObject ref (fun o => { o with active := false })).objects.length :=
    hbound.trans_eq (List.length_modify ..).symm
  rw [hobject, McpShard.object_updateObject _ hbound', if_pos rfl,
    SseSession.pushEventually_active, McpShard.object_updateObject _ hbound, if_pos rfl]

end Requests

/-- A request that names a session of shard `K` and is accepted by shard `j` acts on the session as
it would on shard `K`, unless `j` is another shard and it is a GET, which does not find the session
there, or a POST with a client's response that a request pending on one of the two shards takes, or
one whose handlers do something for the session, which they do on shard `j`. -/
theorem actsOn_iff (srv : McpServer) {steps : List (Label Input (Origin srv.Job))} {c : srv.State}
    (h : srv.Reaches steps c) {K : UInt32} {session : Str} {ref : ℕ}
    (hopen : (c.shards K.toNat).sessions.lookup session = some ref) (now : Int) (j : ℕ)
    (method : SessionMethod) {req : Request}
    (hnames : req.header "mcp-session-id".toList = session)
    (haccepts : Accepts srv now (c.shards j) method req) :
    ActsOn srv now j K.toNat session ref c.shards method req ↔
      (method = .get → j = K.toNat) ∧ (method = .post → j ≠ K.toNat →
        RequestPromises.taken srv.L (c.shards K.toNat) req.content = none ∧
        RequestPromises.taken srv.L (c.shards j) req.content = none ∧
        HandlersApart srv now j session c.shards req) := by
  have hmem : session ∈ (c.shards K.toNat).sessions :=
    AList.lookup_isSome.mp (Option.isSome_iff_exists.mpr ⟨ref, hopen⟩)
  have hne := ne_nil_of_session h hmem
  have hshard := parseShard_of_session h hmem
  cases method with
  | post =>
    rw [and_iff_right (fun hm => by cases hm), imp_iff_right rfl]
    constructor
    · exact fun hacts hjk => free_of_actsOn hnames hne hshard haccepts hjk hacts
    · exact fun hfree meanwhile hmean =>
        actsAmid_post hnames hne hshard haccepts hmean hfree
  | delete =>
    refine iff_of_true (fun meanwhile _ out s' hends => ?_)
      ⟨fun hm => (by cases hm), fun hm => (by cases hm)⟩
    obtain ⟨rfl, rfl⟩ := (ends_delete hnames hne hshard hopen).mp hends
    rw [Function.update_self]
    have hbound := ((tables_of_run h).1 K.toNat).1.bound _ _ hopen
    exact ⟨⟨_, rfl, rfl⟩, lookup_closed _ _ _, active_closed hbound⟩
  | get =>
    rw [and_iff_left (fun hm => by cases hm), imp_iff_right rfl]
    constructor
    · intro hacts
      obtain ⟨reply, hreply, hstream⟩ :=
        hacts (· = ·) (fun _ => rfl) _ _ ((ends_get hnames hne haccepts).mpr ⟨rfl, rfl⟩)
      cases hreply
      cases hfound : (c.shards j).sessions.lookup session with
      | none =>
        rw [getReply, hfound] at hstream
        cases hstream
      | some ref' =>
        have hj : session ∈ (c.shards j).sessions :=
          AList.lookup_isSome.mp (Option.isSome_iff_exists.mpr ⟨ref', hfound⟩)
        exact shard_of_session h hj hmem
    · rintro rfl meanwhile - out s' hends
      obtain ⟨rfl, -⟩ := (ends_get hnames hne haccepts).mp hends
      refine ⟨_, rfl, ?_⟩
      rw [getReply, hopen]

section Example

abbrev twoShards : McpServer := plainServer 2 Nat.two_pos

def naming : Request := { header := sessionHeader (streamId 1 1) }

theorem openings_accepted : ∃ c, twoShards.Reaches openings c ∧
    (c.shards 1).sessions.lookup (streamId 1 1) = some 0 ∧
    ∀ method, Accepts twoShards 0 (c.shards 0) method naming := by
  have hrun : (LabelledRuns.run twoShards.system.step twoShards.system.start openings).any
      (fun c => (c.shards 1).sessions.lookup (streamId 1 1) == some 0 &&
        (checked twoShards 0 naming (c.shards 0)).1 == .ok) := by decide +kernel
  obtain ⟨c, hc, hp⟩ := (Option.any_eq_true _ _).mp hrun
  simp only [Bool.and_eq_true, beq_iff_eq] at hp
  refine ⟨c, hc, hp.1, fun method => ?_⟩
  cases method with
  | post => exact ⟨by decide, hp.2⟩
  | get => exact hp.2
  | delete => trivial

theorem handlersApart_naming (j : ℕ) (session : Str) (s : ℕ → McpShard) :
    HandlersApart twoShards 0 j session s naming := by
  intro meanwhile _ out x hends
  have hcalls : (handlers twoShards j naming.content).Calls (fun _ => False) (fun _ => True) := by
    apply Coroutine.Calls.inl
    rw [JsonRpcDispatcher.handleRequest, show naming.content = [] from rfl,
      show twoShards.L.parse [] = none from CompactJson.parse_nil]
    exact (Coroutine.Calls.ofExcept _).bind (fun _ => .pure _)
  exact Coroutine.mark_of_calls hcalls (fun _ _ h => h.elim) hends j

/-- POST on shard 0 enqueues its answer in the session of shard 1, and DELETE closes it. -/
theorem actsOn_iff_delete : ∃ c, twoShards.Reaches openings c ∧
    (c.shards 1).sessions.lookup (streamId 1 1) = some 0 ∧
    ActsOn twoShards 0 0 1 (streamId 1 1) 0 c.shards .post naming ∧
    ActsOn twoShards 0 0 1 (streamId 1 1) 0 c.shards .delete naming := by
  obtain ⟨c, hc, hopen, haccepts⟩ := openings_accepted
  have hnone : ∀ s : McpShard, RequestPromises.taken twoShards.L s naming.content = none := by
    intro s
    rw [RequestPromises.taken, show naming.content = [] from rfl,
      show twoShards.L.parse [] = none from CompactJson.parse_nil]
    rfl
  refine ⟨c, hc, hopen, ?_, ?_⟩
  · exact (actsOn_iff twoShards hc (K := 1) hopen 0 0 .post (sessionHeader_self _)
      (haccepts .post)).mpr ⟨fun h => (by cases h), fun _ _ =>
        ⟨hnone _, hnone _, handlersApart_naming _ _ _⟩⟩
  · exact (actsOn_iff twoShards hc (K := 1) hopen 0 0 .delete (sessionHeader_self _)
      (haccepts .delete)).mpr ⟨fun h => (by cases h), fun h => (by cases h)⟩

/-- GET on shard 0 does not find it. -/
theorem get_answers_not_found : ∃ c, twoShards.Reaches openings c ∧
    (c.shards 1).sessions.lookup (streamId 1 1) = some 0 ∧
    Accepts twoShards 0 (c.shards 0) .get naming ∧
    ¬ActsOn twoShards 0 0 1 (streamId 1 1) 0 c.shards .get naming := by
  obtain ⟨c, hc, hopen, haccepts⟩ := openings_accepted
  have hmem : streamId 1 1 ∈ (c.shards 1).sessions :=
    AList.lookup_isSome.mp (Option.isSome_iff_exists.mpr ⟨0, hopen⟩)
  refine ⟨c, hc, hopen, haccepts .get, fun hacts => ?_⟩
  obtain ⟨reply, hreply, hstream⟩ := hacts (· = ·) (fun _ => rfl) _ _
    ((ends_get (sessionHeader_self _) (ne_nil_of_session hc hmem) (haccepts .get)).mpr ⟨rfl, rfl⟩)
  have hnone : (c.shards 0).sessions.lookup (streamId 1 1) = none :=
    AList.lookup_eq_none.mpr (fun h => absurd (shard_of_session hc h hmem) (by decide))
  cases hreply
  rw [getReply, show naming.header "mcp-session-id".toList = streamId 1 1 from sessionHeader_self _,
    hnone] at hstream
  cases hstream

end Example

end McpSdk.SessionPlacement

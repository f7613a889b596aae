import McpSdk.RequestedChanges
import McpSdk.TaskProgress

/-!
# No request is stuck

A request whose handlers wait neither for a client nor for other shards nor for room in a queue
can still be answered, whatever the streams, the jobs and the other requests are at: the steps of
its own shard suffice. What such a handler waits for outside the server, as for a timer, the world
outside answers. A stream writer that waits for a message holds no core.
-/

namespace McpSdk.AnsweredRequests
open CppStandardLibrary CooperativeTasks ClusterRuns RequestedChanges JsonRpcConformance

/-- The call needs no other task: it waits neither for a client, nor for other shards, nor for room
in a queue, as the pushes do that a handler awaits. -/
def Prompt : HandlerCall → Prop
  | .clientReply _ | .gathered _ | .pushProgress _ _ | .pushToSession _ _ | .sendRequest _ _ _ =>
      False
  | _ => True

def Unwaiting (op : HandlerCall) : Prop := (∀ id, op ≠ .clientReply id) ∧ ∀ n, op ≠ .gathered n

theorem unwaiting_of_prompt (op : HandlerCall) (h : Prompt op) : Unwaiting op := by
  cases op with
  | clientReply | gathered => exact h.elim
  | _ => exact ⟨nofun, nofun⟩

/-- The origin is a request. -/
def Served {Job : Type} (o : Origin Job) : Prop :=
  match o.work with
  | .job _ => False
  | _ => True

def Replied (past : List (Mark ShardI)) : Prop :=
  ∃ reply : Reply, .did (.inr (.respond reply)) () ∈ past

section Writers

theorem atOnce_writeOut (sessionId text : Str) :
    (writeOut sessionId text).AtOnce (fun _ => False) :=
  fun _ => trivial

theorem atOnce_popMessage (session : ℕ) : (popMessage session).AtOnce (fun _ => False) := by
  intro popped
  dsimp only
  cases popped <;> trivial

theorem atOnce_writerTurn (s : Stream) : (writerTurn s).AtOnce (· = false) := by
  intro active
  dsimp only
  cases active with
  | false => rfl
  | true => exact (atOnce_popMessage s.session).bind (fun _ h => h.elim)

theorem atOnce_guarded (s : Stream) {t : ShardTask Bool} (ht : t.AtOnce (· = false)) :
    (guarded s t).AtOnce (· = none) := by
  have hcaught : (t.tryCatch (fun _ => do
      transport (.deactivate s.session)
      return false)).AtOnce (· = false) :=
    ht.andThen (fun _ h => h) (fun _ _ => rfl)
  apply hcaught.bind
  rintro _ rfl
  exact (Coroutine.atOnce_true (closeStream s)).bind (fun _ _ => rfl)

theorem atOnce_runWriter (w : WriterState) : (runWriter w).AtOnce (· = none) := by
  cases w with
  | opening s =>
    apply atOnce_guarded
    exact (atOnce_writeOut _ _).bind (fun _ h => h.elim)
  | looping s => exact atOnce_guarded s (atOnce_writerTurn s)

end Writers

section Requests

/-- Has a task sent its reply? Until then it does not wait for a message. -/
def replying : Contract ShardI Bool where
  init := false
  allows q op := q = true ∨ ∀ ref n, op ≠ .inr (.popWaiting ref n)
  answers _ _ := True
  next q op _ := q || match op with
    | .inr (.respond _) => true
    | _ => false
  child q := q
  rests _ := True
  addresses _ := True

theorem idle_beforeReply : replying.Idle BeforeReply (fun _ => True) where
  allows q op _ hop := by
    refine .inr ?_
    rintro ref n rfl
    exact hop
  next q op _ _ hop := by
    rcases op with op | op
    · exact Bool.or_false q
    · cases op <;> first | exact Bool.or_false q | exact hop.elim
  rests _ _ := trivial
  child _ _ := trivial

theorem idle_replied : replying.Idle (fun _ => True) (· = true) where
  allows _ _ hq _ := .inl hq
  next q op _ hq _ := by
    subst hq
    rfl
  rests _ _ := trivial
  child _ hq := hq

theorem replied_of_phase {A : ShardI.Op → Prop} {past : List (Mark ShardI)}
    (h : phase (replying.restrict A) past = true) : Replied past := by
  induction past with
  | nil => cases h
  | cons mark past ih =>
    cases mark with
    | started =>
      obtain ⟨reply, hmem⟩ := ih h
      exact ⟨reply, .tail _ hmem⟩
    | did op r =>
      rcases Bool.or_eq_true_iff.mp h with h | h
      · obtain ⟨reply, hmem⟩ := ih h
        exact ⟨reply, .tail _ hmem⟩
      · split at h
        · exact ⟨_, .head _⟩
        · cases h

theorem ready_of_unwaiting {op : ShardI.Op} (hop : Within Unwaiting op)
    (hmessage : ∀ ref n, op ≠ .inr (.popWaiting ref n)) (s : McpShard) :
    shardReady op s ∧ shardGathers op = none := by
  rcases op with op | op
  · cases op with
    | clientReply id => exact absurd rfl (hop.1 id)
    | gathered n => exact absurd rfl (hop.2 n)
    | _ => exact ⟨rfl, rfl⟩
  · cases op with
    | popWaiting ref n => exact absurd rfl (hmessage ref n)
    | _ => exact ⟨rfl, rfl⟩

variable {srv : McpServer}

/-- The handlers that the value calls for on shard `j` make prompt calls only. -/
structure CallsPrompt (srv : McpServer) (j : ℕ) (v : Json) : Prop where
  methods : ∀ method handler, srv.methods j method = some handler → IsRequest v method →
    Coroutine.Calls (I := HandlerI) Prompt (fun _ => True) (handler (paramsOf v))
  notifications : ∀ method handler, srv.notifications j method = some handler →
    IsRequest v method → ∀ t, handler (paramsOf v) = .ok t →
      Coroutine.Calls (I := HandlerI) Prompt (fun _ => True) t

/-- The work is a request, and if it has a body, so for each value in it. -/
structure Answerable (srv : McpServer) (o : Origin srv.Job) : Prop where
  served : Served o
  prompt : ∀ body, bodyOf o.work = some body →
    ∀ v ∈ elementsOf srv.L (srv.dispatcher o.shard).maxBatchSize body, CallsPrompt srv o.shard v

theorem callsPrompt_application {app : Application}
    (h : app.registry.Calls Prompt (fun _ => True)) (j : ℕ) {v : Json}
    (hv : ¬IsRequest v "logging/setLevel".toList) : CallsPrompt app.server j v where
  methods method handler hhandler hrequest := by
    refine calls_mcpMethods h (fun _ _ => trivial) hhandler (fun op hop => ?_)
    cases op with
    | gathered n =>
      obtain rfl : method = _ := hop
      exact hv hrequest
    | clientReply | pushProgress | pushToSession | sendRequest => exact hop
    | _ => trivial
  notifications _ _ hhandler _ _ ht := calls_mcpNotifications hhandler ht

theorem calls_of_answerable {o : Origin srv.Job} (ho : Answerable srv o) :
    (srv.program o.shard o.work).Calls (Within Unwaiting) (fun _ => True) := by
  refine calls_program srv (fun _ => trivial) o.shard ?_ ?_ ?_
  · intro body hbody
    apply calls_handleRequest
    intro v hv
    have hprompt := ho.prompt body hbody v hv
    apply calls_handleSingle
    · intro method handler hhandler hrequest _
      exact (hprompt.methods method handler hhandler hrequest).mono unwaiting_of_prompt
    · intro method handler hhandler hrequest t ht
      exact (hprompt.notifications method handler hhandler hrequest t ht).mono unwaiting_of_prompt
  · intro x hwork
    have hserved := ho.served
    rw [Served, hwork] at hserved
    exact hserved.elim
  · rintro op ⟨-, _, _, _, -, rfl⟩
    exact ⟨nofun, nofun⟩

theorem follows_of_answerable {o : Origin srv.Job} (ho : Answerable srv o) :
    (srv.program o.shard o.work).Follows (replying.restrict (Within Unwaiting)) false
      (fun _ q => q = true) (fun _ q => q = true) := by
  refine Coroutine.Follows.restrict ?_ (calls_of_answerable ho)
  have hserve : ∃ handler, srv.program o.shard o.work = serve handler ∧
      handler.Calls BeforeReply (fun _ => True) := by
    have hT : ∀ n : ℕ, (fun _ => True) n := fun _ => trivial
    have hserved := ho.served
    obtain ⟨j, work⟩ := o
    cases work with
    | getSse req => exact ⟨_, rfl, (calls_handleSse req).mono (fun _ h => h.beforeReply)⟩
    | postMessage req =>
      exact ⟨_, rfl, (McpSdk.calls_handleMessage _ _ hT j req).mono (fun _ h => h.beforeReply)⟩
    | postMcp req => exact ⟨_, rfl, McpSdk.calls_handlePost _ _ hT j req⟩
    | getMcp req => exact ⟨_, rfl, (calls_handleGet req).mono (fun _ h => h.beforeReply)⟩
    | deleteMcp req => exact ⟨_, rfl, (calls_handleDelete trivial).mono (fun _ h => h.beforeReply)⟩
    | job x => exact hserved.elim
  obtain ⟨handler, hprogram, hcalls⟩ := hserve
  rw [hprogram]
  apply follows_serve
  have hfollows := Coroutine.Follows.of_calling idle_beforeReply (fun _ _ => trivial)
    (q := false) trivial hcalls
  have hsends : ∀ reply : Reply, Sends replying (fun _ q => q = true) reply false :=
    fun reply => ⟨.inr nofun, trivial, rfl, rfl⟩
  refine hfollows.mono ?_ ?_
  · rintro reply q ⟨-, rfl⟩
    exact hsends reply
  · rintro e q ⟨-, rfl⟩ reply - -
    exact hsends reply

theorem leads_replying (srv : McpServer) :
    LeadsAll srv.system (replying.restrict (Within Unwaiting)) (Answerable srv) (· = true)
      (fun _ q => q = true) (fun _ q => q = true) where
  ready q op s hq hallows := by
    rcases hallows.1 with htrue | hmessage
    · exact absurd htrue hq
    · exact ready_of_unwaiting hallows.2 hmessage s
  answers _ _ := trivial
  returns _ _ hq := hq
  fails _ _ hq := hq
  pauses _ w := atOnce_runWriter w
  program o ho := follows_of_answerable ho
  again o w q _ hq := by
    have hcalls := calls_runWriter (T := fun _ => True) w
    have hfollows := Coroutine.Follows.of_calling idle_replied (fun _ _ => trivial) hq
      (hcalls.mono (fun _ _ => trivial))
    refine (Coroutine.Follows.restrict (hfollows.mono ?_ ?_)
      (hcalls.mono within_of_writerCall))
    · rintro x q' ⟨-, rfl⟩
      exact hq
    · rintro e q' ⟨-, rfl⟩
      exact hq

/-- Each request that has been taken and whose handlers are prompt can still be answered, by steps of
its own shard alone, and they all can, before anything else is started. -/
theorem answered_of_run (srv : McpServer) {steps : List (Label Input (Origin srv.Job))}
    {c : srv.State} (h : srv.Reaches steps c) :
    (∀ (i : ℕ) (t : Running ShardI Input Exception (Origin srv.Job) WriterState),
      c.tasks[i]? = some t → Answerable srv t.origin → .started ∉ t.past →
      ∃ c' u, Proceeds srv.system t.shard c c' ∧ c'.tasks[i]? = some u ∧ Replied u.past) ∧
    ∃ more c', (∀ l ∈ more, l.Launches (fun _ => False)) ∧ srv.Reaches (steps ++ more) c' ∧
      ∀ (i : ℕ) (t : Running ShardI Input Exception (Origin srv.Job) WriterState),
        c.tasks[i]? = some t → Answerable srv t.origin → .started ∉ t.past →
        ∃ u, c'.tasks[i]? = some u ∧ u.origin = t.origin ∧ Replied u.past := by
  constructor
  · intro i t hi hanswerable hnew
    obtain ⟨c', u, hproceeds, hu, hphase⟩ :=
      arrives_of_run (Answerable srv) (leads_replying srv) h hi hanswerable hnew
    exact ⟨c', u, hproceeds, hu, replied_of_phase hphase⟩
  · have hkeeps : ∀ q op r, q = true →
        (replying.restrict (Within Unwaiting)).next q op r = true := by
      rintro q op r rfl
      rfl
    obtain ⟨more, c', hmore, hrun, -, htasks⟩ :=
      all_arrive_of_run (Answerable srv) (leads_replying srv) hkeeps h
    refine ⟨more, c', hmore, hrun, fun i t hi hanswerable hnew => ?_⟩
    obtain ⟨u, hu, horigin, hphase⟩ := htasks i t hi hanswerable hnew
    exact ⟨u, hu, horigin, replied_of_phase hphase⟩

end Requests

section Examples

def taken : List (Label Input (Origin Empty)) :=
  [.launch ⟨0, .getSse {}⟩, .advance 0, .advance 0, .advance 0, .advance 0,
    .launch ⟨0, .postMessage ResourceUpdates.subscribePost⟩, .advance 1]

theorem answerable_subscribePost {o : Origin Empty} {req : Request}
    (hwork : o.work = .postMessage req)
    (hcontent : req.content = ResourceUpdates.subscribePost.content) :
    Answerable bareApp.server o where
  served := by
    unfold Served
    rw [hwork]
    trivial
  prompt body hbody v hv := by
    obtain rfl : ResourceUpdates.subscribePost.content = body := by
      rw [hwork] at hbody
      exact hcontent.symm.trans (Option.some.inj hbody)
    have hparse : CompactJson.library.parse ResourceUpdates.subscribePost.content =
        some (RequestContext.request 1 "resources/subscribe".toList
          (.ofMembers [("uri".toList, .string "u".toList)])) :=
      CompactJson.library.parse_dump _ _ (CompactJson.dump_eq_write (by decide +kernel))
    have helements : v ∈ elementsOf CompactJson.library
        (bareApp.server.dispatcher o.shard).maxBatchSize
        ResourceUpdates.subscribePost.content := hv
    rw [elementsOf, hparse] at helements
    obtain rfl := List.mem_singleton.mp helements
    refine callsPrompt_application ?_ o.shard (fun hrequest => ?_)
    · exact ⟨fun _ _ h => (by cases h), fun _ _ h => (by cases h), fun _ _ h => (by cases h)⟩
    · have hmethod : some (Json.string "resources/subscribe".toList) =
          some (.string "logging/setLevel".toList) := hrequest.2
      exact absurd (Json.string.inj (Option.some.inj hmethod)) (by decide)

/-- The POST can still be answered. -/
theorem answered_of_run_taken : ∃ c, bareApp.server.Reaches taken c ∧
    ∃ t, c.tasks[1]? = some t ∧ t.past.length = 1 ∧
      ∃ c' u, Proceeds bareApp.server.system t.shard c c' ∧ c'.tasks[1]? = some u ∧
        Replied u.past := by
  have hrun : (LabelledRuns.run bareApp.server.system.step bareApp.server.system.start taken).any
      (fun c => c.tasks[1]?.any (fun t => t.past.length == 1 && isNew t.past &&
        match t.origin.work with
        | .postMessage req => req.content == ResourceUpdates.subscribePost.content
        | _ => false)) := by
    decide +kernel
  obtain ⟨c, hc, hp⟩ := (Option.any_eq_true _ _).mp hrun
  obtain ⟨t, ht, hp⟩ := (Option.any_eq_true _ _).mp hp
  simp only [Bool.and_eq_true, beq_iff_eq] at hp
  obtain ⟨⟨hlength, hnew⟩, hpost⟩ := hp
  have hanswerable : Answerable bareApp.server t.origin := by
    split at hpost
    · rename_i hwork
      exact answerable_subscribePost hwork (beq_iff_eq.mp hpost)
    · cases hpost
  exact ⟨c, hc, t, ht, hlength, (answered_of_run bareApp.server hc).1 1 t ht hanswerable
    (started_notMem hnew)⟩

end Examples

end McpSdk.AnsweredRequests

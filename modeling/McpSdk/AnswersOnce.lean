import McpSdk.PostAnswers

/-!
# The answers of POST requests, counted

Once its outcome is recorded, a POST has nothing left but its reply, and before it the push of its
answer or the message that makes this push on another shard. So with each POST that is accepted one
answer at most can be handed over, whatever tasks its handlers have started.
-/

namespace McpSdk.AnswersOnce
open CppStandardLibrary CooperativeTasks ResponseDelivery PostAnswers
open ClusterRuns hiding Recorded

section Statement

def isRecord : Mark ShardI → Bool
  | .did (.inr (.recordOutcome _ _)) _ => true
  | _ => false

theorem recorded_iff {past : List (Mark ShardI)} : Recorded past ↔ past.any isRecord := by
  induction past with
  | nil => simp [Recorded]
  | cons mark past ih =>
    rw [List.any_cons, Bool.or_eq_true, ← ih]
    cases mark with
    | started => simp [Recorded, isRecord]
    | did op r => rcases op with op | op <;> cases op <;> simp [Recorded, isRecord]

instance : DecidablePred Recorded := fun _ => decidable_of_iff _ recorded_iff.symm

/-- The call hands an answer over. -/
def Pushes : ShardI.Op → Bool
  | .inl (.pushToSession _ _) | .inr (.pushEventually _ _) => true
  | _ => false

/-- The event hands over the answer to a POST of `p`. -/
def handsOver {Job : Type} (p : Origin Job → Bool) (e : Event ShardI (Origin Job) McpShard) :
    Bool :=
  p e.origin && decide (Recorded e.past) && Pushes e.op

end Statement

section Closings
variable {srv : McpServer}

/-- What a POST has still to do once its outcome is recorded. -/
inductive Closing : ShardTask Reply → Prop
  | replies (reply : Reply) : Closing (return reply)
  | pushes (op : ShardI.Op) (hop : Pushes op) (reply : Reply) :
      Closing (.call op (fun _ => return reply))
  | sends (j : ℕ) (op : HandlerCall) (k : op.Res → ShardTask Unit) (reply : Reply) :
      Closing (.invokeOn j (.call (.inl op) k) (return reply))

theorem Closing.then {t : ShardTask Reply} (h : Closing t) : t.Then (AtRecord Closing) := by
  cases h with
  | replies reply => trivial
  | pushes op hop reply =>
    refine fun _ => ⟨?_, trivial⟩
    rintro ip failed rfl
    cases hop
  | sends j op k reply => trivial

theorem closing_pushResponse (j target : ℕ) (sessionId text : Str) (reply : Reply) :
    Closing (do
      pushResponse j target sessionId text
      return reply) := by
  unfold pushResponse
  split
  · exact .pushes (.inl (.pushToSession sessionId text)) rfl reply
  · exact .sends target (.pushToSession sessionId text) _ reply

theorem then_closing (d : JsonRpcDispatcher HandlerI) (body sessionId ip : Str)
    {k : Option Str → ShardTask Reply} (hk : ∀ response, Closing (k response)) :
    (do
      let response ← (dispatch srv.L d body sessionId).coAwait
      transport (.recordOutcome ip (isError response))
      k response : ShardTask Reply).Then (AtRecord Closing) :=
  then_settled (ConformingReplies.yields_dispatch body sessionId).coAwait ip
    (fun response _ => ⟨hk response, (hk response).then⟩)

theorem then_closing_handleMessage (j : ℕ) (req : Request) :
    (HttpSseTransport.handleMessage srv.L (srv.dispatcher j) j req).Then (AtRecord Closing) := by
  apply then_post
  refine then_closing _ _ _ _ (fun response => ?_)
  split
  · cases response <;> exact .replies _
  · cases response with
    | some text => exact closing_pushResponse _ _ _ _ _
    | none => exact .replies _

theorem then_closing_handlePost (j : ℕ) (req : Request) :
    (StreamableHttpTransport.handlePost srv.L (srv.dispatcher j) j req).Then
      (AtRecord Closing) := by
  apply then_post
  dsimp only
  split
  · refine then_closing _ _ _ _ (fun response => ?_)
    cases response with
    | some text => exact closing_pushResponse _ _ _ _ _
    | none => exact .replies _
  · split
    · refine then_early (by trivial) (fun counter => ?_)
      refine then_early (by trivial) (fun (session : Option ℕ) => ?_)
      cases session with
      | none => trivial
      | some ref =>
        refine then_closing _ _ _ _ (fun response => ?_)
        cases response with
        | some text => exact .pushes (.inr (.pushEventually ref text)) rfl _
        | none => exact .replies _
    · refine then_closing _ _ _ _ (fun response => ?_)
      cases response <;> exact .replies _

def Left (t : ShardTask (Option WriterState)) : Prop := ∃ t', Closing t' ∧ t = serve t'

theorem then_left {o : Origin srv.Job} (hpost : IsPost o.work) :
    (srv.program o.shard o.work).Then (AtRecord Left) := by
  obtain ⟨j, work⟩ := o
  cases work with
  | postMessage req => exact then_serve (then_closing_handleMessage j req)
  | postMcp req => exact then_serve (then_closing_handlePost j req)
  | _ => exact hpost.elim

variable {o : Origin srv.Job} {t t' : ShardTask (Option WriterState)} {heard : Option Input}

/-- Without a call of its own the request can only send its message, and then it has its reply
left. -/
theorem Left.goes (h : Left t) (hgoes : Goes srv.system o t heard [] t') :
    ∃ reply : Reply, t' = serve (pure reply) := by
  obtain ⟨handler, hclosing, ht⟩ := h
  cases hclosing with
  | replies reply => subst ht; cases hgoes
  | pushes op hop reply => subst ht; cases hgoes
  | sends j op k reply =>
    subst ht
    cases hgoes
    exact ⟨reply, rfl⟩

theorem Left.starts (h : Left t) {n : ℕ} {u : ShardTask Unit}
    (ht : t = .fork u t' ∨ t = .invokeOn n u t') :
    (∃ op k, u = .call (.inl op) k) ∧ ∃ reply : Reply, t' = serve (pure reply) := by
  obtain ⟨handler, hclosing, rfl⟩ := h
  cases hclosing with
  | replies reply => rcases ht with ht | ht <;> cases ht
  | pushes op hop reply => rcases ht with ht | ht <;> cases ht
  | sends j op k reply =>
    rcases ht with ht | ht
    · cases ht
    · cases ht
      exact ⟨⟨op, k, rfl⟩, reply, rfl⟩

end Closings

section Runs
variable {srv : McpServer} {steps : List (Label Input (Origin srv.Job))} {c : srv.State}

/-- Once the outcome of a POST is recorded, what is left of it is as `Left` says. -/
theorem left_of_run (h : srv.Reaches steps c) : ∀ t ∈ c.tasks, .started ∉ t.past →
    IsPost t.origin.work → JustRecorded t.past → Left t.task := by
  intro t ht hown hpost
  refine (courses_of_run (fun _ => True) (fun o past t => IsPost o.work →
    t.Then (AtRecord Left) ∧ (JustRecorded past → Left t)) ?_ ?_ (fun l _ => l.launches_true) h
    t ht hown hpost).2
  · exact fun o _ hpost => ⟨then_left hpost, fun hnone => hnone.elim⟩
  · intro o past t heard marks t' hcourse hgoes hpost
    obtain ⟨hthen, hleft⟩ := hcourse hpost
    have acts : ∀ {op : ShardI.Op} {k : ShardI.Res op → ShardTask (Option WriterState)}
        (r : ShardI.Res op), AtRecord Left op r (k r) ∧ (k r).Then (AtRecord Left) →
        (k r).Then (AtRecord Left) ∧ (JustRecorded (.did op r :: past) → Left (k r)) := by
      refine fun r hk => ⟨hk.2, fun hjust => ?_⟩
      obtain ⟨⟨ip, failed, hop⟩, -⟩ := op_of_just hjust
      exact hk.1 ip failed hop
    have stays : marks = [] → JustRecorded (marks ++ past) → Left t' := by
      rintro rfl hjust
      obtain ⟨reply, rfl⟩ := (hleft hjust).goes hgoes
      exact ⟨_, .replies reply, rfl⟩
    cases hgoes with
    | resume k v => exact ⟨hthen v, stays rfl⟩
    | call op k r | wait op k r => exact acts r (hthen r)
    | fork u k | invokeOn n u k => exact ⟨hthen, stays rfl⟩
    | again w =>
      refine ⟨(calls_runWriter (T := fun _ => True) w).allThen ?_, stays rfl⟩
      rintro _ _ _ hcall ip failed rfl
      exact hcall.elim

/-- The outcome of a POST is recorded by its own task. -/
theorem own_of_record (h : srv.Reaches steps c) {e : Event ShardI (Origin srv.Job) McpShard}
    (he : e ∈ c.log) (hpost : IsPost e.origin.work) {ip : Str} {failed : Bool}
    (hop : e.op = .inr (.recordOutcome ip failed)) : .started ∉ e.past := by
  have hlawful := (onTrack_of_run (keeps_posting srv) (fun l _ => l.launches_true) h).2 e he
  have hstage := (tells_of_lawful hpost hlawful.2).2
  have hallows : (phase (posting srv e.origin) e.past).Allows srv e.origin e.op :=
    hlawful.1.1 hpost
  unfold Posting.Allows at hallows
  rw [hop] at hallows
  cases hq : (phase (posting srv e.origin) e.past).stage <;> rw [hq] at hallows hstage
  case before => exact hstage.1
  case handling => exact hstage.1
  all_goals exact hallows.elim

theorem reaches_step (h : srv.Reaches steps c) {l : Label Input (Origin srv.Job)} {c' : srv.State}
    (hstep : srv.system.step c l = some c') : srv.Reaches (steps ++ [l]) c' :=
  LabelledRuns.run_trans h (by rw [LabelledRuns.run_singleton, hstep])

/-- The message that a POST sends makes one call. -/
theorem nears_of_run (h : srv.Reaches steps c) : ∀ t ∈ c.tasks, IsPost t.origin.work →
    .started ∈ t.past → JustRecorded t.past → ∃ op, t.task.Nears op := by
  refine LabelledRuns.invariant_of_reached (C := fun _ _ _ => True)
    (J := fun c : srv.State => ∀ t ∈ c.tasks, IsPost t.origin.work → .started ∈ t.past →
      JustRecorded t.past → ∃ op, t.task.Nears op)
    (fun t ht => (List.not_mem_nil ht).elim) ?_ (LabelledRuns.along_true _ _) h
  intro steps c l c' hreached hold hstep _
  have starts : ∀ {i n : ℕ} {t : Running ShardI Input Exception (Origin srv.Job) WriterState}
      {u : ShardTask Unit} {k : ShardTask (Option WriterState)}, c.tasks[i]? = some t →
      t.task = .fork u k ∨ t.task = .invokeOn n u k →
      ∀ t' ∈ (c.start i t n u k).tasks, IsPost t'.origin.work → .started ∈ t'.past →
        JustRecorded t'.past → ∃ op, t'.task.Nears op := by
    intro i n t u k hi htask
    have hmem := List.mem_of_getElem? hi
    have hown : IsPost t.origin.work → JustRecorded t.past → .started ∉ t.past := by
      intro hpost hjust hstarted
      obtain ⟨op, hnears⟩ := hold t hmem hpost hstarted hjust
      exact not_nears_of_starts htask op hnears
    refine forall_tasks_append (forall_tasks_set hold ?_ i) ?_
    · exact fun hpost hstarted hjust => absurd hstarted (hown hpost hjust)
    · intro hpost _ hjust
      have hleft := left_of_run hreached t hmem (hown hpost hjust) hpost hjust
      obtain ⟨⟨op, k', rfl⟩, -⟩ := hleft.starts htask
      exact ⟨.inl op, fun _ => rfl⟩
  have hmove := step_cases hstep
  cases hmove with
  | tick d => exact hold
  | launch o hj => exact forall_tasks_append hold (fun _ hstarted => by cases hstarted)
  | @resume i t k v hi htask =>
    refine forall_tasks_set hold (fun hpost hstarted hjust => ?_) i
    obtain ⟨op, hnears⟩ := hold t (List.mem_of_getElem? hi) hpost hstarted hjust
    rw [htask] at hnears
    exact ⟨op, hnears v⟩
  | @act i l t op k hi htask =>
    refine forall_tasks_set hold (fun hpost hstarted hjust => ?_) i
    obtain ⟨⟨ip, failed, hop⟩, -⟩ := op_of_just hjust
    have hown := own_of_record (reaches_step hreached hstep) (List.mem_cons_self ..) hpost hop
    exact absurd ((List.mem_cons.mp hstarted).resolve_left nofun) hown
  | @fork i l t u k hi htask => exact starts hi (.inl htask)
  | @invokeOn i n l t u k hi htask => exact starts hi (.inr htask)
  | @again i l t w hi htask =>
    refine forall_tasks_set hold (fun hpost hstarted hjust => ?_) i
    obtain ⟨op, hnears⟩ := hold t (List.mem_of_getElem? hi) hpost hstarted hjust
    rw [htask] at hnears
    exact hnears.elim

/-- The task may still hand over the answer to a POST of `p`. -/
def MayHand (p : Origin srv.Job → Bool)
    (t : Running ShardI Input Exception (Origin srv.Job) WriterState) : Prop :=
  p t.origin ∧ (.started ∉ t.past ∧ ¬Recorded t.past ∨ JustRecorded t.past ∧
    (.started ∈ t.past ∨ ∀ reply : Reply, t.task ≠ serve (pure reply)))

theorem just_of_handsOver (h : srv.Reaches steps c) {p : Origin srv.Job → Bool}
    (hp : ∀ o, p o → IsPost o.work) {e : Event ShardI (Origin srv.Job) McpShard} (he : e ∈ c.log)
    (hhands : handsOver p e) : JustRecorded e.past := by
  simp only [handsOver, Bool.and_eq_true, decide_eq_true_eq] at hhands
  obtain ⟨⟨hpe, hrecorded⟩, hpushes⟩ := hhands
  have hproper := proper_of_mem h he (hp _ hpe)
  obtain ⟨shard, now, o, past, op, r, before, after⟩ := e
  rcases op with op | op
  · obtain ⟨-, -, hjust, -⟩ := hproper.push op rfl hrecorded
    exact hjust
  · cases op with
    | pushEventually ref text => exact (hproper.queue ref text rfl).1
    | _ => cases hpushes

open Classical in
theorem spends_of_step {p : Origin srv.Job → Bool} (hp : ∀ o, p o → IsPost o.work)
    (h : srv.Reaches steps c) {l : Label Input (Origin srv.Job)} {c' : srv.State}
    (hstep : srv.system.step c l = some c') :
    Spends p (fun t => decide (MayHand p t)) (handsOver p) srv.system c c' := by
  constructor
  · intro o hmay
    exact (decide_eq_true_iff.mp hmay).1
  · intro t ht heard task hgoes hmay
    obtain ⟨hpo, hearly | ⟨hjust, hrest⟩⟩ := decide_eq_true_iff.mp hmay
    · exact decide_eq_true ⟨hpo, .inl hearly⟩
    · refine decide_eq_true ⟨hpo, .inr ⟨hjust, ?_⟩⟩
      by_contra hnot
      obtain ⟨hown, -⟩ := not_or.mp hnot
      obtain ⟨reply, rfl⟩ := (left_of_run h t ht hown (hp _ hpo) hjust).goes hgoes
      exact hrest.resolve_left hown reply rfl
  · intro t ht n u k htask hmay
    obtain ⟨hpo, ⟨hown, -⟩ | ⟨hjust, -⟩⟩ := decide_eq_true_iff.mp hmay
    · exact absurd (.head _) hown
    · have hown : .started ∉ t.past := by
        intro hstarted
        obtain ⟨op, hnears⟩ := nears_of_run h t ht (hp _ hpo) hstarted hjust
        exact not_nears_of_starts htask op hnears
      obtain ⟨-, reply, rfl⟩ := (left_of_run h t ht hown (hp _ hpo) hjust).starts htask
      constructor
      · refine decide_eq_true ⟨hpo, .inr ⟨hjust, .inr (fun reply' heq => ?_)⟩⟩
        rcases htask with htask | htask <;> cases htask.symm.trans heq
      · intro hkeeps
        obtain ⟨-, ⟨-, hnot⟩ | ⟨-, hstarted | hother⟩⟩ := decide_eq_true_iff.mp hkeeps
        · exact hnot (recorded_of_just hjust)
        · exact hown hstarted
        · exact hother reply rfl
  · intro t ht e task hlog horigin hpast hgoes hor
    have he : e ∈ c'.log := hlog ▸ List.mem_cons_self ..
    have hreached := reaches_step h hstep
    have hearly : MayHand p { t with past := e.history, task := task } →
        .started ∉ t.past ∧ ¬Recorded t.past := by
      rintro ⟨hpo, ⟨hown, hnot⟩ | ⟨hjust, -⟩⟩
      · rw [← hpast]
        exact ⟨fun hmem => hown (.tail _ hmem), fun hrec => hnot (hrec.cons _)⟩
      · obtain ⟨⟨ip, failed, hop⟩, hnot⟩ := op_of_just hjust
        rw [← hpast]
        exact ⟨own_of_record hreached he (hp _ (horigin ▸ hpo)) hop, hnot⟩
    have hlate : handsOver p e → Recorded t.past := by
      intro hhands
      simp only [handsOver, Bool.and_eq_true, decide_eq_true_eq] at hhands
      exact hpast ▸ hhands.1.2
    refine ⟨?_, fun hboth => (hearly (decide_eq_true_iff.mp hboth.1)).2 (hlate hboth.2)⟩
    rcases hor with hmay | hhands
    · have hmay := decide_eq_true_iff.mp hmay
      exact decide_eq_true ⟨hmay.1, .inl (hearly hmay)⟩
    · have hjust := just_of_handsOver hreached hp he hhands
      simp only [handsOver, Bool.and_eq_true, decide_eq_true_eq] at hhands
      refine decide_eq_true ⟨horigin ▸ hhands.1.1, .inr ⟨hpast ▸ hjust, .inr ?_⟩⟩
      intro reply hreply
      have hop : e.op = .inr (.respond reply) :=
        op_of_goes (show t.task.Nears _ from hreply ▸ rfl) hgoes
      rw [hop] at hhands
      cases hhands.2

end Runs

/-- In every run of the server each POST is answered by the answer that JSON-RPC asks for to its own
body, where the client looks for it; and no more answers are handed over than there are POSTs. -/
theorem proper_of_run (srv : McpServer) {steps : List (Label Input (Origin srv.Job))}
    {c : srv.State} (h : srv.Reaches steps c) :
    (∀ e ∈ c.log, IsPost e.origin.work → Proper srv c e) ∧
      ∀ p : Origin srv.Job → Bool, (∀ o, p o → IsPost o.work) →
        c.log.countP (handsOver p) ≤ steps.countP (Label.starts p) := by
  classical
  exact ⟨fun e he hpost => proper_of_mem h he hpost, fun p hp =>
    given_of_run (fun _ _ _ _ hreached hstep => spends_of_step hp hreached hstep) h⟩

section Examples
open ResourceUpdates

def posts {Job : Type} (o : Origin Job) : Bool :=
  match o.work with
  | .postMessage _ | .postMcp _ => true
  | _ => false

theorem isPost_of_posts {Job : Type} {o : Origin Job} (h : posts o) : IsPost o.work := by
  obtain ⟨j, work⟩ := o
  cases work with
  | postMessage req => trivial
  | postMcp req => trivial
  | _ => cases h

/-- The answer to a subscription on shard 1 is handed over to the session on shard 0, and once. -/
theorem proper_of_run_subscribed :
    ∃ c, updateServer.Reaches (subscribedFor firstSession) c ∧
      (∃ e ∈ c.log, e.shard = 0 ∧ handsOver posts e ∧ Proper updateServer c e) ∧
      c.log.countP (handsOver posts) = 1 := by
  have hrun : (LabelledRuns.run updateServer.system.step updateServer.system.start
      (subscribedFor firstSession)).any (fun c =>
        c.log.any (fun e => e.shard == 0 && handsOver posts e)) := by
    decide +kernel
  obtain ⟨c, hc, hp⟩ := (Option.any_eq_true _ _).mp hrun
  obtain ⟨e, he, hp⟩ := List.any_eq_true.mp hp
  obtain ⟨hshard, hhands⟩ := Bool.and_eq_true_iff.mp hp
  obtain ⟨hproper, honce⟩ := proper_of_run updateServer hc
  have hpost : IsPost e.origin.work := by
    simp only [handsOver, Bool.and_eq_true] at hhands
    exact isPost_of_posts hhands.1.1
  refine ⟨c, hc, ⟨e, he, beq_iff_eq.mp hshard, hhands, hproper e he hpost⟩, ?_⟩
  exact le_antisymm (honce posts (fun o => isPost_of_posts))
    (List.countP_pos_iff.mpr ⟨e, he, hhands⟩)

end Examples
end McpSdk.AnswersOnce

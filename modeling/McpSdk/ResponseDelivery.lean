import McpSdk.JsonRpcConformance
import McpSdk.ResourceUpdates
import McpSdk.TaskCourses

/-!
# The delivery of responses to sessions

A POST that names a session replies 202 and leaves the response to its call to the queue of the
session, on the shard that its transport reads from the id. It does so once the outcome of the
call is recorded, by itself or by a message to that shard, and nobody looks at what becomes of it:
the response is in the queue if the session is there, is active and has room.
-/

namespace McpSdk.ResponseDelivery
open CppStandardLibrary CooperativeTasks ClusterRuns JsonRpcConformance

section Posts
variable {Job : Type}

/-- The session that a POST names. -/
def sessionOf : Work Job → Str
  | .postMessage req => req.query "sessionId".toList
  | .postMcp req => req.header "mcp-session-id".toList
  | _ => []

/-- The shard that the transport of a POST reads from the session id. -/
def shardOf : Work Job → ℕ
  | .postMessage req => HttpSseTransport.parseShard (req.query "sessionId".toList)
  | .postMcp req => StreamableHttpTransport.parseShard (req.header "mcp-session-id".toList)
  | _ => 0

def contentOf : Work Job → Str
  | .postMessage req | .postMcp req => req.content
  | _ => []

/-- A POST that names a session, with a call that asks for a response. -/
structure SessionCall (L : JsonLibrary) (work : Work Job) : Prop where
  named : sessionOf work ≠ []
  call : ∃ v, L.parse (contentOf work) = some v ∧ IsCall v

end Posts

/-- Where a POST stands with its response; `message` is what it sends to another shard. -/
inductive Delivery
  | before | recorded | pushed | message | over

namespace Delivery

def next : Delivery → ShardI.Op → Delivery
  | .before, .inr (.recordOutcome _ _) => .recorded
  | .before, .inr (.respond _) => .over
  | .before, _ => .before
  | .recorded, .inl (.pushToSession _ _) => .pushed
  | _, _ => .over

def child : Delivery → Delivery
  | .recorded => .message
  | _ => .over

/-- Nobody replies 202 before the outcome is recorded, and then the response is pushed or sent. -/
def Allows {Job : Type} (L : JsonLibrary) (o : Origin Job) : Delivery → ShardI.Op → Prop
  | .before, .inr (.respond reply) => reply.status ≠ 202
  | .recorded, .inl (.pushToSession id text) => shardOf o.work = o.shard ∧
      id = sessionOf o.work ∧ Responds L (contentOf o.work) text
  | .recorded, .inr (.respond _) => shardOf o.work ≠ o.shard
  | .recorded, _ => False
  | .pushed, .inr (.respond _) => True
  | .pushed, _ => False
  | .message, .inl (.pushToSession id text) =>
      id = sessionOf o.work ∧ Responds L (contentOf o.work) text
  | .message, _ => False
  | .over, .inr (.respond _) => False
  | _, _ => True

end Delivery

/-- How a POST that names a session hands its response over. Other work is not concerned. -/
def delivery (srv : McpServer) (o : Origin srv.Job) : Contract ShardI Delivery where
  init := .before
  allows q op := SessionCall srv.L o.work → q.Allows srv.L o op
  answers _ _ := True
  next q op _ := q.next op
  child := Delivery.child
  rests _ := True
  addresses _ := True

section Programs
open Delivery
variable {srv : McpServer} {o : Origin srv.Job}

def Early : ShardI.Op → Prop
  | .inr (.recordOutcome _ _) | .inr (.respond _) => False
  | _ => True

theorem early_of_dispatchCall {op : ShardI.Op} (h : DispatchCall op) : Early op := by
  rcases op with op | op
  · trivial
  · cases op <;> trivial

theorem idle_early : (delivery srv o).Idle Early (fun q => q = .before ∨ q = .over) where
  allows q op hq hop _ := by
    rcases hq with rfl | rfl <;> rcases op with op | op
    · trivial
    · cases op <;> trivial
    · trivial
    · cases op <;> trivial
  next q op _ hq hop := by
    rcases hq with rfl | rfl
    · rcases op with op | op
      · rfl
      · cases op <;> first | exact hop.elim | rfl
    · rfl
  rests _ _ := trivial
  child _ hq := by rcases hq with rfl | rfl <;> exact .inr rfl

theorem early_bind {α : Type} {op : TransportCall} (hop : Early (.inr op))
    {k : op.Res → ShardTask α}
    {Q : α → Delivery → Prop} {E : Exception → Delivery → Prop}
    (hk : ∀ r, (k r).Follows (delivery srv o) .before Q E) :
    (transport op >>= k).Follows (delivery srv o) .before Q E :=
  idle_early.perform_bind (I := ShardI) (.inl rfl) hop hk

def Stops (w : Option WriterState) (q : Delivery) : Prop := w = none ∨ q = .over

theorem sends {reply : Reply} {q : Delivery} (h : q.Allows srv.L o (.inr (.respond reply))) :
    Sends (delivery srv o) Stops reply q where
  allows _ := h
  rests := trivial
  streams := .inr (by cases q <;> rfl)
  fails := .inl rfl

def Replies (srv : McpServer) (o : Origin srv.Job) (q : Delivery) (handler : ShardTask Reply) :
    Prop :=
  handler.Follows (delivery srv o) q (fun reply q => Sends (delivery srv o) Stops reply q)
    (fun _ q => ∀ reply : Reply, reply.status = 500 → reply.stream = none →
      Sends (delivery srv o) Stops reply q)

theorem status_securityReject (result : SecurityCheckResult) :
    (securityReject result).status ≠ 202 := by
  cases result <;> decide

theorem takeClientResponse_of_call {L : JsonLibrary} {body : Str} {v : Json}
    (hparse : L.parse body = some v) (hv : IsCall v) :
    takeClientResponse L body = return false := by
  obtain ⟨⟨m, -, hmethod⟩, -⟩ := hv
  have hcontains : v.contains "method".toList = true := by rw [Json.contains, hmethod]; rfl
  have hother : isClientResponse v = false := by
    simp [isClientResponse, hcontains, -String.reduceToList]
  simp [takeClientResponse, hparse, hother]

theorem isObject_of_isCall {v : Json} (hv : IsCall v) : v.isObject := by
  obtain ⟨⟨m, -, hmethod⟩, -⟩ := hv
  cases v with
  | object members => rfl
  | _ => cases hmethod

theorem yields_dispatch (hcall : SessionCall srv.L o.work) {T : ℕ → Prop} (hT : ∀ n, T n)
    (d : JsonRpcDispatcher HandlerI) (sessionId : Str) :
    (dispatch srv.L d (contentOf o.work) sessionId).coAwait.Yields DispatchCall T
      (fun response => ∃ text, response = some text ∧
        Responds srv.L (contentOf o.work) text) := by
  obtain ⟨-, v, hparse, hv⟩ := hcall
  have hobj := isObject_of_isCall hv
  have hsingle : (d.handleRequest srv.L (contentOf o.work)).Yields (fun _ => True) T
      (fun response => ∃ text, response = some text ∧
        Responds srv.L (contentOf o.work) text) := by
    have hrequest : d.handleRequest srv.L (contentOf o.work) =
        (d.handleSingle srv.L v).coAwait := by
      cases v with
      | object members => simp [JsonRpcDispatcher.handleRequest, hparse]
      | _ => cases hobj
    rw [hrequest]
    refine ((yields_handleSingle hT hobj hv).coAwait).mono ?_ (fun _ _ h => h)
    rintro response _ ⟨text, r, rfl, htext, hresponse⟩
    exact ⟨text, rfl, v, r, hparse, htext, hresponse⟩
  apply Coroutine.Yields.coAwait
  refine .bind (calls_transport trivial) (fun _ => ?_)
  rw [takeClientResponse_of_call hparse hv]
  refine .bind_of_yields (R := (· = false)) (.pure rfl) ?_
  rintro _ rfl
  rw [if_neg Bool.false_ne_true]
  exact .bind (calls_transport trivial) (fun _ => (Coroutine.Yields.inl hsingle).coAwait)

def deliver (o : Origin srv.Job) (text : Str) : ShardTask Reply := do
  pushResponse o.shard (shardOf o.work) (sessionOf o.work) text
  return { status := 202 }

theorem replies_deliver {text : Str} (h : Responds srv.L (contentOf o.work) text) :
    Replies srv o .recorded (deliver o text) := by
  unfold deliver pushResponse
  split
  · rename_i hhere
    exact ⟨fun _ => ⟨hhere, rfl, h⟩, fun _ _ => sends trivial⟩
  · rename_i hthere
    exact ⟨⟨trivial, trivial, ⟨fun _ => ⟨rfl, h⟩, fun _ _ => trivial⟩⟩, sends hthere⟩

theorem replies_settled (hcall : SessionCall srv.L o.work) (d : JsonRpcDispatcher HandlerI)
    (ip : Str) {k : Option Str → ShardTask Reply} (hk : ∀ text, k (some text) = deliver o text) :
    Replies srv o .before (do
      let response ← (dispatch srv.L d (contentOf o.work) (sessionOf o.work)).coAwait
      transport (.recordOutcome ip (isError response))
      k response) := by
  have hidle : (delivery srv o).Idle DispatchCall (fun q => q = .before ∨ q = .over) :=
    idle_early.mono (fun _ => early_of_dispatchCall)
  have hdispatch := Coroutine.Follows.of_calling hidle
    (fun _ _ => trivial) (.inl rfl) (yields_dispatch hcall (fun _ => trivial) d (sessionOf o.work))
  apply (Coroutine.follows_bind _ _).mpr
  apply hdispatch.mono
  · rintro response _ ⟨⟨text, rfl, hresponds⟩, rfl⟩
    rw [Coroutine.follows_bind, follows_transport]
    refine ⟨fun _ => trivial, fun _ _ => ?_⟩
    rw [hk]
    exact replies_deliver hresponds
  · rintro _ _ ⟨-, rfl⟩ reply hstatus _
    exact sends (by rw [Delivery.Allows, hstatus]; decide)

theorem replies_post {n : ℕ} {ip key : Str} {handle : ShardTask Reply}
    (h : Replies srv o .before handle) :
    Replies srv o .before (do
      if !(← transport (.checkBodySize n)) then return securityReject .payloadTooLarge
      else
        let check ← transport (.checkRequest ip key)
        if check ≠ .ok then return securityReject check
        else handle) := by
  refine early_bind (by trivial) (fun small => ?_)
  split
  · exact sends (status_securityReject _)
  · refine early_bind (by trivial) (fun check => ?_)
    split
    · exact sends (status_securityReject _)
    · exact h

theorem replies_handleMessage {j : ℕ} {req : Request}
    (hcall : SessionCall srv.L (.postMessage req : Work srv.Job))
    (d : JsonRpcDispatcher HandlerI) : Replies srv ⟨j, .postMessage req⟩ .before
      (HttpSseTransport.handleMessage srv.L d j req) := by
  apply replies_post
  have hnamed : ¬(req.query "sessionId".toList).isEmpty :=
    fun hempty => hcall.named (List.isEmpty_iff.mp hempty)
  refine replies_settled (o := ⟨j, .postMessage req⟩) hcall d _ (fun text => ?_)
  rw [if_neg hnamed]
  rfl

theorem replies_handlePost {j : ℕ} {req : Request}
    (hcall : SessionCall srv.L (.postMcp req : Work srv.Job))
    (d : JsonRpcDispatcher HandlerI) : Replies srv ⟨j, .postMcp req⟩ .before
      (StreamableHttpTransport.handlePost srv.L d j req) := by
  apply replies_post
  have hnamed : (!(req.header "mcp-session-id".toList).isEmpty) = true := by
    rw [Bool.not_eq_true', Bool.eq_false_iff]
    exact fun hempty => hcall.named (List.isEmpty_iff.mp hempty)
  dsimp only
  rw [if_pos hnamed]
  exact replies_settled (o := ⟨j, .postMcp req⟩) hcall d _ (fun text => rfl)

theorem free_delivery (h : ¬SessionCall srv.L o.work) : (delivery srv o).Free where
  allows _ _ hcall := absurd hcall h
  rests _ := trivial
  addresses _ := trivial

theorem post_of_named {Job : Type} {work : Work Job} (h : sessionOf work ≠ []) :
    (∃ req, work = .postMessage req) ∨ ∃ req, work = .postMcp req := by
  cases work with
  | postMessage req => exact .inl ⟨req, rfl⟩
  | postMcp req => exact .inr ⟨req, rfl⟩
  | _ => exact absurd rfl h

/-- The programs of the server deliver responses so. -/
theorem keeps_delivery (srv : McpServer) : Keeps srv.system (delivery srv) (fun _ => True)
    (fun o _ q => SessionCall srv.L o.work → q = .over) where
  answers _ _ _ _ _ := trivial
  program o _ := by
    by_cases hcall : SessionCall srv.L o.work
    · obtain ⟨j, work⟩ := o
      have hstops : ∀ {handler : ShardTask Reply}, Replies srv ⟨j, work⟩ .before handler →
          (serve handler).Follows (delivery srv ⟨j, work⟩) .before
            (fun x q => x.elim True (fun _ => SessionCall srv.L work → q = .over))
            (fun _ _ => True) := by
        intro handler hreplies
        refine (follows_serve (E := fun _ _ => True) hreplies).mono ?_ (fun _ _ h => h)
        rintro x q (rfl | rfl)
        · trivial
        · cases x with
          | none => trivial
          | some w => exact fun _ => rfl
      rcases post_of_named hcall.named with ⟨req, rfl⟩ | ⟨req, rfl⟩
      · exact hstops (replies_handleMessage hcall _)
      · exact hstops (replies_handlePost hcall _)
    · refine (Coroutine.Follows.of_free (free_delivery hcall) _ _).mono ?_ (fun _ _ h => h)
      intro x q _
      cases x with
      | none => trivial
      | some w => exact fun h => absurd h hcall
  again o w q hq := by
    by_cases hcall : SessionCall srv.L o.work
    · obtain rfl := hq hcall
      have hidle : (delivery srv o).Idle WriterCall (· = .over) :=
        { allows := fun q op hq hop _ => by
            subst hq
            rcases op with op | op
            · trivial
            · cases op <;> trivial
          next := fun q op _ hq _ => by
            subst hq
            rfl
          rests := fun _ _ => trivial
          child := fun _ hq => by
            subst hq
            rfl }
      refine (Coroutine.Follows.of_calling hidle (fun _ _ => trivial) rfl
        (calls_runWriter (T := fun _ => True) w)).mono ?_ (fun _ _ _ => trivial)
      rintro x q ⟨-, rfl⟩
      cases x with
      | none => trivial
      | some w => exact fun _ => rfl
    · refine (Coroutine.Follows.of_free (free_delivery hcall) _ _).mono ?_ (fun _ _ h => h)
      intro x q _
      cases x with
      | none => trivial
      | some w => exact fun h => absurd h hcall

end Programs
section Histories
open Delivery
variable {srv : McpServer} {o : Origin srv.Job} {past : List (Mark ShardI)}

theorem own_of_phase (h : phase (delivery srv o) past ≠ .message)
    (h' : phase (delivery srv o) past ≠ .over) : .started ∉ past := by
  induction past with
  | nil => exact List.not_mem_nil
  | cons mark past ih =>
    cases mark with
    | started =>
      have hchild : phase (delivery srv o) (.started :: past) =
        (phase (delivery srv o) past).child := rfl
      rw [hchild] at h h'
      cases hq : phase (delivery srv o) past <;> rw [hq] at h h' <;>
        first | exact absurd rfl h | exact absurd rfl h'
    | did op r =>
      have hnext : phase (delivery srv o) (.did op r :: past) =
        (phase (delivery srv o) past).next op := rfl
      rw [hnext] at h'
      have hold : phase (delivery srv o) past ≠ .message ∧ phase (delivery srv o) past ≠ .over := by
        constructor <;> rintro hq <;> rw [hq] at h' <;> exact h' rfl
      intro hmem
      rcases List.mem_cons.mp hmem with heq | hmem
      · cases heq
      · exact ih hold.1 hold.2 hmem

theorem recordOutcome_of_next {q : Delivery} {op : ShardI.Op} (h : q.next op = .recorded) :
    ∃ ip failed, op = .inr (.recordOutcome ip failed) := by
  unfold Delivery.next at h
  split at h
  · exact ⟨_, _, rfl⟩
  all_goals cases h

theorem exists_recordOutcome (h : phase (delivery srv o) past = .recorded) :
    ∃ ip failed r rest, past = .did (.inr (.recordOutcome ip failed)) r :: rest := by
  cases past with
  | nil => cases h
  | cons mark rest =>
    cases mark with
    | started =>
      have hchild : (phase (delivery srv o) rest).child = .recorded := h
      cases hq : phase (delivery srv o) rest <;> rw [hq] at hchild <;> cases hchild
    | did op r =>
      obtain ⟨ip, failed, rfl⟩ := recordOutcome_of_next h
      exact ⟨ip, failed, r, rest, rfl⟩

theorem push_of_message {Job : Type} {L : JsonLibrary} {o : Origin Job} {op : ShardI.Op}
    (h : Delivery.message.Allows L o op) :
    ∃ text, op = .inl (.pushToSession (sessionOf o.work) text) := by
  rcases op with op | op
  · cases op with
    | pushToSession id text => exact ⟨text, by rw [h.1]⟩
    | _ => exact h.elim
  · cases op <;> exact h.elim

theorem push_of_next {q : Delivery} {op : ShardI.Op} (h : q.next op = .pushed) :
    q = .recorded ∧ ∃ id text, op = .inl (.pushToSession id text) := by
  unfold Delivery.next at h
  split at h
  case h_4 => exact ⟨rfl, _, _, rfl⟩
  all_goals cases h

theorem exists_push (hcall : SessionCall srv.L o.work) (hlawful : Lawful (delivery srv o) past)
    (h : phase (delivery srv o) past = .pushed) : shardOf o.work = o.shard ∧
      ∃ text r rest, past = .did (.inl (.pushToSession (sessionOf o.work) text)) r :: rest ∧
        Responds srv.L (contentOf o.work) text := by
  cases past with
  | nil => cases h
  | cons mark rest =>
    cases mark with
    | started =>
      have hchild : (phase (delivery srv o) rest).child = .pushed := h
      cases hq : phase (delivery srv o) rest <;> rw [hq] at hchild <;> cases hchild
    | did op r =>
      obtain ⟨hq, id, text, rfl⟩ := push_of_next h
      have hallows := hlawful.1.1 hcall
      rw [hq] at hallows
      obtain ⟨hhere, rfl, hresponds⟩ := hallows
      exact ⟨hhere, text, r, rest, rfl, hresponds⟩

end Histories

section Courses
variable {srv : McpServer} {o : Origin srv.Job} {P : Origin srv.Job → Option Str → Prop}

def finish (o : Origin srv.Job) : Option Str → ShardTask Reply
  | some text => deliver o text
  | none => return { status := 202 }

/-- What such a POST gets from `dispatch` is as `P` says. -/
def Returns (srv : McpServer) (P : Origin srv.Job → Option Str → Prop) : Prop :=
  ∀ o : Origin srv.Job, sessionOf o.work ≠ [] →
    (dispatch srv.L (srv.dispatcher o.shard) (contentOf o.work) (sessionOf o.work)).coAwait.Yields
      DispatchCall (fun _ => True) (P o)

/-- What is left once the outcome is recorded is as `F` says. -/
def AtRecord {α : Type} (F : ShardTask α → Prop) (op : ShardI.Op) (_ : ShardI.Res op)
    (t : ShardTask α) : Prop :=
  ∀ ip failed, op = .inr (.recordOutcome ip failed) → F t

def Finishes (P : Origin srv.Job → Option Str → Prop) (o : Origin srv.Job)
    (t : ShardTask Reply) : Prop :=
  ∃ response, P o response ∧ t = finish o response

def AfterRecord (P : Origin srv.Job → Option Str → Prop) (o : Origin srv.Job) (op : ShardI.Op)
    (r : ShardI.Res op) (t : ShardTask (Option WriterState)) : Prop :=
  sessionOf o.work ≠ [] →
    AtRecord (fun t => ∃ response, P o response ∧ t = serve (finish o response)) op r t

section Rest
variable {F : ShardTask Reply → Prop}

theorem atRecord_of_early {α : Type} {F : ShardTask α → Prop} {op : ShardI.Op} (h : Early op)
    (r : ShardI.Res op) (t : ShardTask α) : AtRecord F op r t := by
  rintro ip failed rfl
  exact h.elim

theorem then_early {op : TransportCall} (hop : Early (.inr op)) {k : op.Res → ShardTask Reply}
    (hk : ∀ r, (k r).Then (AtRecord F)) : (transport op >>= k).Then (AtRecord F) :=
  Coroutine.Then.bind (T := fun _ => True) (calls_transport hop)
    (fun _ r c h => atRecord_of_early h r c) (fun r _ => hk r)

theorem then_post {n : ℕ} {ip key : Str} {handle : ShardTask Reply}
    (h : handle.Then (AtRecord F)) :
    (do
      if !(← transport (.checkBodySize n)) then return securityReject .payloadTooLarge
      else
        let check ← transport (.checkRequest ip key)
        if check ≠ .ok then return securityReject check
        else handle : ShardTask Reply).Then (AtRecord F) := by
  refine then_early (by trivial) (fun small => ?_)
  split
  · trivial
  · refine then_early (by trivial) (fun check => ?_)
    split
    · trivial
    · exact h

/-- A POST whose call is dispatched with the results of `R`. -/
theorem then_settled {R : Option Str → Prop} {d : ShardTask (Option Str)}
    (hd : d.Yields DispatchCall (fun _ => True) R) (ip : Str) {k : Option Str → ShardTask Reply}
    (hk : ∀ response, R response → F (k response) ∧ (k response).Then (AtRecord F)) :
    (do
      let response ← d
      transport (.recordOutcome ip (isError response))
      k response : ShardTask Reply).Then (AtRecord F) := by
  refine Coroutine.Then.bind hd
    (fun _ r c h => atRecord_of_early (early_of_dispatchCall h) r c) ?_
  intro response hresponse
  exact fun _ => ⟨fun _ _ _ => (hk response hresponse).1, (hk response hresponse).2⟩

theorem then_tryCatch {handler : ShardTask Reply} (h : handler.Then (AtRecord F))
    (error : Exception → Reply) : (handler.tryCatch (fun e => pure (error e))).Then
      (AtRecord (fun t => ∃ t', F t' ∧ t = t'.tryCatch (fun e => pure (error e)))) := by
  refine Coroutine.Then.andThen h ?_ (fun _ => trivial) (fun _ => trivial)
  intro op r t ht ip failed hop
  exact ⟨t, ht ip failed hop, rfl⟩

theorem then_serve {handler : ShardTask Reply} (h : handler.Then (AtRecord F)) :
    (serve handler).Then (AtRecord (fun t => ∃ t', F t' ∧ t = serve t')) := by
  refine Coroutine.Then.andThen (then_tryCatch h _) ?_ (fun reply _ => ⟨?_, fun v => ?_⟩)
    (fun _ => trivial)
  · intro op r t ht ip failed hop
    obtain ⟨t', hF, rfl⟩ := ht ip failed hop
    exact ⟨t', hF, rfl⟩
  · rintro ip failed ⟨⟩
  · cases v <;> trivial

end Rest

theorem then_finish (response : Option Str) :
    (finish o response).Then (AtRecord (Finishes P o)) := by
  cases response with
  | none => trivial
  | some text =>
    unfold finish deliver pushResponse
    dsimp only
    split
    · exact fun _ => ⟨nofun, trivial⟩
    · trivial

theorem then_named (hreturns : Returns srv P) (hnamed : sessionOf o.work ≠ []) (ip : Str)
    {k : Option Str → ShardTask Reply} (hk : ∀ response, k response = finish o response) :
    (do
      let response ←
        (dispatch srv.L (srv.dispatcher o.shard) (contentOf o.work) (sessionOf o.work)).coAwait
      transport (.recordOutcome ip (isError response))
      k response : ShardTask Reply).Then (AtRecord (Finishes P o)) := by
  refine then_settled (hreturns o hnamed) ip (fun response hresponse => ?_)
  rw [hk]
  exact ⟨⟨response, hresponse, rfl⟩, then_finish response⟩

theorem then_handleMessage (hreturns : Returns srv P) {j : ℕ} {req : Request}
    (hnamed : sessionOf (.postMessage req : Work srv.Job) ≠ []) :
    (HttpSseTransport.handleMessage srv.L (srv.dispatcher j) j req).Then
      (AtRecord (Finishes P (⟨j, .postMessage req⟩ : Origin srv.Job))) := by
  apply then_post
  have hnot : ¬(req.query "sessionId".toList).isEmpty :=
    fun hempty => hnamed (List.isEmpty_iff.mp hempty)
  refine then_named (o := ⟨j, .postMessage req⟩) hreturns hnamed _ (fun response => ?_)
  rw [if_neg hnot]
  cases response <;> rfl

theorem then_handlePost (hreturns : Returns srv P) {j : ℕ} {req : Request}
    (hnamed : sessionOf (.postMcp req : Work srv.Job) ≠ []) :
    (StreamableHttpTransport.handlePost srv.L (srv.dispatcher j) j req).Then
      (AtRecord (Finishes P (⟨j, .postMcp req⟩ : Origin srv.Job))) := by
  apply then_post
  have hnot : (!(req.header "mcp-session-id".toList).isEmpty) = true := by
    rw [Bool.not_eq_true', Bool.eq_false_iff]
    exact fun hempty => hnamed (List.isEmpty_iff.mp hempty)
  dsimp only
  rw [if_pos hnot]
  exact then_named (o := ⟨j, .postMcp req⟩) hreturns hnamed _
    (fun response => by cases response <;> rfl)

theorem then_program (hreturns : Returns srv P) (o : Origin srv.Job) :
    (srv.program o.shard o.work).Then (AfterRecord P o) := by
  by_cases hnamed : sessionOf o.work ≠ []
  · obtain ⟨j, work⟩ := o
    have serves : ∀ {handler : ShardTask Reply},
        handler.Then (AtRecord (Finishes P ⟨j, work⟩)) →
          (serve handler).Then (AfterRecord P ⟨j, work⟩) := by
      refine fun h => (then_serve h).mono (fun op r t ht _ ip failed hop => ?_)
      obtain ⟨_, ⟨response, hresponse, rfl⟩, rfl⟩ := ht ip failed hop
      exact ⟨response, hresponse, rfl⟩
    rcases post_of_named hnamed with ⟨req, rfl⟩ | ⟨req, rfl⟩
    · exact serves (then_handleMessage hreturns hnamed)
    · exact serves (then_handlePost hreturns hnamed)
  · exact Coroutine.Calls.allThen (T := fun _ => True)
      (Coroutine.Addresses.of_all (fun _ => trivial) _)
      (fun _ _ _ _ h => absurd h hnamed)

/-- A POST that names a session of another shard has just recorded its outcome. -/
structure Crosses (o : Origin srv.Job) (past : List (Mark ShardI)) : Prop where
  named : sessionOf o.work ≠ []
  there : shardOf o.work ≠ o.shard
  own : .started ∉ past
  recorded : ∃ ip failed r rest, past = .did (.inr (.recordOutcome ip failed)) r :: rest

/-- What is left of a request agrees with what it has done: a POST that crosses has its message
still to send, or only its reply. -/
structure Course (P : Origin srv.Job → Option Str → Prop) (o : Origin srv.Job)
    (past : List (Mark ShardI)) (t : ShardTask (Option WriterState)) : Prop where
  records : t.Then (AfterRecord P o)
  standing : Crosses o past →
    (∃ text, P o (some text) ∧ t = serve (deliver o text)) ∨ t = serve (pure { status := 202 })

theorem serve_deliver (hthere : shardOf o.work ≠ o.shard) (text : Str) :
    serve (deliver o text) = .invokeOn (shardOf o.work)
      (onShard (.pushToSession (sessionOf o.work) text)) (serve (pure { status := 202 })) := by
  unfold deliver pushResponse
  rw [if_neg hthere]
  rfl

variable {past marks : List (Mark ShardI)} {t t' : ShardTask (Option WriterState)}
  {heard : Option Input}

theorem Course.goes (h : Course P o past t) (hgoes : Goes srv.system o t heard marks t') :
    Course P o (marks ++ past) t' := by
  obtain ⟨hrecords, hstanding⟩ := h
  have acts : ∀ {op : ShardI.Op} {k : ShardI.Res op → ShardTask (Option WriterState)}
      (r : ShardI.Res op), AfterRecord P o op r (k r) ∧ (k r).Then (AfterRecord P o) →
      Course P o (.did op r :: past) (k r) := by
    refine fun r hthen => ⟨hthen.2, fun hcrosses => ?_⟩
    obtain ⟨ip, failed, _, _, hmark⟩ := hcrosses.recorded
    obtain ⟨response, hresponse, hrest⟩ :=
      hthen.1 hcrosses.named ip failed (Mark.did.inj (List.cons.inj hmark).1).1
    cases response with
    | some text => exact .inl ⟨text, hresponse, hrest⟩
    | none => exact .inr hrest
  cases hgoes with
  | resume k v =>
    refine ⟨hrecords v, fun hcrosses => ?_⟩
    rcases hstanding hcrosses with ⟨text, -, htext⟩ | hreply
    · rw [serve_deliver hcrosses.there] at htext
      cases htext
    · cases hreply
  | call op k r | wait op k r => exact acts r (hrecords r)
  | fork u k =>
    refine ⟨hrecords, fun hcrosses => ?_⟩
    rcases hstanding hcrosses with ⟨text, -, htext⟩ | hreply
    · rw [serve_deliver hcrosses.there] at htext
      cases htext
    · cases hreply
  | invokeOn n u k =>
    refine ⟨hrecords, fun hcrosses => .inr ?_⟩
    rcases hstanding hcrosses with ⟨text, -, htext⟩ | hreply
    · rw [serve_deliver hcrosses.there] at htext
      exact (Coroutine.invokeOn.inj htext).2.2
    · cases hreply
  | again w =>
    constructor
    · refine (calls_runWriter (T := fun _ => True) w).allThen ?_
      rintro _ _ _ hcall - ip failed rfl
      exact hcall.elim
    · intro hcrosses
      rcases hstanding hcrosses with ⟨text, -, htext⟩ | hreply
      · rw [serve_deliver hcrosses.there] at htext
        cases htext
      · cases hreply

theorem course_of_run (hreturns : Returns srv P) {steps : List (Label Input (Origin srv.Job))}
    {c : srv.State} (h : srv.Reaches steps c) :
    ∀ t ∈ c.tasks, .started ∉ t.past → Course P t.origin t.past t.task :=
  courses_of_run (fun _ => True) (Course P)
    (fun o _ => ⟨then_program hreturns o, fun hcrosses => by
      obtain ⟨_, _, _, _, hmark⟩ := hcrosses.recorded
      cases hmark⟩)
    (fun _ _ _ _ _ _ hcourse hgoes => hcourse.goes hgoes) (fun l _ => l.launches_true) h

/-- A POST that crosses has no response, or the message with its response is on its way or has been
processed. -/
def Sent (P : Origin srv.Job → Option Str → Prop) (c : srv.State) (o : Origin srv.Job)
    (past : List (Mark ShardI)) : Prop :=
  P o none ∨ ∃ text, P o (some text) ∧ Makes c o (shardOf o.work) (.started :: past)
    (.inl (.pushToSession (sessionOf o.work) text))

structure Handed (P : Origin srv.Job → Option Str → Prop) (c : srv.State) : Prop where
  tasks : ∀ t ∈ c.tasks, Crosses t.origin t.past → t.task = serve (pure { status := 202 }) →
    Sent P c t.origin t.past
  log : ∀ e ∈ c.log, Crosses e.origin e.past → Sent P c e.origin e.past

theorem handed_of_run (hreturns : Returns srv P) {steps : List (Label Input (Origin srv.Job))}
    {c : srv.State} (h : srv.Reaches steps c) : Handed P c := by
  refine LabelledRuns.invariant_of_reached (C := fun _ _ _ => True)
    ⟨fun t ht => (List.not_mem_nil ht).elim, fun e he => (List.not_mem_nil he).elim⟩ ?_
    (LabelledRuns.along_true _ _) h
  rintro steps c l c' hrun ⟨htasks, hlog⟩ hstep -
  have hcourses := course_of_run hreturns hrun
  have later : ∀ {o : Origin srv.Job} {past : List (Mark ShardI)}, Sent P c o past →
      Sent P c' o past :=
    fun hsent => hsent.imp_right fun ⟨text, htext, hmakes⟩ => ⟨text, htext, hmakes.step hstep⟩
  have hold : ∀ t ∈ c.tasks, Crosses t.origin t.past → t.task = serve (pure { status := 202 }) →
      Sent P c' t.origin t.past :=
    fun t ht hcrosses hreply => later (htasks t ht hcrosses hreply)
  have holdLog : ∀ e ∈ c.log, Crosses e.origin e.past → Sent P c' e.origin e.past :=
    fun e he hcrosses => later (hlog e he hcrosses)
  have standing : ∀ {i : ℕ} {t : Running ShardI Input Exception (Origin srv.Job) WriterState},
      c.tasks[i]? = some t → Crosses t.origin t.past →
      (∃ text, P t.origin (some text) ∧ t.task = .invokeOn (shardOf t.origin.work)
        (onShard (.pushToSession (sessionOf t.origin.work) text))
        (serve (pure { status := 202 }))) ∨ t.task = serve (pure { status := 202 }) := by
    intro i t hi hcrosses
    refine ((hcourses t (List.mem_of_getElem? hi) hcrosses.own).standing hcrosses).imp_left ?_
    rintro ⟨text, hresponse, htext⟩
    exact ⟨text, hresponse, by rw [htext, serve_deliver hcrosses.there]⟩
  have started : ∀ {o : Origin srv.Job} {past : List (Mark ShardI)},
      ¬Crosses o (.started :: past) :=
    fun hcrosses => hcrosses.own (.head _)
  have hm := step_cases hstep
  cases hm with
  | tick d => exact ⟨hold, holdLog⟩
  | launch o hj =>
    refine ⟨forall_tasks_append hold (fun hcrosses => ?_), holdLog⟩
    obtain ⟨_, _, _, _, hmark⟩ := hcrosses.recorded
    cases hmark
  | @resume i t k v hi htask =>
    refine ⟨forall_tasks_set hold (fun hcrosses => ?_) i, holdLog⟩
    rcases standing hi hcrosses with ⟨text, -, htext⟩ | hreply
    · cases htask.symm.trans htext
    · cases htask.symm.trans hreply
  | @act i l t op k hi htask =>
    have hmem := List.mem_of_getElem? hi
    constructor
    · refine forall_tasks_set hold (fun hcrosses hreply => .inl ?_) i
      have hown : .started ∉ t.past := fun hmem => hcrosses.own (.tail _ hmem)
      have hcourse := hcourses t hmem hown
      have hafter : ∀ r, AfterRecord P t.origin op r (k r) := by
        have hrecords := hcourse.records
        rcases htask with htask | ⟨htask, -⟩ <;> rw [htask] at hrecords <;>
          exact fun r => (hrecords r).1
      obtain ⟨ip, failed, _, _, hmark⟩ := hcrosses.recorded
      obtain ⟨response, hresponse, hrest⟩ :=
        hafter _ hcrosses.named ip failed (Mark.did.inj (List.cons.inj hmark).1).1
      cases response with
      | none => exact hresponse
      | some text =>
        -- a response would still have to be sent
        rw [finish, serve_deliver hcrosses.there] at hrest
        cases hreply.symm.trans hrest
    · refine List.forall_mem_cons.mpr ⟨fun hcrosses => ?_, holdLog⟩
      rcases standing hi hcrosses with ⟨text, -, htext⟩ | hreply
      · rcases htask with htask | ⟨htask, -⟩ <;> cases htask.symm.trans htext
      · exact hold t hmem hcrosses hreply
  | @fork i l t u k hi htask =>
    refine ⟨forall_tasks_append (forall_tasks_set hold (fun hcrosses => ?_) i)
      (fun hcrosses => (started hcrosses).elim), holdLog⟩
    rcases standing hi hcrosses with ⟨text, -, htext⟩ | hreply
    · cases htask.symm.trans htext
    · cases htask.symm.trans hreply
  | @invokeOn i n l t u k hi htask =>
    refine ⟨forall_tasks_append (forall_tasks_set hold (fun hcrosses _ => ?_) i)
      (fun hcrosses => (started hcrosses).elim), holdLog⟩
    rcases standing hi hcrosses with ⟨text, hresponse, htext⟩ | hreply
    · obtain ⟨rfl, rfl, -⟩ := Coroutine.invokeOn.inj (htask.symm.trans htext)
      refine .inr ⟨text, hresponse, .inl ?_⟩
      refine ⟨_, List.mem_append_right _ (List.mem_singleton_self _), ?_⟩
      exact ⟨⟨rfl, rfl, rfl⟩, fun _ => rfl⟩
    · cases htask.symm.trans hreply
  | @again i l t x hi htask =>
    refine ⟨forall_tasks_set hold (fun hcrosses => ?_) i, holdLog⟩
    rcases standing hi hcrosses with ⟨text, -, htext⟩ | hreply
    · cases htask.symm.trans htext
    · cases htask.symm.trans hreply

theorem returns_text (srv : McpServer) :
    Returns srv (fun o response => SessionCall srv.L o.work → response ≠ none) := by
  intro o _
  by_cases hcall : SessionCall srv.L o.work
  · refine (yields_dispatch hcall (fun _ => trivial) _ _).weaken (fun _ h => h) ?_
    rintro response ⟨text, rfl, -⟩ -
    exact nofun
  · exact Coroutine.Follows.mono (calls_dispatch srv.L _ (fun _ => trivial) _ _).coAwait
      (fun _ _ _ h => absurd h hcall) (fun _ _ _ => trivial)

end Courses

section Runs
variable {srv : McpServer}

/-- A POST that names a session and brings a call is answered 202 by this event. -/
structure Accepts (r : Event ShardI (Origin srv.Job) McpShard) : Prop where
  call : SessionCall srv.L r.origin.work
  accepted : ∃ reply, r.op = .inr (.respond reply) ∧ reply.status = 202

/-- This event is to hand the response to the session of the POST that is answered by `r`: on the
shard that the transport has read from the id, it is the last call before the answer, or the call
of the message that was sent by then. -/
structure Delivers (r p : Event ShardI (Origin srv.Job) McpShard) (text : Str) : Prop where
  origin : p.origin = r.origin
  shard : p.shard = shardOf r.origin.work
  place : if shardOf r.origin.work = r.origin.shard then p.history = r.past
    else p.past = .started :: r.past
  op : p.op = .inl (.pushToSession (sessionOf r.origin.work) text)

/-- A text enters the queue of an active session by this event. -/
def Enqueues (session text : Str) (p : Event ShardI (Origin srv.Job) McpShard) : Prop :=
  ∃ ref, p.before.sessions.lookup session = some ref ∧ (p.before.object ref).active ∧
    (p.after.object ref).messages = (p.before.object ref).messages ++ [text]

/-- The response to the POST that is answered by `r` has entered the queue of its session. -/
structure Answered (log : List (Event ShardI (Origin srv.Job) McpShard))
    (r : Event ShardI (Origin srv.Job) McpShard) : Prop where
  delivered : ∃ p ∈ log, ∃ text, Delivers r p text
  enqueued : ∀ p ∈ log, ∀ text, Delivers r p text →
    Responds srv.L (contentOf r.origin.work) text ∧ Enqueues (sessionOf r.origin.work) text p

/-- The shard has the session, which is active and whose queue has room. -/
def Ready (session : Str) (s : McpShard) : Prop :=
  ∃ ref, s.sessions.lookup session = some ref ∧ (s.object ref).active ∧
    (s.object ref).messages.length < SseSession.capacity

variable {steps : List (Label Input (Origin srv.Job))} {c : srv.State}
  {r p : Event ShardI (Origin srv.Job) McpShard} {text : Str}

theorem lawful_of_run (h : srv.Reaches steps c) (hr : r ∈ c.log) :
    Lawful (delivery srv r.origin) r.history :=
  (onTrack_of_run (keeps_delivery srv) (fun l _ => l.launches_true) h).2 r hr

theorem phase_of_accepts (h : srv.Reaches steps c) (hr : r ∈ c.log) (haccepts : Accepts r) :
    phase (delivery srv r.origin) r.past =
      if shardOf r.origin.work = r.origin.shard then .pushed else .recorded := by
  obtain ⟨hcall, reply, hop, hstatus⟩ := haccepts
  have hlawful := lawful_of_run h hr
  have hallows := hlawful.1.1 hcall
  rw [hop] at hallows
  cases hq : phase (delivery srv r.origin) r.past with
  | before =>
    rw [hq] at hallows
    exact absurd hstatus hallows
  | recorded =>
    rw [hq] at hallows
    exact (if_neg hallows).symm
  | pushed => exact (if_pos (exists_push hcall hlawful.2 hq).1).symm
  | _ =>
    rw [hq] at hallows
    exact hallows.elim

theorem responds_of_delivers (h : srv.Reaches steps c) (hr : r ∈ c.log) (haccepts : Accepts r)
    (hp : p ∈ c.log) (hdelivers : Delivers r p text) :
    Responds srv.L (contentOf r.origin.work) text := by
  obtain ⟨horigin, -, hplace, hop⟩ := hdelivers
  have hphase := phase_of_accepts h hr haccepts
  have hallows := (lawful_of_run h hp).1.1
  rw [horigin, hop] at hallows
  have hallows := hallows haccepts.call
  split at hphase
  · rename_i hhere
    rw [if_pos hhere] at hplace
    rw [← hplace] at hphase
    have hnext : (phase (delivery srv r.origin) p.past).next p.op = .pushed := hphase
    rw [(push_of_next hnext).1] at hallows
    exact hallows.2.2
  · rename_i hthere
    rw [if_neg hthere] at hplace
    have hmessage : phase (delivery srv r.origin) p.past = .message := by
      rw [hplace]
      exact congrArg Delivery.child hphase
    rw [hmessage] at hallows
    exact hallows.2

/-- No message of the POST that is answered by `r` is still on its way to a shard that is there. -/
def Processed (c : srv.State) (r : Event ShardI (Origin srv.Job) McpShard) : Prop :=
  ∀ m ∈ c.tasks, m.shard < srv.count → m.origin = r.origin → m.past ≠ .started :: r.past

/-- Once its message has been processed, a POST that is answered 202 has delivered, on the shard
that the transport has read from the id if there is one. -/
theorem exists_delivers (h : srv.Reaches steps c) (hr : r ∈ c.log) (haccepts : Accepts r)
    (hprocessed : Processed c r) (hcount : shardOf r.origin.work < srv.count) :
    ∃ p ∈ c.log, ∃ text, Delivers r p text := by
  have hphase := phase_of_accepts h hr haccepts
  have hlawful := lawful_of_run h hr
  split at hphase
  · rename_i hhere
    obtain ⟨-, text, answer, rest, hpast, -⟩ := exists_push haccepts.call hlawful.2 hphase
    obtain ⟨older, hs⟩ := suffix_of_mem hr
    obtain ⟨p, hp, horigin, hhistory⟩ := (recorded_of_run h).2 r older hs
      (.inl (.pushToSession (sessionOf r.origin.work) text)) answer rest
      (hpast ▸ List.suffix_refl _)
    have hplog : p ∈ c.log := hs.subset (.tail _ hp)
    have hown : .started ∉ r.past := own_of_phase (by rw [hphase]; exact nofun)
      (by rw [hphase]; exact nofun)
    have hpown : .started ∉ p.past := by
      rw [hpast, ← hhistory] at hown
      exact fun hmem => hown (.tail _ hmem)
    refine ⟨p, hplog, text, horigin, ?_, ?_, ?_⟩
    · rw [(placed_of_run h).2 p hplog hpown, horigin]
      exact hhere.symm
    · rw [if_pos hhere, hhistory, hpast]
    · exact (Mark.did.inj (List.cons.inj hhistory).1).1
  · rename_i hthere
    obtain ⟨ip, failed, answer, rest, hpast⟩ := exists_recordOutcome hphase
    have hown : .started ∉ r.past := own_of_phase (by rw [hphase]; exact nofun)
      (by rw [hphase]; exact nofun)
    have hcrosses : Crosses r.origin r.past :=
      ⟨haccepts.call.named, hthere, hown, ip, failed, answer, rest, hpast⟩
    have hsent := (handed_of_run (returns_text srv) h).log r hr hcrosses
    rcases hsent with hnone | ⟨text, -, hmakes⟩
    · exact (hnone haccepts.call rfl).elim
    · rcases hmakes with ⟨m, hm, ⟨horigin, hshard, hmpast⟩, -⟩ | hmade
      · exact absurd hmpast (hprocessed m hm (hshard ▸ hcount) horigin)
      · obtain ⟨p, hp, horigin, hshard, hppast, hop⟩ := hmade
        exact ⟨p, hp, text, horigin, hshard, by rwa [if_neg hthere], hop⟩

theorem enqueues_iff (h : srv.Reaches steps c) (hp : p ∈ c.log) {session : Str}
    (hop : p.op = .inl (.pushToSession session text)) :
    Enqueues session text p ↔ Ready session p.before := by
  have hexec : shardExec srv.L srv.cfg p.shard p.now p.op p.before = (p.res, p.after) :=
    (coherent_of_run h).exec p hp
  have hafter : p.after = p.before.pushToSession session text := by
    have hsnd : p.after = (shardExec srv.L srv.cfg p.shard p.now p.op p.before).2 :=
      (congrArg Prod.snd hexec).symm
    rw [hsnd, hop]
    rfl
  refine exists_congr (fun ref => and_congr_right (fun hid => and_congr_right (fun hactive => ?_)))
  rw [hafter, McpShard.object_pushToSession ((tables_of_run h).2 p hp).1,
    if_pos (McpShard.target_eq_some_iff.mpr ⟨hid, hactive⟩)]
  constructor
  · intro hmessages
    by_contra hfull
    rw [SseSession.pushEventually, if_pos (not_lt.mp hfull)] at hmessages
    exact List.cons_ne_nil _ _ (List.self_eq_append_right.mp hmessages)
  · exact fun hroom => SseSession.pushEventually_messages hroom text

/-- The response to a POST that is answered 202, once its message has been processed, has entered
the queue of the session if and only if the shard read from the id is there and, when the response
is handed over, has the session, active and with room. -/
theorem answered_iff_ready (srv : McpServer) {steps : List (Label Input (Origin srv.Job))}
    {c : srv.State} (h : srv.Reaches steps c) {r : Event ShardI (Origin srv.Job) McpShard}
    (hr : r ∈ c.log) (haccepts : Accepts r) (hprocessed : Processed c r) :
    Answered c.log r ↔ shardOf r.origin.work < srv.count ∧
      ∀ p ∈ c.log, ∀ text, Delivers r p text → Ready (sessionOf r.origin.work) p.before := by
  constructor
  · rintro ⟨⟨p, hp, text, hdelivers⟩, henqueued⟩
    refine ⟨hdelivers.shard ▸ shard_lt_of_run h p hp, fun p hp text hdelivers => ?_⟩
    exact (enqueues_iff h hp hdelivers.op).mp (henqueued p hp text hdelivers).2
  · rintro ⟨hcount, hready⟩
    refine ⟨exists_delivers h hr haccepts hprocessed hcount, fun p hp text hdelivers => ?_⟩
    exact ⟨responds_of_delivers h hr haccepts hp hdelivers,
      (enqueues_iff h hp hdelivers.op).mpr (hready p hp text hdelivers)⟩

end Runs

section Examples
open RequestContext ResourceUpdates

def subscribeFor (session : Str) : Request :=
  { subscribePost with query := fun k => if k = "sessionId".toList then session else [] }

/-- Shard 0 opens a session, shard 1 accepts the subscription of a session, and shard 0 gets the
message. -/
def subscribedFor (session : Str) : List (Label Input (Origin Str)) :=
  [.launch ⟨0, .getSse {}⟩, .advance 0, .advance 0, .advance 0, .advance 0,
    .launch ⟨1, .postMessage (subscribeFor session)⟩, .advance 1, .advance 1, .advance 1,
    .advance 1, .advance 1, .resume 1 (.ok .null), .resume 1 (.ok .null), .resume 1 (.ok .null),
    .resume 1 (.ok .null), .advance 1, .advance 1, .advance 1, .resume 2 (.ok .null), .advance 2]

theorem sessionCall_subscribeFor {session : Str} (h : session ≠ []) :
    SessionCall updateServer.L
      (Work.postMessage (subscribeFor session) : Work updateServer.Job) where
  named := h
  call := by
    have hdump : CompactJson.library.dump (request 1 "resources/subscribe".toList
        (.ofMembers [("uri".toList, .string "u".toList)])) = some subscribePost.content := by
      decide +kernel
    have hparse := CompactJson.library.parse_dump _ _ hdump
    exact ⟨_, hparse, ⟨"resources/subscribe".toList, rfl, rfl⟩, rfl⟩

def accepted (c : updateServer.State) : Bool :=
  c.tasks.all (fun m => match m.past with
    | .started :: _ => false
    | _ => true) &&
  c.log.any (fun r => r.origin.shard == 1 && match r.op with
    | .inr (.respond reply) => reply.status == 202
    | _ => false)

theorem exists_accepts {session : Str} (hsession : session ≠ []) {c : updateServer.State}
    (h : updateServer.Reaches (subscribedFor session) c) (hc : accepted c) :
    ∃ r ∈ c.log, r.origin = ⟨1, .postMessage (subscribeFor session)⟩ ∧ Accepts r ∧
      ∀ m ∈ c.tasks, m.origin = r.origin → m.past ≠ .started :: r.past := by
  simp only [accepted, Bool.and_eq_true, List.all_eq_true, List.any_eq_true, beq_iff_eq] at hc
  obtain ⟨hprocessed, r, hr, hshard, hop⟩ := hc
  have horigins := (origins_of_run (fun o : Origin Str =>
    o = ⟨0, .getSse {}⟩ ∨ o = ⟨1, .postMessage (subscribeFor session)⟩)
    (by simp [subscribedFor, Label.Launches]) h).2 r hr
  have horigin : r.origin = ⟨1, .postMessage (subscribeFor session)⟩ := by
    rcases horigins with ho | ho
    · rw [ho] at hshard
      cases hshard
    · exact ho
  refine ⟨r, hr, horigin, ⟨?_, ?_⟩, fun m hm _ hpast => ?_⟩
  · rw [horigin]
    exact sessionCall_subscribeFor hsession
  · split at hop
    · exact ⟨_, ‹_›, by simpa using hop⟩
    · cases hop
  · have hnew := hprocessed m hm
    rw [hpast] at hnew
    cases hnew

def findsRoom (session : Str) (p : Event ShardI (Origin updateServer.Job) McpShard) : Bool :=
  match p.op with
  | .inl (.pushToSession _ _) => (p.before.sessions.lookup session).any (fun ref =>
      (p.before.object ref).active && (p.before.object ref).messages.length < SseSession.capacity)
  | _ => true

/-- The response to a session that is open reaches it from another shard. -/
theorem answered_iff_ready_other_shard :
    ∃ c, updateServer.Reaches (subscribedFor firstSession) c ∧
      ∃ r ∈ c.log, r.origin.shard = 1 ∧ Accepts r ∧ Processed c r ∧ Answered c.log r := by
  have hrun : (LabelledRuns.run updateServer.system.step updateServer.system.start
      (subscribedFor firstSession)).any (fun c =>
        accepted c && c.log.all (findsRoom firstSession)) := by
    decide +kernel
  obtain ⟨c, hc, hp⟩ := (Option.any_eq_true _ _).mp hrun
  obtain ⟨haccepted, hready⟩ := Bool.and_eq_true_iff.mp hp
  obtain ⟨r, hr, horigin, haccepts, hnone⟩ := exists_accepts (by decide) hc haccepted
  have hprocessed : Processed c r := fun m hm _ => hnone m hm
  refine ⟨c, hc, r, hr, by rw [horigin], haccepts, hprocessed,
    (answered_iff_ready updateServer hc hr haccepts hprocessed).mpr ⟨?_, ?_⟩⟩
  · rw [horigin]
    decide
  · intro p hp text hdelivers
    have hpush := List.all_eq_true.mp hready p hp
    simp only [findsRoom, hdelivers.op, Option.any_eq_true, Bool.and_eq_true,
      decide_eq_true_eq] at hpush
    rw [horigin]
    exact hpush

/-- A session that was never opened is answered 202 all the same. -/
theorem accepted_response_is_lost :
    ∃ c, updateServer.Reaches (subscribedFor "s0_9".toList) c ∧
      ∃ r ∈ c.log, Accepts r ∧ (∀ m ∈ c.tasks, m.origin = r.origin → m.past ≠ .started :: r.past) ∧
        ¬Answered c.log r := by
  have hrun : (LabelledRuns.run updateServer.system.step updateServer.system.start
      (subscribedFor "s0_9".toList)).any (fun c => accepted c && c.log.all (fun p =>
        p.before.sessions.lookup "s0_9".toList == none)) := by
    decide +kernel
  obtain ⟨c, hc, hp⟩ := (Option.any_eq_true _ _).mp hrun
  obtain ⟨haccepted, hmissing⟩ := Bool.and_eq_true_iff.mp hp
  obtain ⟨r, hr, horigin, haccepts, hprocessed⟩ := exists_accepts (by decide) hc haccepted
  refine ⟨c, hc, r, hr, haccepts, hprocessed, fun hanswered => ?_⟩
  obtain ⟨p, hp, text, hdelivers⟩ := hanswered.delivered
  obtain ⟨-, ref, hfound, -⟩ := hanswered.enqueued p hp text hdelivers
  have hnone := List.all_eq_true.mp hmissing p hp
  rw [horigin] at hfound
  rw [show p.before.sessions.lookup "s0_9".toList = some ref from hfound] at hnone
  cases hnone

end Examples
end McpSdk.ResponseDelivery

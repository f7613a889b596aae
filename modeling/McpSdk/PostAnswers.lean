import McpSdk.ConformingReplies
import McpSdk.RequestedChanges
import McpSdk.ResponseDelivery

/-!
# The answers of POST requests

Where the answer to a POST goes. A request of either transport, with a session, without one or with
one that it opens itself, is refused or fails, or it comes to the record of its outcome; then the
next thing it does is to hand over the answer to its own body: as the body of its reply, to the
session that it names, or to the queue of the object that it has created. Only then does it reply.
Before the record, the methods of the shard are called by the handlers for its body alone, and
these may push what they like.
-/

namespace McpSdk.PostAnswers
open CppStandardLibrary CooperativeTasks ClusterRuns ResponseDelivery ConformingReplies

section Statement

def IsPost {Job : Type} : Work Job → Prop
  | .postMessage _ | .postMcp _ => True
  | _ => False

/-- The outcome of the dispatch has been recorded. -/
def Recorded : List (Mark ShardI) → Prop
  | [] => False
  | .did (.inr (.recordOutcome _ _)) _ :: _ => True
  | _ :: past => Recorded past

/-- The last call was the first record of an outcome. -/
def JustRecorded : List (Mark ShardI) → Prop
  | .did (.inr (.recordOutcome _ _)) _ :: past => ¬Recorded past
  | .started :: past => JustRecorded past
  | _ => False

def Responded : List (Mark ShardI) → Prop
  | [] => False
  | .did (.inr (.respond _)) _ :: _ => True
  | _ :: past => Responded past

def Entered (past : List (Mark ShardI)) : Prop :=
  ∃ sessionId token, .did (.inr (.setContext sessionId token)) () ∈ past

/-- The request has created the session `id`, with this object. -/
def Opened (past : List (Mark ShardI)) (id : Str) (ref : ℕ) : Prop :=
  ∃ ip, .did (.inr (.createSessionWithId id ip)) (some ref) ∈ past

/-- The reply refuses the request or says that it has failed. -/
def Refuses (reply : Reply) : Prop :=
  (reply.status = 500 ∧ reply.stream = none) ∨
    ∃ result : SecurityCheckResult, result ≠ .ok ∧ reply = securityReject result

variable (srv : McpServer)

/-- What the body of a POST is owed. -/
def Owed (o : Origin srv.Job) (out : Option Str) : Prop :=
  Answered srv.L (srv.dispatcher o.shard) (contentOf o.work) out

/-- The handlers for the body of the request make the calls of `B`. -/
def HandledBy (B : HandlerCall → Prop) (o : Origin srv.Job) : Prop :=
  Coroutine.Calls (I := HandlerI) B (fun _ => True)
    ((srv.dispatcher o.shard).handleRequest srv.L (contentOf o.work))

/-- The handlers for the body of the request make this call. -/
def HandlersCall (o : Origin srv.Job) (call : HandlerCall) : Prop :=
  ∀ B, HandledBy srv B o → B call

/-- Nothing but this call has followed the record. -/
def Lastly (past : List (Mark ShardI)) (op : ShardI.Op) : Prop :=
  ∃ r rest, past = .did op r :: rest ∧ JustRecorded rest

/-- Nothing has followed the record but the call that hands over the answer, if there is one. -/
def HandedOver (past : List (Mark ShardI)) (push : Str → ShardI.Op) : Option Str → Prop
  | some text => Lastly past (push text)
  | none => JustRecorded past

/-- The ways of the answer `out` to a POST, by its reply: it has gone into the queue of the object
that the request has created, it comes with the reply, or it has gone to the session that the
request names; if this is a session of another shard, the message to that shard is on its way or
has been processed. -/
inductive Reaches (c : srv.State) (e : Event ShardI (Origin srv.Job) McpShard) (out : Option Str) :
    Reply → Prop
  | queue {id : Str} {ref : ℕ} {reply : Reply} (hopened : Opened e.past id ref)
      (hstream : reply.stream = some ⟨.post, id, ref⟩)
      (hhanded : HandedOver e.past (fun text => .inr (.pushEventually ref text)) out) :
      Reaches c e out reply
  | body (hopened : ∀ id ref, ¬Opened e.past id ref) (hnamed : sessionOf e.origin.work = [])
      (hrecorded : JustRecorded e.past) :
      Reaches c e out (out.elim { status := 202 } (fun text => { body := text }))
  | session (hopened : ∀ id ref, ¬Opened e.past id ref) (hnamed : sessionOf e.origin.work ≠ [])
      (hhere : shardOf e.origin.work = e.origin.shard)
      (hhanded : HandedOver e.past
        (fun text => .inl (.pushToSession (sessionOf e.origin.work) text)) out) :
      Reaches c e out { status := 202 }
  | message (hopened : ∀ id ref, ¬Opened e.past id ref) (hnamed : sessionOf e.origin.work ≠ [])
      (hthere : shardOf e.origin.work ≠ e.origin.shard) (hrecorded : JustRecorded e.past)
      (hsent : ∀ text, out = some text →
        Makes c e.origin (shardOf e.origin.work) (.started :: e.past)
          (.inl (.pushToSession (sessionOf e.origin.work) text))) :
      Reaches c e out { status := 202 }

/-- The event, of a POST, is as it should be: until the outcome is recorded, only the handlers call
methods of the shard; what goes out after that is the answer, once, right after the record and to
where it belongs; and there is one reply, which refuses the request or finds the answer gone. -/
structure Proper (c : srv.State) (e : Event ShardI (Origin srv.Job) McpShard) : Prop where
  handled : ∀ call, e.op = .inl call → ¬Recorded e.past →
    Entered e.past ∧ HandlersCall srv e.origin call
  push : ∀ call, e.op = .inl call → Recorded e.past → ∃ text, call =
    .pushToSession (sessionOf e.origin.work) text ∧ JustRecorded e.past ∧
      sessionOf e.origin.work ≠ [] ∧ Owed srv e.origin (some text)
  queue : ∀ ref text, e.op = .inr (.pushEventually ref text) →
    JustRecorded e.past ∧ (∃ id, Opened e.past id ref) ∧ Owed srv e.origin (some text)
  once : ∀ reply, e.op = .inr (.respond reply) → .started ∉ e.past ∧ ¬Responded e.past
  refusal : ∀ reply, e.op = .inr (.respond reply) → ¬Recorded e.past → Refuses reply
  reply : ∀ reply, e.op = .inr (.respond reply) → Recorded e.past →
    ∃ out, Owed srv e.origin out ∧ Reaches srv c e out reply

end Statement

/-- Where a POST stands; `apart` are tasks that its handlers have started, and `message` is what it
sends to another shard. -/
inductive Stage
  | before | handling | apart | recorded
  | pushed (op : ShardI.Op)
  | message | done

structure Posting where
  stage : Stage := .before
  opened : Option (Str × ℕ) := none

namespace Posting

def next (q : Posting) : (op : ShardI.Op) → ShardI.Res op → Posting
  | .inr (.createSessionWithId id _), (ref : Option ℕ) =>
      match ref with
      | some ref => { q with opened := some (id, ref) }
      | none => q
  | .inr (.setContext _ _), _ => { q with stage := .handling }
  | .inr (.recordOutcome _ _), _ => { q with stage := .recorded }
  | .inr (.respond _), _ => { q with stage := .done }
  | .inl (.pushToSession id text), _ =>
      match q.stage with
      | .recorded => { q with stage := .pushed (.inl (.pushToSession id text)) }
      | .message => { q with stage := .done }
      | _ => q
  | .inr (.pushEventually ref text), _ =>
      { q with stage := .pushed (.inr (.pushEventually ref text)) }
  | _, _ => q

def child (q : Posting) : Posting :=
  match q.stage with
  | .handling | .apart => { stage := .apart }
  | .recorded => { stage := .message }
  | _ => { stage := .done }

end Posting

/-- The push of the answer to a session that is named. -/
def Posting.Hands (srv : McpServer) (o : Origin srv.Job) : ShardI.Op → Prop
  | .inl (.pushToSession id text) =>
      id = sessionOf o.work ∧ id ≠ [] ∧ Owed srv o (some text)
  | _ => False

/-- The reply right after the record. -/
def Posting.Replies (srv : McpServer) (o : Origin srv.Job) (q : Posting) (reply : Reply) : Prop :=
  match q.opened with
  | some (id, ref) => reply.stream = some ⟨.post, id, ref⟩ ∧ Owed srv o none
  | none =>
      if sessionOf o.work = [] then
        ∃ out, Owed srv o out ∧ reply = out.elim { status := 202 } (fun text => { body := text })
      else
        reply = { status := 202 } ∧ (Owed srv o none ∨ shardOf o.work ≠ o.shard)

/-- The reply after the call `op` that has handed over the answer. -/
def Posting.RepliesTo (srv : McpServer) (o : Origin srv.Job) (q : Posting) (op : ShardI.Op)
    (reply : Reply) : Prop :=
  match q.opened with
  | some (id, ref) => reply.stream = some ⟨.post, id, ref⟩ ∧
      ∃ text, op = .inr (.pushEventually ref text) ∧ Owed srv o (some text)
  | none => reply = { status := 202 } ∧ sessionOf o.work ≠ [] ∧ shardOf o.work = o.shard ∧
      ∃ text, op = .inl (.pushToSession (sessionOf o.work) text) ∧ Owed srv o (some text)

def Posting.Allows (srv : McpServer) (o : Origin srv.Job) (q : Posting) (op : ShardI.Op) : Prop :=
  match q.stage with
  | .before =>
      match op with
      | .inl _ | .inr (.pushEventually _ _) => False
      | .inr (.respond reply) => Refuses reply
      | _ => True
  | .handling =>
      match op with
      | .inl call => HandlersCall srv o call
      | .inr (.recordOutcome _ _) => True
      | .inr (.respond reply) => Refuses reply
      | _ => False
  | .apart =>
      match op with
      | .inl call => HandlersCall srv o call
      | _ => False
  | .recorded =>
      match op with
      | .inr (.pushEventually ref text) =>
          (∃ id, q.opened = some (id, ref)) ∧ Owed srv o (some text)
      | .inr (.respond reply) => q.Replies srv o reply
      | op => Posting.Hands srv o op
  | .pushed last =>
      match op with
      | .inr (.respond reply) => q.RepliesTo srv o last reply
      | _ => False
  | .message => Posting.Hands srv o op
  | .done => WriterCall op

/-- How a POST hands over its answer. Other work is not concerned. -/
def posting (srv : McpServer) (o : Origin srv.Job) : Contract ShardI Posting where
  init := {}
  allows q op := IsPost o.work → q.Allows srv o op
  answers _ _ := True
  next := Posting.next
  child := Posting.child
  rests _ := True
  addresses _ := True

section Programs
variable {srv : McpServer} {o : Origin srv.Job} {q : Posting}

def Stops (w : Option WriterState) (q : Posting) : Prop := w = none ∨ q.stage = .done

theorem sends {reply : Reply} (h : q.Allows srv o (.inr (.respond reply))) :
    Sends (posting srv o) Stops reply q where
  allows _ := h
  rests := trivial
  streams := .inr rfl
  fails := .inl rfl

def Serves (srv : McpServer) (o : Origin srv.Job) (q : Posting) (handler : ShardTask Reply) :
    Prop :=
  handler.Follows (posting srv o) q (fun reply q => Sends (posting srv o) Stops reply q)
    (fun _ q => ∀ reply : Reply, reply.status = 500 → reply.stream = none →
      Sends (posting srv o) Stops reply q)

def Unsettled (q : Posting) : Prop := q.stage = .before ∨ q.stage = .handling

theorem allows_refusal (hq : Unsettled q) {reply : Reply} (h : Refuses reply) :
    q.Allows srv o (.inr (.respond reply)) := by
  unfold Posting.Allows
  rcases hq with hq | hq <;> rw [hq] <;> exact h

theorem serves_rejection (hq : q.stage = .before) {result : SecurityCheckResult}
    (h : result ≠ .ok) : Serves srv o q (return securityReject result) :=
  sends (allows_refusal (.inl hq) (.inr ⟨result, h, rfl⟩))

def Early : TransportCall → Prop
  | .recordOutcome _ _ | .respond _ | .pushEventually _ _ | .setContext _ _
  | .createSessionWithId _ _ => False
  | _ => True

theorem early_bind (hq : q.stage = .before) {op : TransportCall} (hop : Early op) {α : Type}
    {k : op.Res → ShardTask α} {Q : α → Posting → Prop} {E : Exception → Posting → Prop}
    (hk : ∀ r, (k r).Follows (posting srv o) q Q E) :
    (transport op >>= k).Follows (posting srv o) q Q E := by
  rw [Coroutine.follows_bind, follows_transport]
  refine ⟨fun _ => ?_, fun r _ => ?_⟩
  · unfold Posting.Allows
    rw [hq]
    cases op <;> first | exact hop.elim | trivial
  · have hnext : (posting srv o).next q (.inr op) r = q := by
      cases op <;> first | exact hop.elim | rfl
    rw [hnext]
    exact hk r

theorem idle_handling :
    (posting srv o).left.Idle (HandlersCall srv o)
      (fun q => q.stage = .handling ∨ q = { stage := .apart }) where
  allows q op hq hop _ := by
    unfold Posting.Allows
    rcases hq with hq | rfl
    · rw [hq]
      exact hop
    · exact hop
  next q op r hq _ := by
    cases op with
    | pushToSession id text =>
      rcases hq with hq | rfl
      · simp [posting, Contract.left, Posting.next, hq]
      · rfl
    | _ => rfl
  rests _ _ := trivial
  child q hq := by
    rcases hq with hq | rfl
    · exact .inr (by simp [posting, Contract.left, Posting.child, hq])
    · exact .inr rfl

theorem follows_handleRequest (hq : q.stage = .handling) :
    ((srv.dispatcher o.shard).handleRequest srv.L (contentOf o.work)).inl.Follows (posting srv o) q
      (fun response q' => Owed srv o response ∧ q' = q) (fun _ q' => q' = q) := by
  apply (Coroutine.follows_inl (C := posting srv o) _).mpr
  have hyields := yields_handleRequest (L := srv.L) (d := srv.dispatcher o.shard)
    (T := fun _ => True) (fun _ => trivial) (contentOf o.work)
  have hcalls : Coroutine.Yields (I := HandlerI) (fun call => True ∧ HandlersCall srv o call)
      (fun _ => True) (JsonRpcConformance.Conforms srv.L (srv.dispatcher o.shard)
        (contentOf o.work)) _ :=
    hyields.restrict (Coroutine.calls_common hyields.calls)
  refine (Coroutine.Follows.of_calling (idle_handling.mono (fun _ hop => hop.2))
    (fun _ _ => trivial) (.inl hq) hcalls).mono ?_ (fun _ _ h => h.2)
  rintro response q' ⟨hresponse, rfl⟩
  exact ⟨.inl hresponse, rfl⟩

theorem follows_takeClientResponse (hq : q.stage = .before) :
    (takeClientResponse srv.L (contentOf o.work)).Follows (posting srv o) q
      (fun taken q' => (taken = true → Owed srv o none) ∧ q' = q) (fun _ _ => False) := by
  unfold takeClientResponse
  cases hparse : srv.L.parse (contentOf o.work) with
  | none => exact ⟨nofun, rfl⟩
  | some v =>
    dsimp only
    split
    · rename_i hresponse
      refine early_bind hq (by trivial) (fun taken => ?_)
      split
      · exact ⟨fun _ => .inr ⟨rfl, v, hparse, hresponse⟩, rfl⟩
      · exact ⟨nofun, rfl⟩
    · exact ⟨nofun, rfl⟩

theorem follows_dispatch (hq : q.stage = .before) (sessionId : Str) :
    (dispatch srv.L (srv.dispatcher o.shard) (contentOf o.work) sessionId).coAwait.Follows
      (posting srv o) q
      (fun response q' => Owed srv o response ∧ Unsettled q' ∧ q'.opened = q.opened)
      (fun _ q' => Unsettled q') := by
  rw [Coroutine.follows_coAwait]
  refine early_bind hq (by trivial) (fun _ => ?_)
  rw [Coroutine.follows_bind]
  refine (follows_takeClientResponse hq).mono ?_ (fun _ _ h => h.elim)
  rintro taken _ ⟨htaken, rfl⟩
  split
  · rename_i hyes
    exact ⟨trivial, fun _ => ⟨htaken hyes, .inl hq, rfl⟩⟩
  · apply (Coroutine.follows_bind _ _).mpr
    refine ⟨fun _ => ?_, fun _ _ => ?_⟩
    · unfold Posting.Allows
      rw [hq]
      trivial
    · apply (Coroutine.follows_coAwait _).mpr
      refine (follows_handleRequest rfl).mono ?_ ?_
      · rintro response _ ⟨howed, rfl⟩
        exact ⟨trivial, fun _ => ⟨trivial, fun _ => ⟨howed, .inr rfl, rfl⟩⟩⟩
      · rintro _ _ rfl
        exact ⟨trivial, fun _ => ⟨trivial, fun _ => .inr rfl⟩⟩

theorem serves_settled (hq : q.stage = .before) (ip sessionId : Str)
    {k : Option Str → ShardTask Reply} (hk : ∀ response, Owed srv o response →
      Serves srv o { q with stage := .recorded } (k response)) :
    Serves srv o q (do
      let response ← (dispatch srv.L (srv.dispatcher o.shard) (contentOf o.work) sessionId).coAwait
      transport (.recordOutcome ip (isError response))
      k response) := by
  refine (Coroutine.follows_bind _ _).mpr ((follows_dispatch hq sessionId).mono ?_ ?_)
  · rintro response ⟨stage, opened⟩ ⟨howed, hq', rfl⟩
    rw [Coroutine.follows_bind, follows_transport]
    refine ⟨fun _ => ?_, fun _ _ => hk response howed⟩
    unfold Posting.Allows
    rcases hq' with rfl | rfl <;> trivial
  · intro _ q' hq' reply hstatus hstream
    exact sends (allows_refusal hq' (.inl ⟨hstatus, hstream⟩))

theorem serves_post {n : ℕ} {ip key : Str} {handle : ShardTask Reply} (h : Serves srv o {} handle) :
    Serves srv o {} (do
      if !(← transport (.checkBodySize n)) then return securityReject .payloadTooLarge
      else
        let check ← transport (.checkRequest ip key)
        if check ≠ .ok then return securityReject check
        else handle) := by
  refine early_bind rfl (by trivial) (fun small => ?_)
  split
  · exact serves_rejection rfl nofun
  · refine early_bind rfl (by trivial) (fun check => ?_)
    split
    · rename_i hcheck
      exact serves_rejection rfl hcheck
    · exact h

theorem serves_named (hnamed : sessionOf o.work ≠ []) (ip : Str) :
    Serves srv o {} (do
      let response ←
        (dispatch srv.L (srv.dispatcher o.shard) (contentOf o.work) (sessionOf o.work)).coAwait
      transport (.recordOutcome ip (isError response))
      match response with
      | some text => pushResponse o.shard (shardOf o.work) (sessionOf o.work) text
      | none => pure ()
      return { status := 202 }) := by
  have replies : (Owed srv o none ∨ shardOf o.work ≠ o.shard) →
      Posting.Replies srv o { stage := .recorded } { status := 202 } := by
    intro h
    unfold Posting.Replies
    rw [if_neg hnamed]
    exact ⟨rfl, h⟩
  refine serves_settled rfl ip _ (fun response howed => ?_)
  cases response with
  | none => exact sends (replies (.inl howed))
  | some text =>
    unfold pushResponse
    dsimp only
    split
    · rename_i hhere
      exact ⟨fun _ => ⟨rfl, hnamed, howed⟩,
        fun _ _ => sends ⟨rfl, hnamed, hhere, text, rfl, howed⟩⟩
    · rename_i hthere
      exact ⟨⟨trivial, trivial, fun _ => ⟨rfl, hnamed, howed⟩, fun _ _ => trivial⟩,
        sends (replies (.inr hthere))⟩

theorem serves_direct (hnamed : sessionOf o.work = []) (ip sessionId : Str)
    {k : Option Str → ShardTask Reply}
    (hk : ∀ out, k out = return out.elim { status := 202 } (fun text => { body := text })) :
    Serves srv o {} (do
      let response ← (dispatch srv.L (srv.dispatcher o.shard) (contentOf o.work) sessionId).coAwait
      transport (.recordOutcome ip (isError response))
      k response) := by
  refine serves_settled rfl ip sessionId (fun out howed => ?_)
  rw [hk]
  apply sends
  change Posting.Replies srv o { stage := .recorded } _
  unfold Posting.Replies
  rw [if_pos hnamed]
  exact ⟨out, howed, rfl⟩

theorem serves_postNewSession (j : ℕ) (req : Request) (ip : Str) :
    Serves srv ⟨j, .postMcp req⟩ {}
      (StreamableHttpTransport.postNewSession srv.L (srv.dispatcher j) j ip req.content) := by
  refine early_bind rfl (by trivial) (fun counter => ?_)
  apply (Coroutine.follows_bind _ _).mpr
  refine ⟨fun _ => trivial, fun (session : Option ℕ) _ => ?_⟩
  cases session with
  | none => exact serves_rejection rfl nofun
  | some ref =>
    refine serves_settled (o := ⟨j, .postMcp req⟩) (q := { opened := some (_, ref) }) rfl ip _
      (fun response howed => ?_)
    cases response with
    | none => exact sends ⟨rfl, howed⟩
    | some text =>
      exact ⟨fun _ => ⟨⟨_, rfl⟩, howed⟩, fun _ _ => sends ⟨rfl, text, rfl, howed⟩⟩

theorem serves_handleMessage (j : ℕ) (req : Request) : Serves srv ⟨j, .postMessage req⟩ {}
    (HttpSseTransport.handleMessage srv.L (srv.dispatcher j) j req) := by
  apply serves_post
  by_cases hnamed : req.query "sessionId".toList = []
  · refine serves_direct (o := ⟨j, .postMessage req⟩) hnamed _ _ (fun out => ?_)
    rw [if_pos (List.isEmpty_iff.mpr hnamed)]
    cases out <;> rfl
  · have hnot : ¬(req.query "sessionId".toList).isEmpty := mt List.isEmpty_iff.mp hnamed
    simp only [if_neg hnot]
    exact serves_named (o := ⟨j, .postMessage req⟩) hnamed _

theorem serves_handlePost (j : ℕ) (req : Request) : Serves srv ⟨j, .postMcp req⟩ {}
    (StreamableHttpTransport.handlePost srv.L (srv.dispatcher j) j req) := by
  apply serves_post
  dsimp only
  by_cases hnamed : req.header "mcp-session-id".toList = []
  · rw [if_neg (by rw [List.isEmpty_iff.mpr hnamed]; decide)]
    split
    · exact serves_postNewSession j req _
    · exact serves_direct (o := ⟨j, .postMcp req⟩) hnamed _ _ (fun out => by cases out <;> rfl)
  · rw [if_pos (by rw [Bool.not_eq_true', List.isEmpty_eq_false_iff]; exact hnamed)]
    exact serves_named (o := ⟨j, .postMcp req⟩) hnamed _

theorem free_posting (h : ¬IsPost o.work) : (posting srv o).Free where
  allows _ _ hpost := absurd hpost h
  rests _ := trivial
  addresses _ := trivial

/-- The programs of the server hand over their answers so. -/
theorem keeps_posting (srv : McpServer) :
    Keeps srv.system (posting srv) (fun _ => True)
      (fun o _ q => IsPost o.work → q.stage = .done) where
  answers _ _ _ _ _ := trivial
  program o _ := by
    obtain ⟨j, work⟩ := o
    have stops : ∀ {handler : ShardTask Reply}, Serves srv ⟨j, work⟩ {} handler →
        (serve handler).Follows (posting srv ⟨j, work⟩) {}
          (fun x q => x.elim True (fun _ => IsPost work → q.stage = .done)) (fun _ _ => True) := by
      intro handler hserves
      refine (follows_serve (E := fun _ _ => True) hserves).mono ?_ (fun _ _ h => h)
      rintro x q (rfl | hdone)
      · trivial
      · cases x with
        | none => trivial
        | some w => exact fun _ => hdone
    by_cases hpost : IsPost work
    · cases work with
      | postMessage req => exact stops (serves_handleMessage j req)
      | postMcp req => exact stops (serves_handlePost j req)
      | _ => exact hpost.elim
    · refine (Coroutine.Follows.of_free (free_posting hpost) _ _).mono ?_ (fun _ _ h => h)
      intro x q _
      cases x with
      | none => trivial
      | some w => exact fun h => absurd h hpost
  again o w q hq := by
    by_cases hpost : IsPost o.work
    · have hidle : (posting srv o).Idle WriterCall (·.stage = .done) :=
        { allows := fun q op hq hop _ => by
            unfold Posting.Allows
            rw [hq]
            exact hop
          next := fun q op r hq hop => by
            rcases op with op | op
            · exact hop.elim
            · cases op <;> first | rfl | exact hop.elim
          rests := fun _ _ => trivial
          child := fun q hq => by simp [posting, Posting.child, hq] }
      refine (Coroutine.Follows.of_calling hidle (fun _ _ => trivial) (hq hpost)
        (calls_runWriter (T := fun _ => True) w)).mono ?_ (fun _ _ _ => trivial)
      rintro x q' ⟨-, rfl⟩
      cases x with
      | none => trivial
      | some w => exact hq
    · refine (Coroutine.Follows.of_free (free_posting hpost) _ _).mono ?_ (fun _ _ h => h)
      intro x q _
      cases x with
      | none => trivial
      | some w => exact fun h => absurd h hpost

end Programs

section Histories
variable {srv : McpServer} {o : Origin srv.Job} {past : List (Mark ShardI)}

/-- What the stage of a POST says of its history. -/
def Stage.Tells (past : List (Mark ShardI)) : Stage → Prop
  | .before => .started ∉ past ∧ ¬Recorded past ∧ ¬Responded past
  | .handling => .started ∉ past ∧ Entered past ∧ ¬Recorded past ∧ ¬Responded past
  | .apart => Entered past ∧ ¬Recorded past
  | .recorded => .started ∉ past ∧ JustRecorded past ∧ ¬Responded past
  | .pushed op => .started ∉ past ∧ Lastly past op ∧ ¬Responded past
  | .message => JustRecorded past
  | .done => True

def Knows (past : List (Mark ShardI)) : Option (Str × ℕ) → Prop
  | some (id, ref) => Opened past id ref
  | none => .started ∉ past → ∀ id ref, ¬Opened past id ref

theorem recorded_of_just (h : JustRecorded past) : Recorded past := by
  induction past with
  | nil => exact h
  | cons mark past ih =>
    cases mark with
    | started => exact ih h
    | did op r =>
      rcases op with op | op
      · exact h.elim
      · cases op <;> trivial

theorem Recorded.cons (h : Recorded past) (mark : Mark ShardI) : Recorded (mark :: past) := by
  cases mark with
  | started => exact h
  | did op r =>
    rcases op with op | op
    · exact h
    · cases op <;> first | exact h | trivial

theorem recorded_of_lastly {op : ShardI.Op} (h : Lastly past op) : Recorded past := by
  obtain ⟨r, rest, rfl, hjust⟩ := h
  exact (recorded_of_just hjust).cons _

theorem op_of_just {op : ShardI.Op} {r : ShardI.Res op}
    (h : JustRecorded (.did op r :: past)) :
    (∃ ip failed, op = .inr (.recordOutcome ip failed)) ∧ ¬Recorded past := by
  rcases op with op | op
  · exact h.elim
  · cases op with
    | recordOutcome ip failed => exact ⟨⟨ip, failed, rfl⟩, h⟩
    | _ => exact h.elim

theorem exists_record (h : JustRecorded past) (hown : .started ∉ past) :
    ∃ ip failed r rest, past = .did (.inr (.recordOutcome ip failed)) r :: rest := by
  cases past with
  | nil => exact h.elim
  | cons mark past =>
    cases mark with
    | started => exact absurd (.head _) hown
    | did op r =>
      obtain ⟨⟨ip, failed, rfl⟩, -⟩ := op_of_just h
      exact ⟨ip, failed, r, past, rfl⟩

theorem own_cons {op : ShardI.Op} {r : ShardI.Res op} (h : .started ∉ past) :
    .started ∉ (.did op r :: past : List (Mark ShardI)) :=
  fun hmem => h ((List.mem_cons.mp hmem).resolve_left nofun)

theorem Entered.cons (h : Entered past) (mark : Mark ShardI) : Entered (mark :: past) := by
  obtain ⟨sessionId, token, hmem⟩ := h
  exact ⟨sessionId, token, .tail _ hmem⟩

theorem Opened.cons {id : Str} {ref : ℕ} (h : Opened past id ref) (mark : Mark ShardI) :
    Opened (mark :: past) id ref := by
  obtain ⟨ip, hmem⟩ := h
  exact ⟨ip, .tail _ hmem⟩

theorem Knows.same {opened : Option (Str × ℕ)} (h : Knows past opened) {op : ShardI.Op}
    {r : ShardI.Res op}
    (hop : ∀ id ip ref, .did (.inr (.createSessionWithId id ip)) (some ref) ≠
      (.did op r : Mark ShardI)) : Knows (.did op r :: past) opened := by
  cases opened with
  | some session => exact Opened.cons h _
  | none =>
    rintro hown id ref ⟨ip, hmem⟩
    rcases List.mem_cons.mp hmem with heq | hmem
    · exact hop _ _ _ heq
    · exact h (fun hstarted => hown (.tail _ hstarted)) id ref ⟨ip, hmem⟩

theorem Knows.next {q : Posting} (h : Knows past q.opened) (op : ShardI.Op) (r : ShardI.Res op) :
    Knows (.did op r :: past) (q.next op r).opened := by
  rcases op with op | op
  · cases op with
    | pushToSession id text =>
      have hsame : (q.next (.inl (.pushToSession id text)) r).opened = q.opened := by
        unfold Posting.next
        dsimp only
        split <;> rfl
      rw [hsame]
      exact h.same nofun
    | _ => exact h.same nofun
  · cases op with
    | createSessionWithId id ip =>
      cases hr : (r : Option ℕ) with
      | some ref => exact ⟨ip, .head _⟩
      | none =>
        refine h.same (fun id' ip' ref heq => ?_)
        cases heq
    | _ => exact h.same nofun

theorem Stage.Tells.child {q : Posting} (h : q.stage.Tells past) :
    q.child.stage.Tells (.started :: past) := by
  unfold Posting.child
  split <;> rename_i hq
  · rw [hq] at h
    exact ⟨h.2.1.cons _, h.2.2.1⟩
  · rw [hq] at h
    exact ⟨h.1.cons _, h.2⟩
  · rw [hq] at h
    exact h.2.1
  · trivial

theorem Stage.Tells.next {q : Posting} (h : q.stage.Tells past) {op : ShardI.Op}
    (hallows : q.Allows srv o op) (r : ShardI.Res op) :
    (q.next op r).stage.Tells (.did op r :: past) := by
  obtain ⟨stage, opened⟩ := q
  cases stage with
  | before =>
    obtain ⟨hown, hrecorded, hresponded⟩ := h
    rcases op with op | op
    · exact hallows.elim
    · cases op with
      | createSessionWithId id ip =>
        cases hr : (r : Option ℕ) <;> exact ⟨own_cons hown, hrecorded, hresponded⟩
      | setContext sessionId token =>
        exact ⟨own_cons hown, ⟨sessionId, token, .head _⟩, hrecorded, hresponded⟩
      | respond reply => trivial
      | pushEventually ref text => exact hallows.elim
      | _ => exact ⟨own_cons hown, hrecorded, hresponded⟩
  | handling =>
    obtain ⟨hown, hentered, hrecorded, hresponded⟩ := h
    rcases op with op | op
    · cases op <;> exact ⟨own_cons hown, hentered.cons _, hrecorded, hresponded⟩
    · cases op with
      | recordOutcome ip failed => exact ⟨own_cons hown, hrecorded, hresponded⟩
      | respond reply => trivial
      | _ => exact hallows.elim
  | apart =>
    rcases op with op | op
    · cases op <;> exact ⟨h.1.cons _, h.2⟩
    · exact hallows.elim
  | recorded =>
    obtain ⟨hown, hjust, hresponded⟩ := h
    have hpushed : ∀ {op : ShardI.Op} {r : ShardI.Res op}, ¬Responded (.did op r :: past) →
        Stage.Tells (.did op r :: past) (.pushed op) :=
      fun hnot => ⟨own_cons hown, ⟨_, _, rfl, hjust⟩, hnot⟩
    rcases op with op | op <;>
      cases op <;> first | exact hallows.elim | exact hpushed hresponded | trivial
  | pushed last =>
    rcases op with op | op <;> cases op <;> first | exact hallows.elim | trivial
  | message =>
    rcases op with op | op <;> cases op <;> first | exact hallows.elim | trivial
  | done => rcases op with op | op <;> cases op <;> first | exact hallows.elim | trivial

theorem tells_of_lawful (hpost : IsPost o.work) (h : Lawful (posting srv o) past) :
    Knows past (phase (posting srv o) past).opened ∧
      (phase (posting srv o) past).stage.Tells past := by
  induction past with
  | nil => exact ⟨fun _ id ref => nofun, List.not_mem_nil, nofun, nofun⟩
  | cons mark past ih =>
    cases mark with
    | started =>
      refine ⟨?_, (ih h).2.child⟩
      have hnone : (phase (posting srv o) past).child.opened = none := by
        unfold Posting.child
        split <;> rfl
      change Knows _ (phase (posting srv o) past).child.opened
      rw [hnone]
      exact fun hown => absurd (.head _) hown
    | did op r =>
      obtain ⟨⟨hallows, -⟩, hpast⟩ := h
      obtain ⟨hopened, hstage⟩ := ih hpast
      exact ⟨hopened.next op r, hstage.next (hallows hpost) r⟩

variable {e : Event ShardI (Origin srv.Job) McpShard} {c : srv.State}

theorem push_of_hands {call : HandlerCall} (h : Posting.Hands srv o (.inl call)) :
    ∃ text, call = .pushToSession (sessionOf o.work) text ∧ sessionOf o.work ≠ [] ∧
      Owed srv o (some text) := by
  cases call with
  | pushToSession id text =>
    obtain ⟨rfl, hnamed, howed⟩ := h
    exact ⟨text, rfl, hnamed, howed⟩
  | _ => exact h.elim

theorem reaches_of_replies {q : Posting} {reply : Reply} (hown : .started ∉ e.past)
    (hknows : Knows e.past q.opened) (hjust : JustRecorded e.past)
    (hsent : Crosses e.origin e.past → Sent (Owed srv) c e.origin e.past)
    (h : q.Replies srv e.origin reply) :
    ∃ out, Owed srv e.origin out ∧ Reaches srv c e out reply := by
  unfold Posting.Replies at h
  cases hq : q.opened with
  | some session =>
    rw [hq] at h hknows
    exact ⟨none, h.2, .queue hknows h.1 hjust⟩
  | none =>
    rw [hq] at h hknows
    dsimp only at h
    have hopened := hknows hown
    split at h
    · rename_i hnamed
      obtain ⟨out, howed, rfl⟩ := h
      exact ⟨out, howed, .body hopened hnamed hjust⟩
    · rename_i hnamed
      obtain ⟨rfl, howed⟩ := h
      by_cases hhere : shardOf e.origin.work = e.origin.shard
      · exact ⟨none, howed.resolve_right (not_not.mpr hhere), .session hopened hnamed hhere hjust⟩
      · have hcrosses : Crosses e.origin e.past :=
          ⟨hnamed, hhere, hown, exists_record hjust hown⟩
        rcases hsent hcrosses with hnone | ⟨text, howed, hmakes⟩
        · exact ⟨none, hnone, .message hopened hnamed hhere hjust nofun⟩
        · refine ⟨some text, howed, .message hopened hnamed hhere hjust ?_⟩
          rintro _ ⟨⟩
          exact hmakes

theorem reaches_of_repliesTo {q : Posting} {op : ShardI.Op} {reply : Reply}
    (hown : .started ∉ e.past) (hknows : Knows e.past q.opened) (hlastly : Lastly e.past op)
    (h : q.RepliesTo srv e.origin op reply) :
    ∃ out, Owed srv e.origin out ∧ Reaches srv c e out reply := by
  unfold Posting.RepliesTo at h
  cases hq : q.opened with
  | some session =>
    rw [hq] at h hknows
    obtain ⟨hstream, text, rfl, howed⟩ := h
    exact ⟨some text, howed, .queue hknows hstream hlastly⟩
  | none =>
    rw [hq] at h hknows
    obtain ⟨rfl, hnamed, hhere, text, rfl, howed⟩ := h
    exact ⟨some text, howed, .session (hknows hown) hnamed hhere hlastly⟩

/-- What keeps to the contract is as it should be, if the messages have been sent. -/
theorem proper_of_lawful (hpost : IsPost e.origin.work)
    (h : Lawful (posting srv e.origin) e.history)
    (hsent : Crosses e.origin e.past → Sent (Owed srv) c e.origin e.past) : Proper srv c e := by
  obtain ⟨hknows, hstage⟩ := tells_of_lawful hpost h.2
  have hallows : (phase (posting srv e.origin) e.past).Allows srv e.origin e.op := h.1.1 hpost
  unfold Posting.Allows at hallows
  constructor
  · intro call hop hnot
    rw [hop] at hallows
    cases hq : (phase (posting srv e.origin) e.past).stage <;> rw [hq] at hallows hstage
    case handling => exact ⟨hstage.2.1, hallows⟩
    case apart => exact ⟨hstage.1, hallows⟩
    case recorded => exact absurd (recorded_of_just hstage.2.1) hnot
    case message => exact absurd (recorded_of_just hstage) hnot
    all_goals exact hallows.elim
  · intro call hop hrecorded
    rw [hop] at hallows
    cases hq : (phase (posting srv e.origin) e.past).stage <;> rw [hq] at hallows hstage
    case handling => exact absurd hrecorded hstage.2.2.1
    case apart => exact absurd hrecorded hstage.2
    case recorded =>
      obtain ⟨text, hcall, hnamed, howed⟩ := push_of_hands hallows
      exact ⟨text, hcall, hstage.2.1, hnamed, howed⟩
    case message =>
      obtain ⟨text, hcall, hnamed, howed⟩ := push_of_hands hallows
      exact ⟨text, hcall, hstage, hnamed, howed⟩
    all_goals exact hallows.elim
  · intro ref text hop
    rw [hop] at hallows
    cases hq : (phase (posting srv e.origin) e.past).stage <;> rw [hq] at hallows hstage
    case recorded =>
      obtain ⟨⟨id, hid⟩, howed⟩ := hallows
      rw [hid] at hknows
      exact ⟨hstage.2.1, ⟨id, hknows⟩, howed⟩
    all_goals exact hallows.elim
  · intro reply hop
    rw [hop] at hallows
    cases hq : (phase (posting srv e.origin) e.past).stage <;> rw [hq] at hallows hstage
    case before => exact ⟨hstage.1, hstage.2.2⟩
    case handling => exact ⟨hstage.1, hstage.2.2.2⟩
    case recorded => exact ⟨hstage.1, hstage.2.2⟩
    case pushed => exact ⟨hstage.1, hstage.2.2⟩
    all_goals exact hallows.elim
  · intro reply hop hnot
    rw [hop] at hallows
    cases hq : (phase (posting srv e.origin) e.past).stage <;> rw [hq] at hallows hstage
    case before => exact hallows
    case handling => exact hallows
    case recorded => exact absurd (recorded_of_just hstage.2.1) hnot
    case pushed => exact absurd (recorded_of_lastly hstage.2.1) hnot
    all_goals exact hallows.elim
  · intro reply hop hrecorded
    rw [hop] at hallows
    cases hq : (phase (posting srv e.origin) e.past).stage <;> rw [hq] at hallows hstage
    case before => exact absurd hrecorded hstage.2.1
    case handling => exact absurd hrecorded hstage.2.2.1
    case recorded => exact reaches_of_replies hstage.1 hknows hstage.2.1 hsent hallows
    case pushed => exact reaches_of_repliesTo hstage.1 hknows hstage.2.1 hallows
    all_goals exact hallows.elim

end Histories

theorem returns_owed (srv : McpServer) : Returns srv (Owed srv) :=
  fun o _ => (yields_dispatch (contentOf o.work) (sessionOf o.work)).coAwait

/-- In every run of the server what is done for a POST is as it should be. -/
theorem proper_of_mem {srv : McpServer} {steps : List (Label Input (Origin srv.Job))}
    {c : srv.State} (h : srv.Reaches steps c) {e : Event ShardI (Origin srv.Job) McpShard}
    (he : e ∈ c.log) (hpost : IsPost e.origin.work) : Proper srv c e := by
  have hlawful := (onTrack_of_run (keeps_posting srv) (fun l _ => l.launches_true) h).2
  exact proper_of_lawful hpost (hlawful e he) ((handed_of_run (returns_owed srv) h).log e he)

end McpSdk.PostAnswers

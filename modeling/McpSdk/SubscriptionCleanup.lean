import McpSdk.ResourceUpdates
import McpSdk.SessionIds
import McpSdk.TaskCourses

/-!
# The cleanup of subscriptions

The subscriptions of a session are erased by the writer of the stream that opened it, on the shard
of that stream and before its request ends. So nothing is left behind if sessions subscribe only
on a shard where the request that has opened them is under way, and the request of a subscribed
session does get its stream. Otherwise an entry may outlive its session.
-/

namespace McpSdk.SubscriptionCleanup
open CppStandardLibrary CooperativeTasks ClusterRuns ResourceUpdates SessionIds

/-- Where a request stands with the session it opens: before or after all, with the session open,
with its reply made, or with its stream running. -/
inductive Tenure
  | outside
  | opened (id : Str)
  | replied (id : Str)
  | streaming (id : Str)

namespace Tenure

def session : Tenure → Option Str
  | .outside => none
  | .opened id | .replied id | .streaming id => some id

/-- Where a request may end: its session has been cleaned up, or its reply has come to nothing. -/
def Ends : Tenure → Prop
  | .outside | .replied _ => True
  | .opened _ | .streaming _ => False

def Streams (s : Stream) : Tenure → Prop
  | .outside => s.kind = .reconnect
  | .opened _ => False
  | .replied id | .streaming id => s.kind ≠ .reconnect ∧ s.sessionId = id

def running (s : Stream) : Tenure :=
  if s.kind = .reconnect then .outside else .streaming s.sessionId

def next : Tenure → (op : ShardI.Op) → ShardI.Res op → Tenure
  | .replied id, _, _ => .streaming id
  | .opened id, .inr (.respond _), _ => .replied id
  | q, .inr (.createSession _), (id : Str) => if id.isEmpty then q else .opened id
  | _, .inr (.createSessionWithId id _), _ => .opened id
  | _, .inr (.cleanupSubscriptions _), _ => .outside
  | q, _, _ => q

end Tenure

/-- A request opens one session at a time and cleans up for it. -/
def tenure : Contract ShardI Tenure where
  init := .outside
  allows
    | q, .inr (.createSession _) | q, .inr (.createSessionWithId _ _) => q = .outside
    | q, .inr (.cleanupSubscriptions id) => q = .streaming id
    | q, .inr (.respond _) => q.Ends ∨ ∃ id, q = .opened id
    | _, _ => True
  answers _ _ := True
  next := Tenure.next
  child _ := .outside
  rests _ := True
  addresses _ := True

namespace Tenure

def Steady (q : Tenure) : Prop := ∀ id, q ≠ .replied id

def Neutral : ShardI.Op → Prop
  | .inr (.createSession _) | .inr (.createSessionWithId _ _) | .inr (.cleanupSubscriptions _)
  | .inr (.respond _) => False
  | _ => True

theorem allows_neutral (q : Tenure) {op : ShardI.Op} (hop : Neutral op) : tenure.allows q op := by
  rcases op with op | op
  · trivial
  · cases op <;> trivial

theorem idle_neutral : tenure.Idle Neutral Steady where
  allows q _ _ hop := allows_neutral q hop
  next q op r hq hop := by
    cases q with
    | replied id => exact absurd rfl (hq id)
    | _ =>
      rcases op with op | op
      · rfl
      · cases op <;> first | rfl | exact hop.elim
  rests _ _ := trivial
  child _ _ := nofun

theorem neutral_of_postCall {op : ShardI.Op} (h : PostCall op) : Neutral op := by
  rcases op with op | op
  · trivial
  · cases op <;> trivial

theorem neutral_of_closingCall {op : ShardI.Op} (h : ClosingCall op) : Neutral op := by
  rcases op with op | op
  · trivial
  · cases op <;> trivial

theorem neutral_of_turnCall {op : ShardI.Op} (h : TurnCall op) : Neutral op := by
  rcases op with op | op
  · trivial
  · cases op <;> trivial

theorem steady_outside : Steady .outside := nofun

theorem steady_opened (id : Str) : Steady (.opened id) := nofun

theorem steady_running (s : Stream) : Steady (running s) := by
  unfold running
  split <;> exact nofun

theorem follows_of_yields {α : Type} {t : ShardTask α} {A : ShardI.Op → Prop} {R : α → Prop}
    (h : t.Yields A (fun _ => True) R) (hA : ∀ op, A op → Neutral op) {q : Tenure}
    (hq : q.Steady) : t.Follows tenure q (fun a q' => R a ∧ q' = q) (fun _ q' => q' = q) :=
  (Coroutine.Follows.of_calling (idle_neutral.mono hA) (fun _ _ => trivial) hq h).mono
    (fun _ _ h => h) (fun _ _ h => h.2)

theorem neutral_bind {α : Type} {op : TransportCall} (hop : Neutral (.inr op)) {q : Tenure}
    (hq : q.Steady) {k : op.Res → ShardTask α} {Q : α → Tenure → Prop}
    {E : Exception → Tenure → Prop} (hk : ∀ r, (k r).Follows tenure q Q E) :
    (transport op >>= k).Follows tenure q Q E :=
  idle_neutral.perform_bind (I := ShardI) hq hop hk

theorem createSession_bind {α : Type} {clientIp : Str} {k : Str → ShardTask α}
    {Q : α → Tenure → Prop} {E : Exception → Tenure → Prop}
    (hnone : ∀ id, id.isEmpty → (k id).Follows tenure .outside Q E)
    (hsome : ∀ id, ¬id.isEmpty → (k id).Follows tenure (.opened id) Q E) :
    (transport (.createSession clientIp) >>= k).Follows tenure .outside Q E := by
  rw [Coroutine.follows_bind, follows_transport]
  refine ⟨rfl, fun (id : Str) _ => ?_⟩
  have hnext : tenure.next .outside (.inr (.createSession clientIp)) id =
    if id.isEmpty then .outside else .opened id := rfl
  rw [hnext]
  split
  · exact hnone id ‹_›
  · exact hsome id ‹_›

end Tenure

section Programs
open Tenure

def Stops (w : Option WriterState) (q : Tenure) : Prop :=
  w.elim q.Ends (fun w => q.Streams w.stream)

theorem sends_outside {reply : Reply} (h : ∀ s, reply.stream = some s → s.kind = .reconnect) :
    Sends tenure Stops reply .outside where
  allows := .inl trivial
  rests := trivial
  streams := by
    cases hstream : reply.stream with
    | none => trivial
    | some s =>
      have hkind := h s hstream
      simpa [Stops, Streams, tenure, Tenure.next] using hkind
  fails := trivial

theorem sends_opened {id : Str} {reply : Reply}
    (h : ∀ s, reply.stream = some s → s.kind ≠ .reconnect ∧ s.sessionId = id) :
    Sends tenure Stops reply (.opened id) where
  allows := .inr ⟨id, rfl⟩
  rests := trivial
  streams := by
    cases hstream : reply.stream with
    | none => trivial
    | some s =>
      have hkind := h s hstream
      simpa [Stops, Streams, tenure, Tenure.next] using hkind
  fails := trivial

theorem sends_outside_of_none {reply : Reply} (h : reply.stream = none) :
    Sends tenure Stops reply .outside :=
  sends_outside (by simp [h])

theorem sends_opened_of_none {id : Str} {reply : Reply} (h : reply.stream = none) :
    Sends tenure Stops reply (.opened id) :=
  sends_opened (by simp [h])

def Replies (handler : ShardTask Reply) : Prop :=
  handler.Follows tenure .outside (fun reply q => Sends tenure Stops reply q)
    (fun _ q => ∀ reply : Reply, reply.status = 500 → reply.stream = none →
      Sends tenure Stops reply q)

theorem replies_of_yields {handler : ShardTask Reply} {A : ShardI.Op → Prop}
    (h : handler.Yields A (fun _ => True) (·.stream = none)) (hA : ∀ op, A op → Neutral op) :
    Replies handler := by
  refine (follows_of_yields h hA steady_outside).mono ?_ ?_
  · rintro reply _ ⟨hstream, rfl⟩
    exact sends_outside_of_none hstream
  · rintro _ _ rfl reply _ hstream
    exact sends_outside_of_none hstream

theorem replies_handleSse (req : Request) : Replies (HttpSseTransport.handleSse req) := by
  refine neutral_bind (by trivial) steady_outside (fun check => ?_)
  split
  · exact sends_outside_of_none (stream_securityReject check)
  · refine createSession_bind (fun id hempty => ?_) (fun id hempty => ?_)
    · rw [if_pos hempty]
      exact sends_outside_of_none (stream_securityReject _)
    · rw [if_neg hempty]
      refine neutral_bind (by trivial) (steady_opened id) (fun session => ?_)
      split
      · refine sends_opened (fun s hs => ?_)
        obtain rfl := Option.some.inj hs
        exact ⟨nofun, rfl⟩
      · exact fun reply _ hstream => sends_opened_of_none hstream

theorem replies_handleGet (req : Request) : Replies (StreamableHttpTransport.handleGet req) := by
  refine neutral_bind (by trivial) steady_outside (fun check => ?_)
  split
  · exact sends_outside_of_none (stream_securityReject check)
  · dsimp only
    split
    · exact sends_outside_of_none rfl
    · refine neutral_bind (by trivial) steady_outside (fun session => ?_)
      split
      · exact sends_outside_of_none rfl
      · refine sends_outside (fun s hs => ?_)
        obtain rfl := Option.some.inj hs
        rfl

variable (L : JsonLibrary) (d : JsonRpcDispatcher HandlerI) (j : ℕ)

theorem replies_postNewSession (clientIp body : Str) :
    Replies (StreamableHttpTransport.postNewSession L d j clientIp body) := by
  refine neutral_bind (by trivial) steady_outside (fun counter => ?_)
  dsimp only
  generalize "sm".toList ++ toStr j ++ "_".toList ++ toStr counter = sessionId
  rw [Coroutine.follows_bind, follows_transport]
  refine ⟨rfl, fun session _ => ?_⟩
  have hnext : tenure.next .outside (.inr (.createSessionWithId sessionId clientIp)) session =
    .opened sessionId := rfl
  rw [hnext]
  split
  · exact sends_opened_of_none (stream_securityReject _)
  · rename_i session _
    have hcalls := (calls_dispatch L d (fun _ => trivial) body sessionId).coAwait
    have hdispatch := follows_of_yields hcalls (fun _ h => neutral_of_postCall h.postCall)
      (steady_opened sessionId)
    refine (Coroutine.follows_bind _ _).mpr (hdispatch.mono ?_ ?_)
    · rintro response _ ⟨-, rfl⟩
      refine neutral_bind (by trivial) (steady_opened sessionId) (fun _ => ?_)
      have hreply : ∀ headers, Sends tenure Stops
          { headers := headers, stream := some ⟨.post, sessionId, session⟩ }
          (.opened sessionId) := by
        refine fun headers => sends_opened (fun s hs => ?_)
        obtain rfl := Option.some.inj hs
        exact ⟨nofun, rfl⟩
      split
      · exact neutral_bind (by trivial) (steady_opened sessionId) (fun _ => hreply _)
      · exact hreply _
    · rintro _ _ rfl reply _ hstream
      exact sends_opened_of_none hstream

theorem replies_handlePost (req : Request) :
    Replies (StreamableHttpTransport.handlePost L d j req) := by
  refine neutral_bind (by trivial) steady_outside (fun small => ?_)
  split
  · exact sends_outside_of_none (stream_securityReject _)
  · refine neutral_bind (by trivial) steady_outside (fun check => ?_)
    split
    · exact sends_outside_of_none (stream_securityReject check)
    · dsimp only
      split
      · exact replies_of_yields (yields_postSession L d (fun _ => trivial) j _ _ _)
          (fun _ h => neutral_of_postCall h)
      · split
        · exact replies_postNewSession L d j _ _
        · exact replies_of_yields (yields_postDirect L d (fun _ => trivial) _ _)
            (fun _ h => neutral_of_postCall h)

theorem follows_part {s : Stream} {t : ShardTask Bool} (ht : t.Calls TurnCall (fun _ => True))
    {op : ShardI.Op} {k : ShardI.Res op → ShardTask Bool} (hcall : t = .call op k) {q : Tenure}
    (hq : q.Streams s) :
    t.Follows tenure q (fun _ q' => q' = running s) (fun _ q' => q' = running s) := by
  subst hcall
  have hop := neutral_of_turnCall ht.1
  have hrest : ∀ r, (k r).Follows tenure (running s) (fun _ q' => q' = running s)
      (fun _ q' => q' = running s) := fun r =>
    (follows_of_yields (ht.2 r trivial) (fun _ h => neutral_of_turnCall h)
      (steady_running s)).mono (fun _ _ h => h.2) (fun _ _ h => h)
  cases q with
  | outside =>
    have hrunning : running s = .outside := if_pos hq
    rw [hrunning] at hrest ⊢
    refine ⟨allows_neutral _ hop, fun r _ => ?_⟩
    rw [idle_neutral.next _ op r steady_outside hop]
    exact hrest r
  | opened id => exact hq.elim
  | replied id =>
    have hrunning : running s = .streaming id := by
      rw [running, if_neg hq.1, hq.2]
    rw [hrunning] at hrest ⊢
    exact ⟨allows_neutral _ hop, fun r _ => hrest r⟩
  | streaming id =>
    have hrunning : running s = .streaming id := by
      rw [running, if_neg hq.1, hq.2]
    rw [hrunning] at hrest ⊢
    refine ⟨allows_neutral _ hop, fun r _ => ?_⟩
    rw [idle_neutral.next (.streaming id) op r nofun hop]
    exact hrest r

theorem follows_closeStream (s : Stream) : (closeStream s).Follows tenure (running s)
    (fun _ q => q.Ends) (fun _ q => q.Ends) := by
  unfold closeStream running
  by_cases hkind : s.kind = .reconnect
  · rw [if_neg (not_not.mpr hkind), if_pos hkind]
    exact ⟨trivial, fun _ _ => ⟨trivial, fun _ => trivial⟩⟩
  · rw [if_pos hkind, if_neg hkind]
    exact ⟨rfl, fun _ _ => ⟨trivial, fun _ _ => ⟨trivial, fun _ => trivial⟩⟩⟩

theorem streams_running (s : Stream) : (running s).Streams s := by
  unfold running
  split
  · rename_i hkind
    exact hkind
  · rename_i hkind
    exact ⟨hkind, rfl⟩

theorem follows_guarded_running {s : Stream} {t : ShardTask Bool} {q : Tenure}
    (ht : t.Follows tenure q (fun _ q' => q' = running s) (fun _ q' => q' = running s)) :
    (guarded s t).Follows tenure q Stops (fun _ q' => q'.Ends) :=
  follows_guarded ht (allows_neutral _ (by trivial))
    (idle_neutral.next _ _ _ (steady_running s) (by trivial)) (streams_running s)
    (follows_closeStream s)

theorem follows_runWriter (w : WriterState) {q : Tenure} (hq : q.Streams w.stream) :
    (runWriter w).Follows tenure q Stops (fun _ q' => q'.Ends) := by
  cases w with
  | opening s =>
    exact follows_guarded_running
      (follows_part ((calls_writeOut trivial).bind (fun _ => .pure _)) rfl hq)
  | looping s => exact follows_guarded_running (follows_part (calls_writerTurn s) rfl hq)

theorem follows_program (srv : McpServer) (j : ℕ) (work : Work srv.Job) :
    (srv.program j work).Follows tenure .outside Stops (fun _ q => q.Ends) := by
  have hpost : ∀ op, PostCall op → Neutral op := fun _ h => neutral_of_postCall h
  cases work with
  | getSse req => exact follows_serve (replies_handleSse req)
  | postMessage req =>
    exact follows_serve (replies_of_yields
      (yields_handleMessage srv.L (srv.dispatcher j) (fun _ => trivial) j req) hpost)
  | postMcp req => exact follows_serve (replies_handlePost srv.L (srv.dispatcher j) j req)
  | getMcp req => exact follows_serve (replies_handleGet req)
  | deleteMcp req =>
    exact follows_serve (replies_of_yields (yields_handleDelete trivial)
      (fun _ h => neutral_of_closingCall h))
  | job x =>
    have hcalls : (srv.job j x).inl.Calls (fun op => PostCall op) (fun _ => True) :=
      Coroutine.Calls.inl (Coroutine.Addresses.of_all (fun _ => trivial) _)
    refine (Coroutine.follows_bind _ _).mpr
      ((follows_of_yields hcalls hpost steady_outside).mono ?_ ?_)
    · rintro _ _ ⟨-, rfl⟩
      trivial
    · rintro _ _ rfl
      trivial

end Programs
section Courses
open Tenure

def AfterReply (op : ShardI.Op) (_ : ShardI.Res op) (t : ShardTask (Option WriterState)) : Prop :=
  ∀ reply, op = .inr (.respond reply) → t = .await reply.sent

def AtReply (reply : Reply) (t : ShardTask (Option WriterState)) : Prop :=
  t = .await reply.sent ∨ (∃ x, t = .ret x) ∨ ∃ w, t = runWriter w

theorem beforeReply_afterReply {op : ShardI.Op} (h : BeforeReply op) (r : ShardI.Res op)
    (t : ShardTask (Option WriterState)) : AfterReply op r t := by
  rintro reply rfl
  exact h.elim

theorem then_program (srv : McpServer) (j : ℕ) (work : Work srv.Job) :
    (srv.program j work).Then AfterReply := by
  rcases srv.program_cases j work with ⟨handler, hprogram, hcalls⟩ | ⟨x, hprogram⟩ <;> rw [hprogram]
  · refine Coroutine.Then.andThen (R := fun op _ _ => BeforeReply op)
      ((hcalls.tryCatch (fun _ => .pure _)).allThen (fun _ _ _ h => h))
      (fun _ r _ h => beforeReply_afterReply h r _) (fun reply _ => ⟨?_, fun v => ?_⟩)
      (fun _ => trivial)
    · rintro _ ⟨⟩
      rfl
    · cases v <;> trivial
  · have hcalls : (srv.job j x).inl.Calls BeforeReply (fun _ => True) :=
      Coroutine.Calls.inl (Coroutine.Addresses.of_all (fun _ => trivial) _)
    exact Coroutine.Then.andThen (R := fun op _ _ => BeforeReply op)
      (hcalls.allThen (fun _ _ _ h => h)) (fun _ r _ h => beforeReply_afterReply h r _)
      (fun _ => trivial) (fun _ => trivial)

theorem then_runWriter (w : WriterState) : (runWriter w).Then AfterReply := by
  refine (calls_runWriter (T := fun _ => True) w).allThen ?_
  rintro _ _ _ h reply rfl
  exact h.elim

structure Course (past : List (Mark ShardI)) (t : ShardTask (Option WriterState)) : Prop where
  follows : t.Follows tenure (phase tenure past) Stops (fun _ q => q.Ends)
  replies : t.Then AfterReply
  atReply : ∀ reply r rest, past = .did (.inr (.respond reply)) r :: rest → AtReply reply t

variable {srv : McpServer} {o : Origin srv.Job} {past marks : List (Mark ShardI)}
  {t t' : ShardTask (Option WriterState)} {heard : Option Input}

theorem Course.goes (h : Course past t) (hgoes : Goes srv.system o t heard marks t') :
    Course (marks ++ past) t' := by
  obtain ⟨hfollows, hreplies, hat⟩ := h
  cases hgoes with
  | resume k v =>
    refine ⟨hfollows.2 v, hreplies v, fun reply r rest hpast => .inr (.inl ?_)⟩
    rcases hat reply r rest hpast with hk | ⟨x, hk⟩ | ⟨w, hk⟩
    · obtain rfl := Coroutine.await.inj hk
      cases v <;> exact ⟨_, rfl⟩
    · cases hk
    · cases w <;> cases hk
  | call op k r =>
    refine ⟨hfollows.2 r trivial, (hreplies r).2, ?_⟩
    rintro reply _ _ ⟨⟩
    exact .inl ((hreplies _).1 reply rfl)
  | wait op k r =>
    refine ⟨hfollows.2.2 r trivial, (hreplies r).2, ?_⟩
    rintro reply _ _ ⟨⟩
    exact .inl ((hreplies _).1 reply rfl)
  | fork u k | invokeOn n u k =>
    refine ⟨hfollows.2, hreplies, fun reply r rest hpast => ?_⟩
    rcases hat reply r rest hpast with hk | ⟨x, hk⟩ | ⟨w, hk⟩
    · cases hk
    · cases hk
    · cases w <;> cases hk
  | again w =>
    exact ⟨follows_runWriter w hfollows, then_runWriter w, fun _ _ _ _ => .inr (.inr ⟨w, rfl⟩)⟩

theorem course_of_run {steps : List (Label Input (Origin srv.Job))} {c : srv.State}
    (h : srv.Reaches steps c) : ∀ t ∈ c.tasks, .started ∉ t.past → Course t.past t.task :=
  courses_of_run (fun _ => True) (fun _ => Course)
    (fun o _ => ⟨follows_program srv o.shard o.work, then_program srv o.shard o.work, nofun⟩)
    (fun _ _ _ _ _ _ hcourse hgoes => hcourse.goes hgoes) (fun l _ => l.launches_true) h

theorem respond_of_next_eq {q : Tenure} {op : ShardI.Op} {r : ShardI.Res op} {id : Str}
    (h : q.next op r = .replied id) : ∃ reply, op = .inr (.respond reply) := by
  unfold Tenure.next at h
  split at h
  · cases h
  · exact ⟨_, rfl⟩
  · split at h
    · exact (‹∀ id, q = .replied id → False› id h).elim
    · cases h
  · cases h
  · cases h
  · exact (‹∀ id, q = .replied id → False› id h).elim

theorem exists_respond {id : Str} (h : phase tenure past = .replied id) :
    ∃ reply r rest, past = .did (.inr (.respond reply)) r :: rest := by
  cases past with
  | nil => cases h
  | cons mark rest =>
    cases mark with
    | started => cases h
    | did op r =>
      obtain ⟨reply, rfl⟩ := respond_of_next_eq h
      exact ⟨reply, r, rest, rfl⟩

theorem session_next {q : Tenure} {op : ShardI.Op} {id : Str} (hsession : q.session = some id)
    (hallows : tenure.allows q op) (hop : op ≠ .inr (.cleanupSubscriptions id))
    (r : ShardI.Res op) : (q.next op r).session = some id := by
  unfold Tenure.next
  split
  · exact hsession
  · exact hsession
  · obtain rfl : _ = Tenure.outside := hallows
    cases hsession
  · obtain rfl : _ = Tenure.outside := hallows
    cases hsession
  · obtain rfl : _ = Tenure.streaming _ := hallows
    obtain rfl := Option.some.inj hsession
    exact absurd rfl hop
  · exact hsession

end Courses

section Runs
open Tenure
variable {srv : McpServer} {session : Str}

/-- The request holds the session open: it has opened it, and has neither cleaned up for it nor
ended. -/
structure Tends (session : Str) (t : Running ShardI Input Exception (Origin srv.Job) WriterState) :
    Prop where
  own : .started ∉ t.past
  goesOn : t.done = false
  holds : (phase tenure t.past).session = some session

def starts (reply : Reply) : Input → Bool
  | .ok _ => reply.stream.isSome
  | .error _ => false

/-- The reply that was the last thing the request did. -/
def lastReply : List (Mark ShardI) → Option Reply
  | .did (.inr (.respond reply)) _ :: _ => some reply
  | _ => none

/-- What has to be so when a step is taken. A session subscribes on a shard on which the request
that opened it holds it open; and the stream of that request starts if it is subscribed there. -/
structure Tended (c : srv.State) (l : Label Input (Origin srv.Job)) (c' : srv.State) : Prop where
  subscribing : ∀ e uri, c'.log = e :: c.log → e.op = .inl (.subscribeResource uri) →
    e.before.currentSessionId ≠ [] →
      ∃ t ∈ c.tasks, t.shard = e.shard ∧ Tends e.before.currentSessionId t
  replying : ∀ i v t reply, l = .resume i v → c.tasks[i]? = some t →
    lastReply t.past = some reply → starts reply v = false →
      ∀ id, (phase tenure t.past).session = some id →
        ∀ uri, id ∉ (c.shards t.shard).subscriptions.subscribers uri

theorem replied_of_ends {q : Tenure} (hends : q.Ends) {id : Str} (h : q.session = some id) :
    ∃ id', q = .replied id' := by
  cases q with
  | outside => cases h
  | replied id' => exact ⟨id', rfl⟩
  | opened | streaming => exact hends.elim

theorem ends_of_done {t : Running ShardI Input Exception (Origin srv.Job) WriterState}
    (h : Course t.past t.task) (hdone : t.done = true) : (phase tenure t.past).Ends := by
  obtain ⟨shard, o, past, task⟩ := t
  unfold Running.done at hdone
  split at hdone
  · rename_i htask
    obtain rfl : task = _ := htask
    exact h.follows
  · rename_i htask
    obtain rfl : task = _ := htask
    exact h.follows
  · cases hdone

/-- A request goes on to hold its session open, unless it cleans up or gets no stream. -/
theorem Tends.goes {t : Running ShardI Input Exception (Origin srv.Job) WriterState}
    (h : Tends session t) (hcourse : Course t.past t.task) {heard : Option Input}
    {marks : List (Mark ShardI)} {task : ShardTask (Option WriterState)}
    (hgoes : Goes srv.system t.origin t.task heard marks task)
    (hcleanup : ∀ r, marks ≠ [.did (.inr (.cleanupSubscriptions session)) r])
    (hstarts : ∀ v reply r rest, heard = some v →
      t.past = .did (.inr (.respond reply)) r :: rest → starts reply v) :
    Tends session { t with past := marks ++ t.past, task := task } := by
  have hafter : Course (marks ++ t.past) task := hcourse.goes hgoes
  obtain ⟨shard, o, past, old⟩ := t
  obtain ⟨hown, -, hholds⟩ := h
  have hsession : (phase tenure (marks ++ past)).session = some session := by
    have hother : ∀ op r, marks = [.did op r] → op ≠ .inr (.cleanupSubscriptions session) := by
      rintro op r rfl rfl
      exact hcleanup r rfl
    cases hgoes with
    | resume | fork | invokeOn | again => exact hholds
    | call op k r => exact session_next hholds hcourse.follows.1 (hother op r rfl) r
    | wait op k r => exact session_next hholds hcourse.follows.2.1 (hother op r rfl) r
  refine ⟨?_, ?_, hsession⟩
  · cases hgoes <;> simpa using hown
  · by_contra hdone
    have hends := ends_of_done (t := ⟨shard, o, marks ++ past, task⟩) hafter (by simpa using hdone)
    obtain ⟨id, hreplied⟩ := replied_of_ends hends hsession
    obtain ⟨reply, r, rest, hpast⟩ := exists_respond hreplied
    cases hgoes with
    | resume k v =>
      have hk : k = reply.sent := by
        rcases hcourse.atReply reply r rest hpast with hk | ⟨x, hk⟩ | ⟨w, hk⟩
        · exact Coroutine.await.inj hk
        · cases hk
        · cases w <;> cases hk
      have hstart := hstarts v reply r rest rfl hpast
      subst hk
      cases v with
      | ok _ =>
        obtain ⟨s, hs⟩ := Option.isSome_iff_exists.mp hstart
        simp [Running.done, Reply.sent, hs] at hdone
      | error _ => cases hstart
    | call op k r' | wait op k r' =>
      obtain ⟨rfl, -⟩ := Mark.did.inj (List.cons.inj hpast).1
      have hk := (hcourse.replies r').1 reply rfl
      simp [Running.done, hk] at hdone
    | fork u k | invokeOn n u k =>
      rcases hcourse.atReply reply r rest hpast with hk | ⟨x, hk⟩ | ⟨w, hk⟩
      · cases hk
      · cases hk
      · cases w <;> cases hk
    | again w => cases w <;> exact hdone rfl

/-- A session is subscribed after an event because it subscribes, or because it was and is not
cleaned up for. -/
theorem subscribed_of_event {e : Event ShardI (Origin srv.Job) McpShard} {uri : Str}
    (hexec : shardExec srv.L srv.cfg e.shard e.now e.op e.before = (e.res, e.after))
    (hsession : session ≠ []) (h : session ∈ e.after.subscriptions.subscribers uri) :
    e.op = .inl (.subscribeResource uri) ∧ e.before.currentSessionId = session ∨
      e.op ≠ .inr (.cleanupSubscriptions session) ∧
        session ∈ e.before.subscriptions.subscribers uri := by
  have hwrites : decide (session ∈ e.after.subscriptions.subscribers uri) = _ :=
    subscribed_of_exec hexec hsession
  rw [decide_eq_true h] at hwrites
  by_cases hcleanup : e.op = .inr (.cleanupSubscriptions session)
  · have herased : writes session uri e = some false := by simp [writes, hcleanup]
    rw [herased] at hwrites
    cases hwrites
  · cases hwrite : writes session uri e with
    | none =>
      rw [hwrite] at hwrites
      exact .inr ⟨hcleanup, of_decide_eq_true hwrites.symm⟩
    | some wish =>
      rw [hwrite] at hwrites
      obtain rfl : true = wish := hwrites
      have hother : ∀ id, e.op = .inr (.cleanupSubscriptions id) → id ≠ session := by
        rintro id hop rfl
        exact hcleanup hop
      rw [writes_eq hother] at hwrite
      obtain ⟨hcurrent, hchange⟩ := Option.ite_none_right_eq_some.mp hwrite
      rcases of_change hchange with hop | hop
      · exact .inl ⟨hop, hcurrent⟩
      · rw [hop, change, if_pos rfl] at hchange
        cases hchange

/-- A request that holds the session open does so after it has gone on, if it does not clean up and
the head of its reply arrives. -/
theorem exists_tends_set {steps : List (Label Input (Origin srv.Job))} {c c' : srv.State}
    {l : Label Input (Origin srv.Job)} (hrun : srv.Reaches steps c) (hl : Tended c l c')
    {j : ℕ} (uri : Str) {i : ℕ}
    {t : Running ShardI Input Exception (Origin srv.Job) WriterState}
    {heard : Option Input} {marks : List (Mark ShardI)} {task : ShardTask (Option WriterState)}
    (hi : c.tasks[i]? = some t) (hgoes : Goes srv.system t.origin t.task heard marks task)
    (hcleanup : t.shard = j → ∀ r, marks ≠ [.did (.inr (.cleanupSubscriptions session)) r])
    (hheard : ∀ v, heard = some v → l = .resume i v ∧
      session ∈ (c.shards j).subscriptions.subscribers uri)
    (hex : ∃ t ∈ c.tasks, t.shard = j ∧ Tends session t) :
    ∃ u ∈ c.tasks.set i { t with past := marks ++ t.past, task := task },
      u.shard = j ∧ Tends session u := by
  refine exists_tasks_set hi hex ?_
  rintro ⟨hj, htends⟩
  have hcourse := course_of_run hrun t (List.mem_of_getElem? hi) htends.own
  refine ⟨hj, htends.goes hcourse hgoes (hcleanup hj) ?_⟩
  intro v reply r rest hv hpast
  obtain ⟨hlabel, hbefore⟩ := hheard v hv
  by_contra hlost
  exact hl.replying i v t reply hlabel hi (by rw [hpast]; rfl) (Bool.eq_false_iff.mpr hlost)
    session htends.holds uri (hj ▸ hbefore)

/-- Whoever is subscribed is held open on the shard of the subscription. -/
theorem tends_of_subscribed {steps : List (Label Input (Origin srv.Job))} {c : srv.State}
    (h : srv.Reaches steps c)
    (htended : LabelledRuns.Along srv.system.step Tended srv.system.start steps)
    (hsession : session ≠ []) {j : ℕ} {uri : Str}
    (hsubscribed : session ∈ (c.shards j).subscriptions.subscribers uri) :
    ∃ t ∈ c.tasks, t.shard = j ∧ Tends session t := by
  revert hsubscribed
  refine LabelledRuns.invariant_of_reached (J := fun c : srv.State =>
    session ∈ (c.shards j).subscriptions.subscribers uri →
      ∃ t ∈ c.tasks, t.shard = j ∧ Tends session t)
    (fun h => (List.not_mem_nil h).elim) ?_ htended h
  intro steps c l c' hrun hold hstep hl hafter
  have silent : ∀ {P : Input → Prop} (v : Input), none = some v → P v :=
    fun v hv => absurd hv.symm (Option.some_ne_none v)
  cases advance_of_step hstep with
  | stays more htasks hshards =>
    obtain ⟨t, ht, hrest⟩ := hold (hshards ▸ hafter)
    exact ⟨t, htasks ▸ List.mem_append_left _ ht, hrest⟩
  | goes more hi hgoes hheard htasks hshards =>
    rw [hshards] at hafter
    obtain ⟨t, ht, hrest⟩ := exists_tends_set hrun hl uri hi hgoes
      (fun _ _ => (List.cons_ne_nil _ _).symm) (fun v hv => ⟨hheard v hv, hafter⟩) (hold hafter)
    exact ⟨t, htasks ▸ List.mem_append_left _ ht, hrest⟩
  | @calls i t task e hi hgoes hshard _ hpast hbefore hexec htasks hshards hlog =>
    have hhistory : e.history = [.did e.op e.res] ++ t.past := by rw [Event.history, hpast]; rfl
    rw [htasks, hhistory]
    by_cases hj : e.shard = j
    · subst hj
      rw [hshards, Function.update_self] at hafter
      rcases subscribed_of_event hexec hsession hafter with ⟨hop, rfl⟩ | ⟨hop, hsubscribed⟩
      · refine exists_tends_set hrun hl uri hi hgoes (fun _ r hmarks => ?_) silent
          (hl.subscribing e uri hlog hop hsession)
        have hcleanup := (Mark.did.inj (List.cons.inj hmarks).1).1
        rw [hop] at hcleanup
        cases hcleanup
      · rw [hbefore] at hsubscribed
        refine exists_tends_set hrun hl uri hi hgoes (fun _ r hmarks => hop ?_) silent
          (hold hsubscribed)
        exact (Mark.did.inj (List.cons.inj hmarks).1).1
    · rw [hshards, Function.update_of_ne (Ne.symm hj)] at hafter
      exact exists_tends_set hrun hl uri hi hgoes (fun ht => absurd (hshard.trans ht) hj) silent
        (hold hafter)

theorem nil_notMem_shardExec (L : JsonLibrary) (cfg : McpServerConfig) (j : ℕ) (now : Int)
    (op : ShardI.Op) (s : McpShard) (h : ∀ uri, [] ∉ s.subscriptions.subscribers uri) (uri : Str) :
    [] ∉ (shardExec L cfg j now op s).2.subscriptions.subscribers uri := by
  have keeps : ¬ChangesSubscriptions op →
      [] ∉ (shardExec L cfg j now op s).2.subscriptions.subscribers uri := by
    intro hop
    rw [(frame_shardExec L cfg j now op s).subscriptions hop]
    exact h uri
  rcases op with op | op
  · cases op with
    | subscribeResource u =>
      change [] ∉ (s.subscribeResource u).subscriptions.subscribers uri
      unfold McpShard.subscribeResource
      split
      · exact h uri
      · rename_i hcurrent
        rw [Subscriptions.mem_subscribers_add]
        rintro (⟨-, hnil⟩ | hmem)
        · exact hcurrent (List.isEmpty_iff.mpr hnil)
        · exact h uri hmem
    | unsubscribeResource u =>
      change [] ∉ (s.unsubscribeResource u).subscriptions.subscribers uri
      unfold McpShard.unsubscribeResource
      split
      · exact h uri
      · rw [Subscriptions.mem_subscribers_remove]
        exact fun hmem => h uri hmem.2
    | _ => exact keeps id
  · cases op with
    | cleanupSubscriptions id =>
      change [] ∉ (s.cleanupSubscriptions id).subscriptions.subscribers uri
      rw [McpShard.cleanupSubscriptions, Subscriptions.mem_subscribers_removeAll]
      exact fun hmem => h uri hmem.2
    | _ => exact keeps id

theorem nil_notMem_subscribers {steps : List (Label Input (Origin srv.Job))} {c : srv.State}
    (h : srv.Reaches steps c) (j : ℕ) (uri : Str) :
    [] ∉ (c.shards j).subscriptions.subscribers uri := by
  refine ((coherent_of_run h).invariant
    (fun _ (s : McpShard) => ∀ uri, [] ∉ s.subscriptions.subscribers uri)
    (fun _ _ hmem => List.not_mem_nil hmem) ?_).1 j uri
  intro e _ hexec hbefore
  have hafter : e.after = (shardExec srv.L srv.cfg e.shard e.now e.op e.before).2 :=
    (congrArg Prod.snd hexec).symm
  rw [hafter]
  exact nil_notMem_shardExec srv.L srv.cfg e.shard e.now e.op e.before hbefore

theorem issued_of_session {past : List (Mark ShardI)} {id : Str}
    (h : (phase tenure past).session = some id) :
    ∃ op r earlier, .did op r :: earlier <:+ past ∧ issuedBy op r = some id := by
  induction past with
  | nil => cases h
  | cons mark past ih =>
    cases mark with
    | started => cases h
    | did op r =>
      have hold : (phase tenure past).session = some id → ∃ op' r' earlier,
          .did op' r' :: earlier <:+ .did op r :: past ∧ issuedBy op' r' = some id := by
        intro hsession
        obtain ⟨op', r', earlier, hs, hissued⟩ := ih hsession
        exact ⟨op', r', earlier, hs.trans (List.suffix_cons _ _), hissued⟩
      have hnext : ((phase tenure past).next op r).session = some id := h
      generalize phase tenure past = q at hnext hold
      unfold Tenure.next at hnext
      split at hnext
      · exact hold hnext
      · exact hold hnext
      · split at hnext
        · exact hold hnext
        · rename_i hempty
          obtain rfl := Option.some.inj hnext
          exact ⟨_, _, _, List.suffix_refl _, if_neg (mt List.isEmpty_iff.mpr hempty)⟩
      · exact ⟨_, _, _, List.suffix_refl _, hnext⟩
      · cases hnext
      · exact hold hnext

/-- The request has a stream of the session: it has opened it, or reconnects to it. -/
def Carries (session : Str) (t : Running ShardI Input Exception (Origin srv.Job) WriterState) :
    Prop :=
  .started ∉ t.past ∧ ((∃ op r, .did op r ∈ t.past ∧ issuedBy op r = some session) ∨
    ∃ req, t.origin.work = .getMcp req ∧ req.header "mcp-session-id".toList = session)

/-- The session has been removed where it was opened, and its streams have ended. -/
structure Over (c : srv.State) (session : Str) : Prop where
  removed : ∀ e ∈ c.log, issued e = some session →
    (c.shards e.shard).sessions.lookup session = none
  ended : ∀ t ∈ c.tasks, Carries session t → t.done

/-- No shard has a subscription of a session that is over or has never been there. -/
def NoDangling (c : srv.State) : Prop :=
  ∀ session, (Over c session ∨ ∀ e ∈ c.log, issued e ≠ some session) →
    ∀ j uri, session ∉ (c.shards j).subscriptions.subscribers uri

/-- In every run whose steps are tended, no subscription outlives its session. -/
theorem no_dangling_subscriptions (srv : McpServer) {steps : List (Label Input (Origin srv.Job))}
    {c : srv.State} (h : srv.Reaches steps c)
    (htended : LabelledRuns.Along srv.system.step Tended srv.system.start steps) :
    NoDangling c := by
  rintro session hgone j uri hsubscribed
  have hsession : session ≠ [] := by
    rintro rfl
    exact nil_notMem_subscribers h j uri hsubscribed
  obtain ⟨t, ht, -, hown, hgoesOn, hholds⟩ := tends_of_subscribed h htended hsession hsubscribed
  obtain ⟨op, r, earlier, hs, hissued⟩ := issued_of_session hholds
  rcases hgone with hover | hnever
  · have hdone := hover.ended t ht ⟨hown, .inl ⟨op, r, hs.mem (.head _), hissued⟩⟩
    rw [hgoesOn] at hdone
    cases hdone
  · obtain ⟨e, he, -, hhistory⟩ := (recorded_of_run h).1 t ht op r earlier hs
    obtain ⟨shard, now, o, past, op', r', before, after⟩ := e
    obtain ⟨⟨rfl, hr⟩, -⟩ := (List.cons.inj hhistory).imp_left Mark.did.inj
    obtain rfl := eq_of_heq hr
    exact hnever _ he hissued

end Runs

section Examples

/-- Shard 0 opens a session, and shard `j` accepts its subscription. -/
def subscribedAt (j : ℕ) : List (Label Input (Origin Str)) :=
  [.launch ⟨0, .getSse {}⟩, .advance 0, .advance 0, .advance 0, .advance 0,
    .launch ⟨j, .postMessage subscribePost⟩, .advance 1, .advance 1, .advance 1, .advance 1,
    .advance 1, .resume 1 (.ok .null), .resume 1 (.ok .null), .resume 1 (.ok .null),
    .resume 1 (.ok .null), .advance 1, .advance 1, .advance 1, .resume 1 (.ok .null)]

def clientGone : List (Label Input (Origin Str)) :=
  [.resume 0 (.ok .null), .advance 0, .advance 0, .resume 0 (.ok .null),
    .resume 0 (.error (.std [])), .advance 0, .advance 0, .advance 0, .resume 0 (.error (.std []))]

/-- The test of `Tends`. -/
def tends (session : Str)
    (t : Running ShardI Input Exception (Origin updateServer.Job) WriterState) : Bool :=
  isNew t.past && !t.done && (phase tenure t.past).session == some session

theorem tends_sound {session : Str}
    {t : Running ShardI Input Exception (Origin updateServer.Job) WriterState}
    (h : tends session t) : Tends session t := by
  simp only [tends, Bool.and_eq_true, Bool.not_eq_true', beq_iff_eq] at h
  obtain ⟨⟨hnew, hgoesOn⟩, hholds⟩ := h
  exact ⟨started_notMem hnew, hgoesOn, hholds⟩

/-- The test of `Tended` for a step. -/
def tended (c : updateServer.State) (l : Label Input (Origin updateServer.Job))
    (c' : updateServer.State) : Bool :=
  (match c'.log with
  | e :: _ => match e.op with
      | .inl (.subscribeResource _) => c.tasks.any (fun t =>
          t.shard == e.shard && tends e.before.currentSessionId t)
      | _ => true
  | [] => true) &&
  (match l with
  | .resume i v => (c.tasks[i]?).all (fun t => (lastReply t.past).all (fun reply =>
      starts reply v || (phase tenure t.past).session == none))
  | _ => true)

theorem tended_sound (c : updateServer.State) (l : Label Input (Origin updateServer.Job))
    (c' : updateServer.State) (h : tended c l c') : Tended c l c' := by
  obtain ⟨hsubscribing, hreplying⟩ := Bool.and_eq_true_iff.mp h
  constructor
  · intro e uri hlog hop _
    rw [hlog] at hsubscribing
    simp only [hop, List.any_eq_true, Bool.and_eq_true, beq_iff_eq] at hsubscribing
    obtain ⟨t, ht, hshard, htends⟩ := hsubscribing
    exact ⟨t, ht, hshard, tends_sound htends⟩
  · rintro i v t reply rfl hi hreply hlost id hsession
    simp only [hi, Option.all_some, hreply, hlost, Bool.false_or, beq_iff_eq, hsession] at hreplying
    cases hreplying

/-- Where the shard of the session has accepted the subscription, nothing is left of it. -/
theorem no_dangling_subscriptions_own_shard :
    ∃ c, updateServer.Reaches (subscribedAt 0 ++ clientGone) c ∧
      (∃ e ∈ c.log, firstSession ∈ e.after.subscriptions.subscribers "u".toList) ∧
      Over c firstSession ∧ NoDangling c := by
  have hrun : (LabelledRuns.testedRun updateServer.system.step tended updateServer.system.start
      (subscribedAt 0 ++ clientGone)).any (fun c =>
        c.log.any (fun e => firstSession ∈ e.after.subscriptions.subscribers "u".toList) &&
        (c.shards 0).sessions.lookup firstSession == none &&
        c.log.all (fun e => e.shard == 0) && c.tasks.all (·.done)) := by
    decide +kernel
  obtain ⟨c, hc, hp⟩ := (Option.any_eq_true _ _).mp hrun
  obtain ⟨hreaches, htended⟩ := LabelledRuns.along_of_testedRun tended_sound hc
  simp only [Bool.and_eq_true, List.any_eq_true, List.all_eq_true, beq_iff_eq,
    decide_eq_true_eq] at hp
  obtain ⟨⟨⟨hsubscribed, hremoved⟩, hshard⟩, hdone⟩ := hp
  refine ⟨c, hreaches, hsubscribed, ⟨fun e he _ => ?_, fun t ht _ => hdone t ht⟩,
    no_dangling_subscriptions updateServer hreaches htended⟩
  rw [hshard e he]
  exact hremoved

/-- Where another shard has accepted it, it outlives the session. -/
theorem subscription_outlives_session :
    ∃ c, updateServer.Reaches
        (subscribedAt 1 ++ .resume 2 (.ok .null) :: .advance 2 :: clientGone) c ∧
      (∀ t ∈ c.tasks, t.done) ∧ Over c firstSession ∧ ¬NoDangling c := by
  have hrun : (LabelledRuns.run updateServer.system.step updateServer.system.start
      (subscribedAt 1 ++ .resume 2 (.ok .null) :: .advance 2 :: clientGone)).any (fun c =>
        decide (firstSession ∈ (c.shards 1).subscriptions.subscribers "u".toList) &&
        (c.shards 0).sessions.lookup firstSession == none &&
        c.log.all (fun e => e.shard == 0 || issued e == none) && c.tasks.all (·.done)) := by
    decide +kernel
  obtain ⟨c, hc, hp⟩ := (Option.any_eq_true _ _).mp hrun
  simp only [Bool.and_eq_true, List.all_eq_true, Bool.or_eq_true, beq_iff_eq,
    decide_eq_true_eq] at hp
  obtain ⟨⟨⟨hsubscribed, hremoved⟩, hshard⟩, hdone⟩ := hp
  have hover : Over c firstSession := by
    refine ⟨fun e he hissued => ?_, fun t ht _ => hdone t ht⟩
    rcases hshard e he with hshard | hnone
    · rw [hshard]
      exact hremoved
    · rw [hnone] at hissued
      cases hissued
  exact ⟨c, hc, hdone, hover, fun hnot => hnot firstSession (.inl hover) 1 _ hsubscribed⟩

end Examples
end McpSdk.SubscriptionCleanup

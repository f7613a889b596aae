import McpSdk.SessionRouting
import McpSdk.SessionTables
import McpSdk.TaskCourses

/-!
# The waiters of a message queue

A queue remembers one pop that waits for a message and one push that waits for room. The pops come
from the writers of streams: a writer pops from the object its stream was opened for, so two of
them wait at one queue only if two streams of one session are open at a time. The pushes come from
anywhere and nobody waits for them, so two of them wait only if the client is more than a queue of
messages and one more behind.
-/

namespace McpSdk
open CppStandardLibrary CooperativeTasks ClusterRuns

namespace SseSession

/-- The messages in the queue, and the one that waits for room. -/
def held (s : SseSession) : ℕ := s.messages.length + s.delayed.toList.length

theorem popFront_messages (s : SseSession) :
    s.popFront.messages = s.messages.tail ++ s.delayed.toList := by
  unfold popFront
  split
  · rename_i msg hdelayed
    rw [hdelayed]
    rfl
  · rename_i hdelayed
    rw [hdelayed]
    exact (List.append_nil _).symm

theorem popFront_delayed (s : SseSession) : s.popFront.delayed = none := by
  unfold popFront
  split <;> rfl

end SseSession

def Popped.isMessage : Popped → Bool
  | .message _ => true
  | .waiter _ => false

/-- The message that the pop has at once. -/
def Popped.given : Popped → List Str
  | .message msg => [msg]
  | .waiter _ => []

namespace SseSession
variable {s s' : SseSession} {ins outs : List Str}

/-- What a call does to a queue: the messages that it brings and those that it gives. -/
inductive Flows (s : SseSession) : List Str → List Str → SseSession → Prop
  | keeps {s' : SseSession} (hmessages : s'.messages = s.messages)
      (hdelayed : s'.delayed = s.delayed) : Flows s [] [] s'
  | push (msg : Str) : Flows s [msg] [] (s.pushEventually msg)
  | pop {s' : SseSession} {msg : Str} {rest : List Str} (hmessages : s.messages = msg :: rest)
      (hrest : s'.messages = rest ++ s.delayed.toList) (hdelayed : s'.delayed = none) :
      Flows s [] [msg] s'

theorem flows_popEventually (s : SseSession) :
    s.Flows [] s.popEventually.1.given s.popEventually.2 := by
  unfold popEventually
  split
  · rename_i msg rest hmessages
    refine .pop hmessages ?_ s.popFront_delayed
    rw [popFront_messages, hmessages]
    rfl
  · exact .keeps rfl rfl

theorem flows_popWaiting (s : SseSession) (n : ℕ) :
    s.Flows [] (s.popWaiting n).1.toOption.toList (s.popWaiting n).2 := by
  unfold popWaiting
  split
  · rename_i msg rest hmessages
    split
    · refine .pop hmessages ?_ s.popFront_delayed
      exact s.popFront_messages.trans (by rw [hmessages]; rfl)
    · exact .keeps rfl rfl
  · exact .keeps rfl rfl

theorem Flows.held (h : s.Flows ins outs s') (hroom : ins ≠ [] → s.held ≤ capacity) :
    s'.held + outs.length = s.held + ins.length := by
  unfold SseSession.held at hroom ⊢
  cases h with
  | keeps hmessages hdelayed => rw [hmessages, hdelayed]
  | push msg =>
    have hheld := hroom (List.cons_ne_nil msg [])
    unfold pushEventually
    split
    · have hnone : s.delayed.toList.length = 0 := by omega
      simp [hnone]
    · simp only [append, List.length_append, List.length_singleton, List.length_nil]
      omega
  | pop hmessages hrest hdelayed =>
    rw [hmessages, hrest, hdelayed]
    simp only [List.length_append, List.length_cons, Option.toList_none, List.length_nil]
    omega

end SseSession

namespace QueueWaiters

section Pushes
variable (L : JsonLibrary)

/-- The sessions that a method of the shard sends a message to. -/
def addressees : HandlerCall → McpShard → List Str
  | .pushToSession id _, _ => [id]
  | .broadcastNotification _, s => s.sessions.keys
  | .notifyResourceUpdated uri, s =>
      if (L.dumpText (McpShard.resourceUpdated uri)).isOk then s.subscriptions.subscribers uri
      else []
  | .pushProgress progress total, s =>
      if s.currentSessionId.isEmpty || s.currentProgressToken.isEmpty then []
      else if (L.dumpText
          (McpShard.progressNotification s.currentProgressToken progress total)).isOk then
        [s.currentSessionId]
      else []
  | .sendRequest session method params, s =>
      if (L.dumpText (McpShard.clientRequest (s.serverRequestCounter + 1) method params)).isOk then
        [session]
      else []
  | _, _ => []

/-- The queues that an operation pushes to, by their objects. -/
def pushed : ShardI.Op → McpShard → List ℕ
  | .inl op, s => (addressees L op s).filterMap s.target
  | .inr (.pushEventually ref _), s => if ref < s.objects.length then [ref] else []
  | _, _ => []

/-- The operation takes a message from the queue of the object. -/
def takes (ref : ℕ) : (op : ShardI.Op) → ShardI.Res op → Bool
  | .inr (.popEventually ref'), (popped : Popped) => ref' == ref && popped.isMessage
  | .inr (.popWaiting ref' _), (msg : Except Exception Str) => ref' == ref && msg.isOk
  | _, _ => false

/-- The message that an operation pushes. -/
def message : ShardI.Op → McpShard → Str
  | .inl (.pushToSession _ msg), _ | .inl (.broadcastNotification msg), _ => msg
  | .inl (.notifyResourceUpdated uri), _ =>
      (L.dumpText (McpShard.resourceUpdated uri)).toOption.getD []
  | .inl (.pushProgress progress total), s =>
      (L.dumpText (McpShard.progressNotification s.currentProgressToken progress
        total)).toOption.getD []
  | .inl (.sendRequest _ method params), s =>
      (L.dumpText (McpShard.clientRequest (s.serverRequestCounter + 1) method
        params)).toOption.getD []
  | .inr (.pushEventually _ msg), _ => msg
  | _, _ => []

/-- What an operation pushes to the queue of the object. -/
def brings (ref : ℕ) (op : ShardI.Op) (s : McpShard) : List Str :=
  if ref ∈ pushed L op s then [message L op s] else []

/-- What an operation takes from the queue of the object. -/
def gives (ref : ℕ) : (op : ShardI.Op) → ShardI.Res op → List Str
  | .inr (.popEventually ref'), (popped : Popped) => if ref' = ref then popped.given else []
  | .inr (.popWaiting ref' _), (msg : Except Exception Str) =>
      if ref' = ref then msg.toOption.toList else []
  | _, _ => []

theorem length_gives (ref : ℕ) (op : ShardI.Op) (r : ShardI.Res op) :
    (gives ref op r).length = (takes ref op r).toNat := by
  rcases op with op | op
  · rfl
  · cases op with
    | popEventually ref' =>
      unfold gives takes
      by_cases href : ref' = ref
      · cases r <;> simp [href, Popped.given, Popped.isMessage]
      · simp [href, beq_eq_false_iff_ne.mpr href]
    | popWaiting ref' n =>
      unfold gives takes
      by_cases href : ref' = ref
      · cases r <;> simp [href, Except.toOption, Except.isOk, Except.toBool]
      · simp [href, beq_eq_false_iff_ne.mpr href]
    | _ => rfl

variable {L} {s : McpShard}

theorem objects_handlerCall (op : HandlerCall) (s : McpShard) :
    (op.exec L s).2.objects = ((addressees L op s).foldl
      (fun s' id => s'.pushToSession id (message L (.inl op) s)) s).objects := by
  cases op with
  | pushToSession | broadcastNotification | clientReply | gathered | setClientLogLevel => rfl
  | subscribeResource uri =>
    rw [HandlerCall.exec, s.subscribeResource_eq uri]
    rfl
  | unsubscribeResource uri =>
    rw [HandlerCall.exec, s.unsubscribeResource_eq uri]
    rfl
  | notifyResourceUpdated uri =>
    simp only [HandlerCall.exec, McpShard.notifyResourceUpdated, addressees, message,
      Subscriptions.subscribers]
    cases L.dumpText (McpShard.resourceUpdated uri) <;> cases s.subscriptions.lookup uri <;> rfl
  | pushProgress progress total =>
    simp only [HandlerCall.exec, McpShard.pushProgress, McpShard.pushProgressTo, addressees,
      message]
    split
    · rfl
    · cases L.dumpText
        (McpShard.progressNotification s.currentProgressToken progress total) <;> rfl
  | sendRequest session method params =>
    simp only [HandlerCall.exec, McpShard.sendRequest, addressees, message]
    cases L.dumpText (McpShard.clientRequest (s.serverRequestCounter + 1) method params) with
    | error e => rfl
    | ok msg =>
      refine McpShard.pushToSession_objects ?_ ?_ session msg <;> rfl

theorem nodup_addressees (h : s.subscriptions.Distinct) (op : HandlerCall) :
    (addressees L op s).Nodup := by
  cases op with
  | broadcastNotification => exact s.sessions.nodupKeys
  | notifyResourceUpdated uri =>
    rw [addressees]
    split
    · exact h uri
    · exact List.nodup_nil
  | pushProgress | sendRequest =>
    rw [addressees]
    split_ifs <;> simp
  | _ => simp [addressees]

/-- An operation on one queue that takes a message or none. Where there is no such object the
queue is an empty one. -/
theorem flows_updateObject {f : SseSession → SseSession} {g : SseSession → List Str}
    (hf : ∀ o : SseSession, o.Flows [] (g o) (f o)) (hempty : g {} = []) (ref' ref : ℕ) :
    (s.object ref).Flows [] (if ref' = ref then g (s.object ref') else [])
      ((s.updateObject ref' f).object ref) := by
  by_cases hlength : ref' < s.objects.length
  · rw [McpShard.object_updateObject f hlength]
    split
    · rename_i href
      rw [← href]
      exact hf _
    · exact .keeps rfl rfl
  · have hnone : s.object ref' = {} := by simp [McpShard.object, not_lt.mp hlength]
    have hobjects : (s.updateObject ref' f).objects = s.objects :=
      List.modify_eq_self (not_lt.mp hlength)
    rw [McpShard.object_congr hobjects, hnone, hempty, ite_self]
    exact .keeps rfl rfl

theorem object_append {s' : McpShard} (h : s'.objects = s.objects ++ [({} : SseSession)])
    (ref : ℕ) : s'.object ref = s.object ref := by
  rw [McpShard.object, McpShard.object, h, List.getElem?_append]
  split
  · rfl
  · rename_i hlength
    rw [List.getElem?_eq_none (not_lt.mp hlength)]
    cases ref - s.objects.length <;> rfl

section Calls
variable (ref : ℕ)

theorem flows_handlerCall (htables : s.Linked ∧ s.subscriptions.Distinct) (op : HandlerCall) :
    (s.object ref).Flows (brings L ref (.inl op) s) [] ((op.exec L s).2.object ref) := by
  have hids : (addressees L op s).Nodup := nodup_addressees htables.2 op
  rw [McpShard.object_congr (objects_handlerCall op s), McpShard.object_pushToSessions hids htables.1]
  change (s.object ref).Flows (if ref ∈ (addressees L op s).filterMap s.target then
    [message L (.inl op) s] else []) [] _
  split
  · exact .push _
  · exact .keeps rfl rfl

theorem flows_pushEventually (ref' : ℕ) (msg : Str) :
    (s.object ref).Flows (brings L ref (.inr (.pushEventually ref' msg)) s) []
      ((s.updateObject ref' (·.pushEventually msg)).object ref) := by
  by_cases hlength : ref' < s.objects.length
  · have hpushed : pushed L (.inr (.pushEventually ref' msg)) s = [ref'] := if_pos hlength
    unfold brings
    rw [McpShard.object_updateObject _ hlength, hpushed]
    by_cases href : ref' = ref
    · subst href
      rw [if_pos rfl, if_pos (List.mem_singleton_self _)]
      exact .push msg
    · rw [if_neg href, if_neg (fun hmem => href (List.mem_singleton.mp hmem).symm)]
      exact .keeps rfl rfl
  · have hpushed : pushed L (.inr (.pushEventually ref' msg)) s = [] := if_neg hlength
    have hobjects : (s.updateObject ref' (·.pushEventually msg)).objects = s.objects :=
      List.modify_eq_self (not_lt.mp hlength)
    unfold brings
    rw [McpShard.object_congr hobjects, hpushed, if_neg List.not_mem_nil]
    exact .keeps rfl rfl

/-- What an operation does to the queue of an object. -/
theorem flows_shardExec (htables : s.Linked ∧ s.subscriptions.Distinct) (cfg : McpServerConfig)
    (j : ℕ) (now : Int) (op : ShardI.Op) :
    (s.object ref).Flows (brings L ref op s) (gives ref op (shardExec L cfg j now op s).1)
      ((shardExec L cfg j now op s).2.object ref) := by
  have keeps : ∀ {s' : McpShard}, s'.object ref = s.object ref →
      (s.object ref).Flows [] [] (s'.object ref) := fun h => by
    rw [h]
    exact .keeps rfl rfl
  rcases op with op | op
  · exact flows_handlerCall ref htables op
  · cases op with
    | popEventually ref' => exact flows_updateObject (fun o => o.flows_popEventually) rfl ref' ref
    | popWaiting ref' n => exact flows_updateObject (fun o => o.flows_popWaiting n) rfl ref' ref
    | pushEventually ref' msg => exact flows_pushEventually ref ref' msg
    | deactivate ref' =>
      have hflows := flows_updateObject (s := s) (f := fun o => { o with active := false })
        (g := fun _ => []) (fun _ => .keeps rfl rfl) rfl ref' ref
      rwa [ite_self] at hflows
    | createSession clientIp =>
      rcases s.createSession_frame cfg j clientIp with heq | ⟨_, _, heq⟩
      · exact keeps (congrArg (McpShard.object · ref) heq)
      · exact keeps (object_append (congrArg McpShard.objects heq) ref)
    | createSessionWithId id clientIp =>
      obtain ⟨_, _, heq⟩ := s.newSession_trackIpConn_frame id clientIp
      exact keeps (object_append (congrArg McpShard.objects heq) ref)
    | removeSession id =>
      obtain ⟨_, _, heq⟩ := s.removeSession_frame id
      exact keeps (McpShard.object_congr (congrArg McpShard.objects heq) ref)
    | checkRequest clientIp apiKey =>
      obtain ⟨_, _, heq⟩ := s.checkRequest_frame cfg now clientIp apiKey
      exact keeps (McpShard.object_congr (congrArg McpShard.objects heq) ref)
    | recordOutcome clientIp isRpcError =>
      obtain ⟨_, heq⟩ := s.recordOutcome_frame now clientIp isRpcError
      exact keeps (McpShard.object_congr (congrArg McpShard.objects heq) ref)
    | handleClientResponse response =>
      obtain ⟨_, _, heq⟩ := s.handleClientResponse_frame response
      exact keeps (McpShard.object_congr (congrArg McpShard.objects heq) ref)
    | _ => exact .keeps rfl rfl

end Calls

end Pushes

/-- Where a request stands with the queue of its stream: before the stream is opened, at work on
it, or with a pop that waits. -/
inductive Service
  | before
  | serving (ref : ℕ)
  | popping (ref n : ℕ)

namespace Service

def object : Service → Option ℕ
  | .before => none
  | .serving ref | .popping ref _ => some ref

def next : Service → (op : ShardI.Op) → ShardI.Res op → Service
  | _, .inr (.respond reply), _ => (reply.stream.map (fun s => .serving s.session)).getD .before
  | _, .inr (.popEventually ref), (popped : Popped) =>
      match popped with
      | .message _ => .serving ref
      | .waiter n => .popping ref n
  | _, .inr (.popWaiting ref _), _ => .serving ref
  | q, _, _ => q

end Service

/-- A request opens a stream once, and pops from the queue of its stream. -/
def service : Contract ShardI Service where
  init := .before
  allows
    | q, .inr (.respond _) => q = .before
    | q, .inr (.popEventually ref) => q = .serving ref
    | q, .inr (.popWaiting ref n) => q = .popping ref n
    | _, _ => True
  answers _ _ := True
  next := Service.next
  child _ := .before
  rests _ := True
  addresses _ := True

namespace Service

def Neutral : ShardI.Op → Prop
  | .inr (.respond _) | .inr (.popEventually _) | .inr (.popWaiting _ _) => False
  | _ => True

theorem idle_neutral : service.Idle Neutral (fun _ => True) where
  allows q op _ hop := by
    rcases op with op | op
    · trivial
    · cases op <;> trivial
  next q op r _ hop := by
    rcases op with op | op
    · rfl
    · cases op <;> first | rfl | exact hop.elim
  rests _ _ := trivial
  child _ _ := trivial

theorem neutral_of_beforeReply {op : ShardI.Op} (h : BeforeReply op) : Neutral op := by
  rcases op with op | op
  · trivial
  · cases op <;> trivial

theorem follows_of_calls {α : Type} {t : ShardTask α} {A : ShardI.Op → Prop}
    (h : t.Calls A (fun _ => True)) (hA : ∀ op, A op → Neutral op) (q : Service) :
    t.Follows service q (fun _ q' => q' = q) (fun _ q' => q' = q) :=
  (Coroutine.Follows.of_calling (idle_neutral.mono hA) (fun _ _ => trivial) trivial h).mono
    (fun _ _ h => h.2) (fun _ _ h => h.2)

end Service

section Programs
open Service

def Stops (w : Option WriterState) (q : Service) : Prop :=
  w.elim True (fun w => q = .serving w.stream.session)

theorem sends_before (reply : Reply) : Sends service Stops reply .before where
  allows := rfl
  rests := trivial
  streams := by cases hstream : reply.stream <;> simp [Stops, service, next, hstream]
  fails := trivial

theorem follows_program (srv : McpServer) (j : ℕ) (work : Work srv.Job) :
    (srv.program j work).Follows service .before Stops (fun _ _ => True) := by
  rcases srv.program_cases j work with ⟨handler, hprogram, hcalls⟩ | ⟨x, hprogram⟩ <;> rw [hprogram]
  · refine follows_serve ((follows_of_calls hcalls
      (fun _ h => neutral_of_beforeReply h) .before).mono ?_ ?_)
    · rintro reply _ rfl
      exact sends_before reply
    · rintro _ _ rfl reply _ _
      exact sends_before reply
  · have hcalls : (srv.job j x).inl.Calls Neutral (fun _ => True) :=
      Coroutine.Calls.inl (Coroutine.Addresses.of_all (fun _ => trivial) _)
    exact (Coroutine.follows_bind _ _).mpr ((follows_of_calls hcalls (fun _ h => h) .before).mono
      (fun _ _ _ => trivial) (fun _ _ _ => trivial))

theorem follows_closeStream (s : Stream) (q : Service) :
    (closeStream s).Follows service q (fun _ q' => q' = q) (fun _ q' => q' = q) := by
  unfold closeStream
  split
  · exact ⟨trivial, fun _ _ => ⟨trivial, fun _ _ => ⟨trivial, fun _ => rfl⟩⟩⟩
  · exact ⟨trivial, fun _ _ => ⟨trivial, fun _ => rfl⟩⟩

def AtHead (s : Stream) (q : Service) : Prop := q = .serving s.session

theorem follows_guarded_atHead {s : Stream} {t : ShardTask Bool}
    (ht : t.Follows service (.serving s.session) (fun _ => AtHead s) (fun _ => AtHead s)) :
    (guarded s t).Follows service (.serving s.session) Stops (fun _ _ => True) :=
  follows_guarded ht trivial rfl rfl ((follows_closeStream s _).mono
    (fun _ _ _ => trivial) (fun _ _ _ => trivial))

theorem follows_writeOut (s : Stream) (text : Str) : (writeOut s.sessionId text).Follows service
    (.serving s.session) (fun _ => AtHead s) (fun _ => AtHead s) :=
  follows_of_calls (calls_writeOut (A := Neutral) trivial) (fun _ h => h) _

theorem follows_popMessage (s : Stream) : (popMessage s.session).Follows service
    (.serving s.session) (fun _ => AtHead s) (fun _ => AtHead s) := by
  refine ⟨rfl, fun popped _ => ?_⟩
  cases popped with
  | message msg => exact ⟨trivial, fun _ => rfl⟩
  | waiter n =>
    refine ⟨trivial, rfl, fun msg _ => ?_⟩
    cases msg <;> rfl

theorem follows_writerTurn (s : Stream) : (writerTurn s).Follows service (.serving s.session)
    (fun _ => AtHead s) (fun _ => AtHead s) := by
  refine idle_neutral.perform_bind (I := ShardI) trivial (by trivial) (fun active => ?_)
  split
  · rfl
  · refine (Coroutine.follows_bind _ _).mpr ((follows_popMessage s).mono ?_ (fun _ _ h => h))
    rintro msg _ rfl
    refine idle_neutral.perform_bind (I := ShardI) trivial (by trivial) (fun active => ?_)
    split
    · rfl
    · refine (Coroutine.follows_bind _ _).mpr ((follows_writeOut s _).mono ?_ (fun _ _ h => h))
      rintro _ _ rfl
      rfl

theorem follows_runWriter (w : WriterState) :
    (runWriter w).Follows service (.serving w.stream.session) Stops (fun _ _ => True) := by
  cases w with
  | opening s =>
    refine follows_guarded_atHead ((Coroutine.follows_bind _ _).mpr
      ((follows_writeOut s _).mono ?_ (fun _ _ h => h)))
    rintro _ _ rfl
    rfl
  | looping s => exact follows_guarded_atHead (follows_writerTurn s)

end Programs

section Runs
variable {srv : McpServer}

/-- The task works on the queue of the object, and has not ended. -/
def serves (j ref : ℕ) (t : Running ShardI Input Exception (Origin srv.Job) WriterState) : Bool :=
  t.shard == j && !t.done && (phase service t.past).object == some ref

/-- A pop of the task waits at the queue of the object, and no push has woken it. -/
def waitsFor (c : srv.State) (j ref : ℕ)
    (t : Running ShardI Input Exception (Origin srv.Job) WriterState) : Bool :=
  t.shard == j && match t.task with
    | .wait (.inr (.popWaiting ref' n)) _ =>
        ref' == ref && !((c.shards j).object ref).woken.contains n
    | _ => false

/-- The event pushes a message to the queue of the object. -/
def pushes (srv : McpServer) (j ref : ℕ) (e : Event ShardI (Origin srv.Job) McpShard) : Bool :=
  e.shard == j && decide (ref ∈ pushed srv.L e.op e.before)

def pops (j ref : ℕ) (e : Event ShardI (Origin srv.Job) McpShard) : Bool :=
  e.shard == j && takes ref e.op e.res

/-- The messages that have been pushed to the object and not yet been taken. -/
def outstanding (srv : McpServer) (log : List (Event ShardI (Origin srv.Job) McpShard))
    (j ref : ℕ) : ℕ :=
  log.countP (pushes srv j ref) - log.countP (pops j ref)

/-- The pushes that wait for room: their messages are neither taken nor in the queue. -/
def waitingPushes (c : srv.State) (j ref : ℕ) : ℕ :=
  outstanding srv c.log j ref - ((c.shards j).object ref).messages.length

/-- At every queue at most one pop waits for a message, and at most one push for room. -/
structure OneWaiter (c : srv.State) : Prop where
  pops : ∀ j ref, c.tasks.countP (waitsFor c j ref) ≤ 1
  pushes : ∀ j ref, waitingPushes c j ref ≤ 1

/-- What has to be so when a step is taken. A stream is opened when no other stream of the session
is open; and a message is pushed to a session whose client is at most a queue of messages behind. -/
structure Attended (c : srv.State) (_ : Label Input (Origin srv.Job)) (c' : srv.State) :
    Prop where
  opening : ∀ e reply s, c'.log = e :: c.log → e.op = .inr (.respond reply) →
    reply.stream = some s → ∀ t ∈ c.tasks, serves e.shard s.session t = false
  pushing : ∀ e, c'.log = e :: c.log → ∀ ref ∈ pushed srv.L e.op e.before,
    outstanding srv c.log e.shard ref ≤ SseSession.capacity

theorem keeps_service (srv : McpServer) : Keeps srv.system (fun _ => service) (fun _ => True)
    (fun _ w q => q = .serving w.stream.session) where
  answers _ _ _ _ _ := trivial
  program o _ := follows_program srv o.shard o.work
  again _ w q hq := by
    subst hq
    exact follows_runWriter w

theorem object_next {q : Service} {op : ShardI.Op} {r : ShardI.Res op} {ref : ℕ}
    (hallows : service.allows q op) (h : (q.next op r).object = some ref) :
    q.object = some ref ∨
      ∃ reply s, op = .inr (.respond reply) ∧ reply.stream = some s ∧ s.session = ref := by
  rcases op with op | op
  · exact .inl h
  · cases op with
    | respond reply =>
      cases hstream : reply.stream with
      | none =>
        simp [Service.next, hstream, Service.object] at h
      | some s =>
        have hsession : s.session = ref := by
          simpa [Service.next, hstream, Service.object] using h
        exact .inr ⟨reply, s, rfl, hstream, hsession⟩
    | popEventually ref' =>
      obtain rfl : q = .serving ref' := hallows
      cases r <;> exact .inl h
    | popWaiting ref' n =>
      obtain rfl : q = .popping ref' n := hallows
      exact .inl h
    | _ => exact .inl h

variable {steps : List (Label Input (Origin srv.Job))} {c : srv.State}

theorem countP_serves_le (h : srv.Reaches steps c)
    (hattended : LabelledRuns.Along srv.system.step Attended srv.system.start steps) (j ref : ℕ) :
    c.tasks.countP (serves j ref) ≤ 1 := by
  refine countP_le_one_of_run (serves j ref) ?_ ?_ ?_ ?_ hattended h
  · intro j' o task
    simp [serves, phase, service, Service.object]
  · intro j' o past task
    simp [serves, phase, service, Service.object]
  · rintro ⟨j', o, past, old⟩ heard task hgoes hserves
    simp only [serves, Bool.and_eq_true] at hserves ⊢
    refine ⟨⟨hserves.1.1, ?_⟩, hserves.2⟩
    cases hgoes <;> rfl
  · rintro steps c l c' hrun hl e hlog ⟨j', o, past, old⟩ ht hshard task hgoes hserves
    have htrack := ((onTrack_of_run (keeps_service srv) (fun l _ => l.launches_true) hrun).1 _
      ht).2.2
    simp only [serves, Bool.and_eq_true, beq_iff_eq] at hserves ⊢
    obtain ⟨⟨hj, -⟩, hobject⟩ := hserves
    have hallows : service.allows (phase service past) e.op ∧
        (Running.done (⟨j', o, past, old⟩ :
          Running ShardI Input Exception (Origin srv.Job) WriterState)) = false := by
      cases hgoes with
      | call => exact ⟨htrack.1, rfl⟩
      | wait => exact ⟨htrack.2.1, rfl⟩
    rcases object_next hallows.1 hobject with hold | ⟨reply, s, hop, hstream, hsession⟩
    · exact .inl ⟨⟨hj, by rw [hallows.2]; rfl⟩, hold⟩
    · right
      subst hsession hj hshard
      exact hl.opening e reply s hlog hop hstream

theorem serves_of_waitsFor {t : Running ShardI Input Exception (Origin srv.Job) WriterState}
    (htrack : OnTrack srv.system (fun _ => service)
      (fun _ w q => q = .serving w.stream.session) t) {j ref : ℕ} (h : waitsFor c j ref t) :
    serves j ref t := by
  obtain ⟨j', o, past, task⟩ := t
  have hfollows := htrack.2.2
  simp only [waitsFor, Bool.and_eq_true, beq_iff_eq] at h
  obtain ⟨rfl, hwaits⟩ := h
  split at hwaits
  · rename_i ref' n k
    obtain ⟨href, -⟩ := Bool.and_eq_true_iff.mp hwaits
    obtain rfl : ref' = ref := beq_iff_eq.mp href
    have hphase : phase service past = .popping ref' n := hfollows.2.1
    simp [serves, Running.done, hphase, Service.object]
  · cases hwaits

theorem flows_of_call (h : srv.Reaches steps c) {e : Event ShardI (Origin srv.Job) McpShard}
    (hbefore : e.before = c.shards e.shard)
    (hexec : srv.system.exec e.shard e.now e.op e.before = (e.res, e.after)) (ref : ℕ) :
    (e.before.object ref).Flows (brings srv.L ref e.op e.before) (gives ref e.op e.res)
      (e.after.object ref) := by
  have htables := (tables_of_run h).1 e.shard
  rw [← hbefore] at htables
  have hflows := flows_shardExec ref (L := srv.L) htables srv.cfg e.shard e.now e.op
  rwa [show shardExec srv.L srv.cfg e.shard e.now e.op e.before = (e.res, e.after) from hexec]
    at hflows

/-- Where no push finds a queue more than full, what has been pushed to a queue has been taken from
it, is in it, or waits for room. -/
theorem countP_pushes (h : srv.Reaches steps c)
    (hattended : LabelledRuns.Along srv.system.step Attended srv.system.start steps) (j ref : ℕ) :
    c.log.countP (pushes srv j ref) =
      c.log.countP (pops j ref) + ((c.shards j).object ref).held := by
  refine LabelledRuns.invariant_of_reached (J := fun c : srv.State =>
    c.log.countP (pushes srv j ref) = c.log.countP (pops j ref) + ((c.shards j).object ref).held)
    rfl ?_ hattended h
  intro steps c l c' hrun hold hstep hl
  cases advance_of_step hstep with
  | stays more htasks hshards hlog | goes more hi hgoes hheard htasks hshards hlog =>
    rw [hlog, hshards]
    exact hold
  | calls e hi hgoes hshard horigin hpast hbefore hexec htasks hshards hlog =>
    rw [hlog, hshards, List.countP_cons, List.countP_cons]
    by_cases hj : e.shard = j
    · subst hj
      rw [Function.update_self]
      rw [← hbefore] at hold
      have hflows := flows_of_call hrun hbefore hexec ref
      have hroom : brings srv.L ref e.op e.before ≠ [] →
          (e.before.object ref).held ≤ SseSession.capacity := by
        intro hbrings
        have hmem : ref ∈ pushed srv.L e.op e.before := by
          by_contra hmem
          exact hbrings (if_neg hmem)
        have hbehind := hl.pushing e hlog ref hmem
        rwa [outstanding, hold, Nat.add_sub_cancel_left] at hbehind
      have hheld := hflows.held hroom
      rw [length_gives] at hheld
      simp only [pushes, pops, beq_self_eq_true, Bool.true_and]
      cases htakes : takes ref e.op e.res <;>
        by_cases hpushed : ref ∈ pushed srv.L e.op e.before <;>
          simp [htakes, hpushed, brings] at hheld ⊢ <;> omega
    · rw [Function.update_of_ne (Ne.symm hj)]
      simp [pushes, pops, hj, hold]

/-- In every run whose steps are attended, at most one pop and one push wait at each queue. -/
theorem one_waiter_of_run (srv : McpServer) {steps : List (Label Input (Origin srv.Job))}
    {c : srv.State} (h : srv.Reaches steps c)
    (hattended : LabelledRuns.Along srv.system.step Attended srv.system.start steps) :
    OneWaiter c where
  pops j ref := by
    have htrack := (onTrack_of_run (keeps_service srv) (fun l _ => l.launches_true) h).1
    calc c.tasks.countP (waitsFor c j ref)
        ≤ c.tasks.countP (serves j ref) :=
          List.countP_mono_left (fun t ht hwaits => serves_of_waitsFor (htrack t ht) hwaits)
      _ ≤ 1 := countP_serves_le h hattended j ref
  pushes j ref := by
    have haccount := countP_pushes h hattended j ref
    have hdelayed : ((c.shards j).object ref).delayed.toList.length ≤ 1 := by
      cases ((c.shards j).object ref).delayed <;> simp
    unfold waitingPushes outstanding
    unfold SseSession.held at haccount
    omega

end Runs

section Examples

def streamServer : McpServer := SessionRouting.plainServer 1 Nat.one_pos

/-- Task `i` takes `n` steps. -/
def advances (i n : ℕ) : List (Label Input (Origin Empty)) := List.replicate n (.advance i)

/-- The world outside answers task `i` as often. -/
def answers (i n : ℕ) : List (Label Input (Origin Empty)) :=
  List.replicate n (.resume i (.ok .null))

def openStream : List (Label Input (Origin Empty)) :=
  .launch ⟨0, .postMcp { header := fun k =>
    if k = "accept".toList then "text/event-stream".toList else [] }⟩ ::
  (advances 0 6 ++ answers 0 2 ++ advances 0 3 ++ answers 0 1 ++ advances 0 3 ++ answers 0 1 ++
    advances 0 2 ++ answers 0 2 ++ advances 0 3)

def ofStream : Request := { header := SessionRouting.sessionHeader "sm0_1".toList }

def deleteStream : List (Label Input (Origin Empty)) :=
  .launch ⟨0, .deleteMcp ofStream⟩ ::
  (advances 1 5 ++ answers 1 1 ++ .wake 0 :: (advances 0 3 ++ answers 0 1))

def reconnectStream : List (Label Input (Origin Empty)) :=
  .launch ⟨0, .getMcp ofStream⟩ :: (advances 1 3 ++ answers 1 1 ++ advances 1 3)

/-- The test of `Attended` for a step. -/
def attended (c : streamServer.State) (_ : Label Input (Origin streamServer.Job))
    (c' : streamServer.State) : Bool :=
  c'.log.length == c.log.length || c'.log.head?.all (fun e =>
    (pushed streamServer.L e.op e.before).all (fun ref =>
      decide (outstanding streamServer c.log e.shard ref ≤ SseSession.capacity)) &&
    match e.op with
    | .inr (.respond reply) => reply.stream.all (fun s =>
        c.tasks.all (fun t => !serves e.shard s.session t))
    | _ => true)

theorem attended_sound (c : streamServer.State) (l : Label Input (Origin streamServer.Job))
    (c' : streamServer.State) (h : attended c l c') : Attended c l c' := by
  have hnew : ∀ e, c'.log = e :: c.log → _ := fun e hlog => by
    rw [attended, hlog] at h
    simpa only [List.length_cons, beq_iff_eq, Nat.succ_ne_self, Bool.or_eq_true, false_or,
      List.head?_cons, Option.all_some, Bool.and_eq_true, List.all_eq_true,
      decide_eq_true_eq] using h
  constructor
  · intro e reply s hlog hop hstream t ht
    have hopening := (hnew e hlog).2
    simp only [hop, hstream, Option.all_some, List.all_eq_true, Bool.not_eq_true'] at hopening
    exact hopening t ht
  · exact fun e hlog => (hnew e hlog).1

/-- The writer of one stream waits alone, until the session is deleted. -/
theorem one_waiter_of_run_deleteStream :
    ∃ c c', streamServer.Reaches openStream c ∧
      streamServer.Reaches (openStream ++ deleteStream) c' ∧
      c.tasks.countP (waitsFor c 0 0) = 1 ∧ (∀ t ∈ c'.tasks, t.done) ∧
      OneWaiter c ∧ OneWaiter c' := by
  have hopen : (LabelledRuns.testedRun streamServer.system.step attended
      streamServer.system.start openStream).any (fun c =>
        c.tasks.countP (waitsFor c 0 0) == 1) := by
    decide +kernel
  have hdelete : (LabelledRuns.testedRun streamServer.system.step attended
      streamServer.system.start (openStream ++ deleteStream)).any (fun c =>
        c.tasks.all (·.done)) := by
    decide +kernel
  obtain ⟨c, hc, hone⟩ := (Option.any_eq_true _ _).mp hopen
  obtain ⟨c', hc', hdone⟩ := (Option.any_eq_true _ _).mp hdelete
  obtain ⟨hreaches, hattended⟩ := LabelledRuns.along_of_testedRun attended_sound hc
  obtain ⟨hreaches', hattended'⟩ := LabelledRuns.along_of_testedRun attended_sound hc'
  exact ⟨c, c', hreaches, hreaches', beq_iff_eq.mp hone, List.all_eq_true.mp hdone,
    one_waiter_of_run streamServer hreaches hattended,
    one_waiter_of_run streamServer hreaches' hattended'⟩

/-- The pop of the second stream takes the place of the first one's. -/
theorem two_pops_wait :
    ∃ c, streamServer.Reaches (openStream ++ reconnectStream) c ∧
      c.tasks.countP (waitsFor c 0 0) = 2 ∧ ¬OneWaiter c := by
  have hrun : (LabelledRuns.run streamServer.system.step streamServer.system.start
      (openStream ++ reconnectStream)).any (fun c => c.tasks.countP (waitsFor c 0 0) == 2) := by
    decide +kernel
  obtain ⟨c, hc, hp⟩ := (Option.any_eq_true _ _).mp hrun
  have htwo := beq_iff_eq.mp hp
  refine ⟨c, hc, htwo, fun hone => ?_⟩
  have hpops := hone.pops 0 0
  omega

end Examples

end QueueWaiters
end McpSdk

import McpSdk.SessionLifecycles
import McpSdk.TaskTurns

/-!
# Closed streams

The end of a session's object. Whoever sets `active` to `false`, whether a DELETE, a writer whose
connection has failed or one that stops, sets it for good: no method of the shard puts a message
into the queue any more, and no writer sends one, also of those that are still there. Between the
test of `active` and the write nothing else runs on the shard.
-/

namespace McpSdk.ClosedStreams
open CppStandardLibrary CooperativeTasks ClusterRuns WriterTranscripts

section Objects
variable {s : McpShard} {ref : ℕ}

theorem active_popFront (o : SseSession) : o.popFront.active = o.active := by
  unfold SseSession.popFront
  cases o.delayed <;> rfl

theorem active_popEventually (o : SseSession) : o.popEventually.2.active = o.active := by
  unfold SseSession.popEventually
  cases o.messages with
  | nil => rfl
  | cons msg rest => exact active_popFront o

theorem active_popWaiting (o : SseSession) (n : ℕ) : (o.popWaiting n).2.active = o.active := by
  unfold SseSession.popWaiting
  cases o.messages with
  | nil => rfl
  | cons msg rest =>
    dsimp only
    split
    · exact active_popFront o
    · rfl

theorem active_updateObject {f : SseSession → SseSession} (hf : ∀ o, (f o).active → o.active)
    (ref' : ℕ) (h : ((s.updateObject ref' f).object ref).active) : (s.object ref).active := by
  by_cases hlength : ref' < s.objects.length
  · rw [McpShard.object_updateObject f hlength] at h
    split at h
    · rename_i href
      rw [← href]
      exact hf _ h
    · exact h
  · have hobjects : (s.updateObject ref' f).objects = s.objects :=
      List.modify_eq_self (not_lt.mp hlength)
    rwa [McpShard.object_congr hobjects] at h

theorem active_pushToSession {id msg : Str} (h : ((s.pushToSession id msg).object ref).active) :
    (s.object ref).active := by
  unfold McpShard.pushToSession at h
  split at h
  · split at h
    · exact active_updateObject (fun o ho => by rwa [SseSession.pushEventually_active] at ho) _ h
    · exact h
  · exact h

theorem active_pushToSessions {msg : Str} {ids : List Str}
    (h : ((ids.foldl (fun s id => s.pushToSession id msg) s).object ref).active) :
    (s.object ref).active := by
  induction ids generalizing s with
  | nil => exact h
  | cons id ids ih => exact active_pushToSession (ih h)

/-- No operation makes an object active again. -/
theorem active_shardExec {L : JsonLibrary} {cfg : McpServerConfig} {j : ℕ} {now : Int}
    {op : ShardI.Op} (h : ((shardExec L cfg j now op s).2.object ref).active) :
    (s.object ref).active := by
  have same : ∀ {s' : McpShard}, s'.object ref = s.object ref → (s'.object ref).active →
      (s.object ref).active := fun heq h => heq ▸ h
  rcases op with op | op
  · rw [shardExec, McpShard.object_congr (QueueWaiters.objects_handlerCall op s)] at h
    exact active_pushToSessions h
  · cases op with
    | popEventually ref' =>
      exact active_updateObject (fun o ho => by rwa [active_popEventually] at ho) ref' h
    | popWaiting ref' n =>
      exact active_updateObject (fun o ho => by rwa [active_popWaiting] at ho) ref' h
    | pushEventually ref' msg =>
      exact active_updateObject (fun o ho => by rwa [SseSession.pushEventually_active] at ho) ref' h
    | deactivate ref' => exact active_updateObject (fun o ho => by cases ho) ref' h
    | createSession clientIp =>
      rcases s.createSession_frame cfg j clientIp with heq | ⟨_, _, heq⟩
      · exact same (congrArg (McpShard.object · ref) heq) h
      · exact same (QueueWaiters.object_append (congrArg McpShard.objects heq) ref) h
    | createSessionWithId id clientIp =>
      obtain ⟨_, _, heq⟩ := s.newSession_trackIpConn_frame id clientIp
      exact same (QueueWaiters.object_append (congrArg McpShard.objects heq) ref) h
    | removeSession id =>
      obtain ⟨_, _, heq⟩ := s.removeSession_frame id
      exact same (McpShard.object_congr (congrArg McpShard.objects heq) ref) h
    | checkRequest clientIp apiKey =>
      obtain ⟨_, _, heq⟩ := s.checkRequest_frame cfg now clientIp apiKey
      exact same (McpShard.object_congr (congrArg McpShard.objects heq) ref) h
    | recordOutcome clientIp isRpcError =>
      obtain ⟨_, heq⟩ := s.recordOutcome_frame now clientIp isRpcError
      exact same (McpShard.object_congr (congrArg McpShard.objects heq) ref) h
    | handleClientResponse response =>
      obtain ⟨_, _, heq⟩ := s.handleClientResponse_frame response
      exact same (McpShard.object_congr (congrArg McpShard.objects heq) ref) h
    | _ => exact h

end Objects
section Writers

/-- A request with the object its stream is for; `seen` says that its last call has found the object
active. -/
structure Watch where
  session : Option ℕ := none
  seen : Bool := false

def Watch.next (q : Watch) : (op : ShardI.Op) → ShardI.Res op → Watch
  | .inr (.respond reply), _ => { session := reply.stream.map Stream.session }
  | .inr (.isActive ref), (active : Bool) =>
      { q with seen := active && q.session == some ref }
  | _, _ => { q with seen := false }

def Watch.Allows (q : Watch) : ShardI.Op → Prop
  | .inr (.write _ text) => q.seen ∨ ∃ id, text = endpointEvent id
  | _ => True

/-- Messages are written while the object is seen to be active. -/
def watching : Contract ShardI Watch where
  init := {}
  allows := Watch.Allows
  answers _ _ := True
  next := Watch.next
  child _ := {}
  rests q := q.seen = false
  addresses _ := True

theorem idle_watching : watching.Idle BeforeReply (fun q => q = {}) where
  allows q op _ hop := by
    rcases op with op | op
    · trivial
    · cases op <;> trivial
  next q op r hq hop := by
    obtain rfl := hq
    rcases op with op | op
    · rfl
    · cases op <;> first | rfl | exact hop.elim
  rests _ hq := hq ▸ rfl
  child _ _ := rfl

def Ready (w : WriterState) (q : Watch) : Prop := q = { session := some w.stream.session }

def Stops (w : Option WriterState) (q : Watch) : Prop := w.elim (q.seen = false) (Ready · q)

theorem sends_watching (reply : Reply) : Sends watching Stops reply {} where
  allows := trivial
  rests := rfl
  streams := by
    change Stops _ { session := reply.stream.map Stream.session }
    cases reply.stream with
    | none => rfl
    | some s => simp [Stops, Ready]
  fails := rfl

theorem follows_program (srv : McpServer) (j : ℕ) (work : Work srv.Job) :
    (srv.program j work).Follows watching {} Stops (fun _ q => q.seen = false) := by
  rcases srv.program_cases j work with ⟨handler, hprogram, hcalls⟩ | ⟨x, hprogram⟩
  · rw [hprogram]
    refine follows_serve ((Coroutine.Follows.of_calling idle_watching (fun _ _ => trivial) rfl
      hcalls).mono ?_ ?_)
    · rintro reply _ ⟨-, rfl⟩
      exact sends_watching reply
    · rintro _ _ ⟨-, rfl⟩ reply - -
      exact sends_watching reply
  · have hcalls : (srv.job j x).inl.Calls BeforeReply (fun _ => True) :=
      Coroutine.Calls.inl (Coroutine.Addresses.of_all (fun _ => trivial) _)
    rw [hprogram]
    refine (Coroutine.follows_bind _ _).mpr ((Coroutine.Follows.of_calling idle_watching
      (fun _ _ => trivial) rfl hcalls).mono ?_ ?_)
    · rintro _ _ ⟨-, rfl⟩
      rfl
    · rintro _ _ ⟨-, rfl⟩
      rfl

theorem follows_closeStream (s : Stream) (q : Watch) :
    (closeStream s).Follows watching q (fun _ => Stops none) (fun _ q => q.seen = false) := by
  unfold closeStream
  split
  · exact ⟨trivial, fun _ _ => ⟨trivial, fun _ _ => ⟨rfl, fun _ => rfl⟩⟩⟩
  · exact ⟨trivial, fun _ _ => ⟨rfl, fun _ => rfl⟩⟩

theorem follows_writeOut {q : Watch} {id text : Str} (h : q.Allows (.inr (.write id text))) :
    (writeOut id text).Follows watching q (fun _ q' => q' = { session := q.session })
      (fun _ _ => True) := by
  refine ⟨h, fun _ _ => ⟨rfl, fun written => ?_⟩⟩
  cases written with
  | error e => trivial
  | ok _ =>
    refine ⟨rfl, fun flushed => ?_⟩
    cases flushed <;> trivial

theorem follows_popMessage (ref : ℕ) (q : Watch) :
    (popMessage ref).Follows watching q (fun _ q' => q' = { session := q.session })
      (fun _ _ => True) := by
  refine ⟨trivial, fun popped _ => ?_⟩
  cases popped with
  | message msg => exact ⟨rfl, fun _ => rfl⟩
  | waiter n =>
    refine ⟨rfl, trivial, fun msg _ => ?_⟩
    cases msg <;> trivial

theorem follows_writerTurn {s : Stream} {q : Watch} (hq : Ready (.looping s) q) :
    (writerTurn s).Follows watching q (fun again q' => again = true → Ready (.looping s) q')
      (fun _ _ => True) := by
  obtain rfl := hq
  refine (Coroutine.follows_bind _ _).mpr ⟨trivial, fun (active : Bool) _ => ?_⟩
  cases active with
  | false => exact fun h => by cases h
  | true =>
    refine (Coroutine.follows_bind _ _).mpr ((follows_popMessage _ _).mono ?_ (fun _ _ h => h))
    rintro msg _ rfl
    refine (Coroutine.follows_bind _ _).mpr ⟨trivial, fun (active : Bool) _ => ?_⟩
    change (if msg.isEmpty || !active then _ else _ : ShardTask Bool).Follows watching _ _ _
    split
    · exact fun h => by cases h
    · rename_i hgoes
      have hactive : active = true := by
        cases active with
        | true => rfl
        | false => exact absurd (Bool.or_true _) hgoes
      refine (Coroutine.follows_bind _ _).mpr ((follows_writeOut (.inl ?_)).mono ?_
        (fun _ _ h => h))
      · simp [watching, Watch.next, hactive, WriterState.stream]
      · rintro _ _ rfl -
        rfl

theorem follows_runWriter {w : WriterState} {q : Watch} (hq : Ready w q) :
    (runWriter w).Follows watching q Stops (fun _ q => q.seen = false) := by
  have closes : ∀ s : Stream, ∀ q' : Watch, watching.allows q' (.inr (.deactivate s.session)) ∧
      (closeStream s).Follows watching (watching.next q' (.inr (.deactivate s.session)) ())
        (fun _ => Stops none) (fun _ q => q.seen = false) :=
    fun s q' => ⟨trivial, follows_closeStream s _⟩
  have ends : ∀ s : Stream, ∀ again : Bool, ∀ q' : Watch,
      (again = true → Ready (.looping s) q') →
        if again then Stops (some (.looping s)) q'
        else (closeStream s).Follows watching q' (fun _ => Stops none)
          (fun _ q => q.seen = false) := by
    intro s again q' hready
    split
    · rename_i hagain
      exact hready hagain
    · exact follows_closeStream s q'
  cases w with
  | opening s =>
    obtain rfl := hq
    refine follows_guarded_of_closes ((Coroutine.follows_bind _ _).mpr
      ((follows_writeOut (.inr ⟨s.sessionId, rfl⟩)).mono ?_ (fun _ q' _ => closes s q')))
    rintro _ q' rfl
    exact ends s true _ (fun _ => rfl)
  | looping s =>
    exact follows_guarded_of_closes ((follows_writerTurn hq).mono (ends s)
      (fun _ q' _ => closes s q'))

theorem keeps_watching (srv : McpServer) :
    Keeps srv.system (fun _ => watching) (fun _ => True) (fun _ w q => Ready w q) where
  answers _ _ _ _ _ := trivial
  program o _ := (follows_program srv o.shard o.work).mono
    (fun x _ hq => by cases x <;> exact hq) (fun _ _ hq => hq)
  again _ w q hq := (follows_runWriter hq).mono
    (fun x _ hq => by cases x <;> exact hq) (fun _ _ hq => hq)

end Writers
section Histories
variable {past : List (Mark ShardI)}

theorem isActive_of_seen (h : (phase watching past).seen = true) :
    ∃ ref earlier, past = .did (.inr (.isActive ref)) true :: earlier ∧
      (phase watching past).session = some ref := by
  cases past with
  | nil => cases h
  | cons mark earlier =>
    cases mark with
    | started => cases h
    | did op r =>
      rcases op with op | op
      · cases h
      · cases op with
        | isActive ref =>
          have hseen : (r : Bool) = true ∧ ((phase watching earlier).session == some ref) = true :=
            Bool.and_eq_true_iff.mp h
          obtain ⟨hr, hsession⟩ := hseen
          obtain rfl : r = true := hr
          exact ⟨ref, earlier, rfl, beq_iff_eq.mp hsession⟩
        | _ => cases h

theorem session_eq (h : Lawful framing past) :
    (phase watching past).session = (transcript past).session := by
  induction past with
  | nil => rfl
  | cons mark past ih =>
    cases mark with
    | started => rfl
    | did op r =>
      rcases op with op | op
      · exact ih h.2
      · cases op <;> first | exact ih h.2 | rfl

end Histories

section Runs
variable {srv : McpServer} {steps : List (Label Input (Origin srv.Job))} {c : srv.State}

theorem active_of_write (h : srv.Reaches steps c) {e : Event ShardI (Origin srv.Job) McpShard}
    {older : List (Event ShardI (Origin srv.Job) McpShard)} (hs : e :: older <:+ c.log)
    {id text : Str} (hop : e.op = .inr (.write id text)) {ref : ℕ}
    (hsession : (transcript e.past).session = some ref) :
    (e.before.object ref).active ∨ ∃ id', text = endpointEvent id' := by
  have he : e ∈ c.log := hs.subset (.head _)
  have hlawful := (onTrack_of_run (keeps_watching srv) (fun l _ => l.launches_true) h).2 e he
  have hframing := (onTrack_of_run (keeps_framing srv) (fun l _ => l.launches_true) h).2 e he
  have hallows : (phase watching e.past).Allows e.op := hlawful.1.1
  rw [hop] at hallows
  rcases hallows with hseen | hendpoint
  · left
    obtain ⟨ref', earlier, hpast, hphase⟩ := isActive_of_seen hseen
    obtain rfl : ref' = ref :=
      Option.some.inj (hphase.symm.trans ((session_eq hframing.2).trans hsession))
    obtain ⟨a, ha, -, -, hhistory, hbefore⟩ := previous_of_run (keeps_watching srv)
      (fun _ => rfl) (fun _ _ => rfl) (fun l _ => l.launches_true) h hs
      (fun hrests : (phase watching e.past).seen = false => by rw [hseen] at hrests; cases hrests)
    have hexec := (coherent_of_run h).exec a (hs.subset (.tail _ ha))
    obtain ⟨j, now, o, past, op, res, before, after⟩ := a
    rw [hpast] at hhistory
    obtain ⟨⟨⟩, -⟩ := List.cons.inj hhistory
    obtain ⟨hactive, hafter⟩ := Prod.mk.inj hexec
    rw [hbefore]
    exact (congrArg (fun s => (McpShard.object s ref').active) hafter).symm.trans hactive
  · exact .inr hendpoint

theorem object_of_handlerCall {s : McpShard} (htables : s.Linked ∧ s.subscriptions.Distinct)
    {ref : ℕ} (hinactive : (s.object ref).active = false) (L : JsonLibrary) (op : HandlerCall) :
    (op.exec L s).2.object ref = s.object ref := by
  rw [McpShard.object_congr (QueueWaiters.objects_handlerCall op s),
    McpShard.object_pushToSessions (QueueWaiters.nodup_addressees htables.2 op) htables.1,
    if_neg]
  intro hmem
  obtain ⟨id, -, hid⟩ := List.mem_filterMap.mp hmem
  rw [(McpShard.target_eq_some_iff.mp hid).2] at hinactive
  cases hinactive

/-- In every run, once the object of a session has been deactivated, no method of the shard puts a
message into its queue, and no writer of its stream writes one. -/
theorem silenced_of_run (srv : McpServer) {steps : List (Label Input (Origin srv.Job))}
    {c : srv.State} (h : srv.Reaches steps c)
    {newer older : List (Event ShardI (Origin srv.Job) McpShard)}
    {d : Event ShardI (Origin srv.Job) McpShard} (hlog : c.log = newer ++ d :: older) {ref : ℕ}
    (hop : d.op = .inr (.deactivate ref)) (hlive : ref < d.before.objects.length) :
    ∀ e ∈ newer, e.shard = d.shard →
      (∀ call, e.op = .inl call → e.after.object ref = e.before.object ref) ∧
      ∀ id text, e.op = .inr (.write id text) → (transcript e.past).session = some ref →
        ∃ id', text = endpointEvent id' := by
  intro e he hshard
  have hcoherent := coherent_of_run h
  have hexec := hcoherent.exec
  obtain ⟨newer₁, newer₂, rfl⟩ := List.append_of_mem he
  have hs : e :: (newer₂ ++ d :: older) <:+ c.log := by
    rw [hlog, List.append_assoc, List.cons_append]
    exact List.suffix_append newer₁ _
  obtain ⟨shards, hshards, hbefore, -⟩ := hcoherent.of_suffix hs
  have hinactive : (e.before.object ref).active = false := by
    rw [hbefore, hshard]
    refine hshards.since (K := fun s => (s.object ref).active = false) ?_ (fun a ha hexec ha' => ?_)
    · have hd := SessionIds.after_eq (hexec d (by rw [hlog]; simp))
      obtain ⟨j, now, o, past, op, res, before, after⟩ := d
      obtain rfl : op = .inr (.deactivate ref) := hop
      have hafter : after = before.updateObject ref (fun o => { o with active := false }) := hd
      rw [hafter, McpShard.object_updateObject _ hlive, if_pos rfl]
    · rw [SessionIds.after_eq hexec]
      by_contra hactive
      rw [Bool.not_eq_false] at hactive
      rw [active_shardExec hactive] at ha'
      cases ha'
  constructor
  · intro call hcall
    have htables := (tables_of_run h).2 e (hs.subset (.head _))
    have hafter := SessionIds.after_eq (hexec e (hs.subset (.head _)))
    obtain ⟨j, now, o, past, op, res, before, after⟩ := e
    obtain rfl : op = .inl call := hcall
    exact (congrArg (McpShard.object · ref) hafter).trans
      (object_of_handlerCall htables hinactive srv.L call)
  · intro id text hwrite hsession
    rcases active_of_write h hs hwrite hsession with hactive | hendpoint
    · rw [hinactive] at hactive
      cases hactive
    · exact hendpoint

end Runs
section Examples
open StreamFraming SessionLifecycles

def deactivates (ref : ℕ) (e : Event ShardI (Origin HandlerCall) McpShard) : Bool :=
  match e.op with
  | .inr (.deactivate ref') => ref' == ref
  | _ => false

theorem op_of_deactivates {ref : ℕ} {e : Event ShardI (Origin HandlerCall) McpShard}
    (h : deactivates ref e) : e.op = .inr (.deactivate ref) := by
  unfold deactivates at h
  split at h
  · rename_i ref' hop
    rw [hop, beq_iff_eq.mp h]
  · cases h

theorem eq_of_getElem? {α : Type*} {l : List α} {n : ℕ} {a : α} (h : l[n]? = some a) :
    l = l.take n ++ a :: l.drop (n + 1) ∧ (l.take n).length = n := by
  obtain ⟨hlength, rfl⟩ := List.getElem?_eq_some_iff.mp h
  exact ⟨by rw [List.getElem_cons_drop, List.take_append_drop], List.length_take_of_le hlength.le⟩

/-- A session is deleted while its writer waits for a message; the writer wakes, and stops. -/
theorem silenced_of_run_closing :
    ∃ c newer d older, callingServer.Reaches
        (closing ++ .advance 1 :: .wake 0 :: List.replicate 3 (.advance 0)) c ∧
      c.log = newer ++ d :: older ∧ newer.length = 7 ∧ ∀ e ∈ newer, e.shard = d.shard →
        (∀ call, e.op = .inl call → e.after.object 0 = e.before.object 0) ∧
        ∀ id text, e.op = .inr (.write id text) → (transcript e.past).session = some 0 →
          ∃ id', text = endpointEvent id' := by
  have hrun : (LabelledRuns.run callingServer.system.step callingServer.system.start
      (closing ++ .advance 1 :: .wake 0 :: List.replicate 3 (.advance 0))).any (fun c =>
        c.log[7]?.any (fun d => deactivates 0 d && decide (0 < d.before.objects.length))) := by
    decide +kernel
  obtain ⟨c, hc, hp⟩ := (Option.any_eq_true _ _).mp hrun
  obtain ⟨d, hd, hp⟩ := (Option.any_eq_true _ _).mp hp
  obtain ⟨hop, hlive⟩ := Bool.and_eq_true_iff.mp hp
  obtain ⟨hlog, hlength⟩ := eq_of_getElem? hd
  exact ⟨c, _, _, _, hc, hlog, hlength,
    silenced_of_run callingServer hc hlog (op_of_deactivates hop) (of_decide_eq_true hlive)⟩

end Examples
end McpSdk.ClosedStreams

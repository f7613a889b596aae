import McpSdk.CompactJson
import McpSdk.OutstandingCalls
import McpSdk.SessionTables

/-!
# Log messages to all clients

A broadcast of a log message notifies every shard once, and there the queue of every open session
takes one copy of the text, which reads as the notification. This depends neither on the session
nor on the log level that clients have set. A message without a text reaches nobody.
-/

namespace McpSdk.LogBroadcasts
open CppStandardLibrary CooperativeTasks ClusterRuns

def broadcasts (text? : Option Str) : ShardI.Op → Bool
  | .inl (.broadcastNotification text) => text?.all (· == text)
  | _ => false

/-- The object belongs to a session that is open on the shard. -/
def Open (s : McpShard) (ref : ℕ) : Prop :=
  ∃ id, s.sessions.lookup id = some ref ∧ (s.object ref).active

/-- The queues of all open sessions take a copy, and nothing else changes. -/
structure Told (msg : Str) (s s' : McpShard) : Prop where
  queues : ∀ ref, Open s ref → s'.object ref = (s.object ref).pushEventually msg
  others : ∀ ref, ¬Open s ref → s'.object ref = s.object ref
  rest : ∃ objects, objects.length = s.objects.length ∧ s' = { s with objects := objects }

theorem told_broadcastNotification {s : McpShard} (hlinked : s.Linked) (msg : Str) :
    Told msg s (s.broadcastNotification msg) := by
  have hmem : ∀ ref, ref ∈ s.sessions.keys.filterMap s.target ↔ Open s ref := by
    intro ref
    rw [List.mem_filterMap]
    constructor
    · rintro ⟨id, -, htarget⟩
      exact ⟨id, McpShard.target_eq_some_iff.mp htarget⟩
    · rintro ⟨id, hlookup, hactive⟩
      refine ⟨id, ?_, McpShard.target_eq_some_iff.mpr ⟨hlookup, hactive⟩⟩
      rw [← AList.mem_keys, ← AList.lookup_isSome, hlookup]
      rfl
  have hobject : ∀ ref, (s.broadcastNotification msg).object ref =
      if ref ∈ s.sessions.keys.filterMap s.target then (s.object ref).pushEventually msg
      else s.object ref :=
    fun ref => McpShard.object_pushToSessions s.sessions.keys_nodup hlinked
  refine ⟨fun ref hopen => ?_, fun ref hclosed => ?_, s.pushAll_frame s.sessions.keys msg⟩
  · rw [hobject, if_pos ((hmem ref).mpr hopen)]
  · rw [hobject, if_neg (mt (hmem ref).mp hclosed)]

section Runs
variable {srv : McpServer} {level loggerName : Str} {data : Json} {K : ℕ}

/-- The work is a broadcast of the log message. -/
def Logs (srv : McpServer) (level loggerName : Str) (data : Json) (o : Origin srv.Job) : Prop :=
  ∃ x, o.work = .job x ∧ srv.job o.shard x =
    McpServer.broadcastLogNotification srv.L srv.count level loggerName data

theorem owes_logs {a : ShardI.Op → Bool} (ha : ∀ n, a (.inl (.gathered n)) = false) {w : ℕ}
    (hK : K < srv.count) {o : Origin srv.Job}
    (h : Logs srv level loggerName data o)
    (hshard : ∀ i, Owes a K (fun _ => True) i
      (McpServer.shardLogNotification srv.L level loggerName data).inl (if i = K then w else 0)) :
    Owes a K (· = none) o.shard (srv.program o.shard o.work) w := by
  obtain ⟨x, hwork, hjob⟩ := h
  have hprogram : srv.program o.shard o.work = (do
      (McpServer.broadcastLogNotification srv.L srv.count level loggerName data).inl
      return none : ShardTask (Option WriterState)) := by
    rw [hwork, ← hjob]
    rfl
  have hvisits : Owes a K (fun _ => True) o.shard
      (McpServer.broadcastLogNotification srv.L srv.count level loggerName data).inl w := by
    rw [McpServer.broadcastLogNotification, Coroutine.inl_invokeOnAll (I := HandlerI) .gathered]
    exact Owes.invokeOnAll ha hK hshard
  rw [hprogram]
  exact Owes.andThen (m := 0) hvisits (fun _ _ => ⟨rfl, rfl⟩) (fun _ => rfl)

theorem owes_shard {msg : Str}
    (hmsg : srv.L.dump (McpShard.logNotification level loggerName data) = some msg) (i : ℕ) :
    Owes (broadcasts (some msg)) K (fun _ => True) i
      (McpServer.shardLogNotification srv.L level loggerName data).inl (if i = K then 1 else 0) := by
  have htext : srv.L.dumpText (McpShard.logNotification level loggerName data) = .ok msg := by
    rw [JsonLibrary.dumpText, hmsg]
  rw [McpServer.shardLogNotification, htext]
  refine ⟨0, ?_, fun _ _ => ⟨rfl, trivial⟩⟩
  simp [counts, broadcasts]

theorem owes_shard_of_none
    (hmsg : srv.L.dump (McpShard.logNotification level loggerName data) = none) (i : ℕ) :
    Owes (broadcasts none) K (fun _ => True) i
      (McpServer.shardLogNotification srv.L level loggerName data).inl (if i = K then 0 else 0) := by
  rw [McpServer.shardLogNotification, JsonLibrary.dumpText, hmsg, ite_self]
  rfl

/-- Every shard gets each log message once, whatever the levels are, and all its open sessions do.
A message without a text is sent to none. -/
theorem logs_reach_sessions (srv : McpServer) {steps : List (Label Input (Origin srv.Job))}
    {c : srv.State} (h : srv.Reaches steps c) (level loggerName : Str) (data : Json)
    (logs : Origin srv.Job → Bool) (hlogs : ∀ o, logs o → Logs srv level loggerName data o) :
    (srv.L.dump (McpShard.logNotification level loggerName data) = none →
      ∀ K < srv.count, c.log.countP (Event.counted (broadcasts none) K logs) = 0) ∧
    ∀ msg, srv.L.dump (McpShard.logNotification level loggerName data) = some msg →
      srv.L.parse msg = some (McpShard.logNotification level loggerName data) ∧
      (∀ K < srv.count,
        c.log.countP (Event.counted (broadcasts (some msg)) K logs) ≤
          c.tasks.countP (Running.launched logs) ∧
        ((∀ t ∈ c.tasks, logs t.origin → t.done) →
          c.log.countP (Event.counted (broadcasts (some msg)) K logs) =
            c.tasks.countP (Running.launched logs))) ∧
      ∀ e ∈ c.log, broadcasts (some msg) e.op → Told msg e.before e.after := by
  refine ⟨fun hmsg K hK => ?_, fun msg hmsg => ⟨srv.L.parse_dump _ _ hmsg, fun K hK => ?_, ?_⟩⟩
  · have hcalls := calls_of_run (a := broadcasts none) (K := K) (w := 0)
      (fun o ho => owes_logs (fun _ => rfl) hK (hlogs o ho) (owes_shard_of_none hmsg)) h
    omega
  · have hcalls := calls_of_run (a := broadcasts (some msg)) (K := K) (w := 1)
      (fun o ho => owes_logs (fun _ => rfl) hK (hlogs o ho) (owes_shard hmsg)) h
    simpa only [Nat.one_mul] using hcalls
  · intro e he hop
    have hlinked := ((tables_of_run h).2 e he).1
    have hexec : shardExec srv.L srv.cfg e.shard e.now e.op e.before = (e.res, e.after) :=
      (coherent_of_run h).exec e he
    have hafter : e.after = (shardExec srv.L srv.cfg e.shard e.now e.op e.before).2 :=
      (congrArg Prod.snd hexec).symm
    have hbroadcast : e.op = .inl (.broadcastNotification msg) := by
      unfold broadcasts at hop
      split at hop
      · rename_i heq
        rw [heq, beq_iff_eq.mp hop]
      · cases hop
    rw [hafter, hbroadcast]
    exact told_broadcastNotification hlinked msg

end Runs

section Examples

def logServer : McpServer :=
  { McpServer.plain CompactJson.library .standard 2 Nat.two_pos with
    Job := Str
    job := fun _ text => McpServer.broadcastLogNotification CompactJson.library 2 "info".toList
      "app".toList (.string text)
    job_inRange := fun _ _ => McpServer.addresses_broadcastLogNotification _ 2 _ _ _ }

def isUp (o : Origin Str) : Bool :=
  match o.work with
  | .job text => text == "up".toList
  | _ => false

theorem logs_of_isUp (o : Origin Str) (h : isUp o) :
    Logs logServer "info".toList "app".toList (.string "up".toList) o := by
  obtain ⟨j, work⟩ := o
  cases work with
  | job text => exact ⟨text, rfl, by rw [← beq_iff_eq.mp h]; rfl⟩
  | _ => cases h

def logging : List (Label Input (Origin Str)) :=
  [.launch ⟨0, .getSse {}⟩, .advance 0, .advance 0, .advance 0, .advance 0,
    .launch ⟨1, .getSse {}⟩, .advance 1, .advance 1, .advance 1, .advance 1,
    .launch ⟨0, .job "up".toList⟩, .advance 2, .advance 2,
    .resume 3 (.ok .null), .advance 3, .resume 3 (.ok .null),
    .resume 4 (.ok .null), .advance 4, .resume 4 (.ok .null), .wake 2]

/-- Both shards are told, and both sessions. -/
theorem logs_reach_sessions_logging : ∃ c msg, logServer.Reaches logging c ∧
    c.tasks.countP (Running.launched isUp) = 1 ∧
    (∀ K < 2, c.log.countP (Event.counted (broadcasts (some msg)) K isUp) = 1) ∧
    ∀ e ∈ c.log, broadcasts (some msg) e.op → Open e.before 0 ∧
      e.after.object 0 = (e.before.object 0).pushEventually msg := by
  obtain ⟨msg, hmsg⟩ := Option.isSome_iff_exists.mp
    (show (CompactJson.library.dump (McpShard.logNotification "info".toList "app".toList
      (.string "up".toList))).isSome by decide +kernel)
  have hrun : (LabelledRuns.run logServer.system.step logServer.system.start logging).any
      (fun c => c.tasks.countP (Running.launched isUp) == 1 &&
        c.tasks.all (fun t => !isUp t.origin || t.done) &&
        c.log.all (fun e => !broadcasts none e.op || ((e.before.object 0).active &&
          e.before.sessions.entries.any (fun entry =>
            e.before.sessions.lookup entry.1 == some 0)))) := by
    decide +kernel
  obtain ⟨c, hc, hp⟩ := (Option.any_eq_true _ _).mp hrun
  simp only [Bool.and_eq_true, beq_iff_eq] at hp
  obtain ⟨⟨hone, hdone⟩, hopen⟩ := hp
  obtain ⟨-, hcount, htold⟩ := (logs_reach_sessions logServer hc "info".toList "app".toList
    (.string "up".toList) isUp logs_of_isUp).2 msg hmsg
  refine ⟨c, msg, hc, hone, fun K hK => ?_, fun e he hop => ?_⟩
  · refine ((hcount K hK).2 (fun t ht hup => ?_)).trans hone
    have htask := List.all_eq_true.mp hdone t ht
    simpa [hup] using htask
  · have hany : broadcasts none e.op = true := by
      unfold broadcasts at hop ⊢
      split at hop
      · rfl
      · cases hop
    have hevent := List.all_eq_true.mp hopen e he
    simp only [hany, Bool.not_true, Bool.false_or, Bool.and_eq_true, List.any_eq_true,
      beq_iff_eq] at hevent
    obtain ⟨hactive, entry, -, hlookup⟩ := hevent
    have hopened : Open e.before 0 := ⟨entry.1, hlookup, hactive⟩
    exact ⟨hopened, (htold e he hop).queues 0 hopened⟩

end Examples

end McpSdk.LogBroadcasts

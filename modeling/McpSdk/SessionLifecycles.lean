import McpSdk.SessionIds
import McpSdk.StreamFraming

/-!
# The lifecycles of sessions

A session is open from the event that issues its id to the first event that removes it, on one
shard. Since no id is issued twice, what is once closed is closed for good on all shards: nobody
finds it, and what is pushed to it goes nowhere.
-/

namespace McpSdk.SessionLifecycles
open CppStandardLibrary CooperativeTasks ClusterRuns SessionIds

section Statement
variable {O : Type}

/-- The event removes the session from the table of its shard. -/
def closes (id : Str) (e : Event ShardI O McpShard) : Bool :=
  match e.op with
  | .inr (.removeSession id') => id' == id
  | _ => false

/-- The session has been opened on shard `j`, with the object `ref`, and not been closed since. -/
def Open (log : List (Event ShardI O McpShard)) (j : ℕ) (id : Str) (ref : ℕ) : Prop :=
  ∃ newer e older, log = newer ++ e :: older ∧ e.shard = j ∧ issued e = some id ∧
    e.before.objects.length = ref ∧ ∀ r ∈ newer, r.shard = j → closes id r = false

/-- The life of a session: the shard that has opened it finds it until it is closed, and no shard
does afterwards. -/
structure Lifecycle {srv : McpServer} (c : srv.State) (id : Str) : Prop where
  found_iff : ∀ j ref, (c.shards j).getSession id = some ref ↔ Open c.log j id ref
  sole : ∀ j j' ref ref', (c.shards j).getSession id = some ref →
    (c.shards j').getSession id = some ref' → j = j' ∧ ref = ref'
  closed : ∀ newer r older, c.log = newer ++ r :: older → closes id r →
    r.before.getSession id ≠ none → ∀ j, (c.shards j).getSession id = none
  silent : ∀ newer r older, c.log = newer ++ r :: older → closes id r →
    r.before.getSession id ≠ none → ∀ e ∈ newer, e.before.getSession id = none ∧
      ∀ text, e.op = .inl (.pushToSession id text) → e.after = e.before

end Statement

section Tables
variable {srv : McpServer} {id : Str}

def entry {O : Type} (id : Str) (e : Event ShardI O McpShard) : Option (Option ℕ) :=
  if issued e = some id then some (some e.before.objects.length)
  else if closes id e then some none else none

theorem lookup_insert_eq (m : UnorderedMap Str ℕ) (id' : Str) (ref : ℕ) :
    (m.insert id' ref).lookup id = if id' = id then some ref else m.lookup id := by
  split
  · rename_i hsame
    rw [hsame, AList.lookup_insert]
  · rename_i hne
    exact AList.lookup_insert_ne (Ne.symm hne)

theorem getSession_inserted {O : Type} {e : Event ShardI O McpShard} {id' : Str}
    (hissued : issued e = some id') (hcloses : closes id e = false)
    (hsessions : e.after.sessions = e.before.sessions.insert id' e.before.objects.length) :
    e.after.getSession id = (entry id e).getD (e.before.getSession id) := by
  rw [McpShard.getSession, hsessions, lookup_insert_eq, entry, hissued, hcloses]
  by_cases hsame : id' = id
  · rw [if_pos hsame, if_pos (congrArg some hsame), Option.getD_some]
  · rw [if_neg hsame, if_neg (fun h => hsame (Option.some.inj h))]
    rfl

theorem getSession_removed {O : Type} {e : Event ShardI O McpShard} {id' : Str}
    (hissued : issued e = none) (hcloses : closes id e = (id' == id))
    (hsessions : e.after.sessions = e.before.sessions.erase id') :
    e.after.getSession id = (entry id e).getD (e.before.getSession id) := by
  rw [McpShard.getSession, hsessions, entry, hissued, hcloses, if_neg (fun h => by cases h)]
  by_cases hsame : id' = id
  · rw [if_pos (beq_iff_eq.mpr hsame), hsame, AList.lookup_erase]
    rfl
  · rw [if_neg (mt beq_iff_eq.mp hsame), AList.lookup_erase_ne (Ne.symm hsame)]
    rfl

theorem entry_eq_none_iff {O : Type} {e : Event ShardI O McpShard} :
    entry id e = none ↔ issued e ≠ some id ∧ closes id e = false := by
  unfold entry
  split
  · simp_all
  · split <;> simp_all

theorem entry_eq_some_iff {O : Type} {e : Event ShardI O McpShard} {ref : ℕ} :
    entry id e = some (some ref) ↔ issued e = some id ∧ e.before.objects.length = ref := by
  unfold entry
  split
  · simp_all
  · split <;> simp_all

theorem getSession_exec {e : Event ShardI (Origin srv.Job) McpShard}
    (hexec : shardExec srv.L srv.cfg e.shard e.now e.op e.before = (e.res, e.after)) :
    e.after.getSession id = (entry id e).getD (e.before.getSession id) := by
  have hframe := Frame.of_exec hexec
  obtain ⟨j, now, o, past, op, res, before, after⟩ := e
  have other : ¬ChangesSessions op → entry id ⟨j, now, o, past, op, res, before, after⟩ = none →
      after.getSession id = (entry id ⟨j, now, o, past, op, res, before, after⟩).getD
        (before.getSession id) := by
    intro hop hentry
    rw [hentry, McpShard.getSession, (hframe.sessions hop).1]
    rfl
  rcases op with op | op
  · exact other (fun h => h) rfl
  · cases op with
    | createSession ip =>
      have hexec : before.createSession srv.cfg j ip = (res, after) := hexec
      rcases before.createSession_eq srv.cfg j ip with hfull | ⟨_, _, hnew⟩
      · obtain ⟨rfl, rfl⟩ := Prod.mk.inj (hfull.symm.trans hexec)
        rfl
      · obtain ⟨rfl, rfl⟩ := Prod.mk.inj (hnew.symm.trans hexec)
        exact getSession_inserted (issuedBy_createSession ip j _) rfl rfl
    | createSessionWithId id' ip =>
      obtain ⟨_, _, hnew⟩ := before.newSession_trackIpConn_frame id' ip
      have hafter : before.createSessionWithId id' ip = after := congrArg Prod.snd hexec
      exact getSession_inserted rfl rfl (hafter ▸ congrArg McpShard.sessions hnew)
    | removeSession id' =>
      have hafter : before.removeSession id' = after := congrArg Prod.snd hexec
      obtain ⟨_, _, hremoved⟩ := before.removeSession_frame id'
      exact getSession_removed rfl rfl (hafter ▸ congrArg McpShard.sessions hremoved)
    | _ => exact other (fun h => h) rfl

theorem not_of_countP_le_one {α : Type*} {p : α → Bool} {l newer older : List α} {a : α}
    (hone : l.countP p ≤ 1) (h : l = newer ++ a :: older) (ha : p a) : ∀ b ∈ newer, ¬p b := by
  rw [h, List.countP_append, List.countP_cons, if_pos ha] at hone
  exact List.countP_eq_zero.mp (by omega)

theorem eq_of_countP_le_one {α : Type*} {p : α → Bool} {l newer older newer' older' : List α}
    {a a' : α} (hone : l.countP p ≤ 1) (h : l = newer ++ a :: older) (ha : p a)
    (h' : l = newer' ++ a' :: older') (ha' : p a') : newer = newer' ∧ a = a' := by
  have first : ∀ {newer older : List α} {a : α}, l = newer ++ a :: older → p a →
      l.takeWhile (fun b => !p b) = newer := by
    intro newer older a hl hpa
    have hnone := not_of_countP_le_one hone hl hpa
    rw [hl, List.takeWhile_append_of_pos (by simpa using hnone),
      List.takeWhile_cons_of_neg (by simp [hpa]), List.append_nil]
  have hnewer : newer = newer' := (first h ha).symm.trans (first h' ha')
  rw [h, hnewer] at h'
  exact ⟨hnewer, (List.cons.inj (List.append_cancel_left h')).1⟩

section Logs
variable {shards : ℕ → McpShard} {log : List (Event ShardI (Origin srv.Job) McpShard)}
  (h : Coherent srv.system shards log)
  (hone : log.countP (fun e => issued e == some id) ≤ 1)
include h hone

theorem found_iff_of_coherent {j ref : ℕ} :
    (shards j).getSession id = some ref ↔ Open log j id ref := by
  have htable : (shards j).getSession id = (newest (entry id) j log).getD none :=
    h.eq_newest (fun s => s.getSession id) (entry id) (fun e _ => getSession_exec) j
  have hfound : (shards j).getSession id = some ref ↔
      newest (entry id) j log = some (some ref) := by
    rw [htable]
    cases newest (entry id) j log <;> simp
  rw [hfound, newest_eq_some_iff]
  constructor
  · rintro ⟨newer, e, older, hlog, hshard, hentry, hnewer⟩
    obtain ⟨hissued, hobjects⟩ := entry_eq_some_iff.mp hentry
    exact ⟨newer, e, older, hlog, hshard, hissued, hobjects,
      fun r hr hj => (entry_eq_none_iff.mp (hnewer r hr hj)).2⟩
  · rintro ⟨newer, e, older, hlog, hshard, hissued, hobjects, hnewer⟩
    have hnone := not_of_countP_le_one hone hlog (beq_iff_eq.mpr hissued)
    refine ⟨newer, e, older, hlog, hshard, entry_eq_some_iff.mpr ⟨hissued, hobjects⟩,
      fun r hr hj => entry_eq_none_iff.mpr ⟨fun hr' => ?_, hnewer r hr hj⟩⟩
    exact hnone r hr (beq_iff_eq.mpr hr')

theorem sole_of_coherent {j j' ref ref' : ℕ} (hj : (shards j).getSession id = some ref)
    (hj' : (shards j').getSession id = some ref') : j = j' ∧ ref = ref' := by
  obtain ⟨newer, e, older, hlog, hshard, hissued, hobjects, -⟩ :=
    (found_iff_of_coherent h hone).mp hj
  obtain ⟨newer', e', older', hlog', hshard', hissued', hobjects', -⟩ :=
    (found_iff_of_coherent h hone).mp hj'
  obtain ⟨-, rfl⟩ := eq_of_countP_le_one hone hlog (beq_iff_eq.mpr hissued) hlog'
    (beq_iff_eq.mpr hissued')
  exact ⟨hshard.symm.trans hshard', hobjects.symm.trans hobjects'⟩

theorem closed_of_coherent {newer older : List (Event ShardI (Origin srv.Job) McpShard)}
    {r : Event ShardI (Origin srv.Job) McpShard} (hlog : log = newer ++ r :: older)
    (hcloses : closes id r) (hfound : r.before.getSession id ≠ none) (j : ℕ) :
    (shards j).getSession id = none := by
  obtain ⟨shards₀, h₀, hbefore, -⟩ := h.of_suffix (hlog ▸ List.suffix_append newer (r :: older))
  have hone₀ : older.countP (fun e => issued e == some id) ≤ 1 := by
    refine le_trans (List.Sublist.countP_le ?_) hone
    rw [hlog]
    exact (List.sublist_cons_self r older).trans (List.sublist_append_right _ _)
  obtain ⟨ref, href⟩ := Option.ne_none_iff_exists'.mp hfound
  rw [hbefore] at href
  obtain ⟨newer₀, e, older₀, hlog₀, hshard, hissued, -⟩ := (found_iff_of_coherent h₀ hone₀).mp href
  rw [Option.eq_none_iff_forall_ne_some]
  intro ref' href'
  obtain ⟨newer', e', older', hlog', hshard', hissued', -, hnot⟩ :=
    (found_iff_of_coherent h hone).mp href'
  have hsplit : log = (newer ++ r :: newer₀) ++ e :: older₀ := by
    rw [hlog, hlog₀, List.append_assoc, List.cons_append]
  obtain ⟨rfl, rfl⟩ := eq_of_countP_le_one hone hsplit (beq_iff_eq.mpr hissued) hlog'
    (beq_iff_eq.mpr hissued')
  have hopen := hnot r (by simp) (hshard.symm.trans hshard')
  rw [hcloses] at hopen
  cases hopen

end Logs
end Tables

/-- In every run each session is found from its opening to its closing by the shard that has opened
it, and by no shard before, elsewhere or afterwards. -/
theorem lifecycle_of_run (srv : McpServer) {steps : List (Label Input (Origin srv.Job))}
    {c : srv.State} (h : srv.Reaches steps c) (id : Str) : Lifecycle c id := by
  have hcoherent := coherent_of_run h
  have hone := countP_issued_le_one h id
  refine ⟨fun j ref => found_iff_of_coherent hcoherent hone,
    fun j j' ref ref' => sole_of_coherent hcoherent hone,
    fun newer r older => closed_of_coherent hcoherent hone, ?_⟩
  intro newer r older hlog hcloses hfound e he
  -- the state before `e` is one that an earlier part of the run has reached
  obtain ⟨newer₁, newer₂, rfl⟩ := List.append_of_mem he
  have hsuffix : e :: (newer₂ ++ r :: older) <:+ c.log := by
    rw [hlog, List.append_assoc, List.cons_append]
    exact List.suffix_append newer₁ _
  obtain ⟨shards, hshards, hbefore, hexec⟩ := hcoherent.of_suffix hsuffix
  have hone' : (newer₂ ++ r :: older).countP (fun e => issued e == some id) ≤ 1 :=
    ((hsuffix.sublist.countP_le.trans' (List.sublist_cons_self e _).countP_le)).trans hone
  have hnone : e.before.getSession id = none :=
    hbefore ▸ closed_of_coherent hshards hone' rfl hcloses hfound e.shard
  refine ⟨hnone, fun text hop => ?_⟩
  obtain ⟨j, now, o, past, op, res, before, after⟩ := e
  obtain rfl : op = .inl (.pushToSession id text) := hop
  have hafter : before.pushToSession id text = after := congrArg Prod.snd hexec
  rw [← hafter, McpShard.pushToSession, hnone]

section Examples
open StreamFraming

/-- GET /sse opens session `s0_1`, and DELETE /mcp closes it. -/
def closing : List (Label Input (Origin HandlerCall)) :=
  openSse ++ .launch ⟨0, .deleteMcp { header := fun k =>
    if k = "mcp-session-id".toList then "s0_1".toList else [] }⟩ :: List.replicate 4 (.advance 1)

/-- It is gone. -/
theorem lifecycle_of_run_closing :
    ∃ c, callingServer.Reaches closing c ∧ Lifecycle c (sseId 0 1) ∧
      (∃ r ∈ c.log, closes (sseId 0 1) r ∧ r.before.getSession (sseId 0 1) ≠ none) ∧
      (c.shards 0).getSession (sseId 0 1) = none := by
  have hrun : (LabelledRuns.run callingServer.system.step callingServer.system.start closing).any
      (fun c => c.log.head?.any (fun r => closes (sseId 0 1) r &&
        (r.before.getSession (sseId 0 1)).isSome)) := by
    decide +kernel
  obtain ⟨c, hc, hp⟩ := (Option.any_eq_true _ _).mp hrun
  obtain ⟨r, hr, hp⟩ := (Option.any_eq_true _ _).mp hp
  obtain ⟨hcloses, hfound⟩ := Bool.and_eq_true_iff.mp hp
  have hlife := lifecycle_of_run callingServer hc (sseId 0 1)
  obtain ⟨older, hlog⟩ : ∃ older, c.log = [] ++ r :: older := List.head?_eq_some_iff.mp hr
  have hlive : r.before.getSession (sseId 0 1) ≠ none := Option.isSome_iff_ne_none.mp hfound
  exact ⟨c, hc, hlife, ⟨r, by simp [hlog], hcloses, hlive⟩,
    hlife.closed [] r older hlog hcloses hlive 0⟩

end Examples
end McpSdk.SessionLifecycles

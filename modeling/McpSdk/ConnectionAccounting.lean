import McpSdk.ConnectionLimits
import McpSdk.SessionIds

/-!
# The bookkeeping of connections

Three maps of a shard are kept in step: the live sessions, the IPs of those that were created
with one, and the number of connections of each IP. The ids that a shard gives are fresh, so a
session is entered once, and its first removal is the only one that finds it.
-/

namespace McpSdk.ConnectionAccounting
open CppStandardLibrary ConnectionLimits SessionIds

/-- What happens to the sessions of a shard: GET /sse or POST /mcp opens one for an IP, or one
is removed, whether it is there or not. -/
inductive SessionStep
  | createSession (clientIp : Str)
  | openStream (clientIp : Str)
  | removeSession (id : Str)

variable (cfg : McpServerConfig) (j : ℕ)

/-- POST /mcp counts, and opens a session under the number. -/
def openStream (clientIp : Str) (s : McpShard) : McpShard :=
  { s with nextCounter := s.nextCounter + 1 }.createSessionWithId
    (streamId j (s.nextCounter + 1)) clientIp

/-- The shard after a step. -/
def perform : SessionStep → McpShard → McpShard
  | .createSession clientIp, s => (s.createSession cfg j clientIp).2
  | .openStream clientIp, s => openStream j clientIp s
  | .removeSession id, s => s.removeSession id

/-- The session that a step opens, with its IP. -/
def opened : SessionStep → McpShard → Option (Str × Str)
  | .createSession clientIp, s =>
      if (s.createSession cfg j clientIp).1 = [] then none
      else some ((s.createSession cfg j clientIp).1, clientIp)
  | .openStream clientIp, s => some (streamId j (s.nextCounter + 1), clientIp)
  | .removeSession _, _ => none

/-- The shard after some steps, and the sessions they have opened. -/
def after : List SessionStep → McpShard × List (Str × Str)
  | [] => (cfg.shard, [])
  | step :: earlier =>
      (perform cfg j step (after earlier).1,
        (opened cfg j step (after earlier).1).toList ++ (after earlier).2)

/-- The number of ids that `_session_to_ip` maps to the IP. -/
def connectionsOf (s : McpShard) (ip : Str) : ℕ :=
  s.sessionToIp.keys.countP (fun id => s.sessionToIp.lookup id == some ip)

def Counted (s : McpShard) (id : Str) : Prop :=
  (∃ n ≤ s.sessionCounter, id = sseId j n) ∨ ∃ n ≤ s.nextCounter, id = streamId j n

/-- The three maps agree with each other and with the sessions that have been opened. -/
structure Accounts (created : List (Str × Str)) (s : McpShard) : Prop where
  counted : ∀ ip, s.ipConnections ip = connectionsOf s ip
  positive : ∀ ip, s.ipConnCount.lookup ip ≠ some 0
  tracked : ∀ id ip, s.sessionToIp.lookup id = some ip ↔
    id ∈ s.sessions ∧ ip ≠ [] ∧ (id, ip) ∈ created
  known : ∀ id ∈ s.sessions, ∃ ip, (id, ip) ∈ created
  fresh : ∀ id ip, (id, ip) ∈ created → Counted j s id

section Counting
variable {K V : Type} [DecidableEq K] {m : UnorderedMap K V} {k : K}

theorem countP_keys_insert {p q : K → Bool} (v : V) (hk : k ∉ m) (h : ∀ k' ≠ k, q k' = p k') :
    (m.insert k v).keys.countP q = m.keys.countP p + if q k then 1 else 0 := by
  rw [AList.keys_insert, List.countP_cons, countP_keys_erase_congr m k h,
    List.erase_of_not_mem (mt AList.mem_keys.mpr hk)]

theorem countP_keys_erase {p q : K → Bool} (hk : k ∈ m) (h : ∀ k' ≠ k, q k' = p k') :
    m.keys.countP p = (m.erase k).keys.countP q + if p k then 1 else 0 := by
  rw [AList.keys_erase, countP_keys_erase_congr m k h,
    (List.perm_cons_erase (AList.mem_keys.mp hk)).countP_eq p, List.countP_cons]

end Counting

variable {cfg j} {created : List (Str × Str)} {s : McpShard}

theorem accounts_shard (cfg : McpServerConfig) (j : ℕ) : Accounts j [] cfg.shard where
  counted _ := rfl
  positive _ := nofun
  tracked _ _ := ⟨nofun, fun h => absurd h.2.2 List.not_mem_nil⟩
  known id h := absurd h (AList.notMem_empty id)
  fresh _ _ h := absurd h List.not_mem_nil

theorem Accounts.ahead (h : Accounts j created s) {n m : ℕ} (hn : s.sessionCounter ≤ n)
    (hm : s.nextCounter ≤ m) :
    Accounts j created { s with sessionCounter := n, nextCounter := m } := by
  refine ⟨h.counted, h.positive, h.tracked, h.known, fun id ip hid => ?_⟩
  rcases h.fresh id ip hid with ⟨k, hk, hsse⟩ | ⟨k, hk, hstream⟩
  · exact .inl ⟨k, hk.trans hn, hsse⟩
  · exact .inr ⟨k, hk.trans hm, hstream⟩

section Opening
variable {id clientIp : Str}

theorem sessionToIp_trackIpConn (s : McpShard) (hip : clientIp ≠ []) (id id' : Str) :
    (s.trackIpConn id clientIp).sessionToIp.lookup id' =
      if id' = id then some clientIp else s.sessionToIp.lookup id' := by
  rw [trackIpConn_eq s hip]
  by_cases heq : id' = id
  · rw [if_pos heq, heq]
    exact AList.lookup_insert s.sessionToIp
  · rw [if_neg heq]
    exact AList.lookup_insert_ne heq

theorem connectionsOf_trackIpConn (s : McpShard) (hip : clientIp ≠ [])
    (hnew : id ∉ s.sessionToIp) (ip : Str) :
    connectionsOf (s.trackIpConn id clientIp) ip =
      connectionsOf s ip + if clientIp = ip then 1 else 0 := by
  have hcount := countP_keys_insert (p := fun id' => s.sessionToIp.lookup id' == some ip)
    (q := fun id' => (s.sessionToIp.insert id clientIp).lookup id' == some ip) clientIp hnew
    (fun id' hne => by rw [AList.lookup_insert_ne hne])
  rw [AList.lookup_insert] at hcount
  rw [connectionsOf, trackIpConn_eq s hip]
  refine hcount.trans ?_
  by_cases heq : clientIp = ip <;> simp [heq, connectionsOf]

theorem ipConnCount_trackIpConn (s : McpShard) (hip : clientIp ≠ []) (id : Str)
    (h : ∀ ip, s.ipConnCount.lookup ip ≠ some 0) (ip : Str) :
    (s.trackIpConn id clientIp).ipConnCount.lookup ip ≠ some 0 := by
  rw [trackIpConn_eq s hip]
  by_cases heq : ip = clientIp
  · rw [heq]
    exact fun hzero => nomatch (AList.lookup_insert s.ipConnCount).symm.trans hzero
  · exact fun hzero => h ip ((AList.lookup_insert_ne heq).symm.trans hzero)

variable (h : Accounts j created s) (hnew : ∀ ip, (id, ip) ∉ created)
include h hnew

theorem mem_opened (id' ip' : Str) :
    (id' ∈ (s.newSession id).sessions ∧ ip' ≠ [] ∧ (id', ip') ∈ (id, clientIp) :: created) ↔
      if id' = id then ip' = clientIp ∧ ip' ≠ [] else s.sessionToIp.lookup id' = some ip' := by
  have hsessions : id' ∈ (s.newSession id).sessions ↔ id' = id ∨ id' ∈ s.sessions :=
    AList.mem_insert s.sessions
  have hcreated : (id', ip') ∈ (id, clientIp) :: created ↔
      (id' = id ∧ ip' = clientIp) ∨ (id', ip') ∈ created := by
    rw [List.mem_cons, Prod.mk.injEq]
  rw [hsessions, hcreated]
  by_cases heq : id' = id
  · subst heq
    simp [hnew, and_comm]
  · simp [heq, h.tracked]

/-- A session under a new id is entered in all maps. -/
theorem accounts_open (hid : Counted j s id) (clientIp : Str) :
    Accounts j ((id, clientIp) :: created) ((s.newSession id).trackIpConn id clientIp) := by
  have hknown : ∀ id' ∈ (s.newSession id).sessions,
      ∃ ip, (id', ip) ∈ (id, clientIp) :: created := by
    intro id' hid'
    rcases (AList.mem_insert s.sessions).mp hid' with rfl | hid'
    · exact ⟨clientIp, List.mem_cons_self ..⟩
    · obtain ⟨ip, hip⟩ := h.known id' hid'
      exact ⟨ip, List.mem_cons_of_mem _ hip⟩
  have hfresh : ∀ id' ip, (id', ip) ∈ (id, clientIp) :: created → Counted j s id' := by
    intro id' ip hmem
    rcases List.mem_cons.mp hmem with heq | hmem
    · exact (Prod.mk.inj heq).1 ▸ hid
    · exact h.fresh id' ip hmem
  have huntracked : s.sessionToIp.lookup id = none := by
    cases hip : s.sessionToIp.lookup id with
    | none => rfl
    | some ip => exact absurd ((h.tracked id ip).mp hip).2.2 (hnew ip)
  by_cases hip : clientIp = []
  · have hstate : (s.newSession id).trackIpConn id clientIp = s.newSession id := by
      rw [McpShard.trackIpConn, if_pos (List.isEmpty_iff.mpr hip)]
    rw [hstate]
    refine ⟨h.counted, h.positive, fun id' ip' => ?_, hknown, hfresh⟩
    rw [mem_opened h hnew]
    change s.sessionToIp.lookup id' = some ip' ↔ _
    by_cases heq : id' = id
    · subst heq
      simp [huntracked, hip]
    · rw [if_neg heq]
  · have hnotMem : id ∉ (s.newSession id).sessionToIp := AList.lookup_eq_none.mp huntracked
    have hstate := trackIpConn_eq (s.newSession id) hip id
    refine ⟨fun ip => ?_, ipConnCount_trackIpConn _ hip id h.positive, fun id' ip' => ?_, ?_, ?_⟩
    · rw [ipConnections_trackIpConn _ hip, connectionsOf_trackIpConn _ hip hnotMem]
      exact congrArg (· + _) (h.counted ip)
    · rw [sessionToIp_trackIpConn _ hip, hstate]
      refine Iff.trans ?_ (mem_opened h hnew id' ip').symm
      by_cases heq : id' = id
      · rw [if_pos heq, if_pos heq, Option.some.injEq]
        exact ⟨fun hsome => ⟨hsome.symm, hsome ▸ hip⟩, fun hnew' => hnew'.1.symm⟩
      · rw [if_neg heq, if_neg heq]
        rfl
    · rw [hstate]
      exact hknown
    · rw [hstate]
      exact hfresh

end Opening

section Removal

theorem sessionToIp_removeSession (s : McpShard) (id id' : Str) :
    (s.removeSession id).sessionToIp.lookup id' =
      if id' = id then none else s.sessionToIp.lookup id' := by
  have hcases : (s.removeSession id).sessionToIp = s.sessionToIp.erase id ∨
      s.sessionToIp.lookup id = none ∧ (s.removeSession id).sessionToIp = s.sessionToIp := by
    rw [McpShard.removeSession, McpShard.releaseIpConn]
    cases hip : s.sessionToIp.lookup id with
    | none => exact .inr ⟨rfl, rfl⟩
    | some ip => exact .inl rfl
  by_cases heq : id' = id
  · rw [if_pos heq, heq]
    rcases hcases with herase | ⟨hnone, hsame⟩
    · rw [herase, AList.lookup_erase]
    · rw [hsame, hnone]
  · rw [if_neg heq]
    rcases hcases with herase | ⟨-, hsame⟩
    · rw [herase, AList.lookup_erase_ne heq]
    · rw [hsame]

theorem connectionsOf_removeSession (s : McpShard) (id ip : Str) :
    connectionsOf s ip = connectionsOf (s.removeSession id) ip +
      if s.sessionToIp.lookup id = some ip then 1 else 0 := by
  cases hip : s.sessionToIp.lookup id with
  | none =>
    rw [connectionsOf, connectionsOf, McpShard.removeSession, McpShard.releaseIpConn, hip]
    rfl
  | some clientIp =>
    have hcount := countP_keys_erase (p := fun id' => s.sessionToIp.lookup id' == some ip)
      (q := fun id' => (s.sessionToIp.erase id).lookup id' == some ip)
      (AList.lookup_isSome.mp (Option.isSome_iff_exists.mpr ⟨clientIp, hip⟩))
      (fun id' hne => by rw [AList.lookup_erase_ne hne])
    rw [connectionsOf, connectionsOf, McpShard.removeSession, McpShard.releaseIpConn, hip]
    simpa only [hip, beq_iff_eq] using hcount

theorem ipConnCount_removeSession (s : McpShard) (id : Str)
    (h : ∀ ip, s.ipConnCount.lookup ip ≠ some 0) (ip : Str) :
    (s.removeSession id).ipConnCount.lookup ip ≠ some 0 := by
  rw [McpShard.removeSession, McpShard.releaseIpConn]
  split
  · exact h ip
  · rename_i clientIp hip
    dsimp only
    split
    · exact h ip
    · rename_i n hn
      by_cases heq : ip = clientIp
      · subst heq
        split
        · rw [AList.lookup_erase]
          exact (Option.some_ne_none 0).symm
        · rw [AList.lookup_insert]
          exact fun hzero => absurd (Option.some.inj hzero) ‹_›
      · split
        · rw [AList.lookup_erase_ne heq]
          exact h ip
        · rw [AList.lookup_insert_ne heq]
          exact h ip

theorem release (h : Accounts j created s) {id ip : Str}
    (hip : s.sessionToIp.lookup id = some ip) :
    (s.removeSession id).ipConnections ip + 1 = s.ipConnections ip := by
  have hcount := connectionsOf_removeSession s id ip
  have hconnections := ipConnections_removeSession hip ip
  rw [if_pos hip, ← h.counted] at hcount
  rw [if_pos rfl] at hconnections
  omega

theorem accounts_removeSession (h : Accounts j created s) (id : Str) :
    Accounts j created (s.removeSession id) := by
  obtain ⟨sessionToIp, ipConnCount, hframe⟩ := s.removeSession_frame id
  have hsessions : ∀ id', id' ∈ (s.removeSession id).sessions ↔ id' ≠ id ∧ id' ∈ s.sessions :=
    fun id' => AList.mem_erase
  refine ⟨fun ip => ?_, ipConnCount_removeSession s id h.positive, fun id' ip' => ?_,
    fun id' hid' => h.known id' ((hsessions id').mp hid').2, ?_⟩
  · have hcount := connectionsOf_removeSession s id ip
    rw [← h.counted] at hcount
    cases hip : s.sessionToIp.lookup id with
    | none =>
      have hsame : (s.removeSession id).ipConnections ip = s.ipConnections ip := by
        rw [McpShard.ipConnections, McpShard.removeSession, McpShard.releaseIpConn, hip]
        rfl
      rw [hip, if_neg (Option.some_ne_none ip).symm] at hcount
      rw [hsame]
      exact hcount
    | some clientIp =>
      rw [ipConnections_removeSession hip]
      simp only [hip, Option.some.injEq] at hcount
      split_ifs at hcount ⊢ <;> omega
  · rw [sessionToIp_removeSession, hsessions]
    by_cases heq : id' = id
    · simp [heq]
    · rw [if_neg heq, h.tracked]
      simp [heq]
  · rw [hframe]
    exact h.fresh

end Removal

section Freshness

theorem not_mem_created_sseId (h : Accounts j created s) (ip : Str) :
    (sseId j (s.sessionCounter + 1), ip) ∉ created := by
  intro hmem
  rcases h.fresh _ _ hmem with ⟨n, hn, heq⟩ | ⟨n, hn, heq⟩
  · obtain ⟨-, rfl⟩ := sseId_inj heq
    omega
  · exact sseId_ne_streamId _ _ _ _ heq

theorem not_mem_created_streamId (h : Accounts j created s) (ip : Str) :
    (streamId j (s.nextCounter + 1), ip) ∉ created := by
  intro hmem
  rcases h.fresh _ _ hmem with ⟨n, hn, heq⟩ | ⟨n, hn, heq⟩
  · exact sseId_ne_streamId _ _ _ _ heq.symm
  · obtain ⟨-, rfl⟩ := streamId_inj heq
    omega

end Freshness

theorem accounts_perform (h : Accounts j created s) (step : SessionStep) :
    Accounts j ((opened cfg j step s).toList ++ created) (perform cfg j step s) := by
  cases step with
  | createSession clientIp =>
    have hahead := h.ahead s.sessionCounter.le_succ le_rfl
    have hopen := accounts_open hahead (not_mem_created_sseId h)
      (.inl ⟨s.sessionCounter + 1, le_rfl, rfl⟩) clientIp
    by_cases hroom : s.hasRoom cfg clientIp = true
    · have hstep : s.createSession cfg j clientIp = (sseId j (s.sessionCounter + 1),
          (McpShard.newSession { s with sessionCounter := s.sessionCounter + 1 }
            (sseId j (s.sessionCounter + 1))).trackIpConn (sseId j (s.sessionCounter + 1))
            clientIp) := if_neg (by simp [hroom])
      rw [opened, perform, hstep, if_neg (sseId_ne_nil _ _)]
      exact hopen
    · have hstep : s.createSession cfg j clientIp = ([], s) := if_pos (by simp [hroom])
      rw [opened, perform, hstep, if_pos rfl]
      exact h
  | openStream clientIp =>
    have hahead := h.ahead le_rfl s.nextCounter.le_succ
    exact accounts_open hahead (not_mem_created_streamId h)
      (.inr ⟨s.nextCounter + 1, le_rfl, rfl⟩) clientIp
  | removeSession id => exact accounts_removeSession h id

theorem accounts_after (cfg : McpServerConfig) (j : ℕ) (steps : List SessionStep) :
    Accounts j (after cfg j steps).2 (after cfg j steps).1 := by
  induction steps with
  | nil => exact accounts_shard cfg j
  | cons step earlier ih => exact accounts_perform ih step

/-- After any sequence of openings and removals on a shard, newest first, the three maps agree, and
the first removal of a session gives its connection back, the second nothing. -/
theorem accounts_of_steps (cfg : McpServerConfig) (j : ℕ) (steps : List SessionStep)
    (s : McpShard) (created : List (Str × Str)) (hafter : after cfg j steps = (s, created)) :
    (∀ ip, s.ipConnections ip = connectionsOf s ip) ∧
    (∀ ip, s.ipConnCount.lookup ip ≠ some 0) ∧
    (∀ id ∈ s.sessionToIp, id ∈ s.sessions) ∧
    (∀ id ip, s.sessionToIp.lookup id = some ip ↔
      id ∈ s.sessions ∧ ip ≠ [] ∧ (id, ip) ∈ created) ∧
    ∀ id ip, s.sessionToIp.lookup id = some ip →
      (s.removeSession id).ipConnections ip + 1 = s.ipConnections ip ∧
      ((s.removeSession id).removeSession id).ipConnections ip =
        (s.removeSession id).ipConnections ip := by
  have h := accounts_after cfg j steps
  rw [hafter] at h
  refine ⟨h.counted, h.positive, fun id hid => ?_, h.tracked, fun id ip hip => ⟨release h hip, ?_⟩⟩
  · obtain ⟨ip, hip⟩ := Option.isSome_iff_exists.mp (AList.lookup_isSome.mpr hid)
    exact ((h.tracked id ip).mp hip).1
  · have hgone : (s.removeSession id).sessionToIp.lookup id = none := by
      rw [sessionToIp_removeSession, if_pos rfl]
    rw [McpShard.removeSession, McpShard.releaseIpConn, hgone]
    rfl

/-- Two sessions of one IP: DELETE and the end of the first one's stream give back one of two
connections. -/
theorem accounts_of_steps_twoOpenings :
    ∃ s created, after .standard 0 [.openStream "a".toList, .createSession "a".toList] =
        (s, created) ∧
      s.ipConnections "a".toList = connectionsOf s "a".toList ∧ connectionsOf s "a".toList = 2 ∧
      (s.removeSession (sseId 0 1)).ipConnections "a".toList + 1 = 2 ∧
      ((s.removeSession (sseId 0 1)).removeSession (sseId 0 1)).ipConnections "a".toList =
        (s.removeSession (sseId 0 1)).ipConnections "a".toList := by
  obtain ⟨hcounted, -, -, -, hreleased⟩ := accounts_of_steps .standard 0
    [.openStream "a".toList, .createSession "a".toList] _ _ rfl
  have htwo : connectionsOf (after .standard 0
      [.openStream "a".toList, .createSession "a".toList]).1 "a".toList = 2 := by decide +kernel
  obtain ⟨hfirst, hsecond⟩ := hreleased (sseId 0 1) "a".toList (by decide +kernel)
  exact ⟨_, _, rfl, hcounted _, htwo, hfirst.trans ((hcounted _).trans htwo), hsecond⟩

end McpSdk.ConnectionAccounting

import McpSdk.CompactJson
import McpSdk.McpServer
import McpSdk.ShardFrames

/-!
# The connection limits

`create_session` checks the limits on sessions before it adds one; `create_session_with_id`, for
a POST /mcp that opens a stream, does not. The limits hold in every reachable state as long as the
latter happens to be called only where the former would have accepted.
-/

namespace McpSdk.ConnectionLimits
open CppStandardLibrary CooperativeTasks ClusterRuns

/-- The number of live sessions that have been created for an IP. -/
def liveSessions (s : McpShard) (clientIp : Str) : ℕ :=
  s.sessions.keys.countP (fun id => s.sessionToIp.lookup id == some clientIp)

/-- The limits, and what the bookkeeping of IPs means. -/
structure Limited (cfg : McpServerConfig) (s : McpShard) : Prop where
  total : s.sessions.keys.length ≤ cfg.security.connectionLimit.maxTotal
  perIp : ∀ ip ≠ [], s.ipConnections ip ≤ cfg.security.connectionLimit.maxPerIp
  tracked : ∀ id ip, s.sessionToIp.lookup id = some ip → id ∈ s.sessions
  counted : ∀ ip, liveSessions s ip ≤ s.ipConnections ip

section Counting
variable {K V : Type} [DecidableEq K] (m : UnorderedMap K V) (k : K)

theorem length_keys_insert_le (v : V) : (m.insert k v).keys.length ≤ m.keys.length + 1 := by
  rw [AList.keys_insert, List.length_cons]
  exact Nat.succ_le_succ List.length_erase_le

theorem length_keys_erase_le : (m.erase k).keys.length ≤ m.keys.length := by
  rw [AList.keys_erase]
  exact List.length_erase_le

theorem countP_keys_erase_congr {p q : K → Bool} (h : ∀ k' ≠ k, q k' = p k') :
    (m.keys.erase k).countP q = (m.keys.erase k).countP p := by
  apply List.countP_congr
  intro k' hk'
  have hne : k' ≠ k := by
    rintro rfl
    exact m.keys_nodup.not_mem_erase hk'
  rw [h k' hne]

theorem countP_keys_insert_le {p q : K → Bool} (v : V) (h : ∀ k' ≠ k, q k' = p k') :
    (m.insert k v).keys.countP q ≤ m.keys.countP p + if q k then 1 else 0 := by
  have hle : (m.keys.erase k).countP p ≤ m.keys.countP p := List.erase_sublist.countP_le
  rw [AList.keys_insert, List.countP_cons, countP_keys_erase_congr m k h]
  omega

theorem countP_keys_insert_le_of_notMem {p : K → Bool} (v : V) (h : k ∉ m → p k = false) :
    (m.insert k v).keys.countP p ≤ m.keys.countP p := by
  rw [AList.keys_insert]
  by_cases hk : k ∈ m.keys
  · exact ((List.perm_cons_erase hk).countP_eq p).ge
  · rw [List.erase_of_not_mem hk, List.countP_cons, h hk]
    rfl

theorem countP_keys_erase_le {p q : K → Bool} (h : ∀ k' ≠ k, q k' = p k') :
    (m.erase k).keys.countP q ≤ m.keys.countP p := by
  rw [AList.keys_erase, countP_keys_erase_congr m k h]
  exact List.erase_sublist.countP_le

theorem countP_keys_erase_lt {p q : K → Bool} (h : ∀ k' ≠ k, q k' = p k') (hk : k ∈ m)
    (hp : p k) : (m.erase k).keys.countP q + 1 ≤ m.keys.countP p := by
  have hperm := (List.perm_cons_erase (AList.mem_keys.mp hk)).countP_eq p
  rw [List.countP_cons, if_pos hp] at hperm
  rw [AList.keys_erase, countP_keys_erase_congr m k h]
  omega

end Counting

section Steps
variable {cfg : McpServerConfig} {s s' : McpShard}

theorem limited_shard (cfg : McpServerConfig) : Limited cfg cfg.shard where
  total := Nat.zero_le _
  perIp _ _ := Nat.zero_le _
  tracked _ _ h := by cases h
  counted _ := Nat.zero_le _

theorem Limited.congr (h : Limited cfg s) (hsessions : s'.sessions = s.sessions)
    (htracked : s'.sessionToIp = s.sessionToIp) (hcount : s'.ipConnCount = s.ipConnCount) :
    Limited cfg s' := by
  have hconnections : ∀ ip, s'.ipConnections ip = s.ipConnections ip := by
    intro ip
    rw [McpShard.ipConnections, hcount, McpShard.ipConnections]
  have hlive : ∀ ip, liveSessions s' ip = liveSessions s ip := by
    intro ip
    rw [liveSessions, hsessions, htracked, liveSessions]
  constructor
  · rw [hsessions]
    exact h.total
  · intro ip hip
    rw [hconnections]
    exact h.perIp ip hip
  · rw [hsessions, htracked]
    exact h.tracked
  · intro ip
    rw [hlive, hconnections]
    exact h.counted ip

theorem room (h : s.hasRoom cfg clientIp) (hon : cfg.security.connectionLimit.enabled) :
    s.sessions.keys.length < cfg.security.connectionLimit.maxTotal ∧
      (clientIp ≠ [] → s.ipConnections clientIp < cfg.security.connectionLimit.maxPerIp) := by
  simp only [McpShard.hasRoom, hon, Bool.not_true, Bool.false_or, Bool.and_eq_true,
    decide_eq_true_eq, Bool.or_eq_true, List.isEmpty_iff] at h
  exact ⟨h.1, fun hip => h.2.resolve_left hip⟩

theorem limited_newSession (h : Limited cfg s)
    (hroom : s.sessions.keys.length < cfg.security.connectionLimit.maxTotal) (id : Str) :
    Limited cfg (s.newSession id) where
  total := (length_keys_insert_le s.sessions id _).trans hroom
  perIp := h.perIp
  tracked id' ip hid' := (AList.mem_insert _).mpr (.inr (h.tracked id' ip hid'))
  counted ip := by
    refine le_trans ?_ (h.counted ip)
    apply countP_keys_insert_le_of_notMem
    intro hid
    rw [beq_eq_false_iff_ne]
    exact fun heq => hid (h.tracked id ip heq)

theorem trackIpConn_eq (s : McpShard) {clientIp : Str} (hip : clientIp ≠ []) (id : Str) :
    s.trackIpConn id clientIp =
      { s with
        sessionToIp := s.sessionToIp.insert id clientIp
        ipConnCount := s.ipConnCount.insert clientIp (s.ipConnections clientIp + 1) } := by
  rw [McpShard.trackIpConn, if_neg (by simpa using hip)]

theorem ipConnections_trackIpConn (s : McpShard) {clientIp : Str} (hip : clientIp ≠ [])
    (id ip : Str) : (s.trackIpConn id clientIp).ipConnections ip =
      s.ipConnections ip + if clientIp = ip then 1 else 0 := by
  rw [trackIpConn_eq s hip, McpShard.ipConnections]
  by_cases heq : ip = clientIp
  · subst heq
    simp [AList.lookup_insert]
  · simp [AList.lookup_insert_ne heq, Ne.symm heq, McpShard.ipConnections]

/-- A session with an IP counts for it. -/
theorem limited_trackIpConn (h : Limited cfg s)
    (htotal : s.sessions.keys.length < cfg.security.connectionLimit.maxTotal) {clientIp : Str}
    (hip : clientIp ≠ [])
    (hperIp : s.ipConnections clientIp < cfg.security.connectionLimit.maxPerIp) (id : Str) :
    Limited cfg ((s.newSession id).trackIpConn id clientIp) := by
  have hstate := trackIpConn_eq (s.newSession id) hip id
  have hconnections := ipConnections_trackIpConn (s.newSession id) hip id
  constructor
  · rw [hstate]
    exact (length_keys_insert_le s.sessions id _).trans htotal
  · intro ip hne
    have hold : (s.newSession id).ipConnections ip ≤ _ := h.perIp ip hne
    have hroom : (s.newSession id).ipConnections clientIp < _ := hperIp
    rw [hconnections]
    split
    · rename_i heq
      subst heq
      omega
    · omega
  · intro id' ip hid'
    rw [hstate] at hid' ⊢
    apply (AList.mem_insert _).mpr
    by_cases heq : id' = id
    · exact .inl heq
    · rw [AList.lookup_insert_ne heq] at hid'
      exact .inr (h.tracked id' ip hid')
  · intro ip
    have hcount := countP_keys_insert_le s.sessions id s.objects.length
      (p := fun id' => s.sessionToIp.lookup id' == some ip)
      (q := fun id' => (s.sessionToIp.insert id clientIp).lookup id' == some ip)
      (fun id' hne => by rw [AList.lookup_insert_ne hne])
    have hcounted := h.counted ip
    rw [AList.lookup_insert] at hcount
    simp only [beq_iff_eq, Option.some.injEq] at hcount
    rw [hconnections, hstate]
    exact hcount.trans (Nat.add_le_add_right hcounted _)

theorem limited_open (h : Limited cfg s) (hon : cfg.security.connectionLimit.enabled)
    {clientIp : Str} (hroom : s.hasRoom cfg clientIp) (id : Str) :
    Limited cfg ((s.newSession id).trackIpConn id clientIp) := by
  obtain ⟨htotal, hperIp⟩ := room hroom hon
  by_cases hip : clientIp = []
  · subst hip
    exact limited_newSession h htotal id
  · exact limited_trackIpConn h htotal hip (hperIp hip) id

theorem ipConnections_removeSession {id clientIp : Str}
    (h : s.sessionToIp.lookup id = some clientIp) (ip : Str) :
    (s.removeSession id).ipConnections ip =
      s.ipConnections ip - if clientIp = ip then 1 else 0 := by
  rw [McpShard.ipConnections, McpShard.removeSession, McpShard.releaseIpConn, h,
    McpShard.ipConnections]
  dsimp only
  cases hn : s.ipConnCount.lookup clientIp with
  | none =>
    by_cases heq : clientIp = ip
    · subst heq
      simp [hn]
    · simp [heq]
  | some n =>
    dsimp only
    split
    · rename_i hlast
      by_cases heq : clientIp = ip
      · subst heq
        simp [hn, hlast, AList.lookup_erase]
      · simp [heq, AList.lookup_erase_ne (Ne.symm heq)]
    · by_cases heq : clientIp = ip
      · subst heq
        simp [hn, AList.lookup_insert]
      · simp [heq, AList.lookup_insert_ne (Ne.symm heq)]

/-- The end of a session keeps the limits. -/
theorem limited_removeSession (h : Limited cfg s) (id : Str) :
    Limited cfg (s.removeSession id) := by
  have htotal : (s.sessions.erase id).keys.length ≤ cfg.security.connectionLimit.maxTotal :=
    (length_keys_erase_le s.sessions id).trans h.total
  cases hip : s.sessionToIp.lookup id with
  | none =>
    have hstate : s.removeSession id = { s with sessions := s.sessions.erase id } := by
      rw [McpShard.removeSession, McpShard.releaseIpConn, hip]
    rw [hstate]
    refine ⟨htotal, h.perIp, fun id' ip hid' => ?_, fun ip => ?_⟩
    · refine AList.mem_erase.mpr ⟨?_, h.tracked id' ip hid'⟩
      rintro rfl
      rw [hip] at hid'
      cases hid'
    · exact (countP_keys_erase_le s.sessions id (fun _ _ => rfl)).trans (h.counted ip)
  | some clientIp =>
    have hconnections := ipConnections_removeSession hip
    have htracked : (s.removeSession id).sessionToIp = s.sessionToIp.erase id := by
      rw [McpShard.removeSession, McpShard.releaseIpConn, hip]
    refine ⟨htotal, fun ip hne => ?_, fun id' ip hid' => ?_, fun ip => ?_⟩
    · rw [hconnections]
      exact (Nat.sub_le _ _).trans (h.perIp ip hne)
    · rw [htracked] at hid'
      by_cases heq : id' = id
      · rw [heq, AList.lookup_erase] at hid'
        cases hid'
      · rw [AList.lookup_erase_ne heq] at hid'
        exact AList.mem_erase.mpr ⟨heq, h.tracked id' ip hid'⟩
    · have hsame : ∀ id' ≠ id, ((s.sessionToIp.erase id).lookup id' == some ip) =
          (s.sessionToIp.lookup id' == some ip) :=
        fun id' hne => by rw [AList.lookup_erase_ne hne]
      have hcounted := h.counted ip
      rw [hconnections, liveSessions, htracked]
      by_cases heq : clientIp = ip
      · subst heq
        have hlt := countP_keys_erase_lt s.sessions id hsame (h.tracked id _ hip)
          (beq_iff_eq.mpr hip)
        rw [if_pos rfl]
        exact Nat.le_sub_of_add_le (hlt.trans hcounted)
      · rw [if_neg heq]
        exact (countP_keys_erase_le s.sessions id hsame).trans hcounted

theorem limited_shardExec (h : Limited cfg s) (hon : cfg.security.connectionLimit.enabled)
    (L : JsonLibrary) (j : ℕ) (now : Int) (op : ShardI.Op)
    (hroom : ∀ id ip, op = .inr (.createSessionWithId id ip) → s.hasRoom cfg ip) :
    Limited cfg (shardExec L cfg j now op s).2 := by
  have hframe := frame_shardExec L cfg j now op s
  have keeps : ¬ChangesSessions op → Limited cfg (shardExec L cfg j now op s).2 := fun hop =>
    have ⟨hsessions, htracked, hcount⟩ := hframe.sessions hop
    h.congr hsessions htracked hcount
  rcases op with op | op
  · exact keeps id
  · cases op with
    | createSession clientIp =>
      change Limited cfg (s.createSession cfg j clientIp).2
      unfold McpShard.createSession
      split
      · exact h
      · rename_i hfull
        rw [Bool.not_eq_true, Bool.not_eq_false'] at hfull
        have hopen : Limited cfg { s with sessionCounter := s.sessionCounter + 1 } :=
          h.congr rfl rfl rfl
        exact limited_open hopen hon hfull _
    | createSessionWithId id clientIp => exact limited_open h hon (hroom id clientIp rfl) id
    | removeSession id => exact limited_removeSession h id
    | _ => exact keeps id

end Steps

/-- The event opens a session without a check of the limits where there is no room for it. -/
def overfills {O : Type} (cfg : McpServerConfig) (e : Event ShardI O McpShard) : Bool :=
  match e.op with
  | .inr (.createSessionWithId _ clientIp) => !e.before.hasRoom cfg clientIp
  | _ => false

/-- If no POST /mcp opens a stream where `create_session` would have refused one, every shard
keeps the limits in every state that is reached. -/
theorem limited_of_run (srv : McpServer) (hon : srv.cfg.security.connectionLimit.enabled)
    {steps : List (Label Input (Origin srv.Job))} {c : srv.State} (h : srv.Reaches steps c)
    (hroom : ∀ e ∈ c.log, overfills srv.cfg e = false) (j : ℕ) :
    Limited srv.cfg (c.shards j) := by
  apply ((coherent_of_run h).invariant (fun _ s => Limited srv.cfg s)
    (fun _ => limited_shard srv.cfg) ?_).1
  intro e he hexec hbefore
  have hafter : e.after = (shardExec srv.L srv.cfg e.shard e.now e.op e.before).2 :=
    (congrArg Prod.snd hexec).symm
  rw [hafter]
  apply limited_shardExec hbefore hon
  intro id clientIp hop
  have hfits := hroom e he
  simpa only [overfills, hop, Bool.not_eq_false'] using hfits

def smallServer : McpServer :=
  .plain CompactJson.library
    { security := { connectionLimit := { enabled := true, maxTotal := 1 } } } 1 Nat.one_pos

/-- A POST /mcp that wants a stream, up to the start of its dispatch. -/
def openStream (i : ℕ) : List (Label Input (Origin Empty)) :=
  [.launch ⟨0, .postMcp { header := fun k =>
      if k = "accept".toList then "text/event-stream".toList else [] }⟩,
    .advance i, .advance i, .advance i, .advance i, .advance i, .advance i]

/-- The first stream is within the limits. -/
theorem limited_of_run_openStream :
    ∃ c, smallServer.Reaches (openStream 0) c ∧ (c.shards 0).sessions.keys.length = 1 ∧
      Limited smallServer.cfg (c.shards 0) := by
  have hrun : (LabelledRuns.run smallServer.system.step smallServer.system.start
      (openStream 0)).any (fun c => (c.shards 0).sessions.keys.length == 1 &&
        c.log.all (fun e => !overfills smallServer.cfg e)) := by
    decide +kernel
  obtain ⟨c, hc, hp⟩ := (Option.any_eq_true _ _).mp hrun
  obtain ⟨hone, hfits⟩ := Bool.and_eq_true_iff.mp hp
  refine ⟨c, hc, beq_iff_eq.mp hone, limited_of_run smallServer rfl hc ?_ 0⟩
  intro e he
  simpa using List.all_eq_true.mp hfits e he

/-- The second is not, and is opened all the same. -/
theorem openStream_exceeds_maxTotal :
    ∃ c, smallServer.Reaches (openStream 0 ++ [.resume 0 (.ok .null), .resume 0 (.ok .null)] ++
        [.advance 0, .advance 0, .advance 0] ++ openStream 1) c ∧
      smallServer.cfg.security.connectionLimit.maxTotal < (c.shards 0).sessions.keys.length := by
  have hrun : (LabelledRuns.run smallServer.system.step smallServer.system.start
      (openStream 0 ++ [.resume 0 (.ok .null), .resume 0 (.ok .null)] ++
        [.advance 0, .advance 0, .advance 0] ++ openStream 1)).any (fun c =>
          decide (smallServer.cfg.security.connectionLimit.maxTotal <
            (c.shards 0).sessions.keys.length)) := by
    decide +kernel
  obtain ⟨c, hc, hp⟩ := (Option.any_eq_true _ _).mp hrun
  exact ⟨c, hc, of_decide_eq_true hp⟩

end McpSdk.ConnectionLimits

import McpSdk.McpServer
import McpSdk.ShardFrames

/-!
# The tables of a shard

What the operations do to the table of subscriptions, as a set of pairs of a resource and a
session, and why a message for one session reaches no other queue: different ids of a shard lead
to different objects.
-/

namespace McpSdk
open CppStandardLibrary

namespace Subscriptions
variable {m : Subscriptions} {uri uri' session session' : Str}

@[simp] theorem subscribers_insert (sessions : List Str) :
    subscribers (m.insert uri' sessions) uri =
      if uri = uri' then sessions else m.subscribers uri := by
  by_cases h : uri = uri'
  · subst h
    simp [subscribers, AList.lookup_insert]
  · simp [subscribers, AList.lookup_insert_ne h, h]

@[simp] theorem subscribers_erase :
    subscribers (m.erase uri') uri = if uri = uri' then [] else m.subscribers uri := by
  by_cases h : uri = uri'
  · subst h
    simp [subscribers, AList.lookup_erase]
  · simp [subscribers, AList.lookup_erase_ne h, h]

theorem subscribers_add : (m.add uri' session).subscribers uri =
    if uri = uri' then (m.subscribers uri).insert session else m.subscribers uri := by
  rw [add, subscribers_insert]
  split
  · rename_i h
    rw [h]
  · rfl

theorem subscribers_remove : (m.remove uri' session).subscribers uri =
    if uri = uri' then (m.subscribers uri).filter (· ≠ session) else m.subscribers uri := by
  unfold remove
  cases hlookup : m.lookup uri' with
  | none =>
    have hnone : m.subscribers uri' = [] := by simp [subscribers, hlookup]
    dsimp only
    split
    · rename_i h
      rw [h, hnone]
      rfl
    · rfl
  | some sessions =>
    have hsessions : m.subscribers uri' = sessions := by simp [subscribers, hlookup]
    dsimp only
    split
    · rename_i hempty
      rw [subscribers_erase]
      split
      · rename_i h
        rw [h, hsessions, List.isEmpty_iff.mp hempty]
      · rfl
    · rw [subscribers_insert]
      split
      · rename_i h
        rw [h, hsessions]
      · rfl

theorem mem_subscribers_add : session' ∈ (m.add uri' session).subscribers uri ↔
    (uri' = uri ∧ session = session') ∨ session' ∈ m.subscribers uri := by
  rw [subscribers_add]
  split
  · rename_i h
    simp [h, List.mem_insert_iff, eq_comm]
  · rename_i h
    simp [Ne.symm h]

theorem mem_subscribers_remove : session' ∈ (m.remove uri' session).subscribers uri ↔
    ¬(uri' = uri ∧ session = session') ∧ session' ∈ m.subscribers uri := by
  rw [subscribers_remove]
  split
  · rename_i h
    rw [List.mem_filter, decide_eq_true_eq]
    grind
  · rename_i h
    simp [Ne.symm h]

theorem mem_subscribers_removeAll : session' ∈ (m.removeAll session).subscribers uri ↔
    session ≠ session' ∧ session' ∈ m.subscribers uri := by
  have step : ∀ (uris : List Str) (m : Subscriptions),
      session' ∈ subscribers (uris.foldl (fun m uri => m.remove uri session) m) uri ↔
        ¬(uri ∈ uris ∧ session = session') ∧ session' ∈ m.subscribers uri := by
    intro uris
    induction uris with
    | nil => simp
    | cons uri' uris ih =>
      intro m
      rw [List.foldl_cons, ih, mem_subscribers_remove]
      grind
  rw [removeAll, step]
  have hkeys : session' ∈ m.subscribers uri → uri ∈ m.keys := by
    intro h
    by_contra hnot
    have hnone : m.lookup uri = none := AList.lookup_eq_none.mpr (mt AList.mem_keys.mp hnot)
    simp [subscribers, hnone] at h
  grind

/-- No session stands twice under a resource. -/
def Distinct (m : Subscriptions) : Prop := ∀ uri, (m.subscribers uri).Nodup

theorem distinct_empty : Distinct ∅ := fun _ => List.nodup_nil

theorem Distinct.add (h : m.Distinct) (uri session : Str) : (m.add uri session).Distinct := by
  intro uri'
  rw [subscribers_add]
  split
  · exact (h uri').insert
  · exact h uri'

theorem Distinct.remove (h : m.Distinct) (uri session : Str) : (m.remove uri session).Distinct := by
  intro uri'
  rw [subscribers_remove]
  split
  · exact (h uri').filter _
  · exact h uri'

theorem Distinct.removeAll (h : m.Distinct) (session : Str) : (m.removeAll session).Distinct := by
  have step : ∀ (uris : List Str) (m : Subscriptions), m.Distinct →
      Distinct (uris.foldl (fun m uri => m.remove uri session) m) := by
    intro uris
    induction uris with
    | nil => exact fun m hm => hm
    | cons uri uris ih => exact fun m hm => ih _ (hm.remove uri session)
  exact step m.keys m h

end Subscriptions

namespace McpShard
variable {s : McpShard} {id id' msg : Str} {ref ref' : ℕ}

/-- Every session has an object of its own. -/
structure Linked (s : McpShard) : Prop where
  bound : ∀ id ref, s.sessions.lookup id = some ref → ref < s.objects.length
  injective : ∀ id id' ref, s.sessions.lookup id = some ref → s.sessions.lookup id' = some ref →
    id = id'

theorem Linked.grow (h : s.Linked) {s' : McpShard} (hsessions : s'.sessions = s.sessions)
    (hobjects : s.objects.length ≤ s'.objects.length) : s'.Linked where
  bound id ref hid := (h.bound id ref (hsessions ▸ hid)).trans_le hobjects
  injective id id' ref hid hid' := h.injective id id' ref (hsessions ▸ hid) (hsessions ▸ hid')

theorem Linked.insert (h : s.Linked) {s' : McpShard}
    (hsessions : s'.sessions = s.sessions.insert id s.objects.length)
    (hobjects : s'.objects = s.objects ++ [({} : SseSession)]) : s'.Linked := by
  have hlookup : ∀ id', s'.sessions.lookup id' =
      if id' = id then some s.objects.length else s.sessions.lookup id' := by
    intro id'
    rw [hsessions]
    by_cases hid : id' = id
    · subst hid
      rw [AList.lookup_insert, if_pos rfl]
    · rw [AList.lookup_insert_ne hid, if_neg hid]
  have hlength : s'.objects.length = s.objects.length + 1 := by simp [hobjects]
  constructor
  · intro id' ref hid
    have hbound := h.bound id' ref
    grind
  · intro a b ref ha hb
    have hbound := h.bound a ref
    have hbound' := h.bound b ref
    have hinjective := h.injective a b ref
    grind

theorem Linked.erase (h : s.Linked) {s' : McpShard} (hsessions : s'.sessions = s.sessions.erase id)
    (hobjects : s'.objects = s.objects) : s'.Linked := by
  have hold : ∀ id' ref, s'.sessions.lookup id' = some ref → s.sessions.lookup id' = some ref := by
    intro id' ref hid
    rw [hsessions] at hid
    by_cases hsame : id' = id
    · subst hsame
      rw [AList.lookup_erase] at hid
      cases hid
    · rwa [AList.lookup_erase_ne hsame] at hid
  exact ⟨fun id' ref hid => hobjects ▸ h.bound id' ref (hold id' ref hid),
    fun a b ref ha hb => h.injective a b ref (hold a ref ha) (hold b ref hb)⟩

@[simp] theorem object_updateObject (f : SseSession → SseSession) (h : ref < s.objects.length) :
    (s.updateObject ref f).object ref' =
      if ref = ref' then f (s.object ref) else s.object ref' := by
  by_cases heq : ref = ref'
  · subst heq
    simp [object, updateObject, h]
  · simp [object, updateObject, heq]

theorem object_congr {s' : McpShard} (h : s'.objects = s.objects) (ref : ℕ) :
    s'.object ref = s.object ref := by
  rw [object, object, h]

theorem pushToSession_objects {s' : McpShard} (hsessions : s'.sessions = s.sessions)
    (hobjects : s'.objects = s.objects) (id msg : Str) :
    (s'.pushToSession id msg).objects = (s.pushToSession id msg).objects := by
  unfold pushToSession getSession
  rw [hsessions]
  split
  · rw [object_congr hobjects]
    split
    · exact congrArg (List.modify · _ _) hobjects
    · exact hobjects
  · exact hobjects

/-- The object to which a message for the session is pushed. -/
def target (s : McpShard) (id : Str) : Option ℕ :=
  (s.getSession id).filter (fun ref => (s.object ref).active)

theorem target_eq_some_iff :
    s.target id = some ref ↔ s.sessions.lookup id = some ref ∧ (s.object ref).active :=
  Option.filter_eq_some_iff

theorem object_pushToSession (hlinked : s.Linked) :
    (s.pushToSession id msg).object ref =
      if s.target id = some ref then (s.object ref).pushEventually msg else s.object ref := by
  unfold pushToSession target
  split
  · rename_i ref' hid
    rw [hid]
    by_cases hactive : (s.object ref').active
    · rw [if_pos hactive, object_updateObject _ (hlinked.bound id ref' hid)]
      by_cases href : ref' = ref
      · subst href
        simp [hactive]
      · simp [href]
    · simp [Option.filter, hactive]
  · rename_i hid
    simp [hid]

theorem target_pushToSession (hlinked : s.Linked) (id' : Str) :
    (s.pushToSession id msg).target id' = s.target id' := by
  have hactive : ∀ ref, ((s.pushToSession id msg).object ref).active = (s.object ref).active := by
    intro ref
    rw [object_pushToSession hlinked]
    split
    · exact SseSession.pushEventually_active _ _
    · rfl
  have hid : (s.pushToSession id msg).getSession id' = s.getSession id' := by
    obtain ⟨objects, -, hpush⟩ := s.pushToSession_frame id msg
    rw [hpush]
    rfl
  unfold target
  simp only [hid, hactive]

theorem object_pushToSessions {ids : List Str} (hids : ids.Nodup) (hlinked : s.Linked) :
    (ids.foldl (fun s id => s.pushToSession id msg) s).object ref =
      if ref ∈ ids.filterMap s.target then (s.object ref).pushEventually msg
      else s.object ref := by
  induction ids generalizing s with
  | nil => rfl
  | cons id' ids ih =>
    obtain ⟨hnotMem, hids⟩ := List.nodup_cons.mp hids
    obtain ⟨objects, hlength, hpush⟩ := s.pushToSession_frame id' msg
    have hlinked' : (s.pushToSession id' msg).Linked :=
      hlinked.grow (by rw [hpush]) (by rw [hpush]; exact hlength.ge)
    have htarget : (s.pushToSession id' msg).target = s.target :=
      funext (target_pushToSession hlinked)
    rw [List.foldl_cons, ih hids hlinked', htarget, object_pushToSession hlinked]
    by_cases hid : s.target id' = some ref
    · -- no other session has this object
      have hrest : ref ∉ ids.filterMap s.target := by
        intro hmem
        obtain ⟨id, hmem, hother⟩ := List.mem_filterMap.mp hmem
        obtain rfl := hlinked.injective id id' ref (target_eq_some_iff.mp hother).1
          (target_eq_some_iff.mp hid).1
        exact hnotMem hmem
      rw [if_neg hrest, if_pos hid, if_pos (List.mem_filterMap.mpr ⟨id', .head _, hid⟩)]
    · rw [if_neg hid]
      have hmem : ref ∈ (id' :: ids).filterMap s.target ↔ ref ∈ ids.filterMap s.target := by
        simp [List.mem_filterMap, hid]
      simp only [hmem]

theorem object_pushAll {ids : List Str} (hids : ids.Nodup) (hlinked : s.Linked)
    (hid : s.sessions.lookup id = some ref) (hactive : (s.object ref).active) :
    (ids.foldl (fun s id => s.pushToSession id msg) s).object ref =
      if id ∈ ids then (s.object ref).pushEventually msg else s.object ref := by
  have htarget : s.target id = some ref := target_eq_some_iff.mpr ⟨hid, hactive⟩
  have hmem : ref ∈ ids.filterMap s.target ↔ id ∈ ids := by
    constructor
    · intro h
      obtain ⟨id', hid', hother⟩ := List.mem_filterMap.mp h
      obtain rfl := hlinked.injective id' id ref (target_eq_some_iff.mp hother).1 hid
      exact hid'
    · exact fun h => List.mem_filterMap.mpr ⟨id, h, htarget⟩
  simp only [object_pushToSessions hids hlinked, hmem]

end McpShard

/-- Every operation keeps the two tables in order. -/
theorem tables_shardExec (L : JsonLibrary) (cfg : McpServerConfig) (j : ℕ) (now : Int)
    (op : ShardI.Op) (s : McpShard) (h : s.Linked ∧ s.subscriptions.Distinct) :
    (shardExec L cfg j now op s).2.Linked ∧
      (shardExec L cfg j now op s).2.subscriptions.Distinct := by
  have hframe := frame_shardExec L cfg j now op s
  have keepsSessions : ¬ChangesSessions op → (shardExec L cfg j now op s).2.Linked :=
    fun hop => h.1.grow (hframe.sessions hop).1 hframe.objects
  have keepsSubscriptions : ¬ChangesSubscriptions op →
      (shardExec L cfg j now op s).2.subscriptions.Distinct :=
    fun hop => (hframe.subscriptions hop).symm ▸ h.2
  rcases op with op | op
  · refine ⟨keepsSessions id, ?_⟩
    cases op with
    | subscribeResource uri =>
      change (s.subscribeResource uri).subscriptions.Distinct
      rw [s.subscribeResource_eq uri]
      dsimp only
      split
      · exact h.2
      · exact h.2.add uri _
    | unsubscribeResource uri =>
      change (s.unsubscribeResource uri).subscriptions.Distinct
      rw [s.unsubscribeResource_eq uri]
      dsimp only
      split
      · exact h.2
      · exact h.2.remove uri _
    | _ => exact keepsSubscriptions id
  · cases op with
    | cleanupSubscriptions id => exact ⟨keepsSessions (fun h => h), h.2.removeAll id⟩
    | createSession clientIp =>
      refine ⟨?_, keepsSubscriptions id⟩
      rcases s.createSession_frame cfg j clientIp with heq | ⟨_, _, heq⟩
      · change (s.createSession cfg j clientIp).2.Linked
        rw [heq]
        exact h.1
      · exact h.1.insert (congrArg McpShard.sessions heq) (congrArg McpShard.objects heq)
    | createSessionWithId id clientIp =>
      obtain ⟨_, _, heq⟩ := s.newSession_trackIpConn_frame id clientIp
      exact ⟨h.1.insert (congrArg McpShard.sessions heq) (congrArg McpShard.objects heq),
        keepsSubscriptions (fun h => h)⟩
    | removeSession id =>
      obtain ⟨_, _, heq⟩ := s.removeSession_frame id
      have hobjects : (s.removeSession id).objects = s.objects := by rw [heq]
      exact ⟨h.1.erase (congrArg McpShard.sessions heq) hobjects, keepsSubscriptions (fun h => h)⟩
    | _ => exact ⟨keepsSessions id, keepsSubscriptions id⟩

theorem tables_of_run {srv : McpServer} {steps : List (ClusterRuns.Label Input (Origin srv.Job))}
    {c : srv.State} (h : srv.Reaches steps c) :
    (∀ j, (c.shards j).Linked ∧ (c.shards j).subscriptions.Distinct) ∧
      ∀ e ∈ c.log, e.before.Linked ∧ e.before.subscriptions.Distinct := by
  have hinvariant := (ClusterRuns.coherent_of_run h).invariant
    (fun _ (s : McpShard) => s.Linked ∧ s.subscriptions.Distinct)
    (fun _ => ⟨⟨nofun, nofun⟩, Subscriptions.distinct_empty⟩) (fun e _ hexec hbefore => by
      have hafter : e.after = (shardExec srv.L srv.cfg e.shard e.now e.op e.before).2 :=
        (congrArg Prod.snd hexec).symm
      rw [hafter]
      exact tables_shardExec srv.L srv.cfg e.shard e.now e.op e.before hbefore)
  exact ⟨hinvariant.1, fun e he => (hinvariant.2 e he).1⟩

end McpSdk

import Mathlib.Data.List.Infix
import McpSdk.OutstandingCalls
import McpSdk.RequestContext
import McpSdk.SessionTables

/-!
# Notifications of resource updates

A subscription is recorded on the shard that accepts the POST, and a notification looks for the
subscribed session on the shard of the subscription. So a session is told of an update if its
last word on the resource, among the requests that the shard of the session has accepted, is a
subscription; what it has asked of other shards does not count.
-/

namespace McpSdk.ResourceUpdates
open CppStandardLibrary CooperativeTasks ClusterRuns DispatchCalls RequestContext

section Events
variable {Job : Type} (session uri : Str)

/-- What the operation makes of the subscription to the resource it is called for. -/
def change : ShardI.Op → Option Bool
  | .inl (.subscribeResource u) => if u = uri then some true else none
  | .inl (.unsubscribeResource u) => if u = uri then some false else none
  | _ => none

/-- What the session asks for by the event: to be told of updates of the resource, or not to be. -/
def wishes (e : Event ShardI (Origin Job) McpShard) : Option Bool :=
  if (callOf e.past).map Prod.snd = some session then change uri e.op else none

/-- What the event makes of the session's entry in the table of its shard. -/
def writes (e : Event ShardI (Origin Job) McpShard) : Option Bool :=
  match e.op with
  | .inr (.cleanupSubscriptions id) => if id = session then some false else none
  | op => if e.before.currentSessionId = session then change uri op else none

def notifies : ShardI.Op → Bool
  | .inl (.notifyResourceUpdated u) => u == uri
  | _ => false

/-- The session's streams end with the event. -/
def closes (e : Event ShardI (Origin Job) McpShard) : Bool :=
  match e.op with
  | .inr (.cleanupSubscriptions id) | .inr (.removeSession id) => id == session
  | _ => false

/-- What the session has asked for last, of any shard. -/
def asked (log : List (Event ShardI (Origin Job) McpShard)) : Option Bool :=
  log.findSome? (wishes session uri)

/-- The session lives on the shard of the event, with the object `ref`, and has not been closed. -/
structure Lives (older : List (Event ShardI (Origin Job) McpShard))
    (e : Event ShardI (Origin Job) McpShard) (ref : ℕ) : Prop where
  found : e.before.sessions.lookup session = some ref
  active : (e.before.object ref).active
  notClosed : ∀ e' ∈ older, e'.shard = e.shard → closes session e' = false

/-- What the session has asked of its own shard counts as what it has asked of any, and there is
room in its queue. -/
def Served (older : List (Event ShardI (Origin Job) McpShard))
    (e : Event ShardI (Origin Job) McpShard) (ref : ℕ) : Prop :=
  (asked session uri older = some true ↔ newest (wishes session uri) e.shard older = some true) ∧
    (e.before.object ref).messages.length < SseSession.capacity

end Events

section Shards
variable {L : JsonLibrary} {s : McpShard} {session uri msg : Str} {ref : ℕ}

theorem serialisable_resourceUpdated (huri : isUtf8 uri) :
    (McpShard.resourceUpdated uri).serialisable := by
  refine Json.serialisable_ofMembers ?_
  simp only [List.forall_mem_cons]
  refine ⟨⟨by decide, by decide⟩, ⟨by decide, by decide⟩, ⟨by decide, ?_⟩, by simp⟩
  refine Json.serialisable_ofMembers ?_
  simp only [List.forall_mem_cons]
  exact ⟨⟨by decide, huri⟩, by simp⟩

theorem object_notifyResourceUpdated (hlinked : s.Linked) (hdistinct : s.subscriptions.Distinct)
    (hid : s.sessions.lookup session = some ref) (hactive : (s.object ref).active)
    (hmsg : L.dump (McpShard.resourceUpdated uri) = some msg) :
    (s.notifyResourceUpdated L uri).2.object ref =
      if session ∈ s.subscriptions.subscribers uri then (s.object ref).pushEventually msg
      else s.object ref := by
  have htext : L.dumpText (McpShard.resourceUpdated uri) = .ok msg := by
    rw [JsonLibrary.dumpText, hmsg]
  have hnodup := hdistinct uri
  unfold McpShard.notifyResourceUpdated
  cases hlookup : s.subscriptions.lookup uri with
  | none => simp [Subscriptions.subscribers, hlookup]
  | some sessions =>
    have hsubscribers : s.subscriptions.subscribers uri = sessions := by
      simp [Subscriptions.subscribers, hlookup]
    rw [hsubscribers] at hnodup ⊢
    simp only [htext]
    exact McpShard.object_pushAll hnodup hlinked hid hactive

theorem writes_eq {Job : Type} {e : Event ShardI (Origin Job) McpShard}
    (h : ∀ id, e.op = .inr (.cleanupSubscriptions id) → id ≠ session) :
    writes session uri e =
      if e.before.currentSessionId = session then change uri e.op else none := by
  obtain ⟨shard, now, o, past, op, r, before, after⟩ := e
  rcases op with op | op
  · rfl
  · cases op with
    | cleanupSubscriptions id => simp [writes, change, h id rfl]
    | _ => rfl

/-- The entry of a session under a resource changes only as `writes` says. -/
theorem subscribed_of_exec {Job : Type} {cfg : McpServerConfig}
    {e : Event ShardI (Origin Job) McpShard}
    (h : shardExec L cfg e.shard e.now e.op e.before = (e.res, e.after)) (hsession : session ≠ []) :
    decide (session ∈ e.after.subscriptions.subscribers uri) =
      (writes session uri e).getD (decide (session ∈ e.before.subscriptions.subscribers uri)) := by
  have hframe := Frame.of_exec h
  obtain ⟨shard, now, o, past, op, r, before, after⟩ := e
  have hafter : after = (shardExec L cfg shard now op before).2 := (congrArg Prod.snd h).symm
  have keeps : ¬ChangesSubscriptions op → decide (session ∈ after.subscriptions.subscribers uri) =
      decide (session ∈ before.subscriptions.subscribers uri) := by
    intro hop
    rw [hframe.subscriptions hop]
  have named : before.currentSessionId.isEmpty → before.currentSessionId ≠ session := by
    intro hempty
    rw [List.isEmpty_iff.mp hempty]
    exact hsession.symm
  rcases op with op | op
  · rw [writes_eq (by nofun)]
    cases op with
    | subscribeResource u =>
      have hstate : after = _ := hafter.trans (before.subscribeResource_eq u)
      rw [hstate]
      by_cases hempty : before.currentSessionId.isEmpty
      · simp [hempty, named hempty]
      · simp only [hempty, Bool.false_eq_true, if_false, Subscriptions.mem_subscribers_add, change]
        grind
    | unsubscribeResource u =>
      have hstate : after = _ := hafter.trans (before.unsubscribeResource_eq u)
      rw [hstate]
      by_cases hempty : before.currentSessionId.isEmpty
      · simp [hempty, named hempty]
      · simp only [hempty, Bool.false_eq_true, if_false, Subscriptions.mem_subscribers_remove,
          change]
        grind
    | _ => exact (keeps id).trans (by simp [change])
  · cases op with
    | cleanupSubscriptions id =>
      have hstate : after = before.cleanupSubscriptions id := hafter
      simp only [hstate, McpShard.cleanupSubscriptions, writes,
        Subscriptions.mem_subscribers_removeAll]
      grind
    | _ => exact (keeps id).trans (by simp [writes, change])

end Shards

section Runs
variable {srv : McpServer} {session uri : Str}

/-- All changes of who is subscribed to the resource are made by handlers of dispatch calls that
are not disturbed. -/
def InContext (srv : McpServer) (uri : Str)
    (log : List (Event ShardI (Origin srv.Job) McpShard)) : Prop :=
  ∀ e older, e :: older <:+ log → (change uri e.op).isSome → ∃ body sessionId,
    callOf e.past = some (body, sessionId) ∧
      Undisturbed older sessionId (progressToken srv.L body) e

/-- The event enqueues one notification if the session is to be told, and nothing otherwise. -/
def Told (srv : McpServer) (session uri : Str)
    (older : List (Event ShardI (Origin srv.Job) McpShard))
    (e : Event ShardI (Origin srv.Job) McpShard) (ref : ℕ) : Prop :=
  ∃ msg, srv.L.dump (McpShard.resourceUpdated uri) = some msg ∧
    (e.after.object ref).messages = (e.before.object ref).messages ++
      if asked session uri older = some true then [msg] else []

variable {steps : List (Label Input (Origin srv.Job))} {c : srv.State}

theorem of_change {op : ShardI.Op} {wish : Bool} (h : change uri op = some wish) :
    op = .inl (.subscribeResource uri) ∨ op = .inl (.unsubscribeResource uri) := by
  unfold change at h
  split at h
  · split at h
    · rename_i heq
      exact .inl (heq ▸ rfl)
    · cases h
  · split at h
    · rename_i heq
      exact .inr (heq ▸ rfl)
    · cases h
  · cases h

theorem foreign_of_change {op : ShardI.Op} {wish : Bool} (h : change uri op = some wish)
    {sessionId token : Str} {found : Str × Str} :
    foreign sessionId token op found = (found.1 != sessionId) := by
  rcases of_change h with rfl | rfl <;> rfl

theorem installed_of_change (h : srv.Reaches steps c) {e : Event ShardI (Origin srv.Job) McpShard}
    (he : e ∈ c.log) {wish : Bool} (hchange : change uri e.op = some wish) {body sessionId : Str}
    (hcall : callOf e.past = some (body, sessionId)) : Installed srv.L body sessionId e.past := by
  have hlawful := (onTrack_of_run (keeps_calls srv) (fun l _ => l.launches_true) h).2 e he
  obtain ⟨shard, now, o, past, op, r, before, after⟩ := e
  rcases of_change hchange with hop | hop <;>
  · obtain rfl : op = _ := hop
    exact of_handlerCall hlawful id hcall

theorem writes_eq_wishes (h : srv.Reaches steps c) (hcalls : InContext srv uri c.log)
    {e : Event ShardI (Origin srv.Job) McpShard}
    {older : List (Event ShardI (Origin srv.Job) McpShard)} (hs : e :: older <:+ c.log)
    (hopen : closes session e = false) : writes session uri e = wishes session uri e := by
  have hwrites : writes session uri e =
      if e.before.currentSessionId = session then change uri e.op else none := by
    refine writes_eq (fun id hop => ?_)
    rw [closes, hop] at hopen
    exact beq_eq_false_iff_ne.mp hopen
  rw [hwrites, wishes]
  cases hchange : change uri e.op with
  | none => simp
  | some wish =>
    obtain ⟨body, sessionId, hcall, hfree⟩ := hcalls e older hs (by rw [hchange]; rfl)
    have hfound := context_of_undisturbed h hs
      (installed_of_change h (hs.mem (.head _)) hchange hcall) hfree
    rw [foreign_of_change hchange] at hfound
    have hsession : e.before.currentSessionId = sessionId := bne_eq_false_iff_eq.mp hfound
    rw [hsession, hcall]
    simp

/-- A session that has not been closed is subscribed on a shard if that is the last it has asked
of the shard. -/
theorem subscribed_iff (h : srv.Reaches steps c) (hsession : session ≠ [])
    (hcalls : InContext srv uri c.log) {e : Event ShardI (Origin srv.Job) McpShard}
    {older : List (Event ShardI (Origin srv.Job) McpShard)} (hs : e :: older <:+ c.log)
    (hopen : ∀ e' ∈ older, e'.shard = e.shard → closes session e' = false) :
    session ∈ e.before.subscriptions.subscribers uri ↔
      newest (wishes session uri) e.shard older = some true := by
  obtain ⟨shards, hcoherent, hbefore, -⟩ := (coherent_of_run h).of_suffix hs
  have hwritten := hcoherent.eq_newest
    (fun s => decide (session ∈ s.subscriptions.subscribers uri)) (writes session uri)
    (fun e' _ hexec => subscribed_of_exec hexec hsession) e.shard
  have hsame : newest (writes session uri) e.shard older =
      newest (wishes session uri) e.shard older := by
    apply newest_congr
    intro e' he' hshard
    obtain ⟨newer, rest, rfl⟩ := List.append_of_mem he'
    have hs' : e' :: rest <:+ c.log :=
      ((List.suffix_append newer _).trans (List.suffix_cons e _)).trans hs
    exact writes_eq_wishes h hcalls hs' (hopen e' he' hshard)
  have hinit : decide (session ∈ (srv.system.init e.shard).subscriptions.subscribers uri) =
      false := rfl
  rw [hsame, hinit, ← hbefore] at hwritten
  rw [← decide_eq_true_iff (p := session ∈ e.before.subscriptions.subscribers uri), hwritten]
  cases newest (wishes session uri) e.shard older with
  | none => simp
  | some wish => simp

theorem told_of_served (h : srv.Reaches steps c) (hsession : session ≠ []) (huri : isUtf8 uri)
    (hcalls : InContext srv uri c.log) {e : Event ShardI (Origin srv.Job) McpShard}
    {older : List (Event ShardI (Origin srv.Job) McpShard)} (hs : e :: older <:+ c.log)
    (hop : notifies uri e.op) {ref : ℕ} (hlives : Lives session older e ref)
    (hserved : Served session uri older e ref) : Told srv session uri older e ref := by
  obtain ⟨hlinked, hdistinct⟩ := (tables_of_run h).2 e (hs.mem (.head _))
  obtain ⟨-, -, -, hexec⟩ := (coherent_of_run h).of_suffix hs
  have hdump := srv.L.dump_isSome (McpShard.resourceUpdated uri)
  rw [serialisable_resourceUpdated huri] at hdump
  obtain ⟨msg, hmsg⟩ := Option.isSome_iff_exists.mp hdump
  have hobject := object_notifyResourceUpdated hlinked hdistinct hlives.found hlives.active hmsg
  have hafter : e.after = (e.before.notifyResourceUpdated srv.L uri).2 := by
    obtain ⟨shard, now, o, past, op, r, before, after⟩ := e
    rcases op with op | op
    · cases op with
      | notifyResourceUpdated u =>
        obtain rfl : u = uri := beq_iff_eq.mp hop
        exact (congrArg Prod.snd hexec).symm
      | _ => cases hop
    · cases hop
  refine ⟨msg, hmsg, ?_⟩
  rw [hafter, hobject]
  have hiff := (subscribed_iff h hsession hcalls hs hlives.notClosed).trans hserved.1.symm
  by_cases hasked : asked session uri older = some true
  · rw [if_pos (hiff.mpr hasked), if_pos hasked]
    exact SseSession.pushEventually_messages hserved.2 msg
  · rw [if_neg (mt hiff.mp hasked), if_neg hasked, List.append_nil]

end Runs

section Broadcasts
variable {srv : McpServer} {uri : Str} {K : ℕ}

/-- The work is a broadcast of an update of the resource. -/
def Broadcasts (srv : McpServer) (uri : Str) (o : Origin srv.Job) : Prop :=
  ∃ x, o.work = .job x ∧ srv.job o.shard x = McpServer.broadcastResourceUpdated srv.count uri

theorem owes_broadcast (hK : K < srv.count) {o : Origin srv.Job} (h : Broadcasts srv uri o) :
    Owes (notifies uri) K (· = none) o.shard (srv.program o.shard o.work) 1 := by
  obtain ⟨x, hwork, hjob⟩ := h
  have hprogram : srv.program o.shard o.work = (do
      (McpServer.broadcastResourceUpdated srv.count uri).inl
      return none : ShardTask (Option WriterState)) := by
    rw [hwork, ← hjob]
    rfl
  have hvisits : Owes (notifies uri) K (fun _ => True) o.shard
      (McpServer.broadcastResourceUpdated srv.count uri).inl 1 := by
    rw [McpServer.broadcastResourceUpdated, Coroutine.inl_invokeOnAll (I := HandlerI) .gathered]
    refine Owes.invokeOnAll (fun _ => rfl) hK
      (fun i => ⟨0, by simp [counts, notifies], fun notified => ?_⟩)
    cases notified with
    | error e => rfl
    | ok _ => exact ⟨rfl, trivial⟩
  rw [hprogram]
  exact Owes.andThen (m := 0) hvisits (fun _ _ => ⟨rfl, rfl⟩) (fun _ => rfl)

end Broadcasts

/-- In every run in which subscriptions are changed in their own context, and in which, whenever a
shard is notified, the live sessions of the shard are served, each notification tells the live
sessions of its shard as they have asked, of whatever shard; and broadcasts notify every shard
once each. -/
theorem updates_reach_subscribers (srv : McpServer)
    {steps : List (Label Input (Origin srv.Job))} {c : srv.State} (h : srv.Reaches steps c)
    {session uri : Str} (hsession : session ≠ []) (huri : isUtf8 uri)
    (hcalls : InContext srv uri c.log)
    (hserved : ∀ e older, e :: older <:+ c.log → notifies uri e.op → ∀ ref,
      Lives session older e ref → Served session uri older e ref) :
    (∀ e older, e :: older <:+ c.log → notifies uri e.op → ∀ ref, Lives session older e ref →
      Told srv session uri older e ref) ∧
    ∀ broadcasts : Origin srv.Job → Bool, (∀ o, broadcasts o → Broadcasts srv uri o) →
      ∀ K < srv.count,
        c.log.countP (Event.counted (notifies uri) K broadcasts) ≤
          c.tasks.countP (Running.launched broadcasts) ∧
        ((∀ t ∈ c.tasks, broadcasts t.origin → t.done) →
          c.log.countP (Event.counted (notifies uri) K broadcasts) =
            c.tasks.countP (Running.launched broadcasts)) := by
  constructor
  · intro e older hs hop ref hlives
    exact told_of_served h hsession huri hcalls hs hop hlives (hserved e older hs hop ref hlives)
  · intro broadcasts hbroadcasts K hK
    have hcalls := calls_of_run (a := notifies uri) (K := K) (w := 1)
      (fun o ho => owes_broadcast hK (hbroadcasts o ho)) h
    simpa only [Nat.one_mul] using hcalls

/-- A server on two shards with subscriptions, whose jobs are broadcasts. -/
def updateServer : McpServer :=
  { McpServer.plain CompactJson.library .standard 2 Nat.two_pos with
    methods := fun _ name =>
      if name = "resources/subscribe".toList then some McpServer.resourcesSubscribe else none
    methods_inRange := by
      intro _ name handler hhandler params
      split at hhandler
      · obtain rfl := Option.some.inj hhandler
        exact McpServer.addresses_withUri _ _
      · cases hhandler
    Job := Str
    job := fun _ uri => McpServer.broadcastResourceUpdated 2 uri
    job_inRange := fun _ uri => McpServer.addresses_broadcastResourceUpdated 2 uri }

def firstSession : Str := "s0_1".toList

/-- A POST /message by which the session subscribes. -/
def subscribePost : Request where
  query k := if k = "sessionId".toList then firstSession else []
  content := CompactJson.write (request 1 "resources/subscribe".toList
    (.ofMembers [("uri".toList, .string "u".toList)]))

/-- Shard 0 opens a session, shard `j` accepts its subscription, and an update is broadcast. -/
def subscribeAt (j : ℕ) : List (Label Input (Origin Str)) :=
  [.launch ⟨0, .getSse {}⟩, .advance 0, .advance 0, .advance 0, .advance 0,
    .launch ⟨j, .postMessage subscribePost⟩, .advance 1, .advance 1, .advance 1, .advance 1,
    .advance 1] ++
  [.launch ⟨0, .job "u".toList⟩, .advance 2, .advance 2, .resume 3 (.ok .null), .advance 3,
    .resume 4 (.ok .null), .advance 4, .wake 2]

def isBroadcast (o : Origin Str) : Bool :=
  match o.work with
  | .job uri => uri == "u".toList
  | _ => false

theorem broadcasts_of_isBroadcast (o : Origin Str) (h : isBroadcast o) :
    Broadcasts updateServer "u".toList o := by
  obtain ⟨j, work⟩ := o
  cases work with
  | job uri => exact ⟨uri, rfl, by rw [← beq_iff_eq.mp h]; rfl⟩
  | _ => cases h

/-- The test of `InContext` and of `Served` for a run. -/
def allServed (log : List (Event ShardI (Origin updateServer.Job) McpShard)) : Bool :=
  log.tails.all (fun suffix => match suffix with
    | e :: older =>
        (!(change "u".toList e.op).isSome || (callOf e.past).any (fun call =>
          e.shard == e.origin.shard && older.all (fun e' => (assigns e').all (fun context =>
            !foreign call.2 (progressToken updateServer.L call.1) e.op context)))) &&
        (!notifies "u".toList e.op || (e.before.sessions.lookup firstSession).all (fun ref =>
          (asked firstSession "u".toList older == some true) ==
              (newest (wishes firstSession "u".toList) e.shard older == some true) &&
            (e.before.object ref).messages.length < SseSession.capacity))
    | [] => true)

theorem inContext_of_allServed {log : List (Event ShardI (Origin updateServer.Job) McpShard)}
    (h : allServed log) :
    InContext updateServer "u".toList log := by
  intro e older hs hchange
  have hsuffix := List.all_eq_true.mp h _ ((List.mem_tails _ _).mpr hs)
  simp only [Bool.and_eq_true, Bool.or_eq_true, hchange, Bool.not_true, Bool.false_eq_true,
    false_or, Option.any_eq_true, beq_iff_eq, List.all_eq_true, Option.all_eq_true] at hsuffix
  obtain ⟨⟨⟨body, sessionId⟩, hcall, hshard, hassigned⟩, -⟩ := hsuffix
  refine ⟨body, sessionId, hcall, hshard,
    fun newer e' rest context hsplit _ hassigns hforeign => ?_⟩
  have hmem : e' ∈ older := hsplit ▸ List.mem_append_right _ (.head _)
  have hsame := hassigned e' hmem context hassigns
  rw [hforeign] at hsame
  cases hsame

theorem served_of_allServed {log : List (Event ShardI (Origin updateServer.Job) McpShard)}
    (h : allServed log) :
    ∀ e older, e :: older <:+ log → notifies "u".toList e.op → ∀ ref,
      Lives firstSession older e ref → Served firstSession "u".toList older e ref := by
  intro e older hs hop ref hlives
  have hsuffix := List.all_eq_true.mp h _ ((List.mem_tails _ _).mpr hs)
  simp only [Bool.and_eq_true, Bool.or_eq_true, hop, hlives.found, Bool.not_true,
    Bool.false_eq_true, false_or, Option.all_some, beq_iff_eq, decide_eq_true_eq] at hsuffix
  obtain ⟨-, hasked, hroom⟩ := hsuffix
  refine ⟨?_, hroom⟩
  rw [← beq_iff_eq, hasked, beq_iff_eq]

/-- Where its own shard has accepted the subscription, the session is told, once. -/
theorem updates_reach_subscribers_own_shard :
    ∃ c, updateServer.Reaches (subscribeAt 0) c ∧
      (∃ e older, e :: older <:+ c.log ∧ Lives firstSession older e 0 ∧
        asked firstSession "u".toList older = some true ∧
        Told updateServer firstSession "u".toList older e 0) ∧
      c.tasks.countP (Running.launched isBroadcast) = 1 ∧
      c.log.countP (Event.counted (notifies "u".toList) 0 isBroadcast) = 1 := by
  have hrun : (LabelledRuns.run updateServer.system.step updateServer.system.start
      (subscribeAt 0)).any (fun c => allServed c.log &&
        c.tasks.countP (Running.launched isBroadcast) == 1 &&
        c.tasks.all (fun t => !isBroadcast t.origin || t.done) &&
        c.log.tails.any (fun suffix => match suffix with
          | e :: older => notifies "u".toList e.op &&
              e.before.sessions.lookup firstSession == some 0 && (e.before.object 0).active &&
              older.all (fun e' => !closes firstSession e') &&
              asked firstSession "u".toList older == some true
          | [] => false)) := by
    decide +kernel
  obtain ⟨c, hc, hp⟩ := (Option.any_eq_true _ _).mp hrun
  simp only [Bool.and_eq_true, List.any_eq_true, beq_iff_eq] at hp
  obtain ⟨⟨⟨hserved, hone⟩, hdone⟩, suffix, hsuffix, hp⟩ := hp
  obtain ⟨htold, hcount⟩ := updates_reach_subscribers updateServer hc (by decide) (by decide)
    (inContext_of_allServed hserved) (served_of_allServed hserved)
  have hvisits := (hcount isBroadcast broadcasts_of_isBroadcast 0 two_pos).2 (by
    intro t ht hbroadcast
    have htask := List.all_eq_true.mp hdone t ht
    simpa [hbroadcast] using htask)
  refine ⟨c, hc, ?_, hone, hvisits.trans hone⟩
  cases suffix with
  | nil => cases hp
  | cons e older =>
    simp only [Bool.and_eq_true, beq_iff_eq, List.all_eq_true, Bool.not_eq_true'] at hp
    obtain ⟨⟨⟨⟨hop, hfound⟩, hactive⟩, hopen⟩, hasked⟩ := hp
    have hs := (List.mem_tails _ _).mp hsuffix
    have hlives : Lives firstSession older e 0 :=
      ⟨hfound, hactive, fun e' he' _ => hopen e' he'⟩
    exact ⟨e, older, hs, hlives, hasked, htold e older hs hop 0 hlives⟩

/-- Where another shard has accepted it, the session is not told. -/
theorem other_shard_is_not_told :
    ∃ c, updateServer.Reaches (subscribeAt 1) c ∧
      ∃ e older, e :: older <:+ c.log ∧ notifies "u".toList e.op ∧ Lives firstSession older e 0 ∧
        asked firstSession "u".toList older = some true ∧
        ¬Told updateServer firstSession "u".toList older e 0 := by
  have hrun : (LabelledRuns.run updateServer.system.step updateServer.system.start
      (subscribeAt 1)).any (fun c => c.log.tails.any (fun log => match log with
        | e :: older => notifies "u".toList e.op &&
            e.before.sessions.lookup firstSession == some 0 && (e.before.object 0).active &&
            older.all (fun e' => !closes firstSession e') &&
            asked firstSession "u".toList older == some true &&
            (e.after.object 0).messages == (e.before.object 0).messages
        | [] => false)) := by
    decide +kernel
  obtain ⟨c, hc, hp⟩ := (Option.any_eq_true _ _).mp hrun
  obtain ⟨log, hlog, hp⟩ := List.any_eq_true.mp hp
  refine ⟨c, hc, ?_⟩
  cases log with
  | nil => cases hp
  | cons e older =>
    simp only [Bool.and_eq_true, beq_iff_eq, List.all_eq_true, Bool.not_eq_true'] at hp
    obtain ⟨⟨⟨⟨⟨hop, hfound⟩, hactive⟩, hopen⟩, hasked⟩, hsame⟩ := hp
    refine ⟨e, older, (List.mem_tails _ _).mp hlog, hop,
      ⟨hfound, hactive, fun e' he' _ => hopen e' he'⟩, hasked, ?_⟩
    rintro ⟨msg, -, hmessages⟩
    rw [hsame, hasked] at hmessages
    simpa using congrArg List.length hmessages

end McpSdk.ResourceUpdates

import McpSdk.PostAnswers
import McpSdk.SessionLifecycles
import McpSdk.StreamDelivery

/-!
# Private streams

Who can put something into a stream. An object is in the hand of the request that has created it, or
that has looked it up under the id of its session; and each object belongs to one session. So what
the client of a stream reads, but for what the code of the application sends, comes from requests
that name the session, or from the one that has opened it.
-/

namespace McpSdk.PrivateStreams
open CppStandardLibrary CooperativeTasks ClusterRuns WriterTranscripts StreamFraming
open ServerSentEvents HttpBodySinks BufferedStreams StreamDelivery PostAnswers
open RequestedChanges (Within)

section Statement

/-- The call sends a message to sessions. -/
def SendsMessage : HandlerCall → Prop
  | .pushToSession _ _ | .broadcastNotification _ | .notifyResourceUpdated _
  | .pushProgress _ _ | .sendRequest _ _ _ => True
  | _ => False

/-- The code of the application sends messages by the calls of `B` only. -/
structure SendsBy (app : Application) (B : HandlerCall → Prop) : Prop where
  registry : app.registry.Calls (fun call => SendsMessage call → B call) (fun _ => True)
  job : ∀ j x, Coroutine.Calls (I := HandlerI) (fun call => SendsMessage call → B call)
    (fun _ => True) (app.job j x)

/-- The object `ref` of shard `j` has been created for the session `id`. -/
def Belongs {O : Type} (log : List (Event ShardI O McpShard)) (j ref : ℕ) (id : Str) : Prop :=
  ∃ e ∈ log, e.shard = j ∧ SessionIds.issued e = some id ∧ e.before.objects.length = ref

/-- The task has replied with a stream of the session, for this object. -/
def Streams (past : List (Mark ShardI)) (id : Str) (ref : ℕ) : Prop :=
  ∃ reply s, .did (.inr (.respond reply)) () ∈ past ∧ reply.stream = some s ∧ s.sessionId = id ∧
    s.session = ref

/-- The text is what a POST that names the session, or has opened it, is owed for its body; or it is
the empty message of a DELETE that names the session. -/
def Due (srv : McpServer) (e : Event ShardI (Origin srv.Job) McpShard) (id : Str) (ref : ℕ)
    (text : Str) : Prop :=
  (IsPost e.origin.work ∧ Owed srv e.origin (some text) ∧
    (ResponseDelivery.sessionOf e.origin.work = id ∨ Opened e.past id ref)) ∨
  text = [] ∧ ∃ req, e.origin.work = .deleteMcp req ∧ req.header "mcp-session-id".toList = id

end Statement

/-- What a request has in its hand: an object with the id of its session, that it has created or
looked up. -/
inductive Handle
  | none
  | created (id : Str) (ref : ℕ)
  | found (id : Str) (ref : ℕ)

namespace Handle

def next : Handle → (op : ShardI.Op) → ShardI.Res op → Handle
  | _, .inr (.createSessionWithId id _), (ref : Option ℕ) => ref.elim .none (.created id)
  | _, .inr (.getSession id), (ref : Option ℕ) => ref.elim .none (.found id)
  | q, _, _ => q

def Names (q : Handle) (id : Str) (ref : ℕ) : Prop := q = .created id ref ∨ q = .found id ref

/-- The queues of objects are for who has them in hand. -/
def Allows {Job : Type} (work : Work Job) (q : Handle) : ShardI.Op → Prop
  | .inr (.respond reply) => ∀ s ∈ reply.stream, q.Names s.sessionId s.session
  | .inr (.pushEventually ref text) =>
      match work with
      | .postMcp _ => ∃ id, q = .created id ref
      | .deleteMcp req => text = [] ∧ q = .found (req.header "mcp-session-id".toList) ref
      | _ => False
  | _ => True

end Handle

/-- How a request comes by the objects whose queues it uses. -/
def handling {Job : Type} (o : Origin Job) : Contract ShardI Handle where
  init := .none
  allows := Handle.Allows o.work
  answers _ _ := True
  next := Handle.next
  child _ := .none
  rests _ := True
  addresses _ := True

section Programs
variable {srv : McpServer} {o : Origin srv.Job}

def Indifferent : ShardI.Op → Prop
  | .inr (.createSessionWithId _ _) | .inr (.getSession _) | .inr (.pushEventually _ _)
  | .inr (.respond _) => False
  | _ => True

theorem idle_handling : (handling o).Idle Indifferent (fun _ => True) where
  allows q op _ hop := by
    rcases op with op | op
    · trivial
    · cases op <;> trivial
  next q op r _ hop := by
    rcases op with op | op
    · rfl
    · cases op <;> first | rfl | exact hop.elim
  rests _ _ := trivial
  child _ _ := trivial

theorem indifferent_of_postCall (op : ShardI.Op) (h : PostCall op) : Indifferent op := by
  rcases op with op | op
  · trivial
  · cases op <;> trivial

theorem indifferent_of_writerCall (op : ShardI.Op) (h : WriterCall op) : Indifferent op := by
  rcases op with op | op
  · trivial
  · cases op <;> trivial

theorem follows_of_yields {α : Type} {t : ShardTask α} {A : ShardI.Op → Prop} {R : α → Prop}
    (h : t.Yields A (fun _ => True) R) (hA : ∀ op, A op → Indifferent op) (q : Handle) :
    t.Follows (handling o) q (fun a q' => R a ∧ q' = q) (fun _ q' => q' = q) :=
  (Coroutine.Follows.of_calling (idle_handling.mono hA) (fun _ _ => trivial) trivial h).mono
    (fun _ _ h => h) (fun _ _ h => h.2)

theorem indifferent_bind {α : Type} {op : TransportCall} (hop : Indifferent (.inr op)) {q : Handle}
    {k : op.Res → ShardTask α} {Q : α → Handle → Prop} {E : Exception → Handle → Prop}
    (hk : ∀ r, (k r).Follows (handling o) q Q E) :
    (transport op >>= k).Follows (handling o) q Q E :=
  idle_handling.perform_bind (I := ShardI) trivial hop hk

theorem sends_handling {reply : Reply} {q : Handle}
    (h : ∀ s ∈ reply.stream, q.Names s.sessionId s.session) :
    Sends (handling o) (fun _ _ => True) reply q :=
  ⟨h, trivial, trivial, trivial⟩

theorem sends_of_none {reply : Reply} {q : Handle} (h : reply.stream = none) :
    Sends (handling o) (fun _ _ => True) reply q :=
  sends_handling (by simp [h])

def Replies (o : Origin srv.Job) (q : Handle) (handler : ShardTask Reply) : Prop :=
  handler.Follows (handling o) q (fun reply q => Sends (handling o) (fun _ _ => True) reply q)
    (fun _ q => ∀ reply : Reply, reply.status = 500 → reply.stream = none →
      Sends (handling o) (fun _ _ => True) reply q)

theorem replies_of_yields {handler : ShardTask Reply} {q : Handle}
    (h : handler.Yields PostCall (fun _ => True) (·.stream = none)) : Replies o q handler := by
  refine (follows_of_yields h indifferent_of_postCall q).mono ?_ ?_
  · rintro reply q' ⟨hstream, -⟩
    exact sends_of_none hstream
  · intro _ q' _ reply _ hstream
    exact sends_of_none hstream

theorem replies_handleSse (req : Request) : Replies o .none (HttpSseTransport.handleSse req) := by
  refine indifferent_bind (by trivial) (fun check => ?_)
  split
  · exact sends_of_none (stream_securityReject check)
  · refine indifferent_bind (by trivial) (fun id => ?_)
    split
    · exact sends_of_none (stream_securityReject _)
    · apply (Coroutine.follows_bind _ _).mpr
      refine ⟨trivial, fun (session : Option ℕ) _ => ?_⟩
      cases session with
      | none => exact fun reply _ hstream => sends_of_none hstream
      | some ref =>
        refine sends_handling (fun s hs => ?_)
        obtain rfl := Option.some.inj hs
        exact .inr rfl

theorem replies_handleGet (req : Request) :
    Replies o .none (StreamableHttpTransport.handleGet req) := by
  refine indifferent_bind (by trivial) (fun check => ?_)
  split
  · exact sends_of_none (stream_securityReject check)
  · dsimp only
    split
    · exact sends_of_none rfl
    · apply (Coroutine.follows_bind _ _).mpr
      refine ⟨trivial, fun (session : Option ℕ) _ => ?_⟩
      cases session with
      | none => exact sends_of_none rfl
      | some ref =>
        refine sends_handling (fun s hs => ?_)
        obtain rfl := Option.some.inj hs
        exact .inr rfl

theorem replies_postNewSession {j : ℕ} {req : Request} (ip : Str) :
    Replies (⟨j, .postMcp req⟩ : Origin srv.Job) .none
      (StreamableHttpTransport.postNewSession srv.L (srv.dispatcher j) j ip req.content) := by
  refine indifferent_bind (by trivial) (fun counter => ?_)
  dsimp only
  generalize "sm".toList ++ toStr j ++ "_".toList ++ toStr counter = id
  apply (Coroutine.follows_bind _ _).mpr
  refine ⟨trivial, fun (session : Option ℕ) _ => ?_⟩
  cases session with
  | none => exact sends_of_none (stream_securityReject _)
  | some ref =>
    have hcalls := (calls_dispatch srv.L (srv.dispatcher j) (fun _ => trivial) req.content id).coAwait
    have replies : ∀ headers, Sends (handling (⟨j, .postMcp req⟩ : Origin srv.Job))
        (fun _ _ => True) { headers := headers, stream := some ⟨.post, id, ref⟩ }
        (.created id ref) := by
      intro headers
      refine sends_handling (fun s hs => ?_)
      obtain rfl := Option.some.inj hs
      exact .inl rfl
    refine (Coroutine.follows_bind _ _).mpr
      ((follows_of_yields hcalls (fun _ h => indifferent_of_postCall _ h.postCall) _).mono ?_ ?_)
    · rintro response _ ⟨-, rfl⟩
      refine indifferent_bind (by trivial) (fun _ => ?_)
      cases response with
      | none => exact replies _
      | some text => exact ⟨⟨id, rfl⟩, fun _ _ => replies _⟩
    · intro _ q _ reply _ hstream
      exact sends_of_none hstream

theorem replies_handlePost {j : ℕ} {req : Request} :
    Replies (⟨j, .postMcp req⟩ : Origin srv.Job) .none
      (StreamableHttpTransport.handlePost srv.L (srv.dispatcher j) j req) := by
  refine indifferent_bind (by trivial) (fun small => ?_)
  split
  · exact sends_of_none (stream_securityReject _)
  · refine indifferent_bind (by trivial) (fun check => ?_)
    split
    · exact sends_of_none (stream_securityReject check)
    · dsimp only
      split
      · exact replies_of_yields (yields_postSession _ _ (fun _ => trivial) _ _ _ _)
      · split
        · exact replies_postNewSession _
        · exact replies_of_yields (yields_postDirect _ _ (fun _ => trivial) _ _)

theorem follows_closeSession {j : ℕ} {req : Request} {Q : Unit → Handle → Prop}
    {E : Exception → Handle → Prop} (hQ : ∀ q, Q () q) (q : Handle) :
    (StreamableHttpTransport.closeSession (req.header "mcp-session-id".toList)).Follows
      (handling (⟨j, .deleteMcp req⟩ : Origin srv.Job)) q Q E := by
  apply (Coroutine.follows_bind _ _).mpr
  refine ⟨trivial, fun (session : Option ℕ) _ => ?_⟩
  cases session with
  | none => exact ⟨trivial, fun _ _ => hQ _⟩
  | some ref =>
    exact ⟨trivial, fun _ _ => ⟨⟨rfl, rfl⟩, fun _ _ => ⟨trivial, fun _ _ => hQ _⟩⟩⟩

theorem replies_handleDelete {j : ℕ} {req : Request} :
    Replies (⟨j, .deleteMcp req⟩ : Origin srv.Job) .none
      (StreamableHttpTransport.handleDelete j req) := by
  unfold StreamableHttpTransport.handleDelete
  dsimp only
  split
  · split
    · apply (Coroutine.follows_bind _ _).mpr
      exact follows_closeSession (fun _ => sends_of_none rfl) _
    · refine ⟨⟨trivial, trivial, ?_⟩, sends_of_none rfl⟩
      exact follows_closeSession (fun _ => trivial) _
  · exact sends_of_none rfl

theorem keeps_handling (srv : McpServer) : Keeps srv.system (fun o => handling o) (fun _ => True)
    (fun _ _ _ => True) where
  answers _ _ _ _ _ := trivial
  program o _ := by
    have serves : ∀ {handler : ShardTask Reply}, Replies o .none handler →
        (serve handler).Follows (handling o) .none
          (fun x _ => x.elim True (fun _ => True)) (fun _ _ => True) := by
      intro handler hreplies
      refine (follows_serve (E := fun _ _ => True) hreplies).mono ?_ (fun _ _ h => h)
      intro x q _
      cases x <;> trivial
    obtain ⟨j, work⟩ := o
    cases work with
    | getSse req => exact serves (replies_handleSse req)
    | postMessage req =>
      have hyields := yields_handleMessage srv.L (srv.dispatcher j) (fun _ => trivial) j req
      exact serves (replies_of_yields hyields)
    | postMcp req => exact serves replies_handlePost
    | getMcp req => exact serves (replies_handleGet req)
    | deleteMcp req => exact serves replies_handleDelete
    | job x =>
      have hcalls : (srv.job j x).inl.Calls PostCall (fun _ => True) :=
        Coroutine.Calls.inl (Coroutine.Addresses.of_all (fun _ => trivial) _)
      refine (Coroutine.follows_bind _ _).mpr
        ((follows_of_yields hcalls indifferent_of_postCall _).mono ?_ (fun _ _ _ => trivial))
      intro _ _ _
      trivial
  again o w q _ := by
    refine (follows_of_yields (calls_runWriter w) indifferent_of_writerCall q).mono ?_
      (fun _ _ _ => trivial)
    intro x _ _
    cases x <;> trivial

end Programs
section Histories
variable {past : List (Mark ShardI)} {id : Str} {ref : ℕ}

def handles : (op : ShardI.Op) → ShardI.Res op → List (Str × ℕ)
  | .inr (.createSessionWithId id _), (session : Option ℕ) => (session.map (id, ·)).toList
  | .inr (.getSession id), (session : Option ℕ) => (session.map (id, ·)).toList
  | _, _ => []

def replied : (op : ShardI.Op) → ShardI.Res op → List (Str × ℕ)
  | .inr (.respond reply), _ => (reply.stream.map (fun s => (s.sessionId, s.session))).toList
  | _, _ => []

theorem handles_of_phase {Job : Type} {o : Origin Job}
    (h : (phase (handling o) past).Names id ref) : (id, ref) ∈ story handles past := by
  induction past with
  | nil => rcases h with h | h <;> cases h
  | cons mark past ih =>
    cases mark with
    | started => rcases h with h | h <;> cases h
    | did op r =>
      refine List.mem_append.mpr ?_
      rcases op with op | op
      · exact .inl (ih h)
      · cases op with
        | createSessionWithId id' ip =>
          right
          cases r with
          | none => rcases h with h | h <;> cases h
          | some ref' =>
            rcases h with h | h <;> cases h
            exact .head _
        | getSession id' =>
          right
          cases r with
          | none => rcases h with h | h <;> cases h
          | some ref' =>
            rcases h with h | h <;> cases h
            exact .head _
        | _ => exact .inl (ih h)

theorem opened_of_phase {Job : Type} {o : Origin Job}
    (h : phase (handling o) past = .created id ref) : Opened past id ref := by
  induction past with
  | nil => cases h
  | cons mark past ih =>
    cases mark with
    | started => cases h
    | did op r =>
      rcases op with op | op
      · exact (ih h).cons _
      · cases op with
        | createSessionWithId id' ip =>
          cases r with
          | none => cases h
          | some ref' =>
            cases h
            exact ⟨ip, .head _⟩
        | getSession id' => cases r <;> cases h
        | _ => exact (ih h).cons _

theorem streams_of_session (h : (transcript past).session = some ref) :
    ∃ id, Streams past id ref ∧ (id, ref) ∈ story replied past := by
  have older : ∀ {past mark}, (∃ id, Streams past id ref ∧ (id, ref) ∈ story replied past) →
      mark ≠ .started → ∃ id, Streams (mark :: past) id ref ∧
        (id, ref) ∈ story replied (mark :: past) := by
    rintro past mark ⟨id, ⟨reply, s, hmem, hrest⟩, hstory⟩ hne
    cases mark with
    | started => exact absurd rfl hne
    | did op r => exact ⟨id, ⟨reply, s, .tail _ hmem, hrest⟩, List.mem_append.mpr (.inl hstory)⟩
  induction past with
  | nil => cases h
  | cons mark past ih =>
    cases mark with
    | started => cases h
    | did op r =>
      rcases op with op | op
      · exact older (ih h) nofun
      · cases op with
        | respond reply =>
          have hstream : reply.stream.map Stream.session = some ref := h
          obtain ⟨s, hs, rfl⟩ := Option.map_eq_some_iff.mp hstream
          refine ⟨s.sessionId, ⟨reply, s, .head _, hs, rfl, rfl⟩, List.mem_append.mpr (.inr ?_)⟩
          simp [replied, hs]
        | _ => exact older (ih h) nofun

end Histories

section Objects
variable {srv : McpServer} {steps : List (Label Input (Origin srv.Job))} {c : srv.State}
  {e : Event ShardI (Origin srv.Job) McpShard} {id : Str} {ref : ℕ}

theorem belongs_of_found (h : srv.Reaches steps c) (he : e ∈ c.log)
    (hfound : e.before.getSession id = some ref) : Belongs c.log e.shard ref id := by
  obtain ⟨older, hs⟩ := suffix_of_mem he
  obtain ⟨shards, hcoherent, hbefore, -⟩ := (coherent_of_run h).of_suffix hs
  have holder : older.Sublist c.log := (List.sublist_cons_self e older).trans hs.sublist
  have hone : older.countP (fun e => SessionIds.issued e == some id) ≤ 1 :=
    holder.countP_le.trans (SessionIds.countP_issued_le_one h id)
  rw [hbefore] at hfound
  obtain ⟨newer, a, older', hlog, hshard, hissued, hobjects, -⟩ :=
    (SessionLifecycles.found_iff_of_coherent hcoherent hone).mp hfound
  exact ⟨a, holder.subset (by simp [hlog]), hshard, hissued, hobjects⟩

theorem belongs_of_handles (h : srv.Reaches steps c) (he : e ∈ c.log)
    (hmem : (id, ref) ∈ handles e.op e.res) : Belongs c.log e.shard ref id := by
  have hexec := (coherent_of_run h).exec e he
  obtain ⟨j, now, o, past, op, res, before, after⟩ := e
  have hres : (shardExec srv.L srv.cfg j now op before).1 = res := congrArg Prod.fst hexec
  rcases op with op | op
  · cases hmem
  · cases op with
    | createSessionWithId id' ip =>
      have hnew : res = some before.objects.length :=
        hres.symm.trans (before.getSession_createSessionWithId id' ip)
      subst hnew
      obtain ⟨rfl, rfl⟩ : id = id' ∧ ref = before.objects.length := by simpa [handles] using hmem
      exact ⟨_, he, rfl, rfl, rfl⟩
    | getSession id' =>
      have hfound : before.getSession id' = res := hres
      cases res with
      | none => cases hmem
      | some ref' =>
        obtain ⟨rfl, rfl⟩ : id = id' ∧ ref = ref' := by simpa [handles] using hmem
        exact belongs_of_found h he hfound
    | _ => cases hmem

theorem belongs_unique (h : srv.Reaches steps c) {j : ℕ} {id' : Str} (hid : Belongs c.log j ref id)
    (hid' : Belongs c.log j ref id') : id = id' := by
  have hcoherent := coherent_of_run h
  have grows : ∀ a ∈ c.log, a.before.objects.length ≤ a.after.objects.length :=
    fun a ha => (Frame.of_exec (hcoherent.exec a ha)).objects
  have passes_issued : ∀ {a : Event ShardI (Origin srv.Job) McpShard} {id : Str}, a ∈ c.log →
      a.shard = j → SessionIds.issued a = some id → a.before.objects.length = ref →
      passes (fun s : McpShard => s.objects.length) j (ref + 1) a := by
    intro a id ha hshard hissued hobjects
    have hexec := hcoherent.exec a ha
    have hentry := SessionLifecycles.entry_eq_some_iff.mpr ⟨hissued, hobjects⟩
    have hget : a.after.getSession id = some ref := by
      rw [SessionLifecycles.getSession_exec hexec, hentry, Option.getD_some]
    have htables := tables_shardExec srv.L srv.cfg a.shard a.now a.op a.before
      ((tables_of_run h).2 a ha)
    rw [← SessionIds.after_eq hexec] at htables
    have hbound := htables.1.bound id ref hget
    simp only [passes, hshard, beq_self_eq_true, Bool.true_and, Bool.and_eq_true,
      decide_eq_true_eq]
    omega
  obtain ⟨a, ha, hshard, hissued, hobjects⟩ := hid
  obtain ⟨a', ha', hshard', hissued', hobjects'⟩ := hid'
  have hone : c.log.countP (passes (fun s : McpShard => s.objects.length) j (ref + 1)) ≤ 1 := by
    refine (hcoherent.countP_passes_le _ grows j (ref + 1)).trans ?_
    split <;> omega
  obtain ⟨newer, older, hlog⟩ := List.append_of_mem ha
  obtain ⟨newer', older', hlog'⟩ := List.append_of_mem ha'
  obtain ⟨-, rfl⟩ := SessionLifecycles.eq_of_countP_le_one hone hlog
    (passes_issued ha hshard hissued hobjects) hlog' (passes_issued ha' hshard' hissued' hobjects')
  exact Option.some.inj (hissued.symm.trans hissued')

theorem lawful_of_run (h : srv.Reaches steps c) (he : e ∈ c.log) :
    Lawful (handling e.origin) e.history :=
  (onTrack_of_run (keeps_handling srv) (fun l _ => l.launches_true) h).2 e he

theorem belongs_of_names (h : srv.Reaches steps c) (he : e ∈ c.log)
    (hnames : (phase (handling e.origin) e.past).Names id ref) :
    Belongs c.log e.shard ref id := by
  obtain ⟨older, hs⟩ := suffix_of_mem he
  have hmem := (story_subset_of_run handles h).2 e older hs (handles_of_phase hnames)
  obtain ⟨a, ha, hshard, hhandles⟩ := mem_chronicle.mp hmem
  rw [← hshard]
  exact belongs_of_handles h (hs.subset (.tail _ ha)) hhandles

theorem belongs_of_session (h : srv.Reaches steps c)
    {t : Running ShardI Input Exception (Origin srv.Job) WriterState} (ht : t ∈ c.tasks)
    (hsession : (transcript t.past).session = some ref) :
    ∃ id, Streams t.past id ref ∧ Belongs c.log t.shard ref id := by
  obtain ⟨id, hstreams, hstory⟩ := streams_of_session hsession
  obtain ⟨a, ha, hshard, hreplied⟩ :=
    mem_chronicle.mp ((story_subset_of_run replied h).1 t ht hstory)
  refine ⟨id, hstreams, ?_⟩
  rw [← hshard]
  apply belongs_of_names h ha
  have hallows : Handle.Allows a.origin.work (phase (handling a.origin) a.past) a.op :=
    (lawful_of_run h ha).1.1
  obtain ⟨j, now, o, past, op, res, before, after⟩ := a
  rcases op with op | op
  · cases hreplied
  · cases op with
    | respond reply =>
      simp only [replied, Option.mem_toList, Option.map_eq_some_iff] at hreplied
      obtain ⟨s, hs, heq⟩ := hreplied
      obtain ⟨rfl, rfl⟩ := Prod.mk.inj heq
      exact hallows s hs
    | _ => cases hreplied

end Objects

section Messages
variable {app : Application} {B : HandlerCall → Prop}
  {steps : List (Label Input (Origin app.Job))} {c : app.server.State}
  {e : Event ShardI (Origin app.Job) McpShard} {id : Str} {ref : ℕ}

theorem handledBy_of_sendsBy (h : SendsBy app B) (o : Origin app.Job) (hpost : IsPost o.work) :
    HandledBy app.server (fun call => SendsMessage call → B call) o := by
  have harmless : ∀ call, RequestedChanges.Asked app.L (RequestedChanges.batchLimit app) o.work
      call → SendsMessage call → B call := by
    rintro call ⟨body, -, v, -, method, -, -, hrequests⟩ hsends
    cases call <;> first | exact hsends.elim | exact hrequests.elim
  obtain ⟨j, work⟩ := o
  cases work with
  | postMessage req | postMcp req =>
    exact RequestedChanges.calls_asked (fun _ => trivial) h.registry j harmless rfl
  | _ => exact hpost.elim

def sending (app : Application) (B : HandlerCall → Prop) (o : Origin app.Job) :
    Contract ShardI Unit :=
  .calling ShardI (Within (fun call => IsPost o.work ∨ (SendsMessage call → B call)))
    (fun _ => True)

theorem keeps_sending (h : SendsBy app B) :
    Keeps app.server.system (sending app B) (fun _ => True) (fun _ _ _ => True) where
  answers _ _ _ _ _ := trivial
  program o _ := by
    have hprogram : (app.server.program o.shard o.work).Calls
        (Within (fun call => IsPost o.work ∨ (SendsMessage call → B call))) (fun _ => True) := by
      refine RequestedChanges.calls_program app.server (fun _ => trivial) o.shard ?_ ?_ ?_
      · intro body hbody
        have hpost : IsPost o.work := by
          cases hwork : o.work <;> rw [hwork] at hbody <;> trivial
        exact (Coroutine.Addresses.of_all (fun _ => trivial) _).mono (fun call _ => .inl hpost)
      · rintro x -
        exact (h.job o.shard x).mono (fun call hcall => .inr hcall)
      · rintro call ⟨hbody, -⟩
        left
        cases hwork : o.work <;> rw [hwork] at hbody <;> trivial
    exact Coroutine.Follows.mono hprogram (fun x _ _ => by cases x <;> trivial)
      (fun _ _ _ => trivial)
  again o w _ _ := by
    have hwriter := (calls_runWriter (T := fun _ => True) w).mono
      (RequestedChanges.within_of_writerCall
        (B := fun call => IsPost o.work ∨ (SendsMessage call → B call)))
    exact Coroutine.Follows.mono hwriter (fun x _ _ => by cases x <;> trivial)
      (fun _ _ _ => trivial)

theorem sendsMessage_of_addressee {L : JsonLibrary} {call : HandlerCall} {s : McpShard}
    (h : id ∈ QueueWaiters.addressees L call s) : SendsMessage call := by
  cases call <;> trivial

/-- What is put into the queue of a session's object, the application has sent, or it is due to the
session. -/
theorem due_of_pushed (hsends : SendsBy app B) (h : app.server.Reaches steps c) (he : e ∈ c.log)
    (hid : Belongs c.log e.shard ref id) (hpushed : ref ∈ QueueWaiters.pushed app.L e.op e.before) :
    (∃ call, e.op = .inl call ∧ B call) ∨
      Due app.server e id ref (QueueWaiters.message app.L e.op e.before) := by
  have hsending := ((onTrack_of_run (keeps_sending hsends) (fun l _ => l.launches_true) h).2 e
    he).1.1
  have hproper : IsPost e.origin.work → Proper app.server c e := by
    have hposting := onTrack_of_run (keeps_posting app.server) (fun l _ => l.launches_true) h
    exact fun hpost => proper_of_lawful hpost (hposting.2 e he)
      ((ResponseDelivery.handed_of_run (returns_owed app.server) h).log e he)
  have hhandling := (lawful_of_run h he).1.1
  cases hop : e.op with
  | inl call =>
    rw [hop] at hsending hpushed
    obtain ⟨session, hsession, htarget⟩ := List.mem_filterMap.mp hpushed
    have hcall : SendsMessage call := sendsMessage_of_addressee hsession
    by_cases hpost : IsPost e.origin.work
    · by_cases hrecorded : Recorded e.past
      · obtain ⟨text, rfl, -, -, howed⟩ := (hproper hpost).push call hop hrecorded
        obtain rfl := List.mem_singleton.mp hsession
        have hfound := (McpShard.target_eq_some_iff.mp htarget).1
        have hnamed := belongs_unique h (belongs_of_found h he hfound) hid
        exact .inr (.inl ⟨hpost, howed, .inl hnamed⟩)
      · obtain ⟨-, hhandlers⟩ := (hproper hpost).handled call hop hrecorded
        exact .inl ⟨call, rfl, hhandlers _ (handledBy_of_sendsBy hsends e.origin hpost) hcall⟩
    · exact .inl ⟨call, rfl, hsending.resolve_left hpost hcall⟩
  | inr call =>
    cases call with
    | pushEventually ref' text =>
      rw [hop] at hpushed
      obtain rfl : ref = ref' := by
        change ref ∈ (if ref' < e.before.objects.length then [ref'] else []) at hpushed
        split at hpushed
        · exact List.mem_singleton.mp hpushed
        · cases hpushed
      have hallows : Handle.Allows e.origin.work (phase (handling e.origin) e.past) e.op :=
        hhandling
      rw [hop] at hallows
      unfold Handle.Allows at hallows
      right
      cases hwork : e.origin.work <;> rw [hwork] at hallows
      case postMcp req =>
        obtain ⟨id', hcreated⟩ := hallows
        obtain rfl := belongs_unique h (belongs_of_names h he (.inl hcreated)) hid
        have hpost : IsPost e.origin.work := by
          rw [hwork]
          trivial
        have howed := ((hproper hpost).queue ref text hop).2.2
        exact .inl ⟨hpost, howed, .inr (opened_of_phase hcreated)⟩
      case deleteMcp req =>
        obtain ⟨rfl, hfound⟩ := hallows
        have hnamed := belongs_unique h (belongs_of_names h he (.inr hfound)) hid
        exact .inr ⟨rfl, req, hwork, hnamed⟩
      all_goals exact hallows.elim
    | _ =>
      rw [hop] at hpushed
      cases hpushed

/-- In every run, each stream is of one session, and what its client reads, but for what the code of
the application sends, are the answers to requests that name this session or have opened it. -/
theorem private_of_run (app : Application) {B : HandlerCall → Prop} (hsends : SendsBy app B)
    {steps : List (Label Input (Origin app.Job))} {c : app.server.State}
    (h : app.server.Reaches steps c) {i ref : ℕ}
    {t : Running ShardI Input Exception (Origin app.Job) WriterState} (hi : c.tasks[i]? = some t)
    (hsession : (transcript t.past).session = some ref)
    (htexts : ∀ text ∈ sent app.server c.log t.shard ref, Unbroken text)
    {calls : List (BufferedStreams.Call Char)} {body : BodyStream} (hcalls : Called t.past calls)
    (hbody : BodyStream.new.Runs HttpChunkedDataSink.sink calls body) :
    ∃ client id, ChunkedCoding.Recipient.feed {} body.sink.sink = some client ∧
      Streams t.past id ref ∧ Belongs c.log t.shard ref id ∧
      (∀ id', Belongs c.log t.shard ref id' → id' = id) ∧
      ∀ text ∈ messages (decode client.body), ∃ e ∈ c.log, e.shard = t.shard ∧
        QueueWaiters.brings app.L ref e.op e.before = [text] ∧
        ((∃ call, e.op = .inl call ∧ B call) ∨ Due app.server e id ref text) := by
  obtain ⟨id, hstreams, hid⟩ := belongs_of_session h (List.mem_of_getElem? hi) hsession
  obtain ⟨client, hclient, -, hmessages, -⟩ :=
    read_of_run h hi hsession htexts hcalls hbody
  obtain ⟨hsublist, -⟩ := written_of_run h hi hsession
  have hdue : due c t ref <+: sent app.server c.log t.shard ref := List.take_prefix _ _
  refine ⟨client, id, hclient, hstreams, hid, fun id' hid' => belongs_unique h hid' hid, ?_⟩
  intro text htext
  have hsent := hdue.subset (hsublist.subset (hmessages.subset htext))
  obtain ⟨e, he, hshard, hbrings⟩ := mem_chronicle.mp hsent
  refine ⟨e, he, hshard, ?_⟩
  unfold QueueWaiters.brings at hbrings ⊢
  split at hbrings
  · rename_i hpushed
    obtain rfl := List.mem_singleton.mp hbrings
    exact ⟨if_pos hpushed, due_of_pushed hsends h he (hshard ▸ hid) hpushed⟩
  · cases hbrings

end Messages

section Examples
open RequestedChanges

theorem sendsBy_bareApp : SendsBy bareApp (fun _ => False) where
  registry := ⟨fun _ _ h => (by cases h), fun _ _ h => (by cases h), fun _ _ h => (by cases h)⟩
  job _ x := x.elim

/-- The world outside answers task `i`. -/
def answered (i : ℕ) : Label Input (Origin Empty) := .resume i (.ok .null)

def asking : List (Label Input (Origin Empty)) :=
  .launch ⟨0, .getSse {}⟩ :: (List.replicate 4 (.advance 0) ++ answered 0 ::
    (List.replicate 2 (.advance 0) ++ answered 0 :: answered 0 :: List.replicate 3 (.advance 0))) ++
  .launch ⟨0, .postMessage ResourceUpdates.subscribePost⟩ :: (List.replicate 5 (.advance 1) ++
    List.replicate 4 (answered 1) ++ List.replicate 3 (.advance 1)) ++
  .wake 0 :: (List.replicate 2 (.advance 0) ++ answered 0 :: answered 0 ::
    List.replicate 3 (.advance 0))

/-- The client has read one text, and it is due to the session. -/
theorem private_of_run_asking : ∃ c t body client id text, bareApp.server.Reaches asking c ∧
    c.tasks[0]? = some t ∧ Streams t.past id 0 ∧
    BodyStream.new.Runs HttpChunkedDataSink.sink (bodyCalls t.past) body ∧
    ChunkedCoding.Recipient.feed {} body.sink.sink = some client ∧
    messages (decode client.body) = [text] ∧
    ∃ e ∈ c.log, e.shard = 0 ∧ QueueWaiters.brings bareApp.L 0 e.op e.before = [text] ∧
      Due bareApp.server e id 0 text := by
  have hrun : (LabelledRuns.run bareApp.server.system.step bareApp.server.system.start asking).any
      (fun c => c.tasks[0]?.any (fun t => t.shard == 0 && (transcript t.past).session == some 0 &&
          (transcript t.past).written == sent bareApp.server c.log 0 0) &&
        (sent bareApp.server c.log 0 0).length == 1 &&
        (sent bareApp.server c.log 0 0).all (fun text => decide (Unbroken text))) := by
    decide +kernel
  obtain ⟨c, hc, hp⟩ := (Option.any_eq_true _ _).mp hrun
  simp only [Bool.and_eq_true, beq_iff_eq] at hp
  obtain ⟨⟨htask, hlength⟩, htexts⟩ := hp
  obtain ⟨t, ht, hp⟩ := (Option.any_eq_true _ _).mp htask
  simp only [Bool.and_eq_true, beq_iff_eq] at hp
  obtain ⟨⟨hshard, hsession⟩, hwritten⟩ := hp
  obtain ⟨text, htext⟩ := List.length_eq_one_iff.mp hlength
  have hunbroken : ∀ text ∈ sent bareApp.server c.log t.shard 0, Unbroken text := by
    rw [hshard]
    exact fun text hmem => of_decide_eq_true (List.all_eq_true.mp htexts text hmem)
  obtain ⟨body, hbody⟩ := exists_runs (bodyCalls t.past) BodyStream.new
  obtain ⟨client, id, hclient, hstreams, -, -, hdue⟩ :=
    private_of_run bareApp sendsBy_bareApp hc ht hsession hunbroken (.inl rfl) hbody
  obtain ⟨client', hclient', -, hread, hflushed⟩ :=
    read_of_run hc ht hsession hunbroken (.inl rfl) hbody
  obtain rfl : client = client' := Option.some.inj (hclient.symm.trans hclient')
  have hmessages : messages (decode client.body) = [text] := by
    have hall := hflushed [] t.past rfl nofun List.prefix_rfl
    rw [hwritten, htext] at hread hall
    exact hread.eq_of_length_le hall.length_le
  obtain ⟨e, he, hat, hbrings, ⟨_, -, hnot⟩ | hduetext⟩ :=
    hdue text (by rw [hmessages]; exact .head _)
  · exact hnot.elim
  · exact ⟨c, t, body, client, id, text, hc, ht, hstreams, hbody, hclient, hmessages, e, he,
      hat.trans hshard, hbrings, hduetext⟩

end Examples
end McpSdk.PrivateStreams

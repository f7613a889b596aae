import McpSdk.SessionRouting
import McpSdk.ShardFrames

/-!
# The ids of sessions

A session opened by GET /sse is called `s{shard}_{counter}`, one opened by POST /mcp
`sm{shard}_{counter}`, with two counters on each shard. No two of them are ever the same: the
text of an id determines its kind, its shard and its number, a counter passes each number once,
and a request that has counted opens one session with the number.
-/

namespace McpSdk.SessionIds
open CppStandardLibrary CooperativeTasks ClusterRuns SessionRouting

/-- The id `create_session` gives on shard `j`. -/
def sseId (j n : ℕ) : Str := "s".toList ++ toStr j ++ "_".toList ++ toStr n

/-- The id POST /mcp gives on shard `j`. -/
def streamId (j n : ℕ) : Str := "sm".toList ++ toStr j ++ "_".toList ++ toStr n

section Text

theorem underscore_notMem_toStr (n : ℕ) : '_' ∉ toStr n :=
  fun h => absurd (isDigit_of_mem_toStr h) (by decide)

theorem numbers_inj {j j' n n' : ℕ} (h : toStr j ++ '_' :: toStr n = toStr j' ++ '_' :: toStr n') :
    j = j' ∧ n = n' := by
  obtain ⟨hj, hn⟩ :=
    append_cons_inj (underscore_notMem_toStr j) (underscore_notMem_toStr j') h
  exact ⟨toStr_injective hj, toStr_injective hn⟩

theorem sseId_eq (j n : ℕ) : sseId j n = 's' :: (toStr j ++ '_' :: toStr n) := by
  simp [sseId]

theorem streamId_eq (j n : ℕ) : streamId j n = 's' :: 'm' :: (toStr j ++ '_' :: toStr n) := by
  simp [streamId]

theorem sseId_inj {j j' n n' : ℕ} (h : sseId j n = sseId j' n') : j = j' ∧ n = n' := by
  rw [sseId_eq, sseId_eq] at h
  exact numbers_inj (List.cons.inj h).2

theorem streamId_inj {j j' n n' : ℕ} (h : streamId j n = streamId j' n') : j = j' ∧ n = n' := by
  rw [streamId_eq, streamId_eq] at h
  exact numbers_inj (List.cons.inj (List.cons.inj h).2).2

theorem exists_digit (j n : ℕ) : ∃ d tail, toStr j ++ '_' :: toStr n = d :: tail ∧ d.isDigit := by
  cases hj : toStr j with
  | nil => exact absurd hj (toStr_ne_nil j)
  | cons d ds =>
    have hmem : d ∈ toStr j := hj ▸ List.mem_cons_self ..
    exact ⟨d, _, rfl, isDigit_of_mem_toStr hmem⟩

theorem sseId_ne_streamId (j j' n n' : ℕ) : sseId j n ≠ streamId j' n' := by
  intro h
  obtain ⟨d, tail, htext, hdigit⟩ := exists_digit j n
  rw [sseId_eq, streamId_eq, htext] at h
  obtain rfl := (List.cons.inj (List.cons.inj h).2).1
  cases hdigit

theorem sseId_ne_nil (j n : ℕ) : sseId j n ≠ [] := by
  rw [sseId_eq]
  exact List.cons_ne_nil _ _

end Text

section Parsing

theorem numberAfter_toStr (pre : Str) {j : ℕ} (hj : j < 2 ^ 32) (n : ℕ) :
    numberAfter pre (toStr j ++ '_' :: toStr n) = j := by
  have hfind : find (pre ++ (toStr j ++ '_' :: toStr n)) '_' pre.length =
      some (pre.length + (toStr j).length) :=
    (find_append pre).mpr ⟨toStr j, toStr n, rfl, underscore_notMem_toStr j, rfl⟩
  have hpos : pre.length + (toStr j).length > pre.length :=
    Nat.lt_add_of_pos_right (List.length_pos_iff.mpr (toStr_ne_nil j))
  have hnumber : stoul (toStr j) = some j := stoul_toStr (hj.trans (by norm_num))
  rw [numberAfter, hfind]
  simp only [hpos, if_true, Nat.add_sub_cancel_left, substr_append, hnumber]
  exact Nat.mod_eq_of_lt hj

theorem sse_parseShard_sseId {j : ℕ} (hj : j < 2 ^ 32) (n : ℕ) :
    HttpSseTransport.parseShard (sseId j n) = j := by
  rw [sseId_eq, sse_parseShard_cons, numberAfter_toStr _ hj]

theorem mcp_parseShard_sseId {j : ℕ} (hj : j < 2 ^ 32) (n : ℕ) :
    StreamableHttpTransport.parseShard (sseId j n) = j := by
  rw [sseId_eq, mcp_parseShard_cons, numberAfter_toStr _ hj]
  rintro ⟨d, rest, h⟩
  obtain ⟨c, tail, htext, hdigit⟩ := exists_digit j n
  rw [htext] at h
  obtain rfl := (List.cons.inj (List.cons.inj h).2).1
  cases hdigit

theorem mcp_parseShard_streamId {j : ℕ} (hj : j < 2 ^ 32) (n : ℕ) :
    StreamableHttpTransport.parseShard (streamId j n) = j := by
  obtain ⟨c, tail, htext, -⟩ := exists_digit j n
  rw [streamId_eq, htext, mcp_parseShard_sm, ← htext, numberAfter_toStr _ hj]

end Parsing

section Requests

inductive CountStage
  | fresh
  | counted (n : ℕ)
  | used
  deriving DecidableEq

namespace CountStage

def next : CountStage → (op : ShardI.Op) → ShardI.Res op → CountStage
  | _, .inr .nextCounter, n => .counted n
  | _, .inr (.createSessionWithId _ _), _ => .used
  | q, _, _ => q

def Allows (j : ℕ) (q : CountStage) : ShardI.Op → Prop
  | .inr .nextCounter => q = .fresh
  | .inr (.createSessionWithId id _) => ∃ n, q = .counted n ∧ id = streamId j n
  | _ => True

end CountStage

/-- A request counts once, before anything else is started, and uses the number once. -/
def counting {Job : Type} (o : Origin Job) : Contract ShardI CountStage where
  init := .fresh
  allows := CountStage.Allows o.shard
  answers _ _ := True
  next := CountStage.next
  child _ := .used
  rests _ := True
  addresses _ := True

def Plain : ShardI.Op → Prop
  | .inr .nextCounter | .inr (.createSessionWithId _ _) => False
  | _ => True

variable {Job : Type} {o : Origin Job} {q : CountStage}

theorem next_plain {op : ShardI.Op} (h : Plain op) (r : ShardI.Res op) : q.next op r = q := by
  rcases op with op | op
  · cases q <;> rfl
  · cases op <;> first | exact h.elim | (cases q <;> rfl)

theorem next_used {j : ℕ} {op : ShardI.Op} (h : CountStage.used.Allows j op) (r : ShardI.Res op) :
    CountStage.used.next op r = .used := by
  by_cases hop : Plain op
  · exact next_plain hop r
  · rcases op with op | op
    · exact absurd trivial hop
    · cases op with
      | nextCounter => cases h
      | createSessionWithId => rfl
      | _ => exact absurd trivial hop

theorem idle_counting : (counting o).Idle Plain (fun _ => True) where
  allows q op _ h := by
    rcases op with op | op
    · trivial
    · cases op <;> trivial
  next q op r _ h := next_plain h r
  rests _ _ := trivial
  child _ _ := trivial

theorem counting_of_calls {α : Type} {t : ShardTask α} (h : t.Calls Plain (fun _ => True)) :
    t.Follows (counting o) q (fun _ _ => True) (fun _ _ => True) :=
  (Coroutine.Follows.of_calling idle_counting (fun _ h => h) trivial h).mono
    (fun _ _ _ => trivial) (fun _ _ _ => trivial)

theorem plain_of_postCall (op : ShardI.Op) (h : PostCall op) : Plain op := by
  rcases op with op | op
  · trivial
  · cases op <;> trivial

theorem plain_of_getCall (op : ShardI.Op) (h : GetCall op) : Plain op := by
  rcases op with op | op
  · trivial
  · cases op <;> trivial

theorem plain_of_closingCall (op : ShardI.Op) (h : ClosingCall op) : Plain op := by
  rcases op with op | op
  · trivial
  · cases op <;> trivial

theorem plain_of_writerCall (op : ShardI.Op) (h : WriterCall op) : Plain op := by
  rcases op with op | op
  · trivial
  · cases op <;> trivial

theorem used_of_started {past : List (Mark ShardI)} (h : Lawful (counting o) past)
    (hs : .started ∈ past) : phase (counting o) past = .used := by
  induction past with
  | nil => cases hs
  | cons mark past ih =>
    cases mark with
    | started => rfl
    | did op r =>
      have hpast := ih h.2 ((List.mem_cons.mp hs).resolve_left nofun)
      have hallows : (phase (counting o) past).Allows o.shard op := h.1.1
      change (phase (counting o) past).next op r = .used
      rw [hpast] at hallows ⊢
      exact next_used hallows r

theorem counting_handlePost {L : JsonLibrary} {d : JsonRpcDispatcher HandlerI} {req : Request}
    {j : ℕ} (hj : o.shard = j) : (StreamableHttpTransport.handlePost L d j req).Follows (counting o)
      .fresh (fun _ _ => True) (fun _ _ => True) := by
  have hall : ∀ n : ℕ, (fun _ => True) n := fun _ => trivial
  refine idle_counting.perform_bind trivial (by trivial) (fun small => ?_)
  split
  · trivial
  · refine idle_counting.perform_bind trivial (by trivial) (fun check => ?_)
    split
    · trivial
    · dsimp only
      split
      · exact counting_of_calls ((calls_postSession L d hall _ _ _ _).mono plain_of_postCall)
      · split
        · unfold StreamableHttpTransport.postNewSession
          rw [Coroutine.follows_bind, follows_transport]
          refine ⟨rfl, fun n _ => ?_⟩
          rw [Coroutine.follows_bind, follows_transport]
          refine ⟨⟨n, rfl, by rw [hj]; rfl⟩, fun session _ => counting_of_calls ?_⟩
          split
          · exact .pure _
          · refine ((calls_dispatch L d hall _ _).mono
              (fun _ h => plain_of_postCall _ h.postCall)).coAwait.bind
              (fun response => (calls_transport trivial).bind (fun _ => ?_))
            split
            · exact (calls_transport trivial).bind (fun _ => .pure _)
            · exact .pure _
        · exact counting_of_calls ((calls_postDirect L d hall _ _).mono plain_of_postCall)

theorem sends_counting {reply : Reply} : Sends (counting o) (fun _ _ => True) reply q :=
  ⟨trivial, trivial, trivial, trivial⟩

theorem counting_program (srv : McpServer) (o : Origin srv.Job) :
    (srv.program o.shard o.work).Follows (counting o) .fresh (fun _ _ => True)
      (fun _ _ => True) := by
  have hall : ∀ n : ℕ, (fun _ => True) n := fun _ => trivial
  have hserve : ∀ {handler : ShardTask Reply}, handler.Calls Plain (fun _ => True) →
      (serve handler).Follows (counting o) .fresh (fun _ _ => True) (fun _ _ => True) :=
    fun h => counting_of_calls (calls_serve h (fun _ => trivial))
  obtain ⟨j, work⟩ := o
  cases work with
  | getSse req => exact hserve ((calls_handleSse req).mono plain_of_getCall)
  | postMessage req =>
    exact hserve ((calls_handleMessage srv.L _ hall j req).mono plain_of_postCall)
  | postMcp req =>
    exact follows_serve ((counting_handlePost rfl).mono (fun _ _ _ => sends_counting)
      (fun _ _ _ _ _ _ => sends_counting))
  | getMcp req => exact hserve ((calls_handleGet req).mono plain_of_getCall)
  | deleteMcp req => exact hserve ((calls_handleDelete trivial).mono plain_of_closingCall)
  | job x =>
    apply counting_of_calls
    exact (Coroutine.Calls.inl (A := Plain) (Coroutine.Addresses.of_all hall _)).bind
      (fun _ => .pure _)

theorem keeps_counting (srv : McpServer) :
    Keeps srv.system (fun o => counting o) (fun _ => True) (fun _ _ _ => True) where
  answers _ _ _ _ _ := trivial
  program o _ := (counting_program srv o).mono (fun x _ _ => by cases x <;> trivial)
    (fun _ _ _ => trivial)
  again o w q _ := (counting_of_calls ((calls_runWriter w).mono plain_of_writerCall)).mono
    (fun x _ _ => by cases x <;> trivial) (fun _ _ _ => trivial)

end Requests

section Runs
variable {srv : McpServer} {steps : List (Label Input (Origin srv.Job))} {c : srv.State}

/-- The id of the session that a call opens. -/
def issuedBy : (op : ShardI.Op) → ShardI.Res op → Option Str
  | .inr (.createSession _), (id : Str) => if id = [] then none else some id
  | .inr (.createSessionWithId id _), _ => some id
  | _, _ => none

/-- The event opens a session, with this id. -/
def issued {O : Type} (e : Event ShardI O McpShard) : Option Str := issuedBy e.op e.res

def countedBy : (op : ShardI.Op) → ShardI.Res op → Option ℕ
  | .inr .nextCounter, (n : ℕ) => some n
  | _, _ => none

/-- The event counts to `n` for a request on shard `j`. -/
def countsTo {Job : Type} (j n : ℕ) (e : Event ShardI (Origin Job) McpShard) : Bool :=
  e.origin.shard == j && countedBy e.op e.res == some n

/-- The event opens a session under the id of the number `n` on shard `j`. -/
def uses {O : Type} (j n : ℕ) (e : Event ShardI O McpShard) : Bool :=
  match e.op with
  | .inr (.createSessionWithId id _) => id == streamId j n
  | _ => false

/-- A request has counted to `n` on shard `j` and is yet to open its session. -/
def holds {Job : Type} (j n : ℕ) (o : Origin Job) (past : List (Mark ShardI)) : Bool :=
  o.shard == j && phase (counting o) past == .counted n

/-- A request that counts to a number holds it until it opens its session. -/
theorem gain_holds {e : Event ShardI (Origin srv.Job) McpShard}
    (hlawful : Lawful (counting e.origin) e.history) (j n : ℕ) :
    Event.gain (fun o past => if holds j n o past then 1 else 0) e =
      (if countsTo j n e then 1 else 0) - (if uses j n e then 1 else 0) := by
  have hallows : (phase (counting e.origin) e.past).Allows e.origin.shard e.op := hlawful.1.1
  have hnext : phase (counting e.origin) e.history =
    (phase (counting e.origin) e.past).next e.op e.res := rfl
  unfold Event.gain holds
  beta_reduce
  rw [hnext]
  obtain ⟨k, now, o, past, op, res, before, after⟩ := e
  dsimp only at hallows ⊢
  have hplain : Plain op → (if o.shard == j && (phase (counting o) past).next op res == .counted n
      then 1 else 0 : Int) - (if o.shard == j && phase (counting o) past == .counted n
      then 1 else 0) = 0 := by
    intro hop
    rw [next_plain hop, sub_self]
  rcases op with op | op
  · refine (hplain trivial).trans ?_
    simp [countsTo, countedBy, uses]
  · cases op with
    | nextCounter =>
      have hfresh : phase (counting o) past = .fresh := hallows
      rw [hfresh]
      have hsame : ∀ m : ℕ, CountStage.counted m = .counted n ↔ some m = some n := by simp
      simp [CountStage.next, countsTo, countedBy, uses, hsame res]
    | createSessionWithId id ip =>
      obtain ⟨m, hphase, rfl⟩ := hallows
      have hid : streamId o.shard m = streamId j n ↔ o.shard = j ∧ m = n :=
        ⟨streamId_inj, fun h => by rw [h.1, h.2]⟩
      rw [hphase]
      simp [CountStage.next, countsTo, countedBy, uses, hid]
    | _ =>
      refine (hplain trivial).trans ?_
      simp [countsTo, countedBy, uses]

theorem issuedBy_createSession (ip : Str) (j n : ℕ) :
    issuedBy (.inr (.createSession ip)) (sseId j n) = some (sseId j n) := by
  rw [issuedBy, if_neg (sseId_ne_nil j n)]

theorem createSession_cases (cfg : McpServerConfig) (j : ℕ) (ip : Str) (s : McpShard) :
    (s.createSession cfg j ip).1 = [] ∨
      (s.createSession cfg j ip).1 = sseId j (s.sessionCounter + 1) ∧
        (s.createSession cfg j ip).2.sessionCounter = s.sessionCounter + 1 := by
  rcases s.createSession_eq cfg j ip with hfull | ⟨_, _, hnew⟩
  · exact .inl (congrArg Prod.fst hfull)
  · rw [hnew]
    exact .inr ⟨rfl, rfl⟩

section Calls
variable (L : JsonLibrary) (cfg : McpServerConfig) (j : ℕ) (now : Int) (op : ShardI.Op)
  (s : McpShard)

theorem sessionCounter_le : s.sessionCounter ≤ (shardExec L cfg j now op s).2.sessionCounter := by
  by_cases hop : CountsSessions op
  · rcases op with op | op
    · exact hop.elim
    · cases op with
      | createSession ip =>
        rcases s.createSession_frame cfg j ip with h | ⟨_, _, h⟩
        · exact (congrArg McpShard.sessionCounter h).ge
        · exact (Nat.le_succ _).trans (congrArg McpShard.sessionCounter h).ge
      | _ => exact hop.elim
  · exact ((frame_shardExec L cfg j now op s).sessionCounter hop).ge

theorem nextCounter_le : s.nextCounter ≤ (shardExec L cfg j now op s).2.nextCounter := by
  by_cases hop : CountsStreams op
  · rcases op with op | op
    · exact hop.elim
    · cases op with
      | nextCounter => exact Nat.le_succ _
      | _ => exact hop.elim
  · exact ((frame_shardExec L cfg j now op s).nextCounter hop).ge

theorem issuedBy_cases {id : Str} (hid : issuedBy op (shardExec L cfg j now op s).1 = some id) :
    (id = sseId j (s.sessionCounter + 1) ∧
      (shardExec L cfg j now op s).2.sessionCounter = s.sessionCounter + 1) ∨
    ∃ ip, op = .inr (.createSessionWithId id ip) := by
  rcases op with op | op
  · cases hid
  · cases op with
    | createSession ip =>
      change issuedBy (.inr (.createSession ip)) (s.createSession cfg j ip).1 = some id at hid
      rcases createSession_cases cfg j ip s with hnone | ⟨hsome, hcounter⟩
      · rw [hnone] at hid
        cases hid
      · rw [hsome, issuedBy_createSession] at hid
        exact .inl ⟨(Option.some.inj hid).symm, hcounter⟩
    | createSessionWithId id' ip =>
      obtain rfl := Option.some.inj hid
      exact .inr ⟨ip, rfl⟩
    | _ => cases hid

end Calls

section Events
variable {e : Event ShardI (Origin srv.Job) McpShard}
  (hexec : shardExec srv.L srv.cfg e.shard e.now e.op e.before = (e.res, e.after))
include hexec

theorem after_eq : e.after = (shardExec srv.L srv.cfg e.shard e.now e.op e.before).2 :=
  (congrArg Prod.snd hexec).symm

theorem issued_cases (hlawful : Lawful (counting e.origin) e.history) {id : Str}
    (hid : issued e = some id) :
    (∃ n, id = sseId e.shard n ∧ passes McpShard.sessionCounter e.shard n e = true) ∨
      ∃ n, id = streamId e.origin.shard n ∧ uses e.origin.shard n e = true ∧
        phase (counting e.origin) e.past = .counted n := by
  have hres : e.res = (shardExec srv.L srv.cfg e.shard e.now e.op e.before).1 :=
    (congrArg Prod.fst hexec).symm
  rw [issued, hres] at hid
  rcases issuedBy_cases _ _ _ _ _ _ hid with ⟨rfl, hcounter⟩ | ⟨ip, hop⟩
  · refine .inl ⟨_, rfl, ?_⟩
    rw [← after_eq hexec] at hcounter
    simp [passes, hcounter]
  · have hallows : (phase (counting e.origin) e.past).Allows e.origin.shard e.op := hlawful.1.1
    rw [hop] at hallows
    obtain ⟨n, hphase, rfl⟩ := hallows
    exact .inr ⟨n, rfl, by rw [uses, hop]; exact beq_self_eq_true _, hphase⟩

theorem passes_of_countsTo (hlawful : Lawful (counting e.origin) e.history)
    (hplace : .started ∉ e.past → e.shard = e.origin.shard) {j n : ℕ}
    (h : countsTo j n e = true) : passes McpShard.nextCounter j n e = true := by
  have hallows : (phase (counting e.origin) e.past).Allows e.origin.shard e.op := hlawful.1.1
  have hafter := after_eq hexec
  obtain ⟨k, now, o, past, op, res, before, after⟩ := e
  simp only [countsTo, Bool.and_eq_true, beq_iff_eq] at h
  obtain ⟨hj, hn⟩ := h
  dsimp only at hallows hafter hplace hexec hlawful
  rcases op with op | op
  · cases hn
  · cases op with
    | nextCounter =>
      have hfresh : phase (counting o) past = .fresh := hallows
      have hk : k = o.shard := hplace (fun hs => by
        cases hfresh.symm.trans (used_of_started hlawful.2 hs))
      have hres : (res : ℕ) = before.nextCounter + 1 := (congrArg Prod.fst hexec).symm
      obtain rfl : (res : ℕ) = n := Option.some.inj hn
      have hnext : after.nextCounter = before.nextCounter + 1 := by
        rw [hafter]
        rfl
      simp [passes, hk, hj, hres, hnext]
    | _ => cases hn

end Events

variable (h : srv.Reaches steps c)
include h

/-- No id is given to two sessions. -/
theorem countP_issued_le_one (id : Str) :
    c.log.countP (fun e => issued e == some id) ≤ 1 := by
  have hcoherent := coherent_of_run h
  have hexec := hcoherent.exec
  have hlawful := (onTrack_of_run (keeps_counting srv) (fun l _ => l.launches_true) h).2
  have hplaced := (placed_of_run h).2
  by_cases hsse : ∃ j n, id = sseId j n
  · obtain ⟨j, n, rfl⟩ := hsse
    have hpasses := hcoherent.countP_passes_le McpShard.sessionCounter
      (fun e he => (sessionCounter_le _ _ _ _ _ _).trans_eq
        (congrArg McpShard.sessionCounter (after_eq (hexec e he)).symm)) j n
    refine le_trans (List.countP_mono_left fun e he hid => ?_) (hpasses.trans ?_)
    · rcases issued_cases (hexec e he) (hlawful e he) (beq_iff_eq.mp hid) with
        ⟨m, hsame, hm⟩ | ⟨m, hsame, -⟩
      · obtain ⟨rfl, rfl⟩ := sseId_inj hsame
        exact hm
      · exact absurd hsame (sseId_ne_streamId _ _ _ _)
    · split <;> omega
  · by_cases hstream : ∃ j n, id = streamId j n
    · obtain ⟨j, n, rfl⟩ := hstream
      have hpasses := hcoherent.countP_passes_le McpShard.nextCounter
        (fun e he => (nextCounter_le _ _ _ _ _ _).trans_eq
          (congrArg McpShard.nextCounter (after_eq (hexec e he)).symm)) j n
      have hcounts : c.log.countP (countsTo j n) ≤ c.log.countP (passes McpShard.nextCounter j n) :=
        List.countP_mono_left fun e he =>
          passes_of_countsTo (hexec e he) (hlawful e he) (hplaced e he)
      have huses : c.log.countP (fun e => issued e == some (streamId j n)) ≤
          c.log.countP (uses j n) := by
        refine List.countP_mono_left fun e he hid => ?_
        rcases issued_cases (hexec e he) (hlawful e he) (beq_iff_eq.mp hid) with
          ⟨m, hsame, -⟩ | ⟨m, hsame, hm, -⟩
        · exact absurd hsame.symm (sseId_ne_streamId _ _ _ _)
        · obtain ⟨rfl, rfl⟩ := streamId_inj hsame
          exact hm
      -- what has been counted to is used or still held
      have htotal := total_of_run
        (fun (o : Origin srv.Job) past => if holds j n o past then 1 else 0)
        (fun o => by simp [holds, phase, counting]) (fun o past => by simp [holds, phase, counting])
        h
      have htasks := sum_indicators (l := c.tasks) (a := fun t => holds j n t.origin t.past)
        (b := fun _ => false) (f := fun t => if holds j n t.origin t.past then 1 else 0)
        (fun t _ => (sub_zero _).symm)
      have hlog := sum_indicators (l := c.log) (a := countsTo j n) (b := uses j n)
        (fun e he => gain_holds (hlawful e he) j n)
      have hnone : c.tasks.countP (fun _ => false) = 0 := by simp
      have hone : (if n ≤ (c.shards j).nextCounter then 1 else 0) ≤ 1 := by split <;> omega
      rw [htasks, hlog, hnone] at htotal
      omega
    · refine le_of_eq_of_le (List.countP_eq_zero.mpr fun e he hid => ?_) (Nat.zero_le 1)
      rcases issued_cases (hexec e he) (hlawful e he) (beq_iff_eq.mp hid) with
        ⟨n, hsame, -⟩ | ⟨n, hsame, -⟩
      · exact hsse ⟨_, n, hsame⟩
      · exact hstream ⟨_, n, hsame⟩

end Runs

/-- The ids of all sessions that are opened in a run are distinct. They are ids of the shards that
open them, and the transports that use such an id read it back as its shard. -/
theorem ids_of_run (srv : McpServer) :
    (∀ steps c, srv.Reaches steps c → (c.log.filterMap issued).Nodup ∧
      ∀ e ∈ c.log, ∀ id, issued e = some id →
        ∃ n, id = sseId e.shard n ∨ id = streamId e.shard n) ∧
    ∀ (N : UInt32) (n : ℕ),
      HttpSseTransport.parseShard (sseId N.toNat n) = N.toNat ∧
      StreamableHttpTransport.parseShard (sseId N.toNat n) = N.toNat ∧
      StreamableHttpTransport.parseShard (streamId N.toNat n) = N.toNat := by
  constructor
  · intro steps c h
    constructor
    · apply List.nodup_iff_count_le_one.mpr
      intro id
      rw [List.count_filterMap]
      exact countP_issued_le_one h id
    · intro e he id hid
      have hlawful := (onTrack_of_run (keeps_counting srv) (fun l _ => l.launches_true) h).2 e he
      rcases issued_cases ((coherent_of_run h).exec e he) hlawful hid with
        ⟨n, hn, -⟩ | ⟨n, hn, -, hphase⟩
      · exact ⟨n, .inl hn⟩
      · have hshard : e.shard = e.origin.shard := by
          apply (placed_of_run h).2 e he
          intro hs
          cases hphase.symm.trans (used_of_started hlawful.2 hs)
        exact ⟨n, .inr (hshard ▸ hn)⟩
  · intro N n
    have hN : N.toNat < 2 ^ 32 := N.toNat_lt
    exact ⟨sse_parseShard_sseId hN n, mcp_parseShard_sseId hN n, mcp_parseShard_streamId hN n⟩

/-- GET /sse on the first shard, and a POST /mcp that wants a stream on the second, up to the
opening of the sessions. -/
def openings : List (Label Input (Origin (plainServer 2 Nat.two_pos).Job)) :=
  [.launch ⟨0, .getSse {}⟩, .advance 0, .advance 0, .launch ⟨1, .postMcp { header := fun k =>
      if k = "accept".toList then "text/event-stream".toList else [] }⟩,
    .advance 1, .advance 1, .advance 1, .advance 1]

/-- The two sessions have the first ids of their shards. -/
theorem ids_of_run_openings : ∃ c, (plainServer 2 Nat.two_pos).Reaches openings c ∧
    c.log.filterMap issued = [streamId 1 1, sseId 0 1] ∧ (c.log.filterMap issued).Nodup := by
  have hrun : (LabelledRuns.run (plainServer 2 Nat.two_pos).system.step
      (plainServer 2 Nat.two_pos).system.start openings).any
      (fun c => c.log.filterMap issued == [streamId 1 1, sseId 0 1]) := by decide +kernel
  obtain ⟨c, hc, hids⟩ := (Option.any_eq_true _ _).mp hrun
  exact ⟨c, hc, beq_iff_eq.mp hids, ((ids_of_run (plainServer 2 Nat.two_pos)).1 openings c hc).1⟩

end McpSdk.SessionIds

import McpSdk.ClientResponses
import McpSdk.TaskTurns

/-!
# Which shard a client's response must reach

`dispatch` looks a client's response up among the pending requests of the shard that accepted the
POST, and nowhere else. It completes the request that it answers if that shard is the one on
which the request is pending; on every other shard it does not.
-/

namespace McpSdk.ResponsePlacement
open CppStandardLibrary CooperativeTasks ClusterRuns DispatchCalls ClientResponses

def offered (L : JsonLibrary) (body : Str) : Option Json := (L.parse body).filter isClientResponse

/-- The answer of `handle_client_response`, as `dispatch` reads it. -/
def took : Except Exception Bool → Bool
  | .ok taken => taken
  | .error _ => false

/-- Where a request stands with the client's response in its body: `offering` from the call of
`dispatch` to the lookup, `taken` when a pending request has taken it, `passed` when there is no
response or none has taken it. -/
inductive ResponseStage
  | idle
  | offering (response : Json)
  | taken
  | passed

namespace ResponseStage

def next (L : JsonLibrary) :
    ResponseStage → (op : ShardI.Op) → ShardI.Res op → ResponseStage
  | _, .inr (.dispatch body _), _ => (offered L body).elim .passed .offering
  | .offering _, .inr (.handleClientResponse _), answer => if took answer then .taken else .passed
  | q, _, _ => q

/-- The lookup comes at once, and nothing is handed over after a response that has been taken. -/
def Allows : ResponseStage → ShardI.Op → Prop
  | .offering response, op => op = .inr (.handleClientResponse response)
  | .taken, op => Quiet op
  | .passed, .inr (.dispatch _ _) => False
  | _, .inr (.handleClientResponse _) => False
  | _, _ => True

def Settled (q : ResponseStage) : Prop := ∀ response, q ≠ .offering response

def Handing (q : ResponseStage) : Prop := q = .idle ∨ q = .passed

end ResponseStage

/-- What a request does with a client's response. -/
def placing (srv : McpServer) (_ : Origin srv.Job) : Contract ShardI ResponseStage where
  init := .idle
  allows := ResponseStage.Allows
  answers _ _ := True
  next := ResponseStage.next srv.L
  child q := q
  rests := ResponseStage.Settled
  addresses _ := True

section Programs
variable {srv : McpServer} {o : Origin srv.Job}

theorem settled_of_handing {q : ResponseStage} (h : q.Handing) : q.Settled := by
  rcases h with rfl | rfl <;> exact nofun

theorem next_anywhere {op : ShardI.Op} (h : Anywhere op) (L : JsonLibrary) (q : ResponseStage)
    (r : ShardI.Res op) : q.next L op r = q := by
  rcases op with op | op
  · cases q <;> rfl
  · cases op <;> first | exact h.elim | (cases q <;> rfl)

theorem allows_quiet {op : ShardI.Op} (h : Quiet op) {q : ResponseStage} (hq : q.Settled) :
    q.Allows op := by
  cases q with
  | offering response => exact absurd rfl (hq response)
  | taken => exact h
  | idle | passed =>
    rcases op with op | op
    · trivial
    · cases op <;> trivial

theorem idle_quiet : (placing srv o).Idle Quiet ResponseStage.Settled where
  allows _ _ hq h := allows_quiet h hq
  next q _ r _ h := next_anywhere (anywhere_of_quiet h) srv.L q r
  rests _ h := h
  child _ h := h

theorem idle_anywhere : (placing srv o).Idle Anywhere ResponseStage.Handing where
  allows q op hq h := by
    rcases hq with rfl | rfl <;> rcases op with op | op
    · trivial
    · cases op <;> trivial
    · trivial
    · cases op <;> trivial
  next q _ r _ h := next_anywhere h srv.L q r
  rests _ h := settled_of_handing h
  child _ h := h

theorem follows_takeClientResponse (body : Str) :
    (takeClientResponse srv.L body).Follows (placing srv o)
      ((offered srv.L body).elim .passed .offering)
      (fun handled q => q = if handled then .taken else .passed) (fun _ _ => False) := by
  unfold takeClientResponse offered
  cases srv.L.parse body with
  | none => rfl
  | some j =>
    by_cases hclient : isClientResponse j = true
    · simp only [Option.filter, hclient, if_true, Option.elim]
      refine (Coroutine.follows_bind _ _).mpr ⟨rfl, fun answer _ => ?_⟩
      cases answer with
      | ok taken => cases taken <;> rfl
      | error e => rfl
    · simp only [Option.filter, hclient]
      rfl

theorem follows_dispatch (d : JsonRpcDispatcher HandlerI) (body sessionId : Str) :
    (dispatch srv.L d body sessionId).coAwait.Follows (placing srv o) .idle
      (fun response q => response.elim q.Settled (fun _ => q.Handing)) (fun _ q => q.Settled) := by
  have hidle : (placing srv o).left.Idle (fun _ => True) (fun q => q = .passed) :=
    { allows := fun q _ hq _ => by
        subst hq
        trivial
      next := fun q _ _ hq _ => by
        subst hq
        rfl
      rests := fun q hq => settled_of_handing (.inr hq)
      child := fun _ hq => hq }
  have hhandle : (d.handleRequest srv.L body).inl.Follows (placing srv o) .passed
      (fun (_ : Option Str) q => q = .passed) (fun _ q => q = .passed) := by
    apply (Coroutine.follows_inl (C := placing srv o) _).mpr
    exact (Coroutine.Follows.of_calling hidle (fun _ h => h) rfl
      (Coroutine.Addresses.of_all (fun _ => trivial) _)).mono (fun _ _ h => h.2) (fun _ _ h => h.2)
  have hpassed : ResponseStage.passed.Settled := settled_of_handing (.inr rfl)
  rw [Coroutine.follows_coAwait]
  unfold dispatch
  refine (Coroutine.follows_bind _ _).mpr ⟨trivial, fun _ _ => ?_⟩
  apply (Coroutine.follows_bind _ _).mpr
  apply (follows_takeClientResponse body).mono
  · rintro handled _ rfl
    cases handled with
    | true => exact ⟨nofun, fun _ => nofun⟩
    | false =>
      refine (Coroutine.follows_bind _ _).mpr ⟨trivial, fun _ _ => ?_⟩
      apply (Coroutine.follows_coAwait _).mpr
      apply hhandle.mono
      · rintro response _ rfl
        refine ⟨hpassed, fun _ => ⟨hpassed, fun _ => ?_⟩⟩
        cases response with
        | none => exact hpassed
        | some text => exact .inr rfl
      · rintro e _ rfl
        exact ⟨hpassed, fun _ => ⟨hpassed, fun _ => hpassed⟩⟩
  · exact fun _ _ h => h.elim

theorem aroundDispatch_placing (srv : McpServer) (o : Origin srv.Job) :
    AroundDispatch srv o (placing srv o) ResponseStage.Settled ResponseStage.Handing where
  quiet := idle_quiet
  handing := idle_anywhere
  rested _ h := settled_of_handing h
  init := .inl rfl
  addresses _ := trivial
  dispatch _ d body sessionId := follows_dispatch d body sessionId
  job x _ := by
    have hidle : (placing srv o).left.Idle (fun _ => True) ResponseStage.Handing :=
      { allows := fun q _ hq _ => by rcases hq with rfl | rfl <;> trivial
        next := fun q _ _ hq _ => by rcases hq with rfl | rfl <;> rfl
        rests := fun _ hq => settled_of_handing hq
        child := fun _ hq => hq }
    apply (Coroutine.follows_inl (C := placing srv o) _).mpr
    exact (Coroutine.Follows.of_calling hidle (fun _ h => h) (.inl rfl)
      (Coroutine.Addresses.of_all (fun _ => trivial) _)).mono
      (fun _ _ h => settled_of_handing (.inl h.2)) (fun _ _ h => settled_of_handing (.inl h.2))

theorem keeps_placing (srv : McpServer) :
    Keeps srv.system (placing srv) (fun _ => True) (fun _ _ q => q.Settled) :=
  keeps_aroundDispatch (aroundDispatch_placing srv) (fun _ _ _ => trivial)

end Programs

section Histories
variable {srv : McpServer} {o : Origin srv.Job}

theorem taken_of_suffix {earlier past : List (Mark ShardI)} (h : Lawful (placing srv o) past)
    (hs : earlier <:+ past) (htaken : phase (placing srv o) earlier = .taken) :
    phase (placing srv o) past = .taken := by
  induction past with
  | nil =>
    obtain rfl := List.suffix_nil.mp hs
    exact htaken
  | cons mark past ih =>
    rcases List.suffix_cons_iff.mp hs with rfl | hpast
    · exact htaken
    · cases mark with
      | started => exact ih h hpast
      | did op r =>
        have hpast := ih h.2 hpast
        have hquiet : (phase (placing srv o) past).Allows op := h.1.1
        rw [hpast] at hquiet
        change (phase (placing srv o) past).next srv.L op r = .taken
        rw [next_anywhere (anywhere_of_quiet hquiet), hpast]

theorem not_started_of_dispatch {body sessionId : Str} {r : Unit} {past : List (Mark ShardI)}
    (h : Lawful (calls srv o) (.did (.inr (.dispatch body sessionId)) r :: past)) :
    .started ∉ past := by
  obtain ⟨hq, -⟩ := h.1.1
  have htells := tells_of_lawful h.2
  rw [hq] at htells
  exact htells.2

end Histories

section Runs
variable {srv : McpServer} {steps : List (Label Input (Origin srv.Job))} {c : srv.State}

/-- The POST with the dispatch call `d` completes the request `n` of shard `K` with `r`: its next
call is on `K`, finds the request pending, takes it out of the table and gives it the result, and
no call after that one hands a message over. -/
def CompletedBy {Job : Type} (d : Event ShardI (Origin Job) McpShard)
    (log : List (Event ShardI (Origin Job) McpShard)) (K n : ℕ) (r : Json) : Prop :=
  ∃ e ∈ log, e.origin = d.origin ∧ e.past = d.history ∧ e.shard = K ∧
    n ∈ e.before.pendingClientRequests ∧ n ∉ e.after.pendingClientRequests ∧
    e.after.settled.lookup n = some (.ok r) ∧
    ∀ e' ∈ log, e'.origin = e.origin → e.history <:+ e'.past →
      (∀ id msg, e'.op ≠ .inl (.pushToSession id msg)) ∧
      ∀ session msg, e'.op ≠ .inr (.pushEventually session msg)

theorem handleClientResponse_of_pending {response r : Json} {n : ℕ} {s : McpShard}
    (hid : McpShard.responseId response = some n)
    (hresult : response.find? "result".toList = some r)
    (hn : n ∈ s.pendingClientRequests) :
    s.handleClientResponse response = (.ok true, s.settle n (.ok r)) := by
  have hcontains : response.contains "result".toList = true := by rw [Json.contains, hresult]; rfl
  have hget : response.getD "result".toList = r := by rw [Json.getD, hresult]; rfl
  unfold McpShard.handleClientResponse
  rw [hid]
  simp only [hn, not_true_eq_false, if_false, hcontains, if_true, hget]

theorem offered_eq {L : JsonLibrary} {body : Str} {response r : Json} {n : ℕ}
    (hparse : L.parse body = some response) (hmethod : response.contains "method".toList = false)
    (hid : McpShard.responseId response = some n)
    (hresult : response.find? "result".toList = some r) : offered L body = some response := by
  have hobject : response.isObject = true := by
    cases response with
    | object members => rfl
    | _ => cases hresult
  have hcontains : response.contains "result".toList = true := by rw [Json.contains, hresult]; rfl
  have hhasId : response.contains "id".toList = true := by
    by_contra hnot
    rw [McpShard.responseId, if_neg hnot] at hid
    cases hid
  have hclient : isClientResponse response = true := by
    rw [isClientResponse, hobject, hhasId, hmethod, hcontains]
    rfl
  rw [offered, hparse, Option.filter, if_pos hclient]

/-- The next call of a POST that offers a client's response is the lookup on its shard. -/
theorem lookup_of_dispatch (h : srv.Reaches steps c) {d : Event ShardI (Origin srv.Job) McpShard}
    {newer older : List (Event ShardI (Origin srv.Job) McpShard)}
    (hlog : c.log = newer ++ d :: older) {body sessionId : Str}
    (hop : d.op = .inr (.dispatch body sessionId)) {response : Json}
    (hoffered : offered srv.L body = some response)
    (hrest : ∀ t ∈ c.tasks, t.origin = d.origin → t.past = d.history → t.busy = false) :
    ∃ e ∈ c.log, e.origin = d.origin ∧ e.past = d.history ∧ e.shard = d.shard ∧
      e.before = d.before ∧ e.op = .inr (.handleClientResponse response) := by
  have hphase : phase (placing srv d.origin) d.history = .offering response := by
    have hnext : ∀ (op : ShardI.Op) (res : ShardI.Res op), op = .inr (.dispatch body sessionId) →
        (phase (placing srv d.origin) d.past).next srv.L op res = .offering response := by
      rintro _ res rfl
      change (offered srv.L body).elim ResponseStage.passed ResponseStage.offering = _
      rw [hoffered]
      rfl
    exact hnext d.op d.res hop
  have hgoes : GoesOn (placing srv) d := by
    intro hrests
    rw [hphase] at hrests
    exact hrests response rfl
  have hall : ∀ l ∈ steps, l.Launches (fun _ => True) := fun l _ => l.launches_true
  rcases next_of_goesOn (keeps_placing srv) hall h hlog hgoes with
    ⟨t, ht, hbusy, -, hto, htp⟩ | ⟨e, between, hs, hshard, horigin, hpast, hbefore⟩
  · rw [hrest t ht hto htp] at hbusy
    cases hbusy
  · have he : e ∈ c.log := hs.mem (.head _)
    have hd : d ∈ c.log := hlog ▸ List.mem_append_right _ (.head _)
    have hallows : (phase (placing srv e.origin) e.past).Allows e.op :=
      ((onTrack_of_run (keeps_placing srv) hall h).2 e he).1.1
    have hsame : d.after = d.before := by
      have hexec := (coherent_of_run h).exec d hd
      obtain ⟨shard, now, o, past, op, res, before, after⟩ := d
      obtain rfl : op = .inr (.dispatch body sessionId) := hop
      exact (congrArg Prod.snd hexec).symm
    rw [horigin, hpast, hphase] at hallows
    exact ⟨e, he, horigin, hpast, hshard, hbefore.trans hsame, hallows⟩

/-- A request that is pending on the shard of the lookup is completed. -/
theorem completedBy_of_lookup (h : srv.Reaches steps c)
    {d e : Event ShardI (Origin srv.Job) McpShard} (he : e ∈ c.log) (horigin : e.origin = d.origin)
    (hpast : e.past = d.history) {response r : Json}
    (hop : e.op = .inr (.handleClientResponse response)) {n : ℕ}
    (hid : McpShard.responseId response = some n)
    (hresult : response.find? "result".toList = some r)
    (hpending : n ∈ e.before.pendingClientRequests) : CompletedBy d c.log e.shard n r := by
  have htrack := (onTrack_of_run (keeps_placing srv) (fun l _ => l.launches_true) h).2
  have hexec := (coherent_of_run h).exec e he
  have hlawful := htrack e he
  have hlog := he
  obtain ⟨shard, now, o, past, op, res, before, after⟩ := e
  obtain rfl : op = .inr (.handleClientResponse response) := hop
  have hres : (res, after) = (.ok true, before.settle n (.ok r)) :=
    hexec.symm.trans (handleClientResponse_of_pending hid hresult hpending)
  obtain ⟨rfl, rfl⟩ := Prod.mk.inj hres
  have htaken : phase (placing srv o)
      (.did (.inr (.handleClientResponse response)) (.ok true) :: past) = .taken := by
    have hallows : (phase (placing srv o) past).Allows (.inr (.handleClientResponse response)) :=
      hlawful.1.1
    change (phase (placing srv o) past).next srv.L _ _ = .taken
    cases hphase : phase (placing srv o) past with
    | offering => rfl
    | _ =>
      rw [hphase] at hallows
      exact hallows.elim
  refine ⟨_, hlog, horigin, hpast, rfl, hpending, ?_, AList.lookup_insert _, ?_⟩
  · simp [McpShard.settle]
  · intro e' he' horigin' hs
    have hlawful' := htrack e' he'
    have hquiet : (phase (placing srv e'.origin) e'.past).Allows e'.op := hlawful'.1.1
    rw [taken_of_suffix hlawful'.2 hs (horigin' ▸ htaken)] at hquiet
    refine ⟨fun id msg hpush => ?_, fun session msg hpush => ?_⟩
    · rw [hpush] at hquiet
      exact hquiet
    · rw [hpush] at hquiet
      exact hquiet

/-- In every state after the call of `dispatch` for a POST with a client's response, once the POST
is not in the middle of its turn: it has completed the request that was pending on shard `K` when it
called exactly if `K` is the shard that has accepted it. -/
theorem completes_iff_own_shard (srv : McpServer) {steps more : List (Label Input (Origin srv.Job))}
    {l : Label Input (Origin srv.Job)} {c₀ c₁ c : srv.State} (h₀ : srv.Reaches steps c₀)
    (hstep : srv.system.step c₀ l = some c₁)
    (hmore : LabelledRuns.run srv.system.step c₁ more = some c)
    {d : Event ShardI (Origin srv.Job) McpShard} (hd : c₁.log = d :: c₀.log)
    {body sessionId : Str} (hop : d.op = .inr (.dispatch body sessionId)) {response r : Json}
    (hparse : srv.L.parse body = some response)
    (hmethod : response.contains "method".toList = false) {n : ℕ}
    (hid : McpShard.responseId response = some n)
    (hresult : response.find? "result".toList = some r) {K : ℕ}
    (hpending : n ∈ (c₀.shards K).pendingClientRequests)
    (hrest : ∀ t ∈ c.tasks, t.origin = d.origin → t.past = d.history → t.busy = false) :
    CompletedBy d c.log K n r ↔ d.shard = K := by
  have h₁ : srv.Reaches (steps ++ [l]) c₁ :=
    LabelledRuns.run_trans h₀ ((LabelledRuns.run_singleton c₀ l).trans hstep)
  have h : srv.Reaches (steps ++ [l] ++ more) c := LabelledRuns.run_trans h₁ hmore
  have hsuffix := log_suffix_of_run hmore
  rw [hd] at hsuffix
  obtain ⟨newer, hlog⟩ := hsuffix
  have hmem : d ∈ c.log := hlog ▸ List.mem_append_right _ (.head _)
  constructor
  · rintro ⟨e, he, horigin, hpast, hshard, -⟩
    -- the POST and its next call are where the POST was accepted
    have hnot : .started ∉ d.past := by
      have hlawful := (onTrack_of_run (keeps_calls srv) (fun l _ => l.launches_true) h).2 d hmem
      obtain ⟨shard, now, o, past, op, res, before, after⟩ := d
      obtain rfl : op = .inr (.dispatch body sessionId) := hop
      exact not_started_of_dispatch hlawful
    have hnot' : .started ∉ e.past := by
      rw [hpast]
      exact fun hmem => hnot ((List.mem_cons.mp hmem).resolve_left nofun)
    have hplaced := (placed_of_run h).2
    rw [hplaced d hmem hnot, ← horigin, ← hplaced e he hnot', hshard]
  · rintro rfl
    have hoffered := offered_eq hparse hmethod hid hresult
    obtain ⟨e, he, horigin, hpast, hshard, hbefore, hlookup⟩ :=
      lookup_of_dispatch h hlog.symm hop hoffered hrest
    have hfound : d.before = c₀.shards d.shard := by
      have hself : d :: c₀.log <:+ c₁.log := by rw [hd]
      obtain ⟨shards', hcoherent, hbefore, -⟩ := (coherent_of_run h₁).of_suffix hself
      rw [hbefore, hcoherent.unique (coherent_of_run h₀)]
    rw [← hshard]
    exact completedBy_of_lookup h he horigin hpast hlookup hid hresult
      (hbefore.trans hfound ▸ hpending)

end Runs

/-- The call of `dispatch` that an event is. -/
def dispatched {Job : Type} (e : Event ShardI (Origin Job) McpShard) : Option (Str × Str) :=
  match e.op with
  | .inr (.dispatch body sessionId) => some (body, sessionId)
  | _ => none

theorem op_of_dispatched {Job : Type} {e : Event ShardI (Origin Job) McpShard}
    {body sessionId : Str} (h : dispatched e = some (body, sessionId)) :
    e.op = .inr (.dispatch body sessionId) := by
  unfold dispatched at h
  split at h
  · rename_i body' sessionId' hop
    obtain ⟨rfl, rfl⟩ := Prod.mk.inj (Option.some.inj h)
    exact hop
  · cases h

/-- Shard 0 sends request 1 to session `A`. A POST with the response comes to shard `j` and has
passed the checks. -/
def offer (j : ℕ) : List (Label Input (Origin Str)) :=
  [.launch ⟨0, .job "A".toList⟩, .advance 0, .launch ⟨j, .postMessage (responsePost "A".toList)⟩,
    .advance 1, .advance 1]

/-- What `responsePost` carries. -/
def emptyResult : Json := .ofMembers [("jsonrpc".toList, .string "2.0".toList),
  ("id".toList, .integer 1), ("result".toList, .object [])]

/-- On shard 0 the response is taken. -/
theorem completes_iff_own_shard_zero : ∃ c d, d ∈ c.log ∧ d.shard = 0 ∧
    samplingServer.Reaches (offer 0 ++ [.advance 1, .advance 1]) c ∧
    CompletedBy d c.log 0 1 (.object []) := by
  have hrun : (LabelledRuns.run samplingServer.system.step samplingServer.system.start
      (offer 0)).any (fun c₀ => decide (1 ∈ (c₀.shards 0).pendingClientRequests) &&
        (samplingServer.system.step c₀ (.advance 1)).any (fun c₁ =>
          c₁.log.length == c₀.log.length + 1 &&
          (c₁.log.head?.any (fun d => d.shard == 0 &&
            dispatched d == some ((responsePost "A".toList).content, "A".toList))) &&
          (LabelledRuns.run samplingServer.system.step c₁ [.advance 1]).any (fun c =>
            c.tasks.all (fun t => !t.busy)))) := by
    decide +kernel
  have hparse : samplingServer.L.parse (responsePost "A".toList).content = some emptyResult :=
    CompactJson.library.parse_dump _ _ rfl
  obtain ⟨c₀, h₀, hrun⟩ := (Option.any_eq_true _ _).mp hrun
  obtain ⟨hpending, hrun⟩ := Bool.and_eq_true_iff.mp hrun
  obtain ⟨c₁, hstep, hrun⟩ := (Option.any_eq_true _ _).mp hrun
  obtain ⟨hfirst, hrun⟩ := Bool.and_eq_true_iff.mp hrun
  obtain ⟨c, hmore, hrest⟩ := (Option.any_eq_true _ _).mp hrun
  obtain ⟨hlength, hhead⟩ := Bool.and_eq_true_iff.mp hfirst
  obtain ⟨d, hd, hdispatch⟩ := (Option.any_eq_true _ _).mp hhead
  obtain ⟨hshard, hdispatch⟩ := Bool.and_eq_true_iff.mp hdispatch
  have hone := (LabelledRuns.run_singleton c₀ (Label.advance 1)).trans hstep
  have hlog : c₁.log = d :: c₀.log := by
    obtain ⟨newer, hnewer⟩ := log_suffix_of_run hone
    rw [← hnewer, List.length_append, beq_iff_eq] at hlength
    obtain ⟨d', rfl⟩ := List.length_eq_one_iff.mp (by omega : newer.length = 1)
    rw [← hnewer] at hd
    obtain rfl := Option.some.inj hd
    exact hnewer.symm
  have hmem : d ∈ c.log := (log_suffix_of_run hmore).mem (hlog ▸ .head _)
  refine ⟨c, d, hmem, beq_iff_eq.mp hshard,
    LabelledRuns.run_trans h₀ (LabelledRuns.run_trans hone hmore), ?_⟩
  · refine (completes_iff_own_shard samplingServer h₀ hstep hmore hlog
      (op_of_dispatched (beq_iff_eq.mp hdispatch)) hparse rfl rfl rfl (of_decide_eq_true hpending)
      (fun t ht _ _ => ?_)).mpr (beq_iff_eq.mp hshard)
    simpa using List.all_eq_true.mp hrest t ht

/-- Shard 0 opens session `s0_1` and sends it request 1. The client posts the response, shard 1
accepts it, and the server does everything that is left to do. -/
def offerElsewhere : List (Label Input (Origin Str)) :=
  [.launch ⟨0, .getSse {}⟩, .advance 0, .advance 0, .advance 0, .advance 0,
    .launch ⟨0, .job "s0_1".toList⟩, .advance 1,
    .launch ⟨1, .postMessage (responsePost "s0_1".toList)⟩, .advance 2, .advance 2, .advance 2,
    .advance 2, .advance 2, .resume 2 default, .resume 2 default, .resume 2 default, .advance 2,
    .advance 2, .advance 2, .resume 3 default, .advance 3]

/-- Request 1 stays pending, and the session is pushed an error for its response. -/
theorem response_refused_elsewhere : ∃ c, samplingServer.Reaches offerElsewhere c ∧
    samplingServer.L.parse (responsePost "s0_1".toList).content = some emptyResult ∧
    (∃ d ∈ c.log, d.shard = 1 ∧
      d.op = .inr (.dispatch (responsePost "s0_1".toList).content "s0_1".toList)) ∧
    (∀ t ∈ c.tasks, t.busy = false) ∧
    1 ∈ (c.shards 0).pendingClientRequests ∧ (c.shards 0).settled.lookup 1 = none ∧
    ∃ session msg, (c.shards 0).getSession "s0_1".toList = some session ∧
      msg ∈ ((c.shards 0).object session).messages ∧ isError (some msg) = true := by
  have hrun : (LabelledRuns.run samplingServer.system.step samplingServer.system.start
      offerElsewhere).any (fun c =>
        c.log.any (fun d => d.shard == 1 &&
          dispatched d == some ((responsePost "s0_1".toList).content, "s0_1".toList)) &&
        c.tasks.all (fun t => !t.busy) && decide (1 ∈ (c.shards 0).pendingClientRequests) &&
        ((c.shards 0).settled.lookup 1).isNone &&
        ((c.shards 0).getSession "s0_1".toList).any (fun session =>
          ((c.shards 0).object session).messages.any (fun msg => isError (some msg)))) := by
    decide +kernel
  obtain ⟨c, hc, hp⟩ := (Option.any_eq_true _ _).mp hrun
  simp only [Bool.and_eq_true, List.any_eq_true, List.all_eq_true, Option.any_eq_true, beq_iff_eq,
    decide_eq_true_eq, Option.isNone_iff_eq_none, Bool.not_eq_true'] at hp
  obtain ⟨⟨⟨⟨⟨d, hd, hshard, hdispatch⟩, hrest⟩, hpending⟩, hsettled⟩, session, hsession, msg, hmsg,
    herror⟩ := hp
  exact ⟨c, hc, CompactJson.library.parse_dump _ _ rfl,
    ⟨d, hd, hshard, op_of_dispatched hdispatch⟩, hrest, hpending, hsettled, session, msg, hsession,
    hmsg, herror⟩

end McpSdk.ResponsePlacement

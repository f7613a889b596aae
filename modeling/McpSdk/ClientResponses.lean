import McpSdk.CompactJson
import McpSdk.DispatchCalls
import McpSdk.ShardFrames

/-!
# Who completes a request to the client

Each shard numbers its requests to clients from 1 and keeps the pending ones by number alone.
The response that completes a request comes under the request's session as long as no response
is accepted with a number that stands, on the shard that accepts it, for a request to another
session, or, under the same session, for the request of another shard.
-/

namespace McpSdk.ClientResponses
open CppStandardLibrary CooperativeTasks ClusterRuns DispatchCalls

section Events
variable {Job : Type}

/-- The number and the session of the request that the event sends to a client. -/
def issued (e : Event ShardI (Origin Job) McpShard) : Option (ℕ × Str) :=
  match e.op with
  | .inl (.sendRequest session _ _) => some (e.before.serverRequestCounter + 1, session)
  | _ => none

/-- What a response says: a result, or an error with a message that can be read. -/
def outcome (response : Json) : Option (Except Exception Json) :=
  if response.contains "result".toList then some (.ok (response.getD "result".toList))
  else match (response.getD "error".toList).valueString "message".toList
      "client error".toList with
    | .ok text => some (.error (.std text))
    | .error _ => none

/-- The pending request that a response completes, and what with. -/
def completion (s : McpShard) (response : Json) : Option (ℕ × Except Exception Json) :=
  ((McpShard.responseId response).filter (· ∈ s.pendingClientRequests)).bind
    (fun n => (outcome response).map (fun value => (n, value)))

/-- The number of the pending request that the response of the event completes. -/
def completed (e : Event ShardI (Origin Job) McpShard) : Option ℕ :=
  match e.op with
  | .inr (.handleClientResponse response) => (completion e.before response).map (·.1)
  | _ => none

/-- The event takes a response with the number, posted under the session. -/
def PostedUnder (L : JsonLibrary) (sessionId : Str) (n : ℕ)
    (e : Event ShardI (Origin Job) McpShard) : Prop :=
  ∃ body response, e.op = .inr (.handleClientResponse response) ∧
    callOf e.past = some (body, sessionId) ∧ L.parse body = some response ∧
    McpShard.responseId response = some n

end Events

section Steps
variable {L : JsonLibrary} {cfg : McpServerConfig} {Job : Type}

/-- What an event does to the requests of its shard. -/
inductive Effect (e : Event ShardI (Origin Job) McpShard) : Prop
  | issues (session : Str) (hissued : issued e = some (e.before.serverRequestCounter + 1, session))
      (hcompleted : completed e = none)
      (hcounter : e.after.serverRequestCounter = e.before.serverRequestCounter + 1)
      (hpending : e.after.pendingClientRequests =
        (e.before.serverRequestCounter + 1) :: e.before.pendingClientRequests)
      (hsettled : e.after.settled = e.before.settled)
  | completes (n : ℕ) (outcome : Except Exception Json) (hissued : issued e = none)
      (hcompleted : completed e = some n)
      (hcounter : e.after.serverRequestCounter = e.before.serverRequestCounter)
      (hpending : e.after.pendingClientRequests =
        e.before.pendingClientRequests.filter (· ≠ n))
      (hsettled : e.after.settled = e.before.settled.insert n outcome)
  | keeps (hissued : issued e = none) (hcompleted : completed e = none)
      (hcounter : e.after.serverRequestCounter = e.before.serverRequestCounter)
      (hpending : e.after.pendingClientRequests = e.before.pendingClientRequests)
      (hsettled : e.after.settled = e.before.settled)

theorem handleClientResponse_eq (response : Json) (s : McpShard) :
    ((s.handleClientResponse response).1.toOption.getD false,
        (s.handleClientResponse response).2) =
      ((completion s response).isSome,
        (completion s response).elim s (fun p => s.settle p.1 p.2)) := by
  unfold McpShard.handleClientResponse completion outcome
  cases McpShard.responseId response with
  | none => rfl
  | some n =>
    by_cases hn : n ∈ s.pendingClientRequests
    · simp only [Option.filter, hn, not_true_eq_false, if_false, decide_true, if_true,
        Option.bind_some]
      split
      · rfl
      · cases (response.getD "error".toList).valueString "message".toList
          "client error".toList <;> rfl
    · simp only [Option.filter, hn, not_false_eq_true, if_true, decide_false, Bool.false_eq_true,
        if_false, Option.bind_none]
      rfl

theorem effect_of_exec {e : Event ShardI (Origin Job) McpShard}
    (h : shardExec L cfg e.shard e.now e.op e.before = (e.res, e.after)) : Effect e := by
  have hframe := Frame.of_exec h
  obtain ⟨shard, now, o, past, op, r, before, after⟩ := e
  have hafter : after = (shardExec L cfg shard now op before).2 := (congrArg Prod.snd h).symm
  rcases op with op | op
  · cases op with
    | sendRequest session method params =>
      obtain ⟨objects, -, hexec⟩ := before.sendRequest_frame L session method params
      have hstate : after = _ := hafter.trans hexec
      exact .issues session rfl rfl (by rw [hstate]) (by rw [hstate]) (by rw [hstate])
    | _ =>
      obtain ⟨hcounter, hpending, hsettled⟩ := hframe.requests id
      exact .keeps rfl rfl hcounter hpending hsettled
  · cases op with
    | handleClientResponse response =>
      have hstate : after = (completion before response).elim before
          (fun p => before.settle p.1 p.2) :=
        hafter.trans (Prod.ext_iff.mp (handleClientResponse_eq response before)).2
      cases hcompletion : completion before response with
      | none =>
        rw [hcompletion, Option.elim_none] at hstate
        exact .keeps rfl (congrArg (Option.map Prod.fst) hcompletion) (by rw [hstate])
          (by rw [hstate]) (by rw [hstate])
      | some found =>
        obtain ⟨n, value⟩ := found
        rw [hcompletion, Option.elim_some] at hstate
        exact .completes n value rfl (congrArg (Option.map Prod.fst) hcompletion)
          (by rw [hstate]; rfl)
          (by rw [hstate]; rfl) (by rw [hstate]; rfl)
    | _ =>
      obtain ⟨hcounter, hpending, hsettled⟩ := hframe.requests id
      exact .keeps rfl rfl hcounter hpending hsettled

namespace Effect
variable {e : Event ShardI (Origin Job) McpShard} {n : ℕ}

theorem counter_le (h : Effect e) :
    e.before.serverRequestCounter ≤ e.after.serverRequestCounter := by
  cases h with
  | issues _ _ _ hcounter => exact hcounter ▸ Nat.le_succ _
  | completes _ _ _ _ hcounter | keeps _ _ hcounter => exact hcounter.ge

theorem of_issued (h : Effect e) {session : Str} (hissued : issued e = some (n, session)) :
    n = e.before.serverRequestCounter + 1 ∧ n = e.after.serverRequestCounter := by
  cases h with
  | issues _ hnext _ hcounter =>
    obtain ⟨rfl, -⟩ := Prod.mk.inj (Option.some.inj (hnext.symm.trans hissued))
    exact ⟨rfl, hcounter.symm⟩
  | completes _ _ hnone | keeps hnone =>
    rw [hnone] at hissued
    cases hissued

theorem pending (h : Effect e) (hn : n ∈ e.after.pendingClientRequests) :
    n ∈ e.before.pendingClientRequests ∨ ∃ session, issued e = some (n, session) := by
  cases h with
  | issues session hissued _ _ hafter =>
    rw [hafter] at hn
    rcases List.mem_cons.mp hn with rfl | hn
    · exact .inr ⟨session, hissued⟩
    · exact .inl hn
  | completes _ _ _ _ _ hafter =>
    rw [hafter] at hn
    exact .inl (List.mem_of_mem_filter hn)
  | keeps _ _ _ hafter =>
    rw [hafter] at hn
    exact .inl hn

end Effect

end Steps

section Numbers
variable {srv : McpServer} {shards : ℕ → McpShard}
  {log : List (Event ShardI (Origin srv.Job) McpShard)}

theorem issued_le_counter (h : Coherent srv.system shards log)
    {q : Event ShardI (Origin srv.Job) McpShard} (hq : q ∈ log) {n : ℕ} {session : Str}
    (hissued : issued q = some (n, session)) : n ≤ (shards q.shard).serverRequestCounter := by
  induction h with
  | nil => exact (List.not_mem_nil hq).elim
  | @cons shards log e _ hbefore hexec ih =>
    have heffect := effect_of_exec hexec
    rcases List.mem_cons.mp hq with rfl | hq
    · rw [Function.update_self]
      exact (heffect.of_issued hissued).2.le
    · have hle := ih hq
      by_cases hj : q.shard = e.shard
      · rw [hj, ← hbefore] at hle
        rw [hj, Function.update_self]
        exact hle.trans heffect.counter_le
      · rwa [Function.update_of_ne hj]

theorem issued_of_pending (h : Coherent srv.system shards log) {j n : ℕ}
    (hn : n ∈ (shards j).pendingClientRequests) :
    ∃ q ∈ log, q.shard = j ∧ ∃ session, issued q = some (n, session) := by
  induction h with
  | nil => exact (List.not_mem_nil hn).elim
  | @cons shards log e _ hbefore hexec ih =>
    have older : n ∈ (shards j).pendingClientRequests →
        ∃ q ∈ e :: log, q.shard = j ∧ ∃ session, issued q = some (n, session) := fun hn => by
      obtain ⟨q, hq, hrest⟩ := ih hn
      exact ⟨q, .tail _ hq, hrest⟩
    by_cases hj : j = e.shard
    · subst hj
      rw [Function.update_self] at hn
      rcases (effect_of_exec hexec).pending hn with hn | ⟨session, hissued⟩
      · exact older (hbefore ▸ hn)
      · exact ⟨e, .head _, rfl, session, hissued⟩
    · rw [Function.update_of_ne hj] at hn
      exact older hn

theorem issued_newer (h : Coherent srv.system shards log)
    {q q' : Event ShardI (Origin srv.Job) McpShard}
    {older : List (Event ShardI (Origin srv.Job) McpShard)} (hs : q :: older <:+ log)
    (hq' : q' ∈ older) (hshard : q'.shard = q.shard) {n n' : ℕ} {session session' : Str}
    (hissued : issued q = some (n, session)) (hissued' : issued q' = some (n', session')) :
    n' < n := by
  obtain ⟨shards', hcoherent, hbefore, hexec⟩ := h.of_suffix hs
  have hle := issued_le_counter hcoherent hq' hissued'
  rw [hshard, ← hbefore] at hle
  rw [((effect_of_exec hexec).of_issued hissued).1]
  exact Nat.lt_succ_of_le hle

theorem completed_of_settled (h : Coherent srv.system shards log) {j n : ℕ}
    (hn : ((shards j).settled.lookup n).isSome) :
    ∃ newer r older, log = newer ++ r :: older ∧ r.shard = j ∧ completed r = some n := by
  have hsettled := h.eq_newest (fun s : McpShard => (s.settled.lookup n).isSome)
    (fun e => if completed e = some n then some true else none) (fun e _ hexec => by
      cases effect_of_exec hexec with
      | issues _ _ hnone _ _ hsame => rw [hnone, hsame]; rfl
      | keeps _ hnone _ _ hsame => rw [hnone, hsame]; rfl
      | completes n' value _ hcompleted _ _ hinsert =>
        rw [hcompleted, hinsert]
        by_cases hn : n = n'
        · subst hn
          simp [AList.lookup_insert]
        · simp [AList.lookup_insert_ne hn, Ne.symm hn]) j
  cases hnewest : newest (fun e => if completed e = some n then some true else none) j log with
  | none =>
    rw [hnewest] at hsettled
    have hinit : ((srv.system.init j).settled.lookup n).isSome = false := rfl
    rw [hn, Option.getD_none, hinit] at hsettled
    cases hsettled
  | some b =>
    obtain ⟨newer, r, older, hlog, hshard, hcompleted, -⟩ := newest_eq_some_iff.mp hnewest
    refine ⟨newer, r, older, hlog, hshard, ?_⟩
    by_contra hne
    rw [if_neg hne] at hcompleted
    cases hcompleted

theorem of_completed {r : Event ShardI (Origin srv.Job) McpShard} {n : ℕ}
    (h : completed r = some n) : ∃ response, r.op = .inr (.handleClientResponse response) ∧
      McpShard.responseId response = some n ∧ n ∈ r.before.pendingClientRequests := by
  unfold completed at h
  split at h
  · rename_i response hop
    obtain ⟨⟨n', value⟩, hcompletion, rfl⟩ := Option.map_eq_some_iff.mp h
    obtain ⟨n, hn, hvalue⟩ := Option.bind_eq_some_iff.mp hcompletion
    obtain ⟨value', -, heq⟩ := Option.map_eq_some_iff.mp hvalue
    obtain ⟨rfl, rfl⟩ := Prod.mk.inj heq
    obtain ⟨hid, hpending⟩ := Option.filter_eq_some_iff.mp hn
    exact ⟨response, hop, hid, of_decide_eq_true hpending⟩
  · cases h

theorem issued_before (h : Coherent srv.system shards log)
    {q r : Event ShardI (Origin srv.Job) McpShard}
    {newer older : List (Event ShardI (Origin srv.Job) McpShard)} (hlog : log = newer ++ r :: older)
    (hq : q ∈ log) (hshard : r.shard = q.shard) {n : ℕ} {session : Str}
    (hissued : issued q = some (n, session)) (hcompleted : completed r = some n) : q ∈ older := by
  obtain ⟨response, hop, -, hpending⟩ := of_completed hcompleted
  obtain ⟨shards', hcoherent, hbefore, -⟩ := h.of_suffix ⟨newer, hlog.symm⟩
  rw [hbefore] at hpending
  obtain ⟨q', hq', hshard', session', hissued'⟩ := issued_of_pending hcoherent hpending
  rw [hlog] at hq
  rcases List.mem_append.mp hq with hq | hq
  · obtain ⟨newest, between, rfl⟩ := List.append_of_mem hq
    have hs : q :: (between ++ r :: older) <:+ log := ⟨newest, by simp [hlog]⟩
    have hmem : q' ∈ between ++ r :: older := List.mem_append_right _ (.tail _ hq')
    exact absurd (issued_newer h hs hmem (hshard'.trans hshard) hissued hissued') (lt_irrefl n)
  · rcases List.mem_cons.mp hq with rfl | hq
    · rw [issued, hop] at hissued
      cases hissued
    · exact hq

end Numbers

/-- In every run in which each response that completes a pending request is posted under the
session of that request, and of no request of another shard with the same number, a request is
completed only by a response to it that is posted under its session. -/
theorem completed_by_own_session (srv : McpServer) {steps : List (Label Input (Origin srv.Job))}
    {c : srv.State} (h : srv.Reaches steps c)
    (hown : ∀ r older, r :: older <:+ c.log → ∀ n, completed r = some n → ∀ body sessionId,
      callOf r.past = some (body, sessionId) → ∀ q ∈ older, ∀ session,
        issued q = some (n, session) → (session = sessionId ↔ q.shard = r.shard)) :
    ∀ q ∈ c.log, ∀ n session, issued q = some (n, session) →
      ((c.shards q.shard).settled.lookup n).isSome →
      ∃ r older, r :: older <:+ c.log ∧ q ∈ older ∧ r.shard = q.shard ∧
        PostedUnder srv.L session n r ∧
        ∀ q' ∈ older, issued q' = some (n, session) → q'.shard = q.shard := by
  intro q hq n session hissued hsettled
  have hcoherent := coherent_of_run h
  obtain ⟨newer, r, older, hlog, hshard, hcompleted⟩ := completed_of_settled hcoherent hsettled
  have hs : r :: older <:+ c.log := ⟨newer, hlog.symm⟩
  have hbefore := issued_before hcoherent hlog hq hshard hissued hcompleted
  obtain ⟨response, hop, hid, -⟩ := of_completed hcompleted
  have hposted : ∃ body sessionId, callOf r.past = some (body, sessionId) ∧
      srv.L.parse body = some response := by
    have hlawful := (onTrack_of_run (keeps_calls srv) (fun l _ => l.launches_true) h).2 r
      (hs.mem (.head _))
    obtain ⟨shard, now, o, past, op, res, before, after⟩ := r
    obtain rfl : op = .inr (.handleClientResponse response) := hop
    exact of_handleClientResponse hlawful
  obtain ⟨body, sessionId, hcall, hparse⟩ := hposted
  have hsame := hown r older hs n hcompleted body sessionId hcall
  obtain rfl : session = sessionId := (hsame q hbefore session hissued).mpr hshard.symm
  refine ⟨r, older, hs, hbefore, hshard, ⟨body, response, hop, hcall, hparse, hid⟩, ?_⟩
  intro q' hq' hissued'
  exact ((hsame q' hq' session hissued').mp rfl).trans hshard

/-- A server on two shards whose jobs are sampling requests to a session. -/
def samplingServer : McpServer :=
  { McpServer.plain CompactJson.library .standard 2 Nat.two_pos with
    Job := Str
    job := fun _ session => do
      let _ ← McpServer.sendRequestToClient session "sampling/createMessage".toList (.object [])
      return ()
    job_inRange := by
      intro _ session
      apply Coroutine.Calls.bind _ (fun _ => .pure _)
      apply (Coroutine.Calls.perform trivial).bind
      intro sent
      apply (Coroutine.Calls.ofExcept sent).bind
      intro id
      apply Coroutine.Calls.external.bind
      intro _
      exact (Coroutine.Calls.waitFor trivial).bind (fun reply => Coroutine.Calls.ofExcept reply) }

/-- A POST /message of a session with the response to request 1. -/
def responsePost (sessionId : Str) : Request where
  query k := if k = "sessionId".toList then sessionId else []
  content := CompactJson.write (.ofMembers [("jsonrpc".toList, .string "2.0".toList),
    ("id".toList, .integer 1), ("result".toList, .object [])])

/-- Shard 0 sends a request to session `A` and shard 1 one to session `B`. Then shard 0 accepts a
response of a session. -/
def twoRequests (sessionId : Str) : List (Label Input (Origin Str)) :=
  [.launch ⟨0, .job "A".toList⟩, .advance 0, .launch ⟨1, .job "B".toList⟩, .advance 1,
    .launch ⟨0, .postMessage (responsePost sessionId)⟩, .advance 2, .advance 2, .advance 2,
    .advance 2]

/-- The response of session `A` completes its request. -/
theorem completed_by_own_session_a :
    ∃ c, samplingServer.Reaches (twoRequests "A".toList) c ∧
      ((c.shards 0).settled.lookup 1).isSome ∧
      ∃ q ∈ c.log, q.shard = 0 ∧ issued q = some (1, "A".toList) ∧
        ∃ r older, r :: older <:+ c.log ∧ q ∈ older ∧ r.shard = q.shard ∧
          PostedUnder samplingServer.L "A".toList 1 r ∧
          ∀ q' ∈ older, issued q' = some (1, "A".toList) → q'.shard = q.shard := by
  have hrun : (LabelledRuns.run samplingServer.system.step samplingServer.system.start
      (twoRequests "A".toList)).any (fun c => ((c.shards 0).settled.lookup 1).isSome &&
        c.log.any (fun q => q.shard == 0 && issued q == some (1, "A".toList)) &&
        c.log.all (fun r => (completed r).all (fun n => (callOf r.past).all (fun call =>
          c.log.all (fun q => (issued q).all (fun request =>
            request.1 != n || (request.2 == call.2) == (q.shard == r.shard))))))) := by
    decide +kernel
  obtain ⟨c, hc, hp⟩ := (Option.any_eq_true _ _).mp hrun
  simp only [Bool.and_eq_true, List.any_eq_true, List.all_eq_true, Option.all_eq_true, beq_iff_eq,
    Bool.or_eq_true, bne_iff_ne] at hp
  obtain ⟨⟨hsettled, q, hq, hshard, hissued⟩, hown⟩ := hp
  refine ⟨c, hc, hsettled, q, hq, hshard, hissued, ?_⟩
  refine completed_by_own_session samplingServer hc ?_ q hq 1 _ hissued (hshard ▸ hsettled)
  intro r older hs n hcompleted body sessionId hcall q hq session hissued
  have hmem : ∀ e ∈ r :: older, e ∈ c.log := fun e he => hs.mem he
  rcases hown r (hmem r (.head _)) n hcompleted _ hcall q (hmem q (.tail _ hq)) _ hissued
    with hne | heq
  · exact absurd rfl hne
  · rw [← beq_iff_eq, heq, beq_iff_eq]

/-- The response of session `B` to the request of shard 1 completes it too. -/
theorem completed_by_other_session :
    ∃ c, samplingServer.Reaches (twoRequests "B".toList) c ∧
      ((c.shards 0).settled.lookup 1).isSome ∧
      ∃ q ∈ c.log, q.shard = 0 ∧ issued q = some (1, "A".toList) ∧
        ¬∃ r ∈ c.log, PostedUnder samplingServer.L "A".toList 1 r := by
  have hrun : (LabelledRuns.run samplingServer.system.step samplingServer.system.start
      (twoRequests "B".toList)).any (fun c => ((c.shards 0).settled.lookup 1).isSome &&
        c.log.any (fun q => q.shard == 0 && issued q == some (1, "A".toList)) &&
        c.log.all (fun r => (callOf r.past).all (fun call => call.2 != "A".toList))) := by
    decide +kernel
  obtain ⟨c, hc, hp⟩ := (Option.any_eq_true _ _).mp hrun
  simp only [Bool.and_eq_true, List.any_eq_true, List.all_eq_true, Option.all_eq_true, beq_iff_eq,
    bne_iff_ne] at hp
  obtain ⟨⟨hsettled, q, hq, hshard, hissued⟩, hother⟩ := hp
  refine ⟨c, hc, hsettled, q, hq, hshard, hissued, ?_⟩
  rintro ⟨r, hr, body, response, -, hcall, -⟩
  exact hother r hr _ hcall rfl

end McpSdk.ClientResponses

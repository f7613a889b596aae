import McpSdk.JsonRpcConformance
import McpSdk.McpServer

/-!
# What the circuit breaker is told

An admission by `check_request` and the `record_outcome` that should follow it are paired by hand
in each handler. Every handler of a POST records one outcome before it replies, unless its
dispatch fails; no handler of a GET records any. While all admissions are of the first kind, the
admissions of an IP that still lack their outcome are its requests that are being handled.
-/

namespace McpSdk.BreakerAccounting
open CppStandardLibrary CooperativeTasks ClusterRuns JsonRpcConformance

section Histories

/-- What a task has done itself. -/
def own {I : Interface} : List (Mark I) → List (Mark I)
  | .did op r :: past => .did op r :: own past
  | _ => []

/-- The breaker has admitted the IP. -/
def admits (clientIp : Str) : Mark ShardI → Bool
  | .did (.inr (.checkRequest ip _)) .ok => ip == clientIp
  | _ => false

/-- An outcome has been recorded for the IP. -/
def records (clientIp : Str) : Mark ShardI → Bool
  | .did (.inr (.recordOutcome ip _)) _ => ip == clientIp
  | _ => false

/-- The handler has finished. -/
def replies : Mark ShardI → Bool
  | .did (.inr (.respond _)) _ => true
  | _ => false

def admissions (clientIp : Str) (past : List (Mark ShardI)) : ℕ :=
  (own past).countP (admits clientIp)

def outcomes (clientIp : Str) (past : List (Mark ShardI)) : ℕ :=
  (own past).countP (records clientIp)

def answered (past : List (Mark ShardI)) : Bool := (own past).any replies

/-- A request of the IP has been admitted and is being handled. -/
def handling (clientIp : Str) (past : List (Mark ShardI)) : Bool :=
  0 < admissions clientIp past && !answered past

end Histories

/-- A POST whose body the dispatcher answers for sure. -/
def Settles (srv : McpServer) (o : Origin srv.Job) : Prop :=
  ∃ req, (o.work = .postMessage req ∨ o.work = .postMcp req) ∧
    Completes ((srv.dispatcher o.shard).handleRequest srv.L req.content) (fun _ => True)

section Contract

/-- How far a request has come with the breaker. -/
inductive Stage
  | fresh
  | admitted (clientIp : Str)
  | settled
  | replied
  deriving DecidableEq

namespace Stage

def next : Stage → (op : ShardI.Op) → ShardI.Res op → Stage
  | _, .inr (.checkRequest ip _), .ok => .admitted ip
  | _, .inr (.recordOutcome _ _), _ => .settled
  | .admitted ip, .inr (.respond _), _ => .admitted ip
  | _, .inr (.respond _), _ => .replied
  | q, _, _ => q

def Ready (settles : Prop) (q : Stage) : Prop :=
  q = .fresh ∨ q = .settled ∨ ((∃ ip, q = .admitted ip) ∧ ¬settles)

def Allows (settles : Prop) (q : Stage) : ShardI.Op → Prop
  | .inr (.checkRequest _ _) => q = .fresh
  | .inr (.recordOutcome ip _) => q = .admitted ip
  | .inr (.respond _) => q.Ready settles
  | _ => True

end Stage

def Answers : (op : ShardI.Op) → ShardI.Res op → Prop
  | .inr (.createSessionWithId _ _), r => r ≠ none
  | _, _ => True

/-- One check, one outcome if it admits, and then the reply, with no suspension between the last
two. -/
def accounting (srv : McpServer) (o : Origin srv.Job) : Contract ShardI Stage where
  init := .fresh
  allows := Stage.Allows (Settles srv o)
  answers := Answers
  next := Stage.next
  child _ := .replied
  rests q := q ≠ .settled
  addresses _ := True

def Plain : ShardI.Op → Prop
  | .inr (.checkRequest _ _) | .inr (.recordOutcome _ _) | .inr (.respond _) => False
  | _ => True

theorem plain_inl (op : HandlerCall) : Plain (.inl op) := trivial

variable {srv : McpServer} {o : Origin srv.Job} {q : Stage}

theorem allows_plain {op : ShardI.Op} (h : Plain op) : (accounting srv o).allows q op := by
  rcases op with op | op
  · trivial
  · cases op <;> trivial

theorem next_plain {op : ShardI.Op} (h : Plain op) (r : ShardI.Res op) : q.next op r = q := by
  rcases op with op | op
  · cases q <;> rfl
  · cases op <;> first | exact h.elim | (cases q <;> rfl)

theorem next_refused {ip key : Str} {r : SecurityCheckResult} (h : r ≠ .ok) :
    q.next (.inr (.checkRequest ip key)) r = q := by
  cases r <;> first | exact absurd rfl h | (cases q <;> rfl)

theorem idle_accounting : (accounting srv o).Idle Plain (· ≠ .settled) where
  allows _ _ _ h := allows_plain h
  next _ _ r _ h := next_plain h r
  rests _ h := h
  child _ _ := nofun

theorem plain_of_writerCall (op : ShardI.Op) (h : WriterCall op) : Plain op := by
  rcases op with op | op
  · trivial
  · cases op <;> trivial

theorem plain_of_closingCall (op : ShardI.Op) (h : ClosingCall op) : Plain op := by
  rcases op with op | op
  · trivial
  · cases op <;> trivial

section Rules
variable {α β : Type} {Q : β → Stage → Prop} {E : Exception → Stage → Prop}

theorem follows_plain {op : TransportCall} (h : Plain (.inr op)) {k : op.Res → ShardTask β}
    (hk : ∀ r : op.Res, Answers (.inr op) r → (k r).Follows (accounting srv o) q Q E) :
    (transport op >>= k).Follows (accounting srv o) q Q E := by
  rw [Coroutine.follows_bind, follows_transport]
  refine ⟨allows_plain h, fun r hr => ?_⟩
  have hnext : (accounting srv o).next q (.inr op) r = q := next_plain h r
  rw [hnext]
  exact hk r hr

theorem follows_check {ip key : Str} {k : SecurityCheckResult → ShardTask β}
    (hok : (k .ok).Follows (accounting srv o) (.admitted ip) Q E)
    (hno : ∀ r ≠ .ok, (k r).Follows (accounting srv o) .fresh Q E) :
    (transport (.checkRequest ip key) >>= k).Follows (accounting srv o) .fresh Q E := by
  rw [Coroutine.follows_bind, follows_transport]
  refine ⟨rfl, fun r _ => ?_⟩
  by_cases hr : r = SecurityCheckResult.ok
  · subst hr
    exact hok
  · have hnext : (accounting srv o).next .fresh (.inr (.checkRequest ip key)) r = .fresh :=
      next_refused hr
    rw [hnext]
    exact hno r hr

theorem follows_record {ip : Str} {b : Bool} {k : Unit → ShardTask β}
    (hk : (k ()).Follows (accounting srv o) .settled Q E) :
    (transport (.recordOutcome ip b) >>= k).Follows (accounting srv o) (.admitted ip) Q E := by
  rw [Coroutine.follows_bind, follows_transport]
  exact ⟨rfl, fun _ _ => hk⟩

theorem follows_of_calls {t : ShardTask α} (h : t.Calls Plain (fun _ => True))
    (hq : q ≠ .settled) :
    t.Follows (accounting srv o) q (fun _ q' => q' = q) (fun _ q' => q' = q) :=
  (Coroutine.Follows.of_calling idle_accounting (fun _ h => h) hq h).mono
    (fun _ _ h => h.2) (fun _ _ h => h.2)

/-- The dispatch of a POST fails only if it is not one that settles. -/
theorem follows_dispatch {req : Request}
    (hwork : o.work = .postMessage req ∨ o.work = .postMcp req) (sessionId : Str) {ip : Str}
    {k : Option Str → ShardTask β}
    (hk : ∀ response, (k response).Follows (accounting srv o) (.admitted ip) Q E)
    (he : ∀ e, ¬Settles srv o → E e (.admitted ip)) :
    ((dispatch srv.L (srv.dispatcher o.shard) req.content sessionId).coAwait >>= k).Follows
      (accounting srv o) (.admitted ip) Q E := by
  have hstage : Stage.admitted ip ≠ .settled := nofun
  have hhandle : ((srv.dispatcher o.shard).handleRequest srv.L req.content).inl.Follows
      (accounting srv o) (.admitted ip) (fun (_ : Option Str) q' => q' = .admitted ip)
      (fun _ q' => q' = .admitted ip ∧ ¬Settles srv o) := by
    apply (Coroutine.follows_inl (C := accounting srv o) _).mpr
    have hidle : (accounting srv o).left.Idle (fun _ => True) (· ≠ .settled) :=
      { allows := fun _ _ _ _ => trivial
        next := fun q op r _ _ => next_plain (plain_inl op) r
        rests := fun _ h => h
        child := fun _ _ => nofun }
    by_cases hdone : Completes ((srv.dispatcher o.shard).handleRequest srv.L req.content)
        (fun _ => True)
    · exact (Coroutine.Follows.of_calling hidle (fun _ h => h) hstage hdone).mono
        (fun _ _ h => h.2) (fun _ _ h => h.1.elim)
    · have hnot : ¬Settles srv o := by
        rintro ⟨req', hwork', hdone'⟩
        have heq : req' = req := by
          rcases hwork with h | h <;> rcases hwork' with h' | h' <;>
            rw [h] at h' <;> cases h' <;> rfl
        exact hdone (heq ▸ hdone')
      exact (Coroutine.Follows.of_calling hidle (fun _ h => h) hstage
        (Coroutine.Addresses.of_all (fun _ => trivial) _)).mono
        (fun _ _ h => h.2) (fun _ _ h => ⟨h.2, hnot⟩)
  have htake : (takeClientResponse srv.L req.content).Follows (accounting srv o) (.admitted ip)
      (fun _ q' => q' = .admitted ip) (fun _ _ => False) :=
    (Coroutine.Follows.of_calling idle_accounting (T := fun _ => True) (fun _ h => h) hstage
      (follows_takeClientResponse (fun _ _ => trivial))).mono (fun _ _ h => h.2) (fun _ _ h => h.1)
  rw [Coroutine.follows_bind, Coroutine.follows_coAwait]
  refine follows_plain (by trivial) (fun _ _ => ?_)
  rw [Coroutine.follows_bind]
  apply htake.mono
  · rintro handled _ rfl
    split
    · exact ⟨hstage, fun _ => hk none⟩
    · refine follows_plain (by trivial) (fun _ _ => ?_)
      apply (Coroutine.follows_coAwait _).mpr
      apply hhandle.mono
      · rintro response _ rfl
        exact ⟨hstage, fun _ => ⟨hstage, fun _ => hk response⟩⟩
      · rintro e _ ⟨rfl, hnot⟩
        exact ⟨hstage, fun _ => ⟨hstage, fun _ => he e hnot⟩⟩
  · exact fun _ _ h => h.elim

theorem follows_pushResponse (j target : ℕ) (sessionId msg : Str) {k : Unit → ShardTask β}
    (hk : (k ()).Follows (accounting srv o) .settled Q E) :
    (pushResponse j target sessionId msg >>= k).Follows (accounting srv o) .settled Q E := by
  rw [Coroutine.follows_bind]
  unfold pushResponse
  split
  · exact ⟨trivial, fun _ _ => hk⟩
  · exact ⟨⟨trivial, nofun, trivial, fun _ _ => nofun⟩, hk⟩

theorem follows_serve {handler : ShardTask Reply}
    (h : handler.Follows (accounting srv o) .fresh (fun _ q => q.Ready (Settles srv o))
      (fun _ q => q.Ready (Settles srv o))) :
    (serve handler).Follows (accounting srv o) .fresh (fun _ q => q ≠ .settled)
      (fun _ q => q ≠ .settled) := by
  have hsends : ∀ (reply : Reply) (q : Stage), q.Ready (Settles srv o) →
      Sends (accounting srv o) (fun _ q => q ≠ .settled) reply q := by
    intro reply q hq
    have hnext : q.next (.inr (.respond reply)) () ≠ .settled := by
      cases q <;> nofun
    exact ⟨hq, hnext, hnext, hnext⟩
  exact McpSdk.follows_serve (h.mono (fun reply q hq => hsends reply q hq)
    (fun _ q hq reply _ _ => hsends reply q hq))

end Rules

theorem ready_fresh {settles : Prop} : Stage.fresh.Ready settles := .inl rfl

theorem ready_settled {settles : Prop} : Stage.settled.Ready settles := .inr (.inl rfl)

theorem ready_admitted {settles : Prop} {ip : Str} (h : ¬settles) :
    (Stage.admitted ip).Ready settles := .inr (.inr ⟨⟨ip, rfl⟩, h⟩)

theorem not_settles_of_get {req : Request} (h : o.work = .getSse req ∨ o.work = .getMcp req) :
    ¬Settles srv o := by
  rintro ⟨req', h', -⟩
  rcases h with h | h <;> rcases h' with h' | h' <;> rw [h] at h' <;> cases h'

/-- What the handlers of POST requests have in common: the size of the body, the check, and then
a mode that settles with the breaker. -/
theorem follows_post {n : ℕ} {ip key : Str} {handle : ShardTask Reply}
    (h : handle.Follows (accounting srv o) (.admitted ip) (fun _ q => q.Ready (Settles srv o))
      (fun _ q => q.Ready (Settles srv o))) :
    (do
      if !(← transport (.checkBodySize n)) then return securityReject .payloadTooLarge
      else
        let check ← transport (.checkRequest ip key)
        if check ≠ .ok then return securityReject check
        else handle : ShardTask Reply).Follows (accounting srv o) .fresh
      (fun _ q => q.Ready (Settles srv o)) (fun _ q => q.Ready (Settles srv o)) := by
  refine follows_plain (by trivial) (fun small _ => ?_)
  split
  · exact ready_fresh
  · apply follows_check
    · exact h
    · intro r hr
      rw [if_pos hr]
      exact ready_fresh

theorem follows_deliver {response : Option Str} {push : Str → ShardTask Unit} {reply : Reply}
    (h : ∀ text (k : Unit → ShardTask Reply) (Q : Reply → Stage → Prop)
        (E : Exception → Stage → Prop),
      (k ()).Follows (accounting srv o) .settled Q E →
        (push text >>= k).Follows (accounting srv o) .settled Q E) :
    (do
      match response with
      | some text => push text
      | none => pure ()
      return reply : ShardTask Reply).Follows (accounting srv o) .settled
      (fun _ q => q.Ready (Settles srv o)) (fun _ q => q.Ready (Settles srv o)) := by
  cases response with
  | none => exact ready_settled
  | some text => exact h text _ _ _ ready_settled

theorem follows_handlePost (srv : McpServer) (j : ℕ) (req : Request) :
    (StreamableHttpTransport.handlePost srv.L (srv.dispatcher j) j req).Follows
      (accounting srv ⟨j, .postMcp req⟩) .fresh
      (fun _ q => q.Ready (Settles srv ⟨j, .postMcp req⟩))
      (fun _ q => q.Ready (Settles srv ⟨j, .postMcp req⟩)) := by
  apply follows_post
  dsimp only
  split
  · refine follows_dispatch (.inr rfl) _ (fun response => ?_) (fun e => ready_admitted)
    apply follows_record
    exact follows_deliver (fun text k _ _ => follows_pushResponse _ _ _ text)
  · split
    · refine follows_plain (by trivial) (fun counter _ => ?_)
      refine follows_plain (by trivial) (fun session hsession => ?_)
      split
      · exact absurd rfl hsession
      · refine follows_dispatch (.inr rfl) _ (fun response => ?_) (fun e => ready_admitted)
        apply follows_record
        refine follows_deliver (fun text k Q E hk => ?_)
        exact follows_plain (by trivial) (fun _ _ => hk)
    · refine follows_dispatch (.inr rfl) _ (fun response => ?_) (fun e => ready_admitted)
      apply follows_record
      cases response <;> exact ready_settled

theorem follows_program (srv : McpServer) (o : Origin srv.Job) :
    (srv.program o.shard o.work).Follows (accounting srv o) .fresh (fun _ q => q ≠ .settled)
      (fun _ q => q ≠ .settled) := by
  obtain ⟨j, work⟩ := o
  cases work with
  | getSse req =>
    have hget : ¬Settles srv ⟨j, .getSse req⟩ := not_settles_of_get (.inl rfl)
    apply follows_serve
    apply follows_check
    · refine follows_plain (by trivial) (fun sessionId _ => ?_)
      split
      · exact ready_admitted hget
      · refine follows_plain (by trivial) (fun session _ => ?_)
        split <;> exact ready_admitted hget
    · intro r hr
      rw [if_pos hr]
      exact ready_fresh
  | postMessage req =>
    apply follows_serve
    apply follows_post
    refine follows_dispatch (.inl rfl) _ (fun response => ?_) (fun e => ready_admitted)
    apply follows_record
    split
    · cases response <;> exact ready_settled
    · exact follows_deliver (fun text k _ _ => follows_pushResponse _ _ _ text)
  | postMcp req =>
    apply follows_serve
    exact follows_handlePost srv j req
  | getMcp req =>
    have hget : ¬Settles srv ⟨j, .getMcp req⟩ := not_settles_of_get (.inr rfl)
    apply follows_serve
    apply follows_check
    · simp only [ne_eq, not_true_eq_false, if_false]
      split
      · exact ready_admitted hget
      · refine follows_plain (by trivial) (fun session _ => ?_)
        split <;> exact ready_admitted hget
    · intro r hr
      rw [if_pos hr]
      exact ready_fresh
  | deleteMcp req =>
    have hfresh : Stage.fresh ≠ .settled := nofun
    apply follows_serve
    apply (follows_of_calls ((calls_handleDelete trivial).mono plain_of_closingCall) hfresh).mono
    · rintro _ _ rfl
      exact ready_fresh
    · rintro _ _ rfl
      exact ready_fresh
  | job x =>
    have hfresh : Stage.fresh ≠ .settled := nofun
    have hjob : (srv.job j x).inl.Calls Plain (fun _ => True) :=
      Coroutine.Calls.inl (Coroutine.Addresses.of_all (fun _ => trivial) _)
    have hprogram : (srv.program j (.job x)).Calls Plain (fun _ => True) :=
      Coroutine.Calls.bind hjob (fun _ => .pure _)
    apply (follows_of_calls hprogram hfresh).mono
    · rintro _ _ rfl
      exact hfresh
    · rintro _ _ rfl
      exact hfresh

theorem keeps_accounting (srv : McpServer) : Keeps srv.system (accounting srv)
    (fun _ => True) (fun _ _ q => q ≠ Stage.settled) where
  answers _ j now op s := by
    rcases op with op | op
    · trivial
    · cases op with
      | createSessionWithId id ip =>
        have hthere := s.getSession_createSessionWithId id ip
        intro hnone
        rw [show (s.createSessionWithId id ip).getSession id = none from hnone] at hthere
        cases hthere
      | _ => trivial
  program o _ := (follows_program srv o).mono (fun x _ h => by cases x <;> exact h)
    (fun _ _ h => h)
  again _ w _ h := (follows_of_calls ((calls_runWriter w).mono plain_of_writerCall) h).mono
    (fun x _ heq => by cases x <;> exact heq ▸ h) (fun _ _ heq => heq ▸ h)

end Contract

section Accounts
variable {srv : McpServer} {o : Origin srv.Job}

/-- What the stage of a request says about its history. -/
def Tells (settles : Prop) (ip : Str) (past : List (Mark ShardI)) : Stage → Prop
  | .fresh => admissions ip past = 0 ∧ outcomes ip past = 0 ∧ answered past = false
  | .admitted ip' =>
      admissions ip past = (if ip' = ip then 1 else 0) ∧ outcomes ip past = 0 ∧
        (settles → answered past = false)
  | .settled => admissions ip past = outcomes ip past ∧ admissions ip past ≤ 1
  | .replied =>
      admissions ip past = outcomes ip past ∧ admissions ip past ≤ 1 ∧
        (answered past ∨ admissions ip past = 0)

theorem own_plain {op : ShardI.Op} (h : Plain op) (r : ShardI.Res op) (ip : Str)
    (past : List (Mark ShardI)) :
    admissions ip (.did op r :: past) = admissions ip past ∧
      outcomes ip (.did op r :: past) = outcomes ip past ∧
      answered (.did op r :: past) = answered past := by
  rcases op with op | op
  · exact ⟨rfl, rfl, rfl⟩
  · cases op <;> first | exact h.elim | exact ⟨rfl, rfl, rfl⟩

theorem tells_plain {op : ShardI.Op} (hop : Plain op) (r : ShardI.Res op) {settles : Prop}
    {ip : Str} {past : List (Mark ShardI)} {q : Stage} (h : Tells settles ip past q) :
    Tells settles ip (.did op r :: past) (q.next op r) := by
  obtain ⟨hadmissions, houtcomes, hanswered⟩ := own_plain hop r ip past
  rw [next_plain hop]
  cases q <;> simpa only [Tells, hadmissions, houtcomes, hanswered] using h

theorem tells_check {ip' key : Str} (r : SecurityCheckResult) {settles : Prop} {ip : Str}
    {past : List (Mark ShardI)} (h : Tells settles ip past .fresh) :
    Tells settles ip (.did (.inr (.checkRequest ip' key)) r :: past)
      (Stage.fresh.next (.inr (.checkRequest ip' key)) r) := by
  obtain ⟨hadmissions, houtcomes, hanswered⟩ := h
  by_cases hr : r = .ok
  · subst hr
    refine ⟨?_, houtcomes, fun _ => hanswered⟩
    have hcount : admissions ip
          (.did (.inr (.checkRequest ip' key)) SecurityCheckResult.ok :: past) =
        admissions ip past + if ip' = ip then 1 else 0 := by
      simp [admissions, own, List.countP_cons, admits]
    rw [hcount, hadmissions, Nat.zero_add]
  · have hcount : admissions ip (.did (.inr (.checkRequest ip' key)) r :: past) =
        admissions ip past := by
      cases r <;> first | exact absurd rfl hr | rfl
    rw [next_refused hr]
    exact ⟨hcount.trans hadmissions, houtcomes, hanswered⟩

theorem tells_record {ip' : Str} {b : Bool} {settles : Prop} {ip : Str}
    {past : List (Mark ShardI)} (h : Tells settles ip past (.admitted ip')) :
    Tells settles ip (.did (.inr (.recordOutcome ip' b)) () :: past) .settled := by
  obtain ⟨hadmissions, houtcomes, -⟩ := h
  have hcount : outcomes ip (.did (.inr (.recordOutcome ip' b)) () :: past) =
      outcomes ip past + if ip' = ip then 1 else 0 := by
    simp [outcomes, own, List.countP_cons, records]
  have hsame : admissions ip (.did (.inr (.recordOutcome ip' b)) () :: past) =
      admissions ip past := rfl
  refine ⟨?_, ?_⟩
  · rw [hsame, hcount, hadmissions, houtcomes, Nat.zero_add]
  · rw [hsame, hadmissions]
    split <;> omega

theorem tells_respond {reply : Reply} {settles : Prop} {ip : Str} {past : List (Mark ShardI)}
    {q : Stage} (hq : q.Ready settles) (h : Tells settles ip past q) :
    Tells settles ip (.did (.inr (.respond reply)) () :: past)
      (q.next (.inr (.respond reply)) ()) := by
  rcases hq with rfl | rfl | ⟨⟨ip', rfl⟩, hnot⟩
  · exact ⟨h.1.trans h.2.1.symm, h.1.le.trans (Nat.zero_le 1), .inl rfl⟩
  · exact ⟨h.1, h.2, .inl rfl⟩
  · exact ⟨h.1, h.2.1, fun hs => absurd hs hnot⟩

theorem tells_of_lawful (ip : Str) {past : List (Mark ShardI)}
    (h : Lawful (accounting srv o) past) :
    Tells (Settles srv o) ip past (phase (accounting srv o) past) := by
  induction past with
  | nil => exact ⟨rfl, rfl, rfl⟩
  | cons mark past ih =>
    cases mark with
    | started => exact ⟨rfl, Nat.zero_le _, .inr rfl⟩
    | did op r =>
      have hpast := ih h.2
      have hallows : Stage.Allows (Settles srv o) (phase (accounting srv o) past) op := h.1.1
      change Tells _ _ _ ((phase (accounting srv o) past).next op r)
      rcases op with op | op
      · exact tells_plain (plain_inl op) r hpast
      · cases op with
        | checkRequest ip' key =>
          have hfresh : phase (accounting srv o) past = .fresh := hallows
          rw [hfresh] at hpast ⊢
          exact tells_check r hpast
        | recordOutcome ip' b =>
          have hadmitted : phase (accounting srv o) past = .admitted ip' := hallows
          rw [hadmitted] at hpast ⊢
          exact tells_record hpast
        | respond reply => exact tells_respond hallows hpast
        | _ => exact tells_plain (by trivial) r hpast

theorem replied_of_started {past : List (Mark ShardI)} (h : Lawful (accounting srv o) past)
    (hs : .started ∈ past) : phase (accounting srv o) past = .replied := by
  induction past with
  | nil => cases hs
  | cons mark past ih =>
    cases mark with
    | started => rfl
    | did op r =>
      have hpast := ih h.2 ((List.mem_cons.mp hs).resolve_left nofun)
      have hallows : Stage.Allows (Settles srv o) (phase (accounting srv o) past) op := h.1.1
      rw [hpast] at hallows
      change (phase (accounting srv o) past).next op r = .replied
      rw [hpast]
      rcases op with op | op
      · exact next_plain (plain_inl op) r
      · cases op with
        | checkRequest | recordOutcome => exact nomatch hallows
        | respond => rfl
        | _ => exact next_plain (by trivial) r

theorem suffix_of_admitted {ip : Str} {past : List (Mark ShardI)}
    (h : phase (accounting srv o) past = .admitted ip) : ∃ key earlier,
      .did (.inr (.checkRequest ip key)) SecurityCheckResult.ok :: earlier <:+ past := by
  induction past with
  | nil => cases h
  | cons mark past ih =>
    have older : phase (accounting srv o) past = .admitted ip → ∃ key earlier,
        .did (.inr (.checkRequest ip key)) SecurityCheckResult.ok :: earlier <:+ mark :: past := by
      intro hpast
      obtain ⟨key, earlier, hsuffix⟩ := ih hpast
      exact ⟨key, earlier, hsuffix.trans (List.suffix_cons mark past)⟩
    cases mark with
    | started => cases h
    | did op r =>
      have hnext : (phase (accounting srv o) past).next op r = .admitted ip := h
      rcases op with op | op
      · exact older ((next_plain (plain_inl op) r).symm.trans hnext)
      · cases op with
        | checkRequest ip' key =>
          by_cases hr : r = SecurityCheckResult.ok
          · subst hr
            cases hq : phase (accounting srv o) past <;> rw [hq] at hnext <;> cases hnext <;>
              exact ⟨key, past, List.suffix_refl _⟩
          · exact older ((next_refused hr).symm.trans hnext)
        | recordOutcome =>
          cases hq : phase (accounting srv o) past <;> rw [hq] at hnext <;> cases hnext
        | respond =>
          cases hq : phase (accounting srv o) past <;> rw [hq] at hnext <;> cases hnext
          exact older hq
        | _ => exact older ((next_plain (by trivial) r).symm.trans hnext)

end Accounts

section Totals
variable {srv : McpServer} (j : ℕ) (ip : Str)

/-- The event is an admission of the IP on the shard. -/
def admitsAt (e : Event ShardI (Origin srv.Job) McpShard) : Bool :=
  e.shard == j && admits ip (.did e.op e.res)

/-- The event is an outcome for the IP on the shard. -/
def recordsAt (e : Event ShardI (Origin srv.Job) McpShard) : Bool :=
  e.shard == j && records ip (.did e.op e.res)

def owes (o : Origin srv.Job) (past : List (Mark ShardI)) : Bool :=
  o.shard == j && phase (accounting srv o) past == .admitted ip

/-- A call moves a request into or out of the stage `admitted` of an IP by an admission or an
outcome for it. -/
theorem next_admitted {settles : Prop} {q : Stage} {op : ShardI.Op} (r : ShardI.Res op)
    (h : q.Allows settles op) :
    ((if q.next op r = .admitted ip then 1 else 0) - (if q = .admitted ip then 1 else 0) : Int) =
        (if admits ip (.did op r) then 1 else 0) - (if records ip (.did op r) then 1 else 0) ∧
      (admits ip (.did op r) ∨ records ip (.did op r) → q ≠ .replied) := by
  have plain : Plain op → admits ip (.did op r) = false → records ip (.did op r) = false →
      ((if q.next op r = .admitted ip then 1 else 0) -
          (if q = .admitted ip then 1 else 0) : Int) =
        (if admits ip (.did op r) then 1 else 0) - (if records ip (.did op r) then 1 else 0) ∧
      (admits ip (.did op r) ∨ records ip (.did op r) → q ≠ .replied) := by
    intro hop hadmits hrecords
    rw [next_plain hop, hadmits, hrecords]
    simp
  rcases op with op | op
  · exact plain trivial rfl rfl
  · cases op with
    | checkRequest ip' key =>
      have hfresh : q = .fresh := h
      subst hfresh
      refine ⟨?_, fun _ => nofun⟩
      cases r with
      | ok => by_cases hip : ip' = ip <;> simp [Stage.next, admits, records, hip]
      | _ => simp [Stage.next, admits, records]
    | recordOutcome ip' b =>
      have hadmitted : q = .admitted ip' := h
      subst hadmitted
      refine ⟨?_, fun _ => nofun⟩
      by_cases hip : ip' = ip <;> simp [Stage.next, admits, records, hip]
    | respond reply =>
      refine ⟨?_, fun hor => hor.elim nofun nofun⟩
      cases q <;> simp [Stage.next, admits, records]
    | _ => exact plain trivial rfl rfl

theorem gain_owes {e : Event ShardI (Origin srv.Job) McpShard}
    (h : Lawful (accounting srv e.origin) e.history)
    (hplace : .started ∉ e.past → e.shard = e.origin.shard) :
    Event.gain (fun o past => if owes j ip o past then 1 else 0) e =
      (if admitsAt j ip e then 1 else 0) - (if recordsAt j ip e then 1 else 0) := by
  obtain ⟨hgain, hstage⟩ := next_admitted ip e.res h.1.1
  have hshard : admits ip (.did e.op e.res) ∨ records ip (.did e.op e.res) →
      e.shard = e.origin.shard :=
    fun hor => hplace (fun hs => hstage hor (replied_of_started h.2 hs))
  have hnext : phase (accounting srv e.origin) e.history =
    (phase (accounting srv e.origin) e.past).next e.op e.res := rfl
  unfold Event.gain admitsAt recordsAt owes
  beta_reduce
  rw [hnext]
  by_cases hor : admits ip (.did e.op e.res) ∨ records ip (.did e.op e.res)
  · rw [hshard hor]
    by_cases hj : e.origin.shard = j
    · simpa only [hj, beq_self_eq_true, Bool.true_and, beq_iff_eq] using hgain
    · simp [hj]
  · obtain ⟨hadmits, hrecords⟩ := not_or.mp hor
    rw [Bool.not_eq_true] at hadmits hrecords
    rw [hadmits, hrecords] at hgain ⊢
    by_cases hj : e.origin.shard = j
    · simpa [hj] using hgain
    · simp [hj]

variable {steps : List (Label Input (Origin srv.Job))} {c : srv.State}

theorem admissions_of_run (h : srv.Reaches steps c) :
    c.log.countP (admitsAt j ip) =
      c.log.countP (recordsAt j ip) + c.tasks.countP (fun t => owes j ip t.origin t.past) := by
  have hlawful := (onTrack_of_run (keeps_accounting srv) (fun l _ => l.launches_true) h).2
  have hplaced := (placed_of_run h).2
  have htotal := total_of_run (fun (o : Origin srv.Job) past => if owes j ip o past then 1 else 0)
    (fun o => by simp [owes, phase, accounting]) (fun o past => by simp [owes, phase, accounting]) h
  have htasks := sum_indicators (l := c.tasks) (a := fun t => owes j ip t.origin t.past)
    (b := fun _ => false) (f := fun t => if owes j ip t.origin t.past then 1 else 0)
    (fun t _ => (sub_zero _).symm)
  have hlog := sum_indicators (l := c.log) (a := admitsAt j ip) (b := recordsAt j ip)
    (fun e he => gain_owes j ip (hlawful e he) (hplaced e he))
  have hnone : c.tasks.countP (fun _ => false) = 0 := by simp
  rw [htasks, hlog, hnone] at htotal
  omega

theorem settles_of_admitted {log : List (Event ShardI (Origin srv.Job) McpShard)}
    (hpost : ∀ e ∈ log, ∀ ip, admits ip (.did e.op e.res) → Settles srv e.origin)
    {o : Origin srv.Job} {past : List (Mark ShardI)} (hrecorded : Recorded log o past)
    (hq : phase (accounting srv o) past = .admitted ip) : Settles srv o := by
  obtain ⟨key, earlier, hsuffix⟩ := suffix_of_admitted hq
  obtain ⟨e, he, rfl, hhistory⟩ := hrecorded _ _ _ hsuffix
  apply hpost e he ip
  have hmark : Mark.did e.op e.res = .did (.inr (.checkRequest ip key)) SecurityCheckResult.ok :=
    (List.cons.inj hhistory).1
  rw [hmark]
  exact beq_self_eq_true ip

/-- If only requests that settle are admitted, the owing tasks are those that have arrived on an
idle shard and are being handled. -/
theorem owes_eq_handling (h : srv.Reaches steps c)
    (hpost : ∀ e ∈ c.log, ∀ ip, admits ip (.did e.op e.res) → Settles srv e.origin)
    (hidle : c.idle j) : ∀ t ∈ c.tasks,
      owes j ip t.origin t.past = (t.shard == j && handling ip t.past) := by
  intro t ht
  have htrack := (onTrack_of_run (keeps_accounting srv) (fun l _ => l.launches_true) h).1 t ht
  have htells := tells_of_lawful ip htrack.2.1
  have hsettles := fun ip' => settles_of_admitted ip' hpost ((recorded_of_run h).1 t ht)
  unfold owes
  cases hq : phase (accounting srv t.origin) t.past with
  | fresh =>
    rw [hq] at htells
    simp [handling, htells.1]
  | admitted ip' =>
    rw [hq] at htells
    have hshard : t.shard = t.origin.shard := by
      apply (placed_of_run h).1 t ht
      intro hs
      rw [replied_of_started htrack.2.1 hs] at hq
      cases hq
    have hanswered := htells.2.2 (hsettles ip' hq)
    by_cases hip : ip' = ip <;> simp [handling, htells.1, hanswered, hshard, hip]
  | settled =>
    have hj : t.shard ≠ j := by
      intro hj
      have hb : t.busy = false := by
        have := List.all_eq_true.mp hidle t ht
        simpa [hj] using this
      exact htrack.rests hb hq
    rw [beq_eq_false_iff_ne.mpr hj, Bool.false_and]
    exact Bool.and_false _
  | replied =>
    rw [hq] at htells
    rcases htells.2.2 with hanswered | hnone
    · simp [handling, hanswered]
    · simp [handling, hnone]

end Totals

/-- If the breaker admits only POST requests whose dispatch cannot fail, then a handler that
replies has recorded one outcome for each admission, and while a shard is between two pieces of
work, the admissions of an IP that lack their outcome are its requests that are being handled. -/
theorem outcomes_of_posts (srv : McpServer) {steps : List (Label Input (Origin srv.Job))}
    {c : srv.State} (h : srv.Reaches steps c)
    (hpost : ∀ e ∈ c.log, ∀ ip, admits ip (.did e.op e.res) → Settles srv e.origin) :
    (∀ e ∈ c.log, replies (.did e.op e.res) → ∀ ip,
      outcomes ip e.past = admissions ip e.past ∧ admissions ip e.past ≤ 1) ∧
    ∀ j ip, c.idle j → c.log.countP (admitsAt j ip) = c.log.countP (recordsAt j ip) +
      c.tasks.countP (fun t => t.shard == j && handling ip t.past) := by
  constructor
  · intro e he hreplies ip
    have hlawful := (onTrack_of_run (keeps_accounting srv) (fun l _ => l.launches_true) h).2 e he
    have htells := tells_of_lawful ip hlawful.2
    have hready : (phase (accounting srv e.origin) e.past).Ready (Settles srv e.origin) := by
      have hallows := hlawful.1.1
      obtain ⟨shard, now, o, past, op, r, before, after⟩ := e
      rcases op with op | op
      · cases hreplies
      · cases op with
        | respond reply => exact hallows
        | _ => cases hreplies
    rcases hready with hq | hq | ⟨⟨ip', hq⟩, hnot⟩
    · rw [hq] at htells
      exact ⟨htells.2.1.trans htells.1.symm, htells.1.le.trans (Nat.zero_le 1)⟩
    · rw [hq] at htells
      exact ⟨htells.1.symm, htells.2⟩
    · obtain ⟨older, hs⟩ := suffix_of_mem he
      have hold : ∀ e ∈ older, ∀ ip, admits ip (.did e.op e.res) → Settles srv e.origin :=
        fun e he => hpost e (hs.mem (.tail _ he))
      exact absurd (settles_of_admitted ip' hold ((recorded_of_run h).2 e older hs) hq) hnot
  · intro j ip hidle
    rw [admissions_of_run j ip h]
    congr 1
    apply List.countP_congr
    intro t ht
    rw [owes_eq_handling j ip h hpost hidle t ht]

/-- A server with the breaker on and the method `ping`. -/
def guardedServer : McpServer :=
  { McpServer.plain CompactJson.library { security := { circuitBreaker := { enabled := true } } } 1
      one_pos with
    methods := fun _ name =>
      if name = "ping".toList then some (fun _ => return .object []) else none
    methods_inRange := by
      intro _ name handler hhandler params
      split at hhandler
      · obtain rfl := Option.some.inj hhandler
        trivial
      · cases hhandler }

def client : Str := "203.0.113.7".toList

def pingPost : Request where
  header name := if name = "x-real-ip".toList then client else []
  content := CompactJson.write pingRequest

def twoPings : List (Label Input (Origin Empty)) :=
  [.launch ⟨0, .postMessage pingPost⟩, .advance 0, .advance 0, .advance 0, .advance 0,
    .resume 0 (.ok .null), .resume 0 (.ok .null), .resume 0 (.ok .null), .resume 0 (.ok .null),
    .advance 0, .advance 0,
    .launch ⟨0, .postMessage pingPost⟩, .advance 1, .advance 1, .advance 1, .advance 1]

theorem settles_pingPost : Settles guardedServer ⟨0, .postMessage pingPost⟩ := by
  have hparse : guardedServer.L.parse pingPost.content = some pingRequest :=
    CompactJson.parse_write (by decide +kernel)
  have hreturns : HandlersReturnJson (guardedServer.dispatcher 0) := by
    intro name handler hhandler params
    change (if name = "ping".toList then _ else _) = some handler at hhandler
    split at hhandler
    · obtain rfl := Option.some.inj hhandler
      exact (rfl : (Json.object []).serialisable = true)
    · cases hhandler
  have hanswers : Answerable guardedServer.L (guardedServer.dispatcher 0) pingPost.content := by
    rw [Answerable, hparse]
    refine ⟨rfl, .inr ⟨"ping".toList, rfl, ?_⟩⟩
    rintro handler ⟨⟩
    trivial
  exact ⟨pingPost, .inl rfl, ((handleRequest_conforms_iff hreturns _).mpr hanswers).mono
    (fun _ _ _ => trivial) (fun _ _ h => h)⟩

/-- Both pings are admitted, and the one that is being handled owes its outcome. -/
theorem outcomes_of_posts_pings :
    ∃ c, guardedServer.Reaches twoPings c ∧ c.log.countP (admitsAt 0 client) = 2 ∧
      c.log.countP (recordsAt 0 client) = 1 ∧
      2 = c.log.countP (recordsAt 0 client) +
        c.tasks.countP (fun t => t.shard == 0 && handling client t.past) := by
  have hrun : (LabelledRuns.run guardedServer.system.step guardedServer.system.start
      twoPings).any (fun c => c.log.countP (admitsAt 0 client) == 2 &&
        c.log.countP (recordsAt 0 client) == 1 && c.idle 0) := by
    decide +kernel
  obtain ⟨c, hc, hp⟩ := (Option.any_eq_true _ _).mp hrun
  simp only [Bool.and_eq_true, beq_iff_eq] at hp
  obtain ⟨⟨hadmitted, hrecorded⟩, hidle⟩ := hp
  have hlaunches : ∀ l ∈ twoPings, l.Launches (· = ⟨0, .postMessage pingPost⟩) := by
    simp only [twoPings, List.forall_mem_cons]
    simp [Label.Launches]
  have horigin := (origins_of_run _ hlaunches hc).2
  have hcount := (outcomes_of_posts guardedServer hc
    (fun e he _ _ => horigin e he ▸ settles_pingPost)).2 0 client hidle
  exact ⟨c, hc, hadmitted, hrecorded, hadmitted.symm.trans hcount⟩

/-- A stream that GET /sse has opened owes an outcome for good. -/
theorem getSse_records_nothing :
    ∃ c, guardedServer.Reaches [.launch ⟨0, .getSse {}⟩, .advance 0, .advance 0, .advance 0,
        .advance 0] c ∧
      ∃ e ∈ c.log, replies (.did e.op e.res) ∧ admissions [] e.past = 1 ∧
        outcomes [] e.past = 0 :=
  ⟨_, rfl, _, .head _, rfl, rfl, rfl⟩

end McpSdk.BreakerAccounting

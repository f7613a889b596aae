import McpSdk.McpServer

/-!
# What a dispatch call does, in which order

The contract behind the statements about dispatch calls: a request makes at most one call of
`dispatch`; the call first offers its body to the pending requests, then assigns the context of
the shard, and only then runs handlers. What a handler starts in the background or on other
shards belongs to the same call.
-/

namespace McpSdk.DispatchCalls
open CppStandardLibrary CooperativeTasks ClusterRuns

section Rule

def IsJob {Job : Type} : Work Job → Prop
  | .job _ => True
  | _ => False

def Anywhere : ShardI.Op → Prop
  | .inl (.pushToSession _ _) => True
  | .inl _ => False
  | .inr (.dispatch _ _) | .inr (.setContext _ _) | .inr (.handleClientResponse _) => False
  | _ => True

def Quiet : ShardI.Op → Prop
  | .inl _ => False
  | .inr (.pushEventually _ _) => False
  | op => Anywhere op

theorem anywhere_of_quiet {op : ShardI.Op} (h : Quiet op) : Anywhere op := by
  rcases op with op | op
  · exact h.elim
  · cases op <;> trivial

theorem quiet_of_writerCall (op : ShardI.Op) (h : WriterCall op) : Quiet op := by
  rcases op with op | op
  · exact h.elim
  · cases op <;> trivial

theorem quiet_of_getCall (op : ShardI.Op) (h : GetCall op) : Quiet op := by
  rcases op with op | op
  · exact h.elim
  · cases op <;> trivial

theorem anywhere_of_closingCall (op : ShardI.Op) (h : ClosingCall op) : Anywhere op := by
  rcases op with op | op
  · exact h.elim
  · cases op <;> trivial

/-- A contract that is about the dispatch call of a piece of work: between the calls of a phase in
`P` nothing changes, in a phase in `R` messages may be handed over as well, and a dispatch call
leads to `R` if it has a response and to `P` if it has none. -/
structure AroundDispatch (srv : McpServer) (o : Origin srv.Job) {Φ : Type} (C : Contract ShardI Φ)
    (P R : Φ → Prop) : Prop where
  quiet : C.Idle Quiet P
  handing : C.Idle Anywhere R
  rested : ∀ q, R q → P q
  init : R C.init
  addresses : ∀ n, C.addresses n
  dispatch : ¬IsJob o.work → ∀ d body sessionId, (dispatch srv.L d body sessionId).coAwait.Follows C
    C.init (fun response q => response.elim (P q) (fun _ => R q)) (fun _ q => P q)
  job : ∀ x, o.work = .job x → (srv.job o.shard x).inl.Follows C C.init (fun _ q => P q)
    (fun _ q => P q)

namespace AroundDispatch
variable {srv : McpServer} {o : Origin srv.Job} {Φ : Type} {C : Contract ShardI Φ} {P R : Φ → Prop}
  {q : Φ} {α β : Type}

/-- The task ends in `P`. -/
abbrev Ends (C : Contract ShardI Φ) (P : Φ → Prop) (q : Φ) (t : ShardTask α) : Prop :=
  t.Follows C q (fun _ q => P q) (fun _ q => P q)

variable (h : AroundDispatch srv o C P R)
include h

theorem of_quiet (hq : P q) {t : ShardTask α} (ht : t.Calls Quiet (fun _ => True)) :
    Ends C P q t :=
  (Coroutine.Follows.of_calling h.quiet (fun n _ => h.addresses n) hq ht).mono
    (fun _ _ hr => hr.2 ▸ hq) (fun _ _ hr => hr.2 ▸ hq)

theorem of_handing (hq : R q) {t : ShardTask α} (ht : t.Calls Anywhere (fun _ => True)) :
    Ends C R q t :=
  (Coroutine.Follows.of_calling h.handing (fun n _ => h.addresses n) hq ht).mono
    (fun _ _ hr => hr.2 ▸ hq) (fun _ _ hr => hr.2 ▸ hq)

theorem serve {handler : ShardTask Reply} (ht : Ends C P q handler) :
    Ends C P q (serve handler) := by
  have hsends : ∀ (reply : Reply) (q : Φ), P q → Sends C (fun _ q => P q) reply q := by
    intro reply q hq
    have hnext : P (C.next q (.inr (.respond reply)) ()) := by
      rw [h.quiet.next q (.inr (.respond reply)) () hq trivial]
      exact hq
    exact ⟨h.quiet.allows q _ hq trivial, h.quiet.rests _ hnext, hnext, hnext⟩
  exact follows_serve (ht.mono (fun reply q hq => hsends reply q hq)
    (fun _ q hq reply _ _ => hsends reply q hq))

theorem settled (hjob : ¬IsJob o.work) (d : JsonRpcDispatcher HandlerI) (body sessionId ip : Str)
    {k : Option Str → ShardTask Reply} (hnone : ∀ q, P q → Ends C P q (k none))
    (hsome : ∀ q text, R q → Ends C P q (k (some text))) :
    Ends C P C.init (do
      let response ← (McpSdk.dispatch srv.L d body sessionId).coAwait
      transport (.recordOutcome ip (isError response))
      k response : ShardTask Reply) := by
  apply (Coroutine.follows_bind _ _).mpr
  apply (h.dispatch hjob d body sessionId).mono
  · intro response q hq
    cases response with
    | none => exact h.quiet.perform_bind hq (by trivial) (fun _ => hnone q hq)
    | some text => exact h.handing.perform_bind hq (by trivial) (fun _ => hsome q text hq)
  · exact fun _ _ hq => hq

theorem pushResponse (j target : ℕ) (sessionId msg : Str) (hq : R q) {reply : Reply} :
    Ends C P q (do
      McpSdk.pushResponse j target sessionId msg
      return reply : ShardTask Reply) := by
  have hpush : (McpSdk.pushResponse j target sessionId msg).Calls Anywhere (fun _ => True) := by
    unfold McpSdk.pushResponse
    split
    · exact calls_onShard trivial
    · exact Coroutine.Calls.send trivial (calls_onShard trivial)
  apply (Coroutine.follows_bind _ _).mpr
  exact (h.of_handing hq hpush).mono (fun _ q hq => h.rested q hq) (fun _ q hq => h.rested q hq)

theorem post {n : ℕ} {ip key : Str} {handle : ShardTask Reply} (ht : Ends C P C.init handle) :
    Ends C P C.init (do
      if !(← transport (.checkBodySize n)) then return securityReject .payloadTooLarge
      else
        let check ← transport (.checkRequest ip key)
        if check ≠ .ok then return securityReject check
        else handle : ShardTask Reply) := by
  have hinit := h.rested _ h.init
  refine h.quiet.perform_bind hinit (by trivial) (fun small => ?_)
  split
  · exact hinit
  · refine h.quiet.perform_bind hinit (by trivial) (fun check => ?_)
    split
    · exact hinit
    · exact ht

/-- All programs of the server keep to such a contract. -/
theorem program : Ends C P C.init (srv.program o.shard o.work) := by
  have hinit := h.rested _ h.init
  have hjob := h.job
  have hsettled := h.settled
  obtain ⟨j, work⟩ := o
  cases work with
  | getSse req =>
    exact h.serve (h.of_quiet hinit ((calls_handleSse req).mono quiet_of_getCall))
  | postMessage req =>
    apply h.serve
    apply h.post
    refine hsettled id _ _ _ _ (fun q hq => ?_) (fun q text hq => ?_)
    · dsimp only
      split <;> exact hq
    · dsimp only
      split
      · exact h.rested q hq
      · exact h.pushResponse _ _ _ _ hq
  | postMcp req =>
    apply h.serve
    apply h.post
    dsimp only
    split
    · exact hsettled id _ _ _ _ (fun q hq => hq) (fun q text hq => h.pushResponse _ _ _ _ hq)
    · split
      · refine h.quiet.perform_bind hinit (by trivial) (fun counter => ?_)
        refine h.quiet.perform_bind hinit (by trivial) (fun session => ?_)
        split
        · exact hinit
        · refine hsettled id _ _ _ _ (fun q hq => hq) (fun q text hq => ?_)
          exact h.handing.perform_bind hq (by trivial) (fun _ => h.rested q hq)
      · exact hsettled id _ _ _ _ (fun q hq => hq) (fun q text hq => h.rested q hq)
  | getMcp req =>
    exact h.serve (h.of_quiet hinit ((calls_handleGet req).mono quiet_of_getCall))
  | deleteMcp req =>
    apply h.serve
    exact (h.of_handing h.init ((calls_handleDelete trivial).mono anywhere_of_closingCall)).mono
      (fun _ q hq => h.rested q hq) (fun _ q hq => h.rested q hq)
  | job x => exact (Coroutine.follows_bind _ _).mpr ((hjob x rfl).mono (fun _ _ hq => hq)
      (fun _ _ hq => hq))

theorem runWriter (hq : P q) (w : WriterState) : Ends C P q (McpSdk.runWriter w) :=
  h.of_quiet hq ((calls_runWriter w).mono quiet_of_writerCall)

end AroundDispatch

theorem keeps_aroundDispatch {srv : McpServer} {Φ : Type}
    {C : Origin srv.Job → Contract ShardI Φ} {P R : Φ → Prop}
    (h : ∀ o, AroundDispatch srv o (C o) P R) (hanswers : ∀ o op r, (C o).answers op r) :
    Keeps srv.system C (fun _ => True) (fun _ _ q => P q) where
  answers o _ _ _ _ := hanswers o _ _
  program o _ := (h o).program.mono
    (fun x q hq => by cases x; exacts [(h o).quiet.rests q hq, hq])
    (fun _ q hq => (h o).quiet.rests q hq)
  again o w q hq := ((h o).runWriter hq w).mono
    (fun x q hq => by cases x; exacts [(h o).quiet.rests q hq, hq])
    (fun _ q hq => (h o).quiet.rests q hq)

end Rule

/-- The call that a task acts for: the body and the session id `dispatch` was given. -/
def callOf : List (Mark ShardI) → Option (Str × Str)
  | .did (.inr (.dispatch body sessionId)) _ :: _ => some (body, sessionId)
  | _ :: past => callOf past
  | [] => none

inductive CallStage
  | outside
  | entered (body sessionId : Str)
  | installed (body sessionId : Str)
  /-- A task of a request that acts for no call. -/
  | bystander

namespace CallStage

def next : CallStage → (op : ShardI.Op) → ShardI.Res op → CallStage
  | _, .inr (.dispatch body sessionId), _ => .entered body sessionId
  | .entered body sessionId, .inr (.setContext _ _), _ => .installed body sessionId
  | q, _, _ => q

def child : CallStage → CallStage
  | .installed body sessionId => .installed body sessionId
  | _ => .bystander

/-- The calls of a stage; a job is `free` to call what handlers may call. -/
def Allows (L : JsonLibrary) (free : Prop) (q : CallStage) : ShardI.Op → Prop
  | .inl (.pushToSession _ _) => True
  | .inl _ => free ∨ ∃ body sessionId, q = .installed body sessionId
  | .inr (.dispatch _ _) => q = .outside ∧ ¬free
  | .inr (.setContext sessionId token) =>
      ∃ body, q = .entered body sessionId ∧ token = progressToken L body
  | .inr (.handleClientResponse response) =>
      ∃ body sessionId, q = .entered body sessionId ∧ L.parse body = some response
  | _ => True

end CallStage

/-- The order of the calls around `dispatch`. -/
def calls (srv : McpServer) (o : Origin srv.Job) : Contract ShardI CallStage where
  init := .outside
  allows := CallStage.Allows srv.L (IsJob o.work)
  answers _ _ := True
  next := CallStage.next
  child := CallStage.child
  rests _ := True
  addresses _ := True

section Programs
variable {srv : McpServer} {o : Origin srv.Job} {q : CallStage}

theorem idle_calls : (calls srv o).Idle Anywhere (fun _ => True) where
  allows q op _ h := by
    rcases op with op | op
    · cases op <;> trivial
    · cases op <;> trivial
  next q op r _ h := by
    rcases op with op | op
    · cases q <;> rfl
    · cases op <;> first | exact h.elim | (cases q <;> rfl)
  rests _ _ := trivial
  child _ _ := trivial

/-- A dispatch call goes through its stages. -/
theorem follows_dispatch (hjob : ¬IsJob o.work) (d : JsonRpcDispatcher HandlerI)
    (body sessionId : Str) :
    (dispatch srv.L d body sessionId).coAwait.Follows (calls srv o) .outside
      (fun _ _ => True) (fun _ _ => True) := by
  have htake : (takeClientResponse srv.L body).Follows (calls srv o) (.entered body sessionId)
      (fun _ q' => q' = .entered body sessionId) (fun _ _ => True) := by
    unfold takeClientResponse
    split
    · rfl
    · rename_i response hparse
      split
      · rw [Coroutine.follows_bind, follows_transport]
        refine ⟨⟨body, sessionId, rfl, hparse⟩, fun taken _ => ?_⟩
        split <;> rfl
      · rfl
  have hidle : (calls srv o).left.Idle (fun _ => True)
      (fun q => q = .installed body sessionId) :=
    { allows := fun q op hq _ => by
        cases op <;> first | trivial | exact .inr ⟨body, sessionId, hq⟩
      next := fun q op r hq _ => by
        subst hq
        rfl
      rests := fun _ _ => trivial
      child := fun q hq => by
        subst hq
        rfl }
  have hhandle : (d.handleRequest srv.L body).inl.Follows (calls srv o)
      (.installed body sessionId) (fun (_ : Option Str) _ => True) (fun _ _ => True) := by
    apply (Coroutine.follows_inl (C := calls srv o) _).mpr
    exact (Coroutine.Follows.of_calling hidle (fun _ h => h) rfl
      (Coroutine.Addresses.of_all (fun _ => trivial) _)).mono
      (fun _ _ _ => trivial) (fun _ _ _ => trivial)
  rw [Coroutine.follows_coAwait]
  unfold dispatch
  rw [Coroutine.follows_bind, follows_transport]
  refine ⟨⟨rfl, hjob⟩, fun _ _ => ?_⟩
  rw [Coroutine.follows_bind]
  change (takeClientResponse srv.L body).Follows (calls srv o) (.entered body sessionId) _ _
  apply htake.mono
  · rintro handled _ rfl
    split
    · exact ⟨trivial, fun _ => trivial⟩
    · apply (Coroutine.follows_bind _ _).mpr
      refine ⟨⟨body, rfl, rfl⟩, fun _ _ => ?_⟩
      apply (Coroutine.follows_coAwait _).mpr
      apply hhandle.mono
      · exact fun _ _ _ => ⟨trivial, fun _ => ⟨trivial, fun _ => trivial⟩⟩
      · exact fun _ _ _ => ⟨trivial, fun _ => ⟨trivial, fun _ => trivial⟩⟩
  · exact fun _ _ _ => ⟨trivial, fun _ => trivial⟩

theorem aroundDispatch_calls (srv : McpServer) (o : Origin srv.Job) :
    AroundDispatch srv o (calls srv o) (fun _ => True) (fun _ => True) where
  quiet := idle_calls.mono (fun _ h => anywhere_of_quiet h)
  handing := idle_calls
  rested _ _ := trivial
  init := trivial
  addresses _ := trivial
  dispatch hjob d body sessionId := (follows_dispatch hjob d body sessionId).mono
    (fun response _ _ => by cases response <;> trivial) (fun _ _ _ => trivial)
  job x hx := by
    have hjob : IsJob o.work := hx ▸ trivial
    have hfree : (calls srv o).left.Free :=
      { allows := fun q op => by cases op <;> first | trivial | exact .inl hjob
        rests := fun _ => trivial
        addresses := fun _ => trivial }
    apply (Coroutine.follows_inl (C := calls srv o) _).mpr
    exact Coroutine.Follows.of_free hfree _ _

theorem keeps_calls (srv : McpServer) :
    Keeps srv.system (calls srv) (fun _ => True) (fun _ _ _ => True) :=
  keeps_aroundDispatch (aroundDispatch_calls srv) (fun _ _ _ => trivial)

end Programs

section Histories
variable {srv : McpServer} {o : Origin srv.Job} {past : List (Mark ShardI)}

def Installed (L : JsonLibrary) (body sessionId : Str) (past : List (Mark ShardI)) : Prop :=
  ∃ earlier, .did (.inr (.setContext sessionId (progressToken L body))) () :: earlier <:+ past

def Tells (L : JsonLibrary) (past : List (Mark ShardI)) : CallStage → Prop
  | .outside => callOf past = none ∧ .started ∉ past
  | .entered body sessionId => callOf past = some (body, sessionId) ∧ .started ∉ past
  | .installed body sessionId =>
      callOf past = some (body, sessionId) ∧ Installed L body sessionId past
  | .bystander => True

theorem tells_of_next {op : ShardI.Op} {r : ShardI.Res op} {L : JsonLibrary} {q : CallStage}
    (hnext : q.next op r = q) (hcall : callOf (.did op r :: past) = callOf past)
    (hq : Tells L past q) : Tells L (.did op r :: past) (q.next op r) := by
  have hstarted : .started ∉ past → .started ∉ (.did op r :: past : List (Mark ShardI)) :=
    fun hnot hmem => hnot ((List.mem_cons.mp hmem).resolve_left nofun)
  rw [hnext]
  cases q with
  | outside => exact ⟨hcall.trans hq.1, hstarted hq.2⟩
  | entered body sessionId => exact ⟨hcall.trans hq.1, hstarted hq.2⟩
  | installed body sessionId =>
    obtain ⟨hcalled, earlier, hs⟩ := hq
    exact ⟨hcall.trans hcalled, earlier, hs.trans (List.suffix_cons _ _)⟩
  | bystander => trivial

theorem tells_of_lawful (h : Lawful (calls srv o) past) :
    Tells srv.L past (phase (calls srv o) past) := by
  induction past with
  | nil => exact ⟨rfl, List.not_mem_nil⟩
  | cons mark past ih =>
    cases mark with
    | started =>
      have hpast := ih h
      change Tells srv.L _ (phase (calls srv o) past).child
      cases hq : phase (calls srv o) past with
      | installed body sessionId =>
        rw [hq] at hpast
        obtain ⟨hcalled, earlier, hs⟩ := hpast
        exact ⟨hcalled, earlier, hs.trans (List.suffix_cons _ _)⟩
      | _ => trivial
    | did op r =>
      have hpast := ih h.2
      have hallows : (phase (calls srv o) past).Allows srv.L (IsJob o.work) op := h.1.1
      change Tells srv.L _ ((phase (calls srv o) past).next op r)
      rcases op with op | op
      · refine tells_of_next ?_ rfl hpast
        cases phase (calls srv o) past <;> rfl
      · cases op with
        | dispatch body sessionId =>
          obtain ⟨hq, -⟩ := hallows
          rw [hq] at hpast ⊢
          exact ⟨rfl, fun hmem => hpast.2 ((List.mem_cons.mp hmem).resolve_left nofun)⟩
        | setContext sessionId token =>
          obtain ⟨body, hq, rfl⟩ := hallows
          rw [hq] at hpast ⊢
          exact ⟨hpast.1, past, List.suffix_refl _⟩
        | handleClientResponse response =>
          obtain ⟨body, sessionId, hq, -⟩ := hallows
          rw [hq] at hpast ⊢
          exact ⟨hpast.1, fun hmem => hpast.2 ((List.mem_cons.mp hmem).resolve_left nofun)⟩
        | _ =>
          refine tells_of_next ?_ rfl hpast
          cases phase (calls srv o) past <;> rfl

theorem callOf_job (h : Lawful (calls srv o) past) (hjob : IsJob o.work) : callOf past = none := by
  induction past with
  | nil => rfl
  | cons mark past ih =>
    cases mark with
    | started => exact ih h
    | did op r =>
      have hallows : (phase (calls srv o) past).Allows srv.L (IsJob o.work) op := h.1.1
      rcases op with op | op
      · exact ih h.2
      · cases op with
        | dispatch body sessionId => exact absurd hjob hallows.2
        | _ => exact ih h.2

theorem of_setContext {sessionId token : Str} {r : Unit}
    (h : Lawful (calls srv o) (.did (.inr (.setContext sessionId token)) r :: past)) :
    ∃ body, callOf past = some (body, sessionId) ∧ token = progressToken srv.L body ∧
      .started ∉ past := by
  obtain ⟨body, hq, htoken⟩ := h.1.1
  have htells := tells_of_lawful h.2
  rw [hq] at htells
  exact ⟨body, htells.1, htoken, htells.2⟩

theorem of_handleClientResponse {response : Json} {r : Except Exception Bool}
    (h : Lawful (calls srv o) (.did (.inr (.handleClientResponse response)) r :: past)) :
    ∃ body sessionId, callOf past = some (body, sessionId) ∧ srv.L.parse body = some response := by
  obtain ⟨body, sessionId, hq, hparse⟩ := h.1.1
  have htells := tells_of_lawful h.2
  rw [hq] at htells
  exact ⟨body, sessionId, htells.1, hparse⟩

theorem of_handlerCall {op : HandlerCall} {r : op.Res} {body sessionId : Str}
    (h : Lawful (calls srv o) (.did (.inl op) r :: past)) (hop : ¬Anywhere (.inl op))
    (hcall : callOf past = some (body, sessionId)) : Installed srv.L body sessionId past := by
  have hallows : IsJob o.work ∨ ∃ body sessionId,
      phase (calls srv o) past = .installed body sessionId := by
    have hallows : (phase (calls srv o) past).Allows srv.L (IsJob o.work) (.inl op) := h.1.1
    cases op with
    | pushToSession => exact absurd trivial hop
    | _ => exact hallows
  rcases hallows with hjob | ⟨body', sessionId', hq⟩
  · rw [callOf_job h.2 hjob] at hcall
    cases hcall
  · have htells := tells_of_lawful h.2
    rw [hq] at htells
    obtain ⟨rfl, rfl⟩ := Prod.mk.inj (Option.some.inj (htells.1.symm.trans hcall))
    exact htells.2

end Histories
end McpSdk.DispatchCalls

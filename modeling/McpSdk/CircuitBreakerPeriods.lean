import McpSdk.CircuitBreakerRecovery

/-!
# How long OPEN lasts, and how much HALF_OPEN lets through

Runs of calls for one IP at times that do not decrease. A circuit that has opened refuses and
stays as it is until its timeout has passed. One that has gone HALF_OPEN counts the requests it
lets through, the one that caused the transition included.
-/

namespace McpSdk.CircuitBreakerPeriods
open CppStandardLibrary PerIpCircuitBreaker CircuitBreakerRecovery

structure TimedCall where
  now : Int
  call : Call

variable (ip : Str)

def after (b : PerIpCircuitBreaker) (calls : List TimedCall) : PerIpCircuitBreaker :=
  calls.foldl (fun b c => b.perform c.now ip c.call) b

/-- The call is one of `allow`, and returns true. -/
def grants (b : PerIpCircuitBreaker) (c : TimedCall) : Bool :=
  c.call == .allow && (b.allow c.now ip).1

/-- How many of the calls let a request through. -/
def granted : PerIpCircuitBreaker → List TimedCall → ℕ
  | _, [] => 0
  | b, c :: calls => (grants ip b c).toNat + granted (b.perform c.now ip c.call) calls

/-- Up to the timeout nothing is let through, and the circuit stays open since `c`. -/
def HoldsOpen (b : PerIpCircuitBreaker) (c : TimedCall) (later : List TimedCall) : Prop :=
  ∀ earlier d rest, later = earlier ++ d :: rest → d.now < c.now + timeout b.cfg →
    grants ip (after ip b (c :: earlier)) d = false ∧
      ((after ip b (c :: earlier ++ [d])).stateOf ip).state = .opened ∧
      ((after ip b (c :: earlier ++ [d])).stateOf ip).openTime = c.now

/-- As long as the circuit stays HALF_OPEN after `c`, it has let only so many requests through. -/
def LimitsProbes (b : PerIpCircuitBreaker) (c : TimedCall) (later : List TimedCall) : Prop :=
  ∀ period rest, later = period ++ rest →
    (∀ calls, calls <+: period → (after ip b (c :: calls)).getState ip = .halfOpen) →
    granted ip b (c :: period) ≤ max 1 b.cfg.halfOpenMaxReqs.toNat

variable {ip} {b : PerIpCircuitBreaker}

theorem after_append (calls calls' : List TimedCall) :
    after ip b (calls ++ calls') = after ip (after ip b calls) calls' := List.foldl_append

@[simp] theorem after_cfg (calls : List TimedCall) : (after ip b calls).cfg = b.cfg := by
  induction calls generalizing b with
  | nil => rfl
  | cons c calls ih => exact (ih).trans (perform_cfg b c.now ip c.call)

theorem secondsOf_lt {d : Int} {n : ℕ} (hd : 0 ≤ d) (h : d < n * 1000000000) :
    secondsOf d < n := by
  rw [secondsOf, Int.tdiv_eq_ediv_of_nonneg hd]
  omega

section Enabled
variable (he : b.cfg.enabled = true) (hip : ip ≠ [])
include he hip

theorem stateOf_perform (now : Int) (c : Call) :
    (b.perform now ip c).stateOf ip = match c with
      | .allow => ((b.stateOf ip).allow b.cfg now).2
      | .recordSuccess => (b.stateOf ip).recordSuccess b.cfg
      | .recordFailure => (b.stateOf ip).recordFailure b.cfg now := by
  cases c with
  | allow => exact stateOf_allow he hip now
  | recordSuccess => exact stateOf_recordSuccess he hip
  | recordFailure => exact stateOf_recordFailure he hip now

theorem perform_opened (hopened : (b.stateOf ip).state = .opened) {c : TimedCall}
    (hpast : (b.stateOf ip).openTime ≤ c.now)
    (hnow : c.now < (b.stateOf ip).openTime + timeout b.cfg) :
    grants ip b c = false ∧ (b.perform c.now ip c.call).stateOf ip = b.stateOf ip := by
  have hearly : secondsOf (c.now - (b.stateOf ip).openTime) < (b.cfg.timeoutSeconds.toNat : Int) :=
    secondsOf_lt (sub_nonneg.mpr hpast) (sub_lt_iff_lt_add'.mpr hnow)
  have hrefused : (b.stateOf ip).allow b.cfg c.now = (false, b.stateOf ip) := by
    simp [CircuitState.allow, hopened, hearly]
  rw [stateOf_perform he hip, grants]
  cases c.call with
  | allow => exact ⟨by rw [allow_fst he hip, hrefused]; rfl, by rw [hrefused]⟩
  | recordSuccess => exact ⟨rfl, by simp [CircuitState.recordSuccess, hopened]⟩
  | recordFailure => exact ⟨rfl, by simp [CircuitState.recordFailure, hopened]⟩

theorem after_opened (hopened : (b.stateOf ip).state = .opened) {calls : List TimedCall}
    (hpast : ∀ c ∈ calls, (b.stateOf ip).openTime ≤ c.now)
    (hnow : ∀ c ∈ calls, c.now < (b.stateOf ip).openTime + timeout b.cfg) :
    (after ip b calls).stateOf ip = b.stateOf ip := by
  induction calls generalizing b with
  | nil => rfl
  | cons c calls ih =>
    have hfirst := (perform_opened he hip hopened (hpast c (List.mem_cons_self ..))
      (hnow c (List.mem_cons_self ..))).2
    have hcfg : (b.perform c.now ip c.call).cfg = b.cfg := perform_cfg b c.now ip c.call
    refine (ih (by rw [hcfg, he]) (by rw [hfirst, hopened]) ?_ ?_).trans hfirst
    · intro d hd
      rw [hfirst]
      exact hpast d (List.mem_cons_of_mem _ hd)
    · intro d hd
      rw [hfirst, hcfg]
      exact hnow d (List.mem_cons_of_mem _ hd)

/-- A call that opens the circuit sets the time. -/
theorem openTime_of_enters {c : TimedCall} (hbefore : b.getState ip ≠ .opened)
    (hafter : (b.perform c.now ip c.call).getState ip = .opened) :
    ((b.perform c.now ip c.call).stateOf ip).openTime = c.now := by
  rw [getState, stateOf_perform he hip] at hafter
  rw [stateOf_perform he hip]
  rw [getState] at hbefore
  cases hc : c.call with
  | allow =>
    exfalso
    rw [hc] at hafter
    cases hs : (b.stateOf ip).state with
    | closed => simp [CircuitState.allow, hs] at hafter
    | opened => exact hbefore hs
    | halfOpen =>
      simp only [CircuitState.allow, hs] at hafter
      split at hafter
      · cases hafter
      · cases hs.symm.trans hafter
  | recordSuccess =>
    exfalso
    rw [hc] at hafter
    cases hs : (b.stateOf ip).state with
    | closed => simp [CircuitState.recordSuccess, hs] at hafter
    | opened => exact hbefore hs
    | halfOpen =>
      simp only [CircuitState.recordSuccess, hs] at hafter
      split at hafter <;> simp at hafter
  | recordFailure =>
    rw [hc] at hafter
    cases hs : (b.stateOf ip).state with
    | closed =>
      simp only [CircuitState.recordFailure, hs] at hafter ⊢
      split at hafter
      · rw [if_pos ‹_›]
      · simp at hafter
    | opened => exact absurd hs hbefore
    | halfOpen => simp [CircuitState.recordFailure, hs]

theorem perform_halfOpen (hhalf : b.getState ip = .halfOpen) {c : TimedCall}
    (hafter : (b.perform c.now ip c.call).getState ip = .halfOpen) :
    ((b.perform c.now ip c.call).stateOf ip).halfOpenReqs.toNat =
        (b.stateOf ip).halfOpenReqs.toNat + (grants ip b c).toNat ∧
      (grants ip b c = true → (b.stateOf ip).halfOpenReqs < b.cfg.halfOpenMaxReqs) := by
  rw [getState] at hhalf
  rw [getState, stateOf_perform he hip] at hafter
  rw [stateOf_perform he hip, grants]
  cases hc : c.call with
  | allow =>
    rw [allow_fst he hip]
    by_cases hroom : (b.stateOf ip).halfOpenReqs < b.cfg.halfOpenMaxReqs
    · have hcount := toNat_add_one_of_lt hroom
      simp [CircuitState.allow, hhalf, hroom, hcount]
    · simp [CircuitState.allow, hhalf, hroom]
  | recordSuccess =>
    rw [hc] at hafter
    simp only [CircuitState.recordSuccess, hhalf] at hafter ⊢
    split at hafter
    · cases hafter
    · rw [if_neg ‹_›]
      exact ⟨rfl, fun hopen => by cases hopen⟩
  | recordFailure =>
    rw [hc] at hafter
    simp [CircuitState.recordFailure, hhalf] at hafter

theorem granted_of_halfOpen (hhalf : b.getState ip = .halfOpen) {calls : List TimedCall}
    (hstays : ∀ earlier, earlier <+: calls → (after ip b earlier).getState ip = .halfOpen) :
    granted ip b calls + (b.stateOf ip).halfOpenReqs.toNat ≤
      max (b.stateOf ip).halfOpenReqs.toNat b.cfg.halfOpenMaxReqs.toNat := by
  induction calls generalizing b with
  | nil => simp [granted]
  | cons c calls ih =>
    have hcfg : (b.perform c.now ip c.call).cfg = b.cfg := perform_cfg b c.now ip c.call
    have hnext : (b.perform c.now ip c.call).getState ip = .halfOpen :=
      hstays [c] (List.prefix_append [c] calls)
    obtain ⟨hslots, hroom⟩ := perform_halfOpen he hip hhalf hnext
    have hrest := ih (by rw [hcfg, he]) hnext (fun earlier he =>
      hstays (c :: earlier) ((List.prefix_cons_inj c).mpr he))
    rw [hslots, hcfg] at hrest
    rw [granted]
    cases hgrants : grants ip b c with
    | false =>
      rw [hgrants] at hrest
      simpa using hrest
    | true =>
      have hlt := UInt32.lt_iff_toNat_lt.mp (hroom hgrants)
      rw [hgrants] at hrest
      simp only [Bool.toNat_true] at hrest ⊢
      omega

theorem halfOpenReqs_of_enters {c : TimedCall} (hbefore : b.getState ip = .opened)
    (hafter : (b.perform c.now ip c.call).getState ip = .halfOpen) :
    grants ip b c = true ∧ ((b.perform c.now ip c.call).stateOf ip).halfOpenReqs = 1 := by
  rw [getState] at hbefore
  rw [getState, stateOf_perform he hip] at hafter
  rw [stateOf_perform he hip, grants]
  cases hc : c.call with
  | allow =>
    rw [allow_fst he hip]
    rw [hc] at hafter
    simp only [CircuitState.allow, hbefore] at hafter ⊢
    split at hafter
    · rw [if_pos ‹_›]
      exact ⟨rfl, rfl⟩
    · cases hbefore.symm.trans hafter
  | recordSuccess =>
    rw [hc] at hafter
    simp [CircuitState.recordSuccess, hbefore] at hafter
  | recordFailure =>
    rw [hc] at hafter
    simp [CircuitState.recordFailure, hbefore] at hafter

theorem holdsOpen_of_enters {c : TimedCall} {later : List TimedCall}
    (htime : (c :: later).Pairwise (fun c d => c.now ≤ d.now)) (hbefore : b.getState ip ≠ .opened)
    (hafter : (b.perform c.now ip c.call).getState ip = .opened) : HoldsOpen ip b c later := by
  rintro earlier d rest rfl hd
  have hcfg : (b.perform c.now ip c.call).cfg = b.cfg := perform_cfg b c.now ip c.call
  have hopen := openTime_of_enters he hip hbefore hafter
  obtain ⟨hpast, htime⟩ := List.pairwise_cons.mp htime
  have hup : ∀ e ∈ earlier, e.now ≤ d.now := fun e he =>
    (List.pairwise_append.mp htime).2.2 e he d (List.mem_cons_self ..)
  have hsame : (after ip b (c :: earlier)).stateOf ip =
      (b.perform c.now ip c.call).stateOf ip := by
    apply after_opened (by rw [hcfg, he]) hip hafter
    · intro e he
      rw [hopen]
      exact hpast e (List.mem_append_left _ he)
    · intro e he
      rw [hopen, hcfg]
      exact (hup e he).trans_lt hd
  have hcall := perform_opened (b := after ip b (c :: earlier)) (c := d)
    (by rw [after_cfg, he]) hip (by rw [hsame]; exact hafter)
    (by rw [hsame, hopen]; exact hpast d (List.mem_append_right _ (List.mem_cons_self ..)))
    (by rw [hsame, hopen, after_cfg]; exact hd)
  have hlast : after ip b (c :: earlier ++ [d]) =
      (after ip b (c :: earlier)).perform d.now ip d.call := after_append _ _
  refine ⟨hcall.1, ?_, ?_⟩
  · rw [hlast, hcall.2, hsame]
    exact hafter
  · rw [hlast, hcall.2, hsame, hopen]

theorem limitsProbes_of_enters {c : TimedCall} (later : List TimedCall)
    (hbefore : b.getState ip = .opened)
    (hafter : (b.perform c.now ip c.call).getState ip = .halfOpen) :
    LimitsProbes ip b c later := by
  rintro period rest rfl hstays
  have hcfg : (b.perform c.now ip c.call).cfg = b.cfg := perform_cfg b c.now ip c.call
  obtain ⟨hgrants, hone⟩ := halfOpenReqs_of_enters he hip hbefore hafter
  have hrest := granted_of_halfOpen (by rw [hcfg, he]) hip hafter hstays
  rw [hone, hcfg] at hrest
  rw [granted, hgrants]
  exact (Nat.add_comm _ _).trans_le hrest

end Enabled

/-- In every run of calls for the IP, a circuit that opens holds until the timeout has passed, and
one that goes HALF_OPEN limits what it lets through. -/
theorem periods_of_run (b : PerIpCircuitBreaker) (ip : Str) (he : b.cfg.enabled = true)
    (hip : ip ≠ []) (before : List TimedCall) (c : TimedCall) (later : List TimedCall)
    (htime : (before ++ c :: later).Pairwise (fun c d => c.now ≤ d.now)) :
    ((after ip b before).getState ip ≠ .opened →
      (after ip b (before ++ [c])).getState ip = .opened →
        HoldsOpen ip (after ip b before) c later) ∧
    ((after ip b before).getState ip = .opened →
      (after ip b (before ++ [c])).getState ip = .halfOpen →
        LimitsProbes ip (after ip b before) c later) := by
  have hcall : after ip b (before ++ [c]) = (after ip b before).perform c.now ip c.call :=
    after_append _ _
  have he' : (after ip b before).cfg.enabled = true := by rw [after_cfg, he]
  rw [hcall]
  exact ⟨holdsOpen_of_enters he' hip (List.pairwise_append.mp htime).2.1,
    limitsProbes_of_enters he' hip later⟩

def strictBreaker : PerIpCircuitBreaker :=
  { cfg := { enabled := true, failureThreshold := 1, timeoutSeconds := 1 } }

/-- The failure at time 0 opens it, and the request a second later turns it HALF_OPEN. -/
theorem periods_of_run_strictBreaker :
    HoldsOpen "a".toList strictBreaker ⟨0, .recordFailure⟩ [⟨7, .allow⟩, ⟨1000000000, .allow⟩] ∧
      LimitsProbes "a".toList
        (after "a".toList strictBreaker [⟨0, .recordFailure⟩, ⟨7, .allow⟩])
        ⟨1000000000, .allow⟩ [] :=
  ⟨(periods_of_run strictBreaker "a".toList rfl (by simp) [] ⟨0, .recordFailure⟩ _
      (by simp)).1 (by decide) (by decide),
    (periods_of_run strictBreaker "a".toList rfl (by simp) [⟨0, .recordFailure⟩, ⟨7, .allow⟩]
      ⟨1000000000, .allow⟩ [] (by simp)).2 (by decide) (by decide)⟩

end McpSdk.CircuitBreakerPeriods

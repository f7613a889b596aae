import McpSdk.McpShard
import McpSdk.RateLimiterConformance

/-!
# Clients do not disturb each other

Two runs of the security calls of a shard: one with the calls of everybody, and one with the calls
of a client `a` alone, without those that were refused before they reached the circuit breaker.
What the shard keeps for `a` is alike in both: the same circuit, and as many tokens at every
later time. The bucket itself may have been refilled at other instants.
-/

namespace McpSdk.ClientIsolation
open CppStandardLibrary RateLimiterConformance TokenBuckets PerIpCircuitBreaker

/-- The two calls the transports make on the security components. -/
inductive SecurityCall
  | checkRequest (clientIp apiKey : Str)
  | recordOutcome (clientIp : Str) (isRpcError : Bool)

/-- A call, with the time at which it is made. -/
structure TimedCall where
  now : Int
  call : SecurityCall

def TimedCall.clientIp (c : TimedCall) : Str :=
  match c.call with
  | .checkRequest clientIp _ => clientIp
  | .recordOutcome clientIp _ => clientIp

/-- One call: its result, which only `check_request` has, and the shard after it. -/
def perform (cfg : McpServerConfig) (s : McpShard) (c : TimedCall) :
    Option SecurityCheckResult × McpShard :=
  match c.call with
  | .checkRequest clientIp apiKey =>
      let (result, s) := s.checkRequest cfg c.now clientIp apiKey
      (some result, s)
  | .recordOutcome clientIp isRpcError => (none, s.recordOutcome c.now clientIp isRpcError)

/-- The calls of a run with their results. -/
def results (cfg : McpServerConfig) : McpShard → List TimedCall →
    List (TimedCall × Option SecurityCheckResult)
  | _, [] => []
  | s, c :: calls => (c, (perform cfg s c).1) :: results cfg (perform cfg s c).2 calls

/-- The answers that stand before the circuit breaker. -/
def Refuses : Option SecurityCheckResult → Bool
  | some .forbidden | some .unauthorized | some .tooManyRequests => true
  | _ => false

/-- The call counts for `a`: it is a call of `a` and was not refused. -/
def Counts (a : Str) (r : TimedCall × Option SecurityCheckResult) : Bool :=
  r.1.clientIp == a && !Refuses r.2

section Limiters
variable {a ip : Str} {now t t' : Int} {l l' : PerIpRateLimiter}

theorem tokensAt_later (h : Tended t a l) (ht : t ≤ t') :
    tokensAt l a t' = fill (burst l.cfg) (rate l.cfg) ((t' - t : Int) : ℚ) (tokensAt l a t) := by
  have helapsed : (0 : ℚ) ≤ ((t' - t : Int) : ℚ) := Int.cast_nonneg (sub_nonneg.mpr ht)
  cases hb : l.buckets.lookup a with
  | none =>
    rw [tokensAt_of_new hb, tokensAt_of_new hb, fill_capacity (rate_nonneg _) helapsed]
  | some b =>
    have hkept := h b hb
    have hnow : bucketAt l a t = b := by rw [bucketAt, hb, Option.getD_some]
    have hlater : bucketAt l a t' = b := by rw [bucketAt, hb, Option.getD_some]
    rw [tokensAt, tokensAt, hnow, hlater, hkept.refill.1, (hkept.mono ht).refill.1,
      fill_fill (rate_nonneg _) helapsed, ← Int.cast_add]
    congr 2
    omega

/-- The two limiters have the same tokens for `a`, now and later. -/
structure LimitersAlike (a : Str) (now : Int) (l l' : PerIpRateLimiter) : Prop where
  cfg : l.cfg = l'.cfg
  left : Tended now a l
  right : Tended now a l'
  tokens : ∀ t, now ≤ t → tokensAt l a t = tokensAt l' a t

theorem LimitersAlike.later (h : LimitersAlike a now l l') (ht : now ≤ t) :
    LimitersAlike a t l l' :=
  ⟨h.cfg, h.left.mono ht, h.right.mono ht, fun t' ht' => h.tokens t' (ht.trans ht')⟩

theorem LimitersAlike.other (h : LimitersAlike a now l l') (hip : ip ≠ a) :
    LimitersAlike a now (l.tryAcquire t ip).2 l' := by
  have hcfg : (l.tryAcquire t ip).2.cfg = l.cfg := tryAcquire_cfg
  have hlookup : (l.tryAcquire t ip).2.buckets.lookup a = l.buckets.lookup a := by
    unfold PerIpRateLimiter.tryAcquire
    split
    · rfl
    · dsimp only
      split <;> exact AList.lookup_insert_ne (Ne.symm hip)
  refine ⟨hcfg.trans h.cfg, ?_, h.right, fun t' ht' => ?_⟩
  · intro b hb
    rw [hcfg]
    exact h.left b (hlookup.symm.trans hb)
  · rw [← h.tokens t' ht', tokensAt, bucketAt, hlookup, hcfg]
    rfl

theorem tryAcquire_inactive (h : (!l.cfg.enabled || ip.isEmpty) = true) :
    l.tryAcquire now ip = (true, l) := if_pos h

theorem LimitersAlike.refused (h : LimitersAlike a now l l')
    (hrefused : (l.tryAcquire now a).1 = false) :
    LimitersAlike a now (l.tryAcquire now a).2 l' := by
  cases hactive : !l.cfg.enabled || a.isEmpty with
  | true =>
    rw [tryAcquire_inactive hactive] at hrefused
    cases hrefused
  | false =>
    obtain ⟨he, hip⟩ : l.cfg.enabled = true ∧ a ≠ [] := by simpa using hactive
    refine ⟨tryAcquire_cfg.trans h.cfg, (tokensAt_tryAcquire he hip h.left le_rfl).1, h.right,
      fun t ht => ?_⟩
    rw [(tokensAt_tryAcquire he hip h.left ht).2, hrefused, if_neg Bool.false_ne_true, sub_zero,
      ← tokensAt_later h.left ht, h.tokens t ht]

theorem LimitersAlike.both (h : LimitersAlike a now l l') :
    (l.tryAcquire now a).1 = (l'.tryAcquire now a).1 ∧
      LimitersAlike a now (l.tryAcquire now a).2 (l'.tryAcquire now a).2 := by
  cases hactive : !l.cfg.enabled || a.isEmpty with
  | true =>
    have hactive' : (!l'.cfg.enabled || a.isEmpty) = true := by rw [← h.cfg, hactive]
    rw [tryAcquire_inactive hactive, tryAcquire_inactive hactive']
    exact ⟨rfl, h⟩
  | false =>
    obtain ⟨he, hip⟩ : l.cfg.enabled = true ∧ a ≠ [] := by simpa using hactive
    have he' : l'.cfg.enabled = true := h.cfg ▸ he
    have hanswer : (l.tryAcquire now a).1 = (l'.tryAcquire now a).1 := by
      rw [(tryAcquire_eq he hip now).1, (tryAcquire_eq he' hip now).1, h.tokens now le_rfl]
    refine ⟨hanswer, ?_, (tokensAt_tryAcquire he hip h.left le_rfl).1,
      (tokensAt_tryAcquire he' hip h.right le_rfl).1, fun t ht => ?_⟩
    · exact tryAcquire_cfg.trans (h.cfg.trans tryAcquire_cfg.symm)
    · rw [(tokensAt_tryAcquire he hip h.left ht).2, (tokensAt_tryAcquire he' hip h.right ht).2,
        hanswer, h.cfg, h.tokens now le_rfl]

end Limiters

section Breakers
variable {a ip : Str} {b b' : PerIpCircuitBreaker}

/-- The two breakers have the same circuit for `a`. -/
structure BreakersAlike (a : Str) (b b' : PerIpCircuitBreaker) : Prop where
  cfg : b.cfg = b'.cfg
  circuit : b.stateOf a = b'.stateOf a

theorem BreakersAlike.other (h : BreakersAlike a b b') (hip : ip ≠ a) (now : Int) (c : Call) :
    BreakersAlike a (b.perform now ip c) b' :=
  ⟨(perform_cfg b now ip c).trans h.cfg,
    (stateOf_perform_ne b now c (Ne.symm hip)).trans h.circuit⟩

theorem BreakersAlike.both (h : BreakersAlike a b b') (now : Int) (c : Call) :
    (b.allow now a).1 = (b'.allow now a).1 ∧
      BreakersAlike a (b.perform now a c) (b'.perform now a c) := by
  by_cases hinactive : b.cfg.enabled = false ∨ a = []
  · have hinactive' : b'.cfg.enabled = false ∨ a = [] := by rwa [← h.cfg]
    rw [perform_of_inactive hinactive, perform_of_inactive hinactive']
    refine ⟨?_, h⟩
    rcases hinactive with hoff | rfl
    · have hoff' : b'.cfg.enabled = false := h.cfg ▸ hoff
      simp [allow, hoff, hoff']
    · simp [allow]
  · obtain ⟨he, hip⟩ : b.cfg.enabled = true ∧ a ≠ [] := by simpa using hinactive
    have he' : b'.cfg.enabled = true := h.cfg ▸ he
    constructor
    · rw [allow_fst he hip, allow_fst he' hip, h.cfg, h.circuit]
    · refine ⟨by rw [perform_cfg, perform_cfg, h.cfg], ?_⟩
      cases c with
      | allow =>
        exact (stateOf_allow he hip now).trans
          (by rw [h.cfg, h.circuit, ← stateOf_allow he' hip now]; rfl)
      | recordSuccess =>
        exact (stateOf_recordSuccess he hip).trans
          (by rw [h.cfg, h.circuit, ← stateOf_recordSuccess he' hip]; rfl)
      | recordFailure =>
        exact (stateOf_recordFailure he hip now).trans
          (by rw [h.cfg, h.circuit, ← stateOf_recordFailure he' hip now]; rfl)

end Breakers

section Shards
variable {cfg : McpServerConfig} {a : Str} {now : Int} {s s' : McpShard} {c : TimedCall}

/-- The two shards treat `a` alike from now on. -/
structure ShardsAlike (a : Str) (now : Int) (s s' : McpShard) : Prop where
  limiters : LimitersAlike a now s.rateLimiter s'.rateLimiter
  breakers : BreakersAlike a s.circuitBreaker s'.circuitBreaker

theorem ShardsAlike.later {t : Int} (h : ShardsAlike a now s s') (ht : now ≤ t) :
    ShardsAlike a t s s' := ⟨h.limiters.later ht, h.breakers⟩

theorem shardsAlike_start (cfg : McpServerConfig) (a : Str) (now : Int) :
    ShardsAlike a now cfg.shard cfg.shard :=
  ⟨⟨rfl, tended_of_new rfl, tended_of_new rfl, fun _ _ => rfl⟩, rfl, rfl⟩

section CheckRequest
variable {ip key : Str} (s)

theorem checkRequest_of_refusal {result : SecurityCheckResult}
    (h : McpShard.refusal cfg ip key = some result) :
    s.checkRequest cfg now ip key = (result, s) := by
  rw [McpShard.checkRequest, h]

theorem checkRequest_of_limited (h : McpShard.refusal cfg ip key = none)
    (hacquired : (s.rateLimiter.tryAcquire now ip).1 = false) :
    s.checkRequest cfg now ip key =
      (.tooManyRequests, { s with rateLimiter := (s.rateLimiter.tryAcquire now ip).2 }) := by
  rw [McpShard.checkRequest, h]
  simp [hacquired]

theorem checkRequest_of_acquired (h : McpShard.refusal cfg ip key = none)
    (hacquired : (s.rateLimiter.tryAcquire now ip).1 = true) :
    s.checkRequest cfg now ip key =
      (if (s.circuitBreaker.allow now ip).1 then .ok else .serviceUnavailable,
        { s with
          rateLimiter := (s.rateLimiter.tryAcquire now ip).2
          circuitBreaker := s.circuitBreaker.perform now ip .allow }) := by
  rw [McpShard.checkRequest, h]
  cases hallowed : (s.circuitBreaker.allow now ip).1 <;>
    simp [hacquired, hallowed, PerIpCircuitBreaker.perform]

end CheckRequest

theorem recordOutcome_eq (now : Int) (ip : Str) (isRpcError : Bool) (s : McpShard) :
    s.recordOutcome now ip isRpcError = { s with
      circuitBreaker := s.circuitBreaker.perform now ip
        (if isRpcError then .recordFailure else .recordSuccess) } := by
  cases isRpcError <;> rfl

theorem ShardsAlike.both (h : ShardsAlike a c.now s s') (ha : c.clientIp = a) :
    (perform cfg s c).1 = (perform cfg s' c).1 ∧
      ShardsAlike a c.now (perform cfg s c).2 (perform cfg s' c).2 := by
  obtain ⟨now, call⟩ := c
  cases call with
  | checkRequest ip key =>
    obtain rfl : ip = a := ha
    obtain ⟨hacquired, hlimiters⟩ := h.limiters.both
    obtain ⟨hallowed, hbreakers⟩ := h.breakers.both now .allow
    dsimp only [perform]
    cases hrefusal : McpShard.refusal cfg ip key with
    | some result =>
      rw [checkRequest_of_refusal s hrefusal, checkRequest_of_refusal s' hrefusal]
      exact ⟨rfl, h⟩
    | none =>
      cases ht : (s.rateLimiter.tryAcquire now ip).1 with
      | false =>
        rw [checkRequest_of_limited s hrefusal ht,
          checkRequest_of_limited s' hrefusal (hacquired ▸ ht)]
        exact ⟨rfl, hlimiters, h.breakers⟩
      | true =>
        rw [checkRequest_of_acquired s hrefusal ht,
          checkRequest_of_acquired s' hrefusal (hacquired ▸ ht), hallowed]
        exact ⟨rfl, hlimiters, hbreakers⟩
  | recordOutcome ip isRpcError =>
    obtain rfl : ip = a := ha
    dsimp only [perform]
    rw [recordOutcome_eq, recordOutcome_eq]
    exact ⟨rfl, h.limiters, (h.breakers.both now _).2⟩

/-- A call that does not count for `a` leaves the shards alike though only one of them sees it. -/
theorem ShardsAlike.left (h : ShardsAlike a c.now s s')
    (hdropped : Counts a (c, (perform cfg s c).1) = false) :
    ShardsAlike a c.now (perform cfg s c).2 s' := by
  obtain ⟨now, call⟩ := c
  cases call with
  | checkRequest ip key =>
    dsimp only [perform] at hdropped ⊢
    cases hrefusal : McpShard.refusal cfg ip key with
    | some result =>
      rw [checkRequest_of_refusal s hrefusal]
      exact h
    | none =>
      by_cases hip : ip = a
      · subst hip
        cases ht : (s.rateLimiter.tryAcquire now ip).1 with
        | false =>
          rw [checkRequest_of_limited s hrefusal ht]
          exact ⟨h.limiters.refused ht, h.breakers⟩
        | true =>
          -- an answer of the circuit breaker is no refusal
          rw [checkRequest_of_acquired s hrefusal ht] at hdropped
          dsimp only [Counts, TimedCall.clientIp] at hdropped
          split at hdropped <;> simp [Refuses] at hdropped
      · have hlimiters : LimitersAlike a now (s.rateLimiter.tryAcquire now ip).2 s'.rateLimiter :=
          h.limiters.other hip
        cases ht : (s.rateLimiter.tryAcquire now ip).1 with
        | false =>
          rw [checkRequest_of_limited s hrefusal ht]
          exact ⟨hlimiters, h.breakers⟩
        | true =>
          rw [checkRequest_of_acquired s hrefusal ht]
          exact ⟨hlimiters, h.breakers.other hip now .allow⟩
  | recordOutcome ip isRpcError =>
    dsimp only [perform] at hdropped ⊢
    have hip : ip ≠ a := by
      rintro rfl
      simp [Counts, TimedCall.clientIp, Refuses] at hdropped
    rw [recordOutcome_eq]
    exact ⟨h.limiters, h.breakers.other hip now _⟩

/-- On a shard that treats `a` alike, the calls that count for `a` have the same results without
the others. -/
theorem results_alone {calls : List TimedCall} (h : ShardsAlike a now s s')
    (hnow : ∀ c ∈ calls, now ≤ c.now) (htime : calls.Pairwise (fun c d => c.now ≤ d.now)) :
    results cfg s' (((results cfg s calls).filter (Counts a)).map Prod.fst) =
      (results cfg s calls).filter (Counts a) := by
  induction calls generalizing s s' now with
  | nil => rfl
  | cons c calls ih =>
    obtain ⟨hlater, htime⟩ := List.pairwise_cons.mp htime
    have halike := h.later (hnow c (List.mem_cons_self ..))
    cases hcounts : Counts a (c, (perform cfg s c).1) with
    | true =>
      have ha : c.clientIp = a := by
        simp only [Counts, Bool.and_eq_true, beq_iff_eq] at hcounts
        exact hcounts.1
      obtain ⟨hresult, hboth⟩ : (perform cfg s c).1 = (perform cfg s' c).1 ∧
          ShardsAlike a c.now (perform cfg s c).2 (perform cfg s' c).2 := halike.both ha
      rw [results, List.filter_cons_of_pos hcounts, List.map_cons, results, ← hresult,
        ih hboth hlater htime]
    | false =>
      have hnot : ¬Counts a (c, (perform cfg s c).1) = true := Bool.eq_false_iff.mp hcounts
      rw [results, List.filter_cons_of_neg hnot]
      exact ih (halike.left hcounts) hlater htime

end Shards

/-- Of a run on a shard, the calls of `a` that were not refused have the same results in the run
of these calls alone. -/
theorem results_of_client (cfg : McpServerConfig) (a : Str) (calls : List TimedCall)
    (htime : calls.Pairwise (fun c d => c.now ≤ d.now)) :
    results cfg cfg.shard
        (((results cfg cfg.shard calls).filter (Counts a)).map Prod.fst) =
      (results cfg cfg.shard calls).filter (Counts a) := by
  cases calls with
  | nil => rfl
  | cons c calls =>
    apply results_alone (shardsAlike_start cfg a c.now) ?_ htime
    intro d hd
    rcases List.mem_cons.mp hd with rfl | hd
    · exact le_rfl
    · exact (List.pairwise_cons.mp htime).1 d hd

def slowPolicy : McpServerConfig where
  security := { rateLimit := { enabled := true, requestsPerSecond := 1, burstSize := 1 } }

def twoClients : List TimedCall :=
  [⟨0, .checkRequest "a".toList []⟩, ⟨0, .checkRequest "b".toList []⟩,
    ⟨5, .checkRequest "a".toList []⟩, ⟨6, .recordOutcome "a".toList true⟩]

/-- Two of the four calls count for the first client. -/
theorem results_of_client_twoClients :
    (results slowPolicy slowPolicy.shard twoClients).map Prod.snd =
        [some .ok, some .ok, some .tooManyRequests, none] ∧
      results slowPolicy slowPolicy.shard
          (((results slowPolicy slowPolicy.shard twoClients).filter
            (Counts "a".toList)).map Prod.fst) =
        (results slowPolicy slowPolicy.shard twoClients).filter (Counts "a".toList) :=
  ⟨by decide +kernel, results_of_client slowPolicy "a".toList twoClients (by simp [twoClients])⟩

end McpSdk.ClientIsolation

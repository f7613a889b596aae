import McpSdk.ClientIsolation
import McpSdk.SecurityGate
import McpSdk.ShardFrames
import McpSdk.TaskTurns
import Mathlib.Algebra.Order.BigOperators.Group.Finset

/-!
# How many requests of a client get in

The limiter of a shard pays for each check it lets pass. What a request does after its check it
does in the same turn, so the requests of an IP that get in during a window are bounded on each
shard by the burst and what flows in, up to the one whose check lies before the window. The
limiters of the shards know nothing of each other: on a server with `count` shards a client may
get in `count` times as often.
-/

namespace McpSdk.AdmissionRates
open CppStandardLibrary CooperativeTasks ClusterRuns PerIpRateLimiter RateLimiterConformance
open TokenBuckets ClientIsolation

section Limiters
variable {cfg : RateLimitConfig} {ip : Str} {t now now' : Int} {n m : ℕ}
  {l l' : PerIpRateLimiter}

/-- At time `now` the limiter accounts for `n` admissions of the IP since `t`: they and the tokens
that are left are covered by the burst and what has flowed in. -/
structure Account (cfg : RateLimitConfig) (ip : Str) (t now : Int) (n : ℕ)
    (l : PerIpRateLimiter) : Prop where
  configured : l.cfg = cfg
  tended : Tended now ip l
  nonneg : 0 ≤ tokensAt l ip now
  early : now < t → n = 0
  covered : t ≤ now → n + tokensAt l ip now ≤ burst cfg + rate cfg * ((now - t : Int) : ℚ)

theorem burst_nonneg (cfg : RateLimitConfig) : 0 ≤ burst cfg := Nat.cast_nonneg _

theorem flow_nonneg (cfg : RateLimitConfig) (ht : t ≤ now) :
    0 ≤ rate cfg * ((now - t : Int) : ℚ) :=
  mul_nonneg (rate_nonneg cfg) (Int.cast_nonneg (by omega))

theorem account_of_new (hcfg : l.cfg = cfg) (h : l.buckets.lookup ip = none) :
    Account cfg ip t now 0 l := by
  have hfull : tokensAt l ip now = burst cfg := by rw [tokensAt_of_new h, hcfg]
  refine ⟨hcfg, tended_of_new h, ?_, fun _ => rfl, fun ht => ?_⟩
  · rw [hfull]
    exact burst_nonneg cfg
  · have hflow := flow_nonneg cfg ht
    rw [hfull]
    simpa using hflow

theorem Account.le (h : Account cfg ip t now n l) (hm : m ≤ n) : Account cfg ip t now m l := by
  refine ⟨h.configured, h.tended, h.nonneg, fun hnow => ?_, fun ht => ?_⟩
  · have hn := h.early hnow
    omega
  · have hn := h.covered ht
    have hm' : (m : ℚ) ≤ n := by exact_mod_cast hm
    linarith

theorem Account.later (h : Account cfg ip t now n l) (hnow : now ≤ now') :
    Account cfg ip t now' n l := by
  have htokens := tokensAt_later h.tended hnow
  rw [h.configured] at htokens
  have hflow := flow_nonneg cfg hnow
  have hbrim : fill (burst cfg) (rate cfg) ((now' - now : Int) : ℚ) (tokensAt l ip now) ≤
      burst cfg := fill_le_capacity _ _
  have hrise : fill (burst cfg) (rate cfg) ((now' - now : Int) : ℚ) (tokensAt l ip now) ≤
      tokensAt l ip now + rate cfg * ((now' - now : Int) : ℚ) := min_le_right _ _
  refine ⟨h.configured, h.tended.mono hnow, ?_, fun hlt => h.early (by omega), fun ht => ?_⟩
  · rw [htokens, le_fill_iff]
    exact ⟨burst_nonneg cfg, add_nonneg h.nonneg hflow⟩
  · rw [htokens]
    by_cases hearly : now < t
    · have hflow' := flow_nonneg cfg ht
      rw [h.early hearly, Nat.cast_zero, zero_add]
      linarith
    · have hcovered := h.covered (by omega)
      have hsum : rate cfg * ((now' - t : Int) : ℚ) =
          rate cfg * ((now - t : Int) : ℚ) + rate cfg * ((now' - now : Int) : ℚ) := by
        push_cast
        ring
      rw [hsum]
      linarith

theorem Account.alike (h : Account cfg ip t now n l) (halike : LimitersAlike ip now l' l) :
    Account cfg ip t now n l' := by
  have htokens := halike.tokens now le_rfl
  refine ⟨halike.cfg.trans h.configured, halike.left, ?_, h.early, fun ht => ?_⟩
  · rw [htokens]
    exact h.nonneg
  · rw [htokens]
    exact h.covered ht

theorem Account.alike_self (h : Account cfg ip t now n l) : LimitersAlike ip now l l :=
  ⟨rfl, h.tended, h.tended, fun _ _ => rfl⟩

theorem Account.acquired (h : Account cfg ip t now n l) (hon : cfg.enabled = true)
    (hip : ip ≠ []) (hacquired : (l.tryAcquire now ip).1 = true) :
    Account cfg ip t now (n + if t ≤ now then 1 else 0) (l.tryAcquire now ip).2 := by
  have hon' : l.cfg.enabled = true := by rw [h.configured, hon]
  have hone : 1 ≤ tokensAt l ip now := by
    rw [(tryAcquire_eq hon' hip now).1] at hacquired
    exact of_decide_eq_true hacquired
  have hbrim : tokensAt l ip now - 1 ≤ burst l.cfg := by
    have hkept := h.tended.bucketAt.refill.2.1.tokens
    change tokensAt l ip now ≤ burst l.cfg at hkept
    linarith
  obtain ⟨htended, htokens⟩ := tokensAt_tryAcquire hon' hip h.tended le_rfl
  rw [hacquired, if_pos rfl, sub_self, Int.cast_zero, fill_zero hbrim] at htokens
  refine ⟨tryAcquire_cfg.trans h.configured, htended, ?_, fun hlt => ?_, fun ht => ?_⟩
  · rw [htokens]
    linarith
  · rw [h.early hlt, if_neg (by omega)]
  · have hcovered := h.covered ht
    rw [htokens, if_pos ht, Nat.cast_add, Nat.cast_one]
    linarith

end Limiters

section Checks
variable {cfg : McpServerConfig} {ip : Str} {t now : Int} {n : ℕ} {s : McpShard}

def grants (ip : Str) : (op : ShardI.Op) → ShardI.Res op → Bool
  | .inr (.checkRequest clientIp _), .ok => clientIp == ip
  | _, _ => false

/-- A check that lets the IP pass is paid for. -/
theorem account_checkRequest (h : Account cfg.security.rateLimit ip t now n s.rateLimiter)
    (hon : cfg.security.rateLimit.enabled = true) (hip : ip ≠ []) (clientIp apiKey : Str) :
    Account cfg.security.rateLimit ip t now
      (n + if clientIp = ip ∧ (s.checkRequest cfg now clientIp apiKey).1 = .ok ∧ t ≤ now
        then 1 else 0)
      (s.checkRequest cfg now clientIp apiKey).2.rateLimiter := by
  cases hrefusal : McpShard.refusal cfg clientIp apiKey with
  | some result =>
    have hresult : result ≠ .ok := by
      rintro rfl
      exact SecurityGate.refusal_ne_ok hrefusal
    rw [checkRequest_of_refusal s hrefusal]
    simpa [hresult] using h
  | none =>
    by_cases hclient : clientIp = ip
    · subst hclient
      cases hacquired : (s.rateLimiter.tryAcquire now clientIp).1 with
      | false =>
        rw [checkRequest_of_limited s hrefusal hacquired]
        have hleft := h.alike (h.alike_self.refused hacquired)
        simpa using hleft
      | true =>
        rw [checkRequest_of_acquired s hrefusal hacquired]
        apply (h.acquired hon hip hacquired).le
        split <;> split <;> simp_all
    · have hother : Account cfg.security.rateLimit ip t now n
          (s.rateLimiter.tryAcquire now clientIp).2 := h.alike (h.alike_self.other hclient)
      cases hacquired : (s.rateLimiter.tryAcquire now clientIp).1 with
      | false =>
        rw [checkRequest_of_limited s hrefusal hacquired]
        simpa [hclient] using hother
      | true =>
        rw [checkRequest_of_acquired s hrefusal hacquired]
        simpa [hclient] using hother

theorem account_shardExec (h : Account cfg.security.rateLimit ip t now n s.rateLimiter)
    (hon : cfg.security.rateLimit.enabled = true) (hip : ip ≠ []) (L : JsonLibrary) (j : ℕ)
    (op : ShardI.Op) : Account cfg.security.rateLimit ip t now
      (n + if grants ip op (shardExec L cfg j now op s).1 = true ∧ t ≤ now then 1 else 0)
      (shardExec L cfg j now op s).2.rateLimiter := by
  by_cases hcheck : ∃ clientIp apiKey, op = .inr (.checkRequest clientIp apiKey)
  · obtain ⟨clientIp, apiKey, rfl⟩ := hcheck
    apply (account_checkRequest h hon hip clientIp apiKey).le
    change n + (if grants ip (.inr (.checkRequest clientIp apiKey))
      (s.checkRequest cfg now clientIp apiKey).1 = true ∧ t ≤ now then 1 else 0) ≤ _
    cases (s.checkRequest cfg now clientIp apiKey).1 <;> simp [grants]
  · have hnone : ∀ clientIp apiKey, op ≠ .inr (.checkRequest clientIp apiKey) :=
      fun clientIp apiKey heq => hcheck ⟨clientIp, apiKey, heq⟩
    have hgrants : ∀ r, grants ip op r = false := by
      intro r
      rcases op with op | op
      · rfl
      · cases op <;> first | rfl | exact absurd rfl (hnone _ _)
    rw [(settings_shardExec L cfg j now op s).2 hnone, hgrants]
    simpa using h

/-- The check on shard `j` lets the IP pass. -/
def admits {O : Type} (j : ℕ) (ip : Str) (e : Event ShardI O McpShard) : Bool :=
  e.shard == j && grants ip e.op e.res

variable {srv : McpServer} {shards : ℕ → McpShard}
  {log : List (Event ShardI (Origin srv.Job) McpShard)}

theorem account_of_coherent (h : Coherent srv.system shards log)
    (hsorted : log.Pairwise (fun e d => d.now ≤ e.now))
    (hon : srv.cfg.security.rateLimit.enabled = true) (hip : ip ≠ []) (j : ℕ)
    (hnow : ∀ e ∈ log, e.now ≤ now) : Account srv.cfg.security.rateLimit ip t now
      (log.countP (fun e => admits j ip e && decide (t ≤ e.now))) (shards j).rateLimiter := by
  induction h generalizing now with
  | nil => exact account_of_new rfl rfl
  | @cons shards log e _ hbefore hexec ih =>
    obtain ⟨hfirst, hsorted⟩ := List.pairwise_cons.mp hsorted
    have hold := ih hsorted hfirst
    rw [List.countP_cons]
    by_cases hj : e.shard = j
    · subst hj
      rw [← hbefore] at hold
      have hnew := account_shardExec hold hon hip srv.L e.shard e.op
      have hexec' : shardExec srv.L srv.cfg e.shard e.now e.op e.before = (e.res, e.after) := hexec
      rw [hexec'] at hnew
      rw [Function.update_self]
      refine (hnew.later (hnow e (.head _))).le ?_
      simp [admits]
    · have hnot : admits j ip e = false := by simp [admits, hj]
      rw [Function.update_of_ne (Ne.symm hj), hnot]
      exact hold.later (hnow e (.head _))

/-- What the rate limit allows from `t` to `t'`. -/
def allowance (cfg : RateLimitConfig) (t t' : Int) : ℚ :=
  cfg.burstSize.toNat + cfg.requestsPerSecond.toNat * ((t' - t : Int) / 10 ^ 9)

theorem allowance_eq (cfg : RateLimitConfig) (t t' : Int) :
    allowance cfg t t' = burst cfg + rate cfg * ((t' - t : Int) : ℚ) := by
  rw [allowance, burst, rate]
  ring

/-- A shard admits no more in a window than the allowance. -/
theorem admitted_le {t' : Int} (h : Coherent srv.system shards log)
    (hsorted : log.Pairwise (fun e d => d.now ≤ e.now))
    (hon : srv.cfg.security.rateLimit.enabled = true) (hip : ip ≠ []) (ht : t ≤ t') (j : ℕ) :
    (countIn Event.now t t' (admits j ip) log : ℚ) ≤
      allowance srv.cfg.security.rateLimit t t' := by
  induction h with
  | nil =>
    have hflow := flow_nonneg srv.cfg.security.rateLimit ht
    have hburst := burst_nonneg srv.cfg.security.rateLimit
    rw [allowance_eq]
    simp only [countIn, List.countP_nil, Nat.cast_zero]
    linarith
  | @cons shards log e h hbefore hexec ih =>
    by_cases hlate : t' < e.now
    · rw [countIn_cons, if_neg (by omega)]
      exact ih (List.pairwise_cons.mp hsorted).2
    · have hpast : ∀ e' ∈ e :: log, e'.now ≤ t' := by
        intro e' he'
        rcases List.mem_cons.mp he' with rfl | he'
        · omega
        · have hle := (List.pairwise_cons.mp hsorted).1 e' he'
          omega
      have haccount := account_of_coherent (t := t) (.cons e h hbefore hexec) hsorted hon hip j hpast
      have hcount : countIn Event.now t t' (admits j ip) (e :: log) =
          (e :: log).countP (fun e => admits j ip e && decide (t ≤ e.now)) := by
        apply List.countP_congr
        intro e' he'
        simp [hpast e' he']
      have hcovered := haccount.covered ht
      have hleft := haccount.nonneg
      rw [allowance_eq, hcount]
      linarith

end Checks

section Requests
variable {Job : Type} {o : Origin Job}

/-- The first thing a request does in the server after its check: a POST dispatches its body,
GET /sse opens a session, GET /mcp takes one up again. -/
def enters : Work Job → ShardI.Op → Bool
  | .postMessage _, .inr (.dispatch _ _) | .postMcp _, .inr (.dispatch _ _)
  | .getSse _, .inr (.createSession _) | .getMcp _, .inr (.getSession _) => true
  | _, _ => false

def ChecksOwn (work : Work Job) : ShardI.Op → Prop
  | .inr (.checkRequest clientIp _) =>
      ∃ req, SecurityGate.checked work = some req ∧ clientIp = getClientIp req
  | _ => True

/-- Whether a request has just been let pass. It may then count its stream and create a session
before it gets in, but may not rest. -/
def passed : Bool → (op : ShardI.Op) → ShardI.Res op → Bool
  | _, .inr (.checkRequest _ _), .ok => true
  | q, .inr .nextCounter, _ | q, .inr (.createSessionWithId _ _), _ => q
  | _, _, _ => false

def entry (o : Origin Job) : Contract ShardI Bool where
  init := false
  allows q op := ChecksOwn o.work op ∧ (enters o.work op = true → q = true)
  answers _ _ := True
  next := passed
  child _ := false
  rests q := q = false
  addresses _ := True

variable (Job) in
theorem passed_cases {q : Bool} {op : ShardI.Op} {r : ShardI.Res op} (h : passed q op r = true) :
    (∃ clientIp apiKey, op = .inr (.checkRequest clientIp apiKey) ∧
        HEq r SecurityCheckResult.ok) ∨
      q = true ∧ ∀ work : Work Job, enters work op = false := by
  rcases op with op | op
  · cases h
  · cases op with
    | checkRequest clientIp apiKey =>
      refine .inl ⟨clientIp, apiKey, rfl, ?_⟩
      cases hr : (r : SecurityCheckResult) with
      | ok => exact HEq.rfl
      | _ =>
        subst hr
        cases h
    | nextCounter => exact .inr ⟨h, fun work => by cases work <;> rfl⟩
    | createSessionWithId id clientIp => exact .inr ⟨h, fun work => by cases work <;> rfl⟩
    | _ => cases h

def Later (work : Work Job) (op : ShardI.Op) : Prop :=
  (∀ clientIp apiKey, op ≠ .inr (.checkRequest clientIp apiKey)) ∧ enters work op = false

theorem idle_entry : (entry o).Idle (Later o.work) (· = false) where
  allows q op _ hop := by
    refine ⟨?_, fun henters => ?_⟩
    · rcases op with op | op
      · trivial
      · cases op <;> first | trivial | exact absurd rfl (hop.1 _ _)
    · rw [hop.2] at henters
      cases henters
  next q op r hq hop := by
    subst hq
    rcases op with op | op
    · rfl
    · cases op <;> first | rfl | exact absurd rfl (hop.1 _ _)
  rests _ hq := hq
  child _ _ := rfl

variable {α : Type} {q : Bool}

theorem follows_later {t : ShardTask α} (h : t.Calls (Later o.work) (fun _ => True)) :
    t.Follows (entry o) false (fun _ q => q = false) (fun _ q => q = false) :=
  (Coroutine.Follows.of_calling idle_entry (fun _ _ => trivial) rfl h).mono
    (fun _ _ hq => hq.2) (fun _ _ hq => hq.2)

theorem follows_anyhow {t : ShardTask α} (h : t.Calls (Later o.work) (fun _ => True)) :
    t.Follows (entry o) false (fun _ _ => True) (fun _ _ => True) :=
  (follows_later h).mono (fun _ _ _ => trivial) (fun _ _ _ => trivial)

theorem later_inl (work : Work Job) (op : HandlerCall) : Later work (.inl op) :=
  ⟨fun _ _ => Sum.inl_ne_inr, by cases work <;> rfl⟩

theorem follows_check {req : Request} (hreq : SecurityGate.checked o.work = some req)
    {apiKey : Str} {handle : ShardTask Reply}
    (h : handle.Follows (entry o) true (fun _ _ => True) (fun _ _ => True)) :
    (do
      let check ← transport (.checkRequest (getClientIp req) apiKey)
      if check ≠ .ok then return securityReject check
      else handle : ShardTask Reply).Follows (entry o) q (fun _ _ => True) (fun _ _ => True) := by
  rw [Coroutine.follows_bind, follows_transport]
  refine ⟨⟨⟨req, hreq, rfl⟩, fun henters => ?_⟩, fun r _ => ?_⟩
  · cases hwork : o.work <;> rw [hwork] at henters <;> cases henters
  · by_cases hr : r = SecurityCheckResult.ok
    · subst hr
      exact h
    · rw [if_pos hr]
      trivial

theorem follows_serve {handler : ShardTask Reply}
    (h : handler.Follows (entry o) false (fun _ _ => True) (fun _ _ => True)) :
    (serve handler).Follows (entry o) false (fun _ q => q = false) (fun _ q => q = false) := by
  have sends : ∀ (reply : Reply) (q : Bool), Sends (entry o) (fun _ q => q = false) reply q := by
    intro reply q
    refine ⟨⟨trivial, fun henters => ?_⟩, rfl, rfl, rfl⟩
    cases hwork : o.work <;> rw [hwork] at henters <;> cases henters
  exact McpSdk.follows_serve (h.mono (fun reply q _ => sends reply q)
    (fun _ q _ reply _ _ => sends reply q))

theorem calls_pushResponse (j target : ℕ) (sessionId msg : Str) :
    (pushResponse j target sessionId msg).Calls (Later o.work) (fun _ => True) := by
  unfold pushResponse
  split
  · exact calls_onShard (later_inl _ _)
  · exact Coroutine.Calls.send trivial (calls_onShard (later_inl _ _))

theorem calls_delivered (response : Option Str) {push : Str → ShardTask Unit} {reply : Reply}
    (h : ∀ text, (push text).Calls (Later o.work) (fun _ => True)) :
    (do
      match response with
      | some text => push text
      | none => pure ()
      return reply : ShardTask Reply).Calls (Later o.work) (fun _ => True) := by
  cases response with
  | none => exact .pure _
  | some text => exact (h text).bind (fun _ => .pure _)

def Settling : TransportCall → Prop
  | .dispatch _ _ | .checkRequest _ _ => False
  | _ => True

section Posts
variable {L : JsonLibrary} {d : JsonRpcDispatcher HandlerI} {req : Request}
  (hwork : o.work = .postMessage req ∨ o.work = .postMcp req)
include hwork

theorem later_of_post {op : TransportCall} (hop : Settling op) : Later o.work (.inr op) := by
  constructor
  · rintro clientIp apiKey h
    obtain rfl := Sum.inr.inj h
    exact hop
  · rcases hwork with hwork | hwork <;> rw [hwork] <;> cases op <;> first | rfl | exact hop.elim

/-- A request gets in when it dispatches, and nothing after that concerns the rule. -/
theorem follows_settled (body sessionId clientIp : Str) {k : Option Str → ShardTask Reply}
    (hk : ∀ response, (k response).Calls (Later o.work) (fun _ => True)) :
    (do
      let response ← (dispatch L d body sessionId).coAwait
      transport (.recordOutcome clientIp (isError response))
      k response : ShardTask Reply).Follows (entry o) true (fun _ _ => True)
      (fun _ _ => True) := by
  have hrest : (do
      let handled ← takeClientResponse L body
      if handled then return none
      else
        transport (.setContext sessionId (progressToken L body))
        (d.handleRequest L body).inl.coAwait : ShardTask (Option Str)).Calls (Later o.work)
          (fun _ => True) := by
    apply (calls_takeClientResponse fun j _ => later_of_post hwork (by trivial)).bind
    intro handled
    split
    · exact .pure _
    · have hhandle : (d.handleRequest L body).inl.Calls (Later o.work) (fun _ => True) :=
        Coroutine.Calls.inl ((Coroutine.Addresses.of_all (fun _ => trivial) _).mono
          (fun op _ => later_inl o.work op))
      exact (calls_transport (later_of_post hwork (by trivial))).bind (fun _ => hhandle.coAwait)
  have hdispatch : (dispatch L d body sessionId).Follows (entry o) true (fun _ q => q = false)
      (fun _ q => q = false) :=
    (Coroutine.follows_bind _ _).mpr ⟨⟨trivial, fun _ => rfl⟩, fun _ _ => follows_later hrest⟩
  rw [Coroutine.follows_bind, Coroutine.follows_coAwait]
  apply hdispatch.mono
  · rintro response _ rfl
    exact ⟨rfl, fun _ => follows_anyhow
      ((calls_transport (later_of_post hwork (by trivial))).bind (fun _ => hk response))⟩
  · rintro e _ rfl
    exact ⟨rfl, fun _ => trivial⟩

theorem follows_post {n : ℕ} {apiKey : Str} {handle : ShardTask Reply}
    (h : handle.Follows (entry o) true (fun _ _ => True) (fun _ _ => True)) :
    (do
      if !(← transport (.checkBodySize n)) then return securityReject .payloadTooLarge
      else
        let check ← transport (.checkRequest (getClientIp req) apiKey)
        if check ≠ .ok then return securityReject check
        else handle : ShardTask Reply).Follows (entry o) false (fun _ _ => True)
      (fun _ _ => True) := by
  have hreq : SecurityGate.checked o.work = some req := by
    rcases hwork with hwork | hwork <;> rw [hwork] <;> rfl
  refine idle_entry.perform_bind rfl (later_of_post hwork (by trivial)) (fun small => ?_)
  split
  · trivial
  · exact follows_check hreq h

end Posts

theorem follows_handleMessage (srv : McpServer) (j : ℕ) (req : Request) :
    (HttpSseTransport.handleMessage srv.L (srv.dispatcher j) j req).Follows
      (entry (⟨j, .postMessage req⟩ : Origin srv.Job)) false (fun _ _ => True)
      (fun _ _ => True) := by
  apply follows_post (.inl rfl)
  dsimp only
  refine follows_settled (.inl rfl) _ _ _ (fun response => ?_)
  split
  · cases response <;> exact .pure _
  · exact calls_delivered response (fun text => calls_pushResponse _ _ _ text)

theorem follows_handlePost (srv : McpServer) (j : ℕ) (req : Request) :
    (StreamableHttpTransport.handlePost srv.L (srv.dispatcher j) j req).Follows
      (entry (⟨j, .postMcp req⟩ : Origin srv.Job)) false (fun _ _ => True)
      (fun _ _ => True) := by
  apply follows_post (.inr rfl)
  dsimp only
  split
  · exact follows_settled (.inr rfl) _ _ _
      (fun response => calls_delivered response (fun text => calls_pushResponse _ _ _ text))
  · split
    · unfold StreamableHttpTransport.postNewSession
      rw [Coroutine.follows_bind, follows_transport]
      refine ⟨⟨trivial, fun h => by cases h⟩, fun counter _ => ?_⟩
      rw [Coroutine.follows_bind, follows_transport]
      refine ⟨⟨trivial, fun h => by cases h⟩, fun session _ => ?_⟩
      split
      · trivial
      · exact follows_settled (.inr rfl) _ _ _ (fun response => calls_delivered response
          (fun text => calls_transport (later_of_post (.inr rfl) (by trivial))))
    · refine follows_settled (.inr rfl) _ _ _ (fun response => ?_)
      cases response <;> exact .pure _

theorem follows_program (srv : McpServer) (o : Origin srv.Job) :
    (srv.program o.shard o.work).Follows (entry o) false (fun _ q => q = false)
      (fun _ q => q = false) := by
  obtain ⟨j, work⟩ := o
  cases work with
  | getSse req =>
    apply follows_serve
    apply follows_check rfl
    rw [Coroutine.follows_bind, follows_transport]
    refine ⟨⟨trivial, fun _ => rfl⟩, fun sessionId _ => ?_⟩
    split
    · trivial
    · rw [Coroutine.follows_bind, follows_transport]
      refine ⟨⟨trivial, fun h => by cases h⟩, fun session _ => ?_⟩
      cases session <;> trivial
  | postMessage req => exact follows_serve (follows_handleMessage srv j req)
  | postMcp req => exact follows_serve (follows_handlePost srv j req)
  | getMcp req =>
    apply follows_serve
    apply follows_check rfl
    dsimp only
    split
    · trivial
    · rw [Coroutine.follows_bind, follows_transport]
      refine ⟨⟨trivial, fun _ => rfl⟩, fun session _ => ?_⟩
      cases session <;> trivial
  | deleteMcp req =>
    have hlater : ∀ op, ClosingCall op → Later (.deleteMcp req : Work srv.Job) op := by
      intro op hop
      rcases op with op | op
      · exact later_inl _ op
      · refine ⟨fun _ _ h => ?_, rfl⟩
        obtain rfl := Sum.inr.inj h
        exact hop
    exact follows_serve (follows_anyhow ((calls_handleDelete trivial).mono hlater))
  | job x =>
    exact follows_later (o := ⟨j, .job x⟩) ((Coroutine.Calls.inl ((Coroutine.Addresses.of_all
      (fun _ => trivial) _).mono (fun op _ => later_inl _ op))).bind (fun _ => .pure _))

theorem keeps_entry (srv : McpServer) :
    Keeps srv.system entry (fun _ => True) (fun _ _ q => q = false) where
  answers _ _ _ _ _ := trivial
  program o _ := (follows_program srv o).mono (fun x _ hq => by cases x <;> exact hq)
    (fun _ _ hq => hq)
  again o w q hq := by
    have hlater : ∀ op, WriterCall op → Later o.work op := by
      intro op hop
      rcases op with op | op
      · exact later_inl _ op
      · refine ⟨fun _ _ h => ?_, ?_⟩
        · obtain rfl := Sum.inr.inj h
          exact hop
        · cases op <;> first | exact hop.elim | (cases o.work <;> rfl)
    obtain rfl := hq
    exact (follows_later ((calls_runWriter w).mono hlater)).mono
      (fun x _ hq => by cases x <;> exact hq) (fun _ _ hq => hq)

end Requests

section Runs
variable {srv : McpServer} {steps : List (Label Input (Origin srv.Job))} {c : srv.State}

/-- A request of the IP gets in on shard `j`. -/
def entersOn {Job : Type} (j : ℕ) (ip : Str) (e : Event ShardI (Origin Job) McpShard) : Bool :=
  e.shard == j && enters e.origin.work e.op &&
    (SecurityGate.checked e.origin.work).any (fun req => getClientIp req == ip)

/-- Who has passed has been let pass in the same turn: nobody got in on the shard since. -/
theorem opening_of_passed (h : srv.Reaches steps c) {past : List (Mark ShardI)}
    {older : List (Event ShardI (Origin srv.Job) McpShard)} (hs : older <:+ c.log) {j : ℕ}
    {o : Origin srv.Job} (hpassed : phase (entry o) past = true)
    (hheld : Held entry older j o past) {req : Request}
    (hreq : SecurityGate.checked o.work = some req) :
    ∃ front a back, older = front ++ a :: back ∧ admits j (getClientIp req) a = true ∧
      ∀ b ∈ front, ¬entersOn j (getClientIp req) b = true := by
  induction past generalizing older with
  | nil => cases hpassed
  | cons mark past ih =>
    have hnot : ¬(entry o).rests (phase (entry o) (mark :: past)) := by
      intro hrests
      cases hpassed.symm.trans hrests
    obtain ⟨e, hnewest, ho, hhistory⟩ := hheld hnot
    obtain ⟨front, e', back, rfl, hj, hsame, hnone⟩ := newest_eq_some_iff.mp hnewest
    obtain rfl := Option.some.inj hsame
    have hquiet : ∀ b ∈ front, ¬entersOn j (getClientIp req) b = true := by
      intro b hb henters
      have hbj : b.shard = j := by simp_all [entersOn]
      cases hnone b hb hbj
    have hs' : e' :: back <:+ c.log := (List.suffix_append front (e' :: back)).trans hs
    have hlawful := ((onTrack_of_run (keeps_entry srv) (fun l _ => l.launches_true) h).2 e'
      (hs'.subset (.head _))).1.1
    obtain ⟨j', now, o', past', op, res, before, after⟩ := e'
    obtain rfl : o' = o := ho
    obtain ⟨rfl, rfl⟩ := List.cons.inj hhistory
    obtain rfl : j' = j := hj
    -- either the call is the check itself, or the check lies before it
    rcases passed_cases srv.Job hpassed with ⟨clientIp, apiKey, rfl, hres⟩ | ⟨hbefore, henters⟩
    · obtain ⟨req', hreq', rfl⟩ := hlawful.1
      obtain rfl := Option.some.inj (hreq.symm.trans hreq')
      obtain rfl := eq_of_heq hres
      refine ⟨front, _, back, rfl, ?_, hquiet⟩
      exact Bool.and_eq_true_iff.mpr ⟨beq_self_eq_true _, beq_self_eq_true (getClientIp req)⟩
    · have hheld' := (held_of_run (keeps_entry srv) (fun _ => rfl) (fun _ _ => rfl)
        (fun l _ => l.launches_true) h).2 _ back hs'
      obtain ⟨front', a, back', rfl, ha, hquiet'⟩ :=
        ih ((List.suffix_cons _ back).trans hs') hbefore hheld'
      refine ⟨front ++ ⟨j', now, o', past', op, res, before, after⟩ :: front', a, back', by simp, ha,
        fun b hb => ?_⟩
      rcases List.mem_append.mp hb with hb | hb
      · exact hquiet b hb
      · rcases List.mem_cons.mp hb with rfl | hb
        · simp [entersOn, henters]
        · exact hquiet' b hb

theorem opening_of_entersOn (h : srv.Reaches steps c)
    {e : Event ShardI (Origin srv.Job) McpShard}
    {older : List (Event ShardI (Origin srv.Job) McpShard)} (hs : e :: older <:+ c.log) {j : ℕ}
    {ip : Str} (henters : entersOn j ip e = true) : ∃ front a back, older = front ++ a :: back ∧
      admits j ip a = true ∧ ∀ b ∈ front, ¬entersOn j ip b = true := by
  simp only [entersOn, Bool.and_eq_true, beq_iff_eq, Option.any_eq_true] at henters
  obtain ⟨⟨rfl, hop⟩, req, hreq, rfl⟩ := henters
  have hlawful := (onTrack_of_run (keeps_entry srv) (fun l _ => l.launches_true) h).2 e
    (hs.subset (.head _))
  have hheld := (held_of_run (keeps_entry srv) (fun _ => rfl) (fun _ _ => rfl)
    (fun l _ => l.launches_true) h).2 e older hs
  exact opening_of_passed h ((List.suffix_cons e older).trans hs) (hlawful.1.1.2 hop) hheld hreq

theorem not_entersOn_of_admits {Job : Type} {j : ℕ} {ip : Str}
    (e : Event ShardI (Origin Job) McpShard) (h : admits j ip e = true) :
    ¬entersOn j ip e = true := by
  obtain ⟨j', now, o, past, op, res, before, after⟩ := e
  have hgrants : grants ip op res = true := (Bool.and_eq_true_iff.mp h).2
  have hnot : enters o.work op = false := by
    rcases op with op | op
    · cases hgrants
    · cases op with
      | checkRequest clientIp apiKey => cases o.work <;> rfl
      | _ => cases hgrants
  simp [entersOn, hnot]

theorem countIn_eq_sum {Job : Type} {log : List (Event ShardI (Origin Job) McpShard)} {n : ℕ}
    (h : ∀ e ∈ log, e.shard < n) (ip : Str) (t t' : Int) :
    countIn Event.now t t' (fun e => entersOn e.shard ip e) log =
      ∑ j ∈ Finset.range n, countIn Event.now t t' (entersOn j ip) log := by
  induction log with
  | nil => simp [countIn]
  | cons e log ih =>
    have hother : ∀ j, entersOn j ip e = (e.shard == j && entersOn e.shard ip e) := by
      intro j
      simp [entersOn, Bool.and_assoc]
    have hj : e.shard ∈ Finset.range n := Finset.mem_range.mpr (h e (.head _))
    simp only [countIn_cons, Finset.sum_add_distrib, ih (fun e' he' => h e' (.tail _ he'))]
    rw [Nat.add_left_cancel_iff, Finset.sum_eq_single_of_mem e.shard hj]
    intro j _ hne
    rw [hother j]
    simp [Ne.symm hne]

/-- In every run, the requests of an IP that get in on a shard during a window are bounded by the
allowance of the rate limit and one whose check lies before the window; on the server, by that
for each shard. -/
theorem entered_of_run (srv : McpServer) {steps : List (Label Input (Origin srv.Job))}
    {c : srv.State} (h : srv.Reaches steps c)
    (hon : srv.cfg.security.rateLimit.enabled = true) {ip : Str} (hip : ip ≠ []) {t t' : Int}
    (ht : t ≤ t') :
    (∀ j, (countIn Event.now t t' (entersOn j ip) c.log : ℚ) ≤
        allowance srv.cfg.security.rateLimit t t' + 1) ∧
      (countIn Event.now t t' (fun e => entersOn e.shard ip e) c.log : ℚ) ≤
        srv.count * (allowance srv.cfg.security.rateLimit t t' + 1) := by
  have hsorted := (times_of_run h).2
  have hshard : ∀ j, (countIn Event.now t t' (entersOn j ip) c.log : ℚ) ≤
      allowance srv.cfg.security.rateLimit t t' + 1 := by
    intro j
    have hentered : countIn Event.now t t' (entersOn j ip) c.log ≤
        countIn Event.now t t' (admits j ip) c.log + 1 :=
      countIn_le_of_preceded hsorted not_entersOn_of_admits
        (fun e older hs he => opening_of_entersOn h hs he)
    have hadmitted := admitted_le (coherent_of_run h) hsorted hon hip ht j
    have hcast : (countIn Event.now t t' (entersOn j ip) c.log : ℚ) ≤
        countIn Event.now t t' (admits j ip) c.log + 1 := by exact_mod_cast hentered
    linarith
  refine ⟨hshard, ?_⟩
  rw [countIn_eq_sum (shard_lt_of_run h), Nat.cast_sum]
  calc ∑ j ∈ Finset.range srv.count, (countIn Event.now t t' (entersOn j ip) c.log : ℚ)
      ≤ ∑ _j ∈ Finset.range srv.count, (allowance srv.cfg.security.rateLimit t t' + 1) :=
        Finset.sum_le_sum (fun j _ => hshard j)
    _ = srv.count * (allowance srv.cfg.security.rateLimit t t' + 1) := by
        rw [Finset.sum_const, Finset.card_range, nsmul_eq_mul]

def slowServer : McpServer :=
  .plain CompactJson.library
    { security := { rateLimit := { enabled := true, requestsPerSecond := 2, burstSize := 1 } } } 1
    Nat.one_pos

def hasty : List (Label Input (Origin Empty)) :=
  let req : Request := { header := fun k => if k = "x-real-ip".toList then "a".toList else [] }
  [.launch ⟨0, .getSse req⟩, .advance 0, .advance 0, .advance 0, .advance 0,
    .launch ⟨0, .getSse req⟩, .advance 1, .advance 1]

/-- Only the first gets in; at a single instant at most two may. -/
theorem entered_of_run_hasty : ∃ c, slowServer.Reaches hasty c ∧
    countIn Event.now 0 0 (entersOn 0 "a".toList) c.log = 1 ∧
    ∀ j, (countIn Event.now 0 0 (entersOn j "a".toList) c.log : ℚ) ≤
      allowance slowServer.cfg.security.rateLimit 0 0 + 1 := by
  have hrun : (LabelledRuns.run slowServer.system.step slowServer.system.start hasty).map
      (fun c => countIn Event.now 0 0 (entersOn 0 "a".toList) c.log) = some 1 := by decide +kernel
  obtain ⟨c, hreach, hcount⟩ := Option.map_eq_some_iff.mp hrun
  exact ⟨c, hreach, hcount, (entered_of_run slowServer hreach rfl (by decide) le_rfl).1⟩

end Runs

end McpSdk.AdmissionRates

import McpSdk.ClientResponses
import McpSdk.SessionTables

/-!
# The promises of requests to the client

A shard gives each request to a client a number and a promise. The number stands as the id in the
text that goes to the client. Whatever the clients answer, no number is given twice, and the
requests sent are at every moment the pending ones and the settled ones; `stop` settles what is
left. A body that looks like a response settles the request it
names, if the number is exactly that and what it says can be read.
-/

namespace McpSdk.RequestPromises
open CppStandardLibrary CooperativeTasks ClusterRuns ClientResponses

section Ledger
variable {Job : Type}

/-- What the events of shard `j` show of `f`, newest first. -/
def shown (f : Event ShardI (Origin Job) McpShard → Option ℕ) (j : ℕ)
    (log : List (Event ShardI (Origin Job) McpShard)) : List ℕ :=
  (log.filter (fun e => e.shard == j)).filterMap f

/-- The numbers of the requests that shard `j` has sent. -/
def sent (j : ℕ) (log : List (Event ShardI (Origin Job) McpShard)) : List ℕ :=
  shown (fun e => (issued e).map (·.1)) j log

/-- The requests of shard `j` that responses have settled, each as often as it was. -/
def answered (j : ℕ) (log : List (Event ShardI (Origin Job) McpShard)) : List ℕ :=
  shown completed j log

section Shown
variable (f : Event ShardI (Origin Job) McpShard → Option ℕ)
  {log : List (Event ShardI (Origin Job) McpShard)} {e : Event ShardI (Origin Job) McpShard} {j : ℕ}

theorem shown_cons_self : shown f e.shard (e :: log) = (f e).toList ++ shown f e.shard log := by
  rw [shown, List.filter_cons_of_pos (by simp), List.filterMap_cons, shown]
  cases f e <;> rfl

theorem shown_cons_of_ne (h : e.shard ≠ j) : shown f j (e :: log) = shown f j log := by
  rw [shown, List.filter_cons_of_neg (by simpa using h), shown]

end Shown

/-- What a shard has of its requests and promises, against the requests sent and settled. -/
structure Ledger (s : McpShard) (sent answered : List ℕ) : Prop where
  sent_le : ∀ n ∈ sent, n ≤ s.serverRequestCounter
  nodup : sent.Nodup
  perm : (s.pendingClientRequests ++ answered).Perm sent
  settled : ∀ n, (s.settled.lookup n).isSome ↔ n ∈ answered

theorem Ledger.nodup_append {s : McpShard} {sent answered : List ℕ} (h : Ledger s sent answered) :
    (s.pendingClientRequests ++ answered).Nodup := h.perm.nodup_iff.mpr h.nodup

/-- One event on the books of its shard. -/
theorem Ledger.step {e : Event ShardI (Origin Job) McpShard} {sent answered : List ℕ}
    (h : Ledger e.before sent answered) (heffect : Effect e)
    (hpending : ∀ n, completed e = some n → n ∈ e.before.pendingClientRequests) :
    Ledger e.after (((issued e).map (·.1)).toList ++ sent) ((completed e).toList ++ answered) := by
  cases heffect with
  | issues session hissued hcompleted hcounter hafter hsettled =>
    rw [hissued, hcompleted]
    have hfresh : e.before.serverRequestCounter + 1 ∉ sent := fun hn =>
      absurd (h.sent_le _ hn) (Nat.not_succ_le_self _)
    refine ⟨?_, List.nodup_cons.mpr ⟨hfresh, h.nodup⟩, ?_, ?_⟩
    · intro n hn
      rw [hcounter]
      rcases List.mem_cons.mp hn with rfl | hn
      · exact le_rfl
      · exact (h.sent_le n hn).trans (Nat.le_succ _)
    · rw [hafter]
      exact h.perm.cons _
    · intro n
      rw [hsettled]
      exact h.settled n
  | completes n value hissued hcompleted hcounter hafter hsettled =>
    rw [hissued, hcompleted]
    have hmem := hpending n hcompleted
    refine ⟨fun m hm => hcounter ▸ h.sent_le m hm, h.nodup, ?_, ?_⟩
    · have hnodup : e.before.pendingClientRequests.Nodup := h.nodup_append.of_append_left
      have herase : e.before.pendingClientRequests.filter (· ≠ n) =
          e.before.pendingClientRequests.erase n := by
        rw [hnodup.erase_eq_filter]
        exact List.filter_congr (fun m _ => by by_cases hm : m = n <;> simp [hm])
      rw [hafter, herase]
      calc (e.before.pendingClientRequests.erase n ++ n :: answered).Perm
            (n :: (e.before.pendingClientRequests.erase n ++ answered)) := List.perm_middle
        _ |>.Perm (e.before.pendingClientRequests ++ answered) :=
            ((List.perm_cons_erase hmem).symm.append_right answered)
        _ |>.Perm sent := h.perm
    · intro m
      rw [hsettled]
      by_cases hm : m = n
      · subst hm
        simp [AList.lookup_insert]
      · rw [AList.lookup_insert_ne hm, h.settled m]
        simp [hm]
  | keeps hissued hcompleted hcounter hafter hsettled =>
    rw [hissued, hcompleted]
    exact ⟨fun m hm => hcounter ▸ h.sent_le m hm, h.nodup, hafter ▸ h.perm,
      fun m => hsettled ▸ h.settled m⟩

end Ledger

section Runs
variable {srv : McpServer} {shards : ℕ → McpShard}
  {log : List (Event ShardI (Origin srv.Job) McpShard)}

theorem ledger_of_coherent (h : Coherent srv.system shards log) (j : ℕ) :
    Ledger (shards j) (sent j log) (answered j log) := by
  induction h with
  | nil =>
    refine ⟨fun _ hn => (List.not_mem_nil hn).elim, List.nodup_nil, .nil, fun n => ?_⟩
    exact iff_of_false Bool.false_ne_true List.not_mem_nil
  | @cons shards log e _ hbefore hexec ih =>
    by_cases hj : e.shard = j
    · subst hj
      have hbooks := (hbefore ▸ ih : Ledger e.before _ _).step (effect_of_exec hexec)
        (fun n hn => by
          obtain ⟨-, -, -, hpending⟩ := of_completed hn
          exact hpending)
      rw [Function.update_self, sent, answered, shown_cons_self, shown_cons_self]
      exact hbooks
    · rw [Function.update_of_ne (Ne.symm hj), sent, answered, shown_cons_of_ne _ hj,
        shown_cons_of_ne _ hj]
      exact ih

end Runs

section Wire
variable {Job : Type}

/-- The id in the text of a request. -/
def wireId (L : JsonLibrary) (text : Str) : Option Json :=
  (L.parse text).bind (fun request => request.find? "id".toList)

/-- The event sends the session a request with the id `n`, if this has a text. -/
def Sends (L : JsonLibrary) (n : ℕ) (session : Str) (e : Event ShardI (Origin Job) McpShard) :
    Prop :=
  ∃ method params, e.op = .inl (.sendRequest session method params) ∧
    match L.dump (McpShard.clientRequest n method params) with
    | some text => wireId L text = some (.integer n) ∧
        e.after.objects = (e.before.pushToSession session text).objects
    | none => e.after.objects = e.before.objects

/-- With the event the text of a request goes into the queue of an open session. -/
def PutsOnWire (text : Str) : Event ShardI (Origin Job) McpShard → Prop
  | ⟨_, _, _, _, .inl (.sendRequest session _ _), (Except.ok _ : Except Exception ℕ), before,
      after⟩ =>
      ∃ ref, before.sessions.lookup session = some ref ∧ (before.object ref).active ∧
        after.object ref = (before.object ref).pushEventually text
  | _ => False

theorem wireId_of_dump {L : JsonLibrary} {n : ℕ} {method text : Str} {params : Json}
    (h : L.dump (McpShard.clientRequest n method params) = some text) :
    wireId L text = some (.integer n) := by
  rw [wireId, L.parse_dump _ _ h]
  rfl

theorem pushEventually_inj {o : SseSession} {msg msg' : Str}
    (h : o.pushEventually msg = o.pushEventually msg') : msg = msg' := by
  unfold SseSession.pushEventually at h
  split at h
  · exact Option.some.inj (congrArg SseSession.delayed h)
  · have hmessages : o.messages ++ [msg] = o.messages ++ [msg'] := congrArg SseSession.messages h
    exact List.singleton_inj.mp (List.append_cancel_left hmessages)

variable {L : JsonLibrary} {cfg : McpServerConfig} {e : Event ShardI (Origin Job) McpShard}

theorem sends_of_issued (h : shardExec L cfg e.shard e.now e.op e.before = (e.res, e.after)) {n : ℕ}
    {session : Str} (hissued : issued e = some (n, session)) : Sends L n session e := by
  obtain ⟨shard, now, o, past, op, r, before, after⟩ := e
  rcases op with op | op
  · cases op with
    | sendRequest session' method params =>
      obtain ⟨rfl, rfl⟩ := Prod.mk.inj (Option.some.inj hissued)
      have hexec : before.sendRequest L session' method params = (r, after) := h
      refine ⟨method, params, rfl, ?_⟩
      unfold McpShard.sendRequest at hexec
      cases hdump : L.dump
          (McpShard.clientRequest (before.serverRequestCounter + 1) method params) with
      | none =>
        simp only [JsonLibrary.dumpText, hdump] at hexec
        obtain ⟨-, rfl⟩ := Prod.mk.inj hexec
        rfl
      | some text =>
        simp only [JsonLibrary.dumpText, hdump] at hexec
        obtain ⟨-, rfl⟩ := Prod.mk.inj hexec
        refine ⟨wireId_of_dump hdump, ?_⟩
        apply McpShard.pushToSession_objects <;> rfl
    | _ => cases hissued
  · cases hissued

/-- The text that goes into a queue has the number of the request for its id. -/
theorem wireId_of_putsOnWire (h : shardExec L cfg e.shard e.now e.op e.before = (e.res, e.after))
    (hlinked : e.before.Linked) {text : Str} (hputs : PutsOnWire text e) :
    ∃ n session, issued e = some (n, session) ∧ wireId L text = some (.integer n) := by
  obtain ⟨shard, now, o, past, op, r, before, after⟩ := e
  rcases op with op | op
  · cases op with
    | sendRequest session method params =>
      refine ⟨before.serverRequestCounter + 1, session, rfl, ?_⟩
      obtain ⟨method', params', hop, hsends⟩ := sends_of_issued h rfl
      obtain ⟨-, rfl, rfl⟩ := HandlerCall.sendRequest.inj (Sum.inl.inj hop)
      have hexec : before.sendRequest L session method params = (r, after) := h
      cases hdump : L.dump
          (McpShard.clientRequest (before.serverRequestCounter + 1) method params) with
      | none =>
        -- without a text the request fails, and nothing is pushed
        rw [McpShard.sendRequest, JsonLibrary.dumpText, hdump] at hexec
        obtain ⟨rfl, -⟩ := Prod.mk.inj hexec
        exact hputs.elim
      | some sent =>
        rw [hdump] at hsends
        obtain ⟨hid, hobjects⟩ := hsends
        suffices hsame : sent = text from hsame ▸ hid
        cases r with
        | error e => exact hputs.elim
        | ok n =>
          obtain ⟨ref, hlookup, hactive, hafter⟩ := hputs
          have htarget : before.target session = some ref :=
            McpShard.target_eq_some_iff.mpr ⟨hlookup, hactive⟩
          apply pushEventually_inj (o := before.object ref)
          calc (before.object ref).pushEventually sent
              = (before.pushToSession session sent).object ref := by
                rw [McpShard.object_pushToSession hlinked, if_pos htarget]
            _ = after.object ref := (McpShard.object_congr hobjects ref).symm
            _ = (before.object ref).pushEventually text := hafter
    | _ => exact hputs.elim
  · exact hputs.elim

theorem pairwise_wireId {srv : McpServer} {steps : List (Label Input (Origin srv.Job))}
    {c : srv.State} (h : srv.Reaches steps c) (j : ℕ) :
    c.log.Pairwise (fun e e' => e.shard = j → e'.shard = j → ∀ text text', PutsOnWire text e →
      PutsOnWire text' e' → wireId srv.L text ≠ wireId srv.L text') := by
  have hcoherent := coherent_of_run h
  have hwire : ∀ e ∈ c.log, ∀ text, PutsOnWire text e →
      ∃ n session, issued e = some (n, session) ∧ wireId srv.L text = some (.integer n) :=
    fun e he text => wireId_of_putsOnWire (hcoherent.exec e he) ((tables_of_run h).2 e he).1
  have newer : ∀ log : List (Event ShardI (Origin srv.Job) McpShard), log <:+ c.log →
      log.Pairwise (fun e e' => e.shard = j → e'.shard = j → ∀ text text', PutsOnWire text e →
        PutsOnWire text' e' → wireId srv.L text ≠ wireId srv.L text') := by
    intro log hs
    induction log with
    | nil => exact .nil
    | cons e older ih =>
      refine List.pairwise_cons.mpr ⟨?_, ih ((List.suffix_cons e older).trans hs)⟩
      intro e' he' hj hj' text text' hputs hputs' hsame
      obtain ⟨n, session, hissued, hid⟩ := hwire e (hs.mem (.head _)) text hputs
      obtain ⟨n', session', hissued', hid'⟩ := hwire e' (hs.mem (.tail _ he')) text' hputs'
      have hlt := issued_newer hcoherent hs he' (hj'.trans hj.symm) hissued hissued'
      rw [hid, hid'] at hsame
      injection Option.some.inj hsame with hnumbers
      omega
  exact newer c.log (List.suffix_refl _)

end Wire

section Stop

/-- The exception that `stop` settles a promise with. -/
abbrev stopped : Except Exception Json := .error (.std "server stopped".toList)

theorem lookup_foldl_insert (value : Except Exception Json) (ids : List ℕ)
    (m : UnorderedMap ℕ (Except Exception Json)) (n : ℕ) :
    (ids.foldl (fun m id => m.insert id value) m).lookup n =
      if n ∈ ids then some value else m.lookup n := by
  induction ids generalizing m with
  | nil => simp
  | cons id ids ih =>
    rw [List.foldl_cons, ih]
    by_cases hn : n = id
    · subst hn
      simp [AList.lookup_insert]
    · simp [hn, AList.lookup_insert_ne hn]

theorem foldl_updateObject {α : Type} (ref : α → ℕ) (f : SseSession → SseSession) (l : List α)
    (s : McpShard) : ∃ objects,
      l.foldl (fun s a => s.updateObject (ref a) f) s = { s with objects := objects } := by
  induction l generalizing s with
  | nil => exact ⟨s.objects, rfl⟩
  | cons a l ih =>
    obtain ⟨objects, h⟩ := ih (s.updateObject (ref a) f)
    exact ⟨objects, h⟩

theorem lookup_stop_settled (s : McpShard) (n : ℕ) : s.stop.settled.lookup n =
    if n ∈ s.pendingClientRequests then some stopped else s.settled.lookup n := by
  obtain ⟨objects, h⟩ := foldl_updateObject Sigma.snd
    (fun o => ({ o with active := false } : SseSession).pushEventually []) s.sessions.entries s
  have hsettled : s.stop.settled = s.pendingClientRequests.foldl
      (fun settled id => settled.insert id stopped) s.settled := by
    unfold McpShard.stop
    rw [h]
  rw [hsettled, lookup_foldl_insert]

end Stop

/-- On every shard, in every run and whatever is dispatched: no number is given to two requests,
a request goes to its client under its number, the ids in the texts that go out are pairwise
different, no promise is settled twice, by a response or by `stop`, what is settled is not pending,
and what is sent is settled or pending. `stop` leaves nothing pending and nothing unsettled. -/
theorem settled_once (srv : McpServer) {steps : List (Label Input (Origin srv.Job))}
    {c : srv.State} (h : srv.Reaches steps c) (j : ℕ) :
    (sent j c.log).Nodup ∧
    (∀ e ∈ c.log, ∀ n session, issued e = some (n, session) → Sends srv.L n session e) ∧
    c.log.Pairwise (fun e e' => e.shard = j → e'.shard = j → ∀ text text', PutsOnWire text e →
      PutsOnWire text' e' → wireId srv.L text ≠ wireId srv.L text') ∧
    (answered j c.log ++ (c.shards j).pendingClientRequests).Nodup ∧
    (∀ n, ((c.shards j).settled.lookup n).isSome ↔ n ∈ answered j c.log) ∧
    (∀ n, n ∈ sent j c.log ↔
      n ∈ answered j c.log ∨ n ∈ (c.shards j).pendingClientRequests) ∧
    (c.shards j).stop.pendingClientRequests = [] ∧
    ∀ n ∈ sent j c.log, (c.shards j).stop.settled.lookup n =
      if n ∈ answered j c.log then (c.shards j).settled.lookup n else some stopped := by
  have hbooks := ledger_of_coherent (coherent_of_run h) j
  have hmem : ∀ n, n ∈ sent j c.log ↔
      n ∈ answered j c.log ∨ n ∈ (c.shards j).pendingClientRequests := fun n => by
    rw [← hbooks.perm.mem_iff, List.mem_append, or_comm]
  refine ⟨hbooks.nodup, ?_, pairwise_wireId h j, ?_, hbooks.settled, hmem, rfl, fun n hn => ?_⟩
  · exact fun e he n session => sends_of_issued ((coherent_of_run h).exec e he)
  · exact List.perm_append_comm.nodup_iff.mp hbooks.nodup_append
  · rw [lookup_stop_settled]
    have hdisjoint := List.disjoint_of_nodup_append hbooks.nodup_append
    by_cases hanswered : n ∈ answered j c.log
    · rw [if_pos hanswered, if_neg (fun hpending => hdisjoint hpending hanswered)]
    · rw [if_neg hanswered, if_pos (((hmem n).mp hn).resolve_left hanswered)]

/-- A response settles the request of shard 0, and `stop` that of shard 1. -/
theorem settled_once_sampling :
    ∃ c, samplingServer.Reaches (twoRequests "A".toList) c ∧
      sent 0 c.log = [1] ∧ answered 0 c.log = [1] ∧ (c.shards 0).stop.pendingClientRequests = [] ∧
      sent 1 c.log = [1] ∧ answered 1 c.log = [] ∧
      (c.shards 1).stop.settled.lookup 1 = some stopped := by
  have hrun : (LabelledRuns.run samplingServer.system.step samplingServer.system.start
      (twoRequests "A".toList)).any (fun c => sent 0 c.log == [1] && answered 0 c.log == [1] &&
        sent 1 c.log == [1] && answered 1 c.log == []) := by
    decide +kernel
  obtain ⟨c, hc, hp⟩ := (Option.any_eq_true _ _).mp hrun
  simp only [Bool.and_eq_true, beq_iff_eq] at hp
  obtain ⟨⟨⟨hsent, hanswered⟩, hsent'⟩, hanswered'⟩ := hp
  obtain ⟨-, -, -, -, -, -, hnone, -⟩ := settled_once samplingServer hc 0
  obtain ⟨-, -, -, -, -, -, -, hstop⟩ := settled_once samplingServer hc 1
  refine ⟨c, hc, hsent, hanswered, hnone, hsent', hanswered', ?_⟩
  rw [hstop 1 (hsent' ▸ .head _), hanswered', if_neg List.not_mem_nil]

section Response

/-- The double is the number `n`: its significand times the power of two that its exponent stands
for, where the least exponent has no hidden bit. -/
def IsNat (d : Double) (n : ℕ) : Prop :=
  let exponent := d.bits.toNat / 2 ^ 52 % 2 ^ 11
  let fraction := d.bits.toNat % 2 ^ 52
  (if exponent = 0 then fraction * 2 ^ 1 else (2 ^ 52 + fraction) * 2 ^ exponent) =
    n * 2 ^ 1075 ∧ (d.bits.toNat < 2 ^ 63 ∨ n = 0)

/-- The value is exactly the number `n`. -/
def IsNumber : Json → ℕ → Prop
  | .integer i, n => i = n
  | .floating d, n => IsNat d n
  | _, _ => False

theorem magnitude_eq {bias exponent fraction n : ℕ} (hbias : 53 ≤ bias)
    (hfraction : fraction < 2 ^ 52)
    (h : (if exponent = 0 then fraction * 2 ^ 1 else (2 ^ 52 + fraction) * 2 ^ exponent) =
      n * 2 ^ bias) :
    (if exponent = 0 then 0
      else if bias ≤ exponent then (2 ^ 52 + fraction) * 2 ^ (exponent - bias)
      else (2 ^ 52 + fraction) / 2 ^ (bias - exponent)) = n := by
  by_cases hzero : exponent = 0
  · rw [if_pos hzero] at h ⊢
    -- below the least normal number only 0 is whole
    by_contra hne
    have hsmall : n * 2 ^ bias < 2 ^ 53 := by omega
    have hlarge : 2 ^ 53 ≤ n * 2 ^ bias :=
      (Nat.pow_le_pow_right Nat.two_pos hbias).trans
        (Nat.le_mul_of_pos_left _ (Nat.pos_of_ne_zero (Ne.symm hne)))
    exact absurd hsmall (not_lt.mpr hlarge)
  · rw [if_neg hzero] at h ⊢
    by_cases hlarge : bias ≤ exponent
    · rw [if_pos hlarge]
      apply Nat.eq_of_mul_eq_mul_right (Nat.two_pow_pos bias)
      rw [Nat.mul_assoc, ← Nat.pow_add, Nat.sub_add_cancel hlarge, h]
    · rw [if_neg hlarge]
      have hsplit : 2 ^ bias = 2 ^ (bias - exponent) * 2 ^ exponent := by
        rw [← Nat.pow_add, Nat.sub_add_cancel (Nat.le_of_not_le hlarge)]
      rw [hsplit, ← Nat.mul_assoc] at h
      rw [Nat.eq_of_mul_eq_mul_right (Nat.two_pow_pos exponent) h]
      exact Nat.mul_div_cancel _ (Nat.two_pow_pos _)

theorem toUInt64_of_isNat {d : Double} {n : ℕ} (h : IsNat d n) (hn : n < 2 ^ 64) :
    d.toUInt64 = n := by
  have hmagnitude := magnitude_eq (by decide) (Nat.mod_lt _ (Nat.two_pow_pos 52)) h.1
  unfold Double.toUInt64
  simp only [hmagnitude, Nat.mod_eq_of_lt hn]
  split
  · rfl
  · rw [h.2.resolve_left ‹_›]
    rfl

theorem getUInt64_of_isNumber {j : Json} {n : ℕ} (h : IsNumber j n) (hn : n < 2 ^ 64) :
    j.getUInt64 = .ok n := by
  cases j with
  | integer i =>
    obtain rfl : i = n := h
    rw [Json.getUInt64, Int.emod_eq_of_lt (Int.natCast_nonneg n) (by exact_mod_cast hn)]
    rfl
  | floating d => exact congrArg Except.ok (toUInt64_of_isNat h hn)
  | _ => exact h.elim

theorem lt_of_responseId {response : Json} {n : ℕ} (h : McpShard.responseId response = some n) :
    n < 2 ^ 64 := by
  unfold McpShard.responseId at h
  split at h
  · cases hid : (response.getD "id".toList).getUInt64 with
    | error e =>
      rw [hid] at h
      cases h
    | ok m =>
      rw [hid] at h
      obtain rfl := Option.some.inj h
      revert hid
      cases response.getD "id".toList with
      | integer i => rintro ⟨⟩; omega
      | floating d =>
        rintro ⟨⟩
        unfold Double.toUInt64
        dsimp only
        split <;> exact Nat.mod_lt _ (Nat.two_pow_pos 64)
      | _ => rintro ⟨⟩
  · cases h

/-- The response is for request `n`, by its exact number. -/
def Names (s : McpShard) (response : Json) (n : ℕ) : Prop :=
  n < 2 ^ 64 ∧ n ∈ s.pendingClientRequests ∧ IsNumber (response.getD "id".toList) n

/-- What the response says can be read: there is a result, or the error is an object whose message
is a text, or is missing. -/
def Legible (response : Json) : Prop :=
  response.contains "result".toList ∨ (response.getD "error".toList).isObject ∧
    ∀ message, (response.getD "error".toList).find? "message".toList = some message →
      ∃ text, message = .string text

theorem outcome_isSome_iff (response : Json) : (outcome response).isSome ↔ Legible response := by
  unfold outcome Legible
  by_cases hresult : response.contains "result".toList
  · rw [if_pos hresult]
    exact iff_of_true rfl (.inl hresult)
  · rw [if_neg hresult, or_iff_right hresult]
    unfold Json.valueString Json.value
    by_cases hobject : (response.getD "error".toList).isObject
    · rw [if_pos hobject, and_iff_right hobject]
      cases (response.getD "error".toList).find? "message".toList with
      | none => exact iff_of_true rfl (fun _ h => by cases h)
      | some message =>
        cases message with
        | string text => exact iff_of_true rfl (fun _ h => ⟨text, (Option.some.inj h).symm⟩)
        | _ =>
          refine iff_of_false Bool.false_ne_true (fun h => ?_)
          obtain ⟨text, h⟩ := h _ rfl
          cases h
    · rw [if_neg hobject]
      exact iff_of_false Bool.false_ne_true (fun h => hobject h.1)

/-- The request that `dispatch` settles for a body, and what with. -/
def taken (L : JsonLibrary) (s : McpShard) (body : Str) : Option (ℕ × Except Exception Json) :=
  ((L.parse body).filter isClientResponse).bind (completion s)

section Dispatch
variable (L : JsonLibrary) (cfg : McpServerConfig) (j : ℕ) (now : Int) (s : McpShard) (body : Str)

theorem proceed_takeClientResponse :
    (takeClientResponse L body).proceed (shardExec L cfg j now) s =
      (.ret (taken L s body).isSome, (taken L s body).elim s (fun p => s.settle p.1 p.2)) := by
  unfold takeClientResponse taken
  cases L.parse body with
  | none => rfl
  | some response =>
    by_cases hshape : isClientResponse response
    · obtain ⟨htaken, hstate⟩ := Prod.ext_iff.mp (handleClientResponse_eq response s)
      dsimp only at htaken hstate
      simp only [hshape, if_true, Option.filter, Option.bind_some]
      rw [← hstate, ← htaken]
      have hcall : (transport (.handleClientResponse response)).proceed (shardExec L cfg j now) s =
          (.ret (s.handleClientResponse response).1, (s.handleClientResponse response).2) := rfl
      rw [Coroutine.proceed_bind hcall]
      rcases (s.handleClientResponse response).1 with e | taken
      · rfl
      · cases taken <;> rfl
    · simp only [hshape, Option.filter, Bool.false_eq_true, if_false, Option.bind_none]
      rfl

variable (d : JsonRpcDispatcher HandlerI) (sessionId : Str)

/-- The rest of `dispatch`, for a body that it does not take for a response. -/
def asRequest : ShardTask (Option Str) := do
  transport (.setContext sessionId (progressToken L body))
  (d.handleRequest L body).inl.coAwait

theorem proceed_dispatch :
    (dispatch L d body sessionId).proceed (shardExec L cfg j now) s =
      match taken L s body with
      | some (n, value) => (.ret none, s.settle n value)
      | none => (asRequest L body d sessionId).proceed (shardExec L cfg j now) s := by
  have hcall : (dispatch L d body sessionId).proceed (shardExec L cfg j now) s =
      (do
        let handled ← takeClientResponse L body
        if handled then return none
        else asRequest L body d sessionId : ShardTask (Option Str)).proceed
          (shardExec L cfg j now) s := rfl
  rw [hcall, Coroutine.proceed_bind (proceed_takeClientResponse L cfg j now s body)]
  cases taken L s body <;> rfl

/-- The call takes the body as it should. A response that names a pending request settles it, with
the result or with an exception, and ends the call; a body that names none leaves the pending
requests alone and is handled as a request. -/
structure Answers : Prop where
  settles : ∀ response n, L.parse body = some response → isClientResponse response →
    Names s response n → ∃ outcome : Except Exception Json,
      (response.contains "result".toList → outcome = .ok (response.getD "result".toList)) ∧
      (response.contains "result".toList = false → ∃ e, outcome = .error e) ∧
      (dispatch L d body sessionId).proceed (shardExec L cfg j now) s =
        (.ret none, s.settle n outcome)
  keeps : (∀ response n, L.parse body = some response → ¬Names s response n) →
    ((takeClientResponse L body).proceed (shardExec L cfg j now) s).2.pendingClientRequests =
      s.pendingClientRequests
  passes : (∀ response n, L.parse body = some response → ¬Names s response n) →
    (dispatch L d body sessionId).proceed (shardExec L cfg j now) s =
      (asRequest L body d sessionId).proceed (shardExec L cfg j now) s

end Dispatch

variable {L : JsonLibrary} {s : McpShard} {body : Str} {response : Json} {n : ℕ}

theorem responseId_of_names (hshape : isClientResponse response) (h : Names s response n) :
    McpShard.responseId response = some n := by
  unfold isClientResponse at hshape
  simp only [Bool.and_eq_true] at hshape
  unfold McpShard.responseId
  rw [if_pos hshape.1.1.2, getUInt64_of_isNumber h.2.2 h.1]
  rfl

theorem taken_eq_some_iff {value : Except Exception Json} :
    taken L s body = some (n, value) ↔ ∃ response, L.parse body = some response ∧
      isClientResponse response ∧ McpShard.responseId response = some n ∧
      n ∈ s.pendingClientRequests ∧ outcome response = some value := by
  unfold taken completion
  simp only [Option.bind_eq_some_iff, Option.filter_eq_some_iff, Option.map_eq_some_iff,
    Prod.mk.injEq, decide_eq_true_eq]
  constructor
  · rintro ⟨response, ⟨hparse, hshape⟩, m, ⟨hid, hpending⟩, v, houtcome, rfl, rfl⟩
    exact ⟨response, hparse, hshape, hid, hpending, houtcome⟩
  · rintro ⟨response, hparse, hshape, hid, hpending, houtcome⟩
    exact ⟨response, ⟨hparse, hshape⟩, n, ⟨hid, hpending⟩, value, houtcome, rfl, rfl⟩

theorem proceed_asRequest {cfg : McpServerConfig} {j : ℕ} {now : Int}
    {d : JsonRpcDispatcher HandlerI} {sessionId : Str} {r : Option Str} {after : McpShard} :
    (asRequest L body d sessionId).proceed (shardExec L cfg j now) s ≠ (.ret r, after) := by
  intro h
  exact Coroutine.proceed_coAwait (shardExec L cfg j now) (d.handleRequest L body).inl
    { s with currentSessionId := sessionId, currentProgressToken := progressToken L body } r
    (congrArg Prod.fst h)

theorem outcome_of_result {value : Except Exception Json} (h : outcome response = some value) :
    (response.contains "result".toList → value = .ok (response.getD "result".toList)) ∧
    (response.contains "result".toList = false → ∃ e, value = .error e) := by
  unfold outcome at h
  by_cases hresult : response.contains "result".toList
  · rw [if_pos hresult] at h
    refine ⟨fun _ => (Option.some.inj h).symm, fun hno => ?_⟩
    rw [hresult] at hno
    cases hno
  · rw [if_neg hresult] at h
    refine ⟨fun hyes => absurd hyes hresult, fun _ => ?_⟩
    split at h
    · exact ⟨_, (Option.some.inj h).symm⟩
    · cases h

/-- The call takes a body as it should if, whenever the body has the shape of a response whose id
converts to the number of a pending request, the id is that number exactly when what the
response says can be read. -/
theorem answers_iff (L : JsonLibrary) (cfg : McpServerConfig) (j : ℕ) (now : Int) (s : McpShard)
    (body : Str) (d : JsonRpcDispatcher HandlerI) (sessionId : Str) :
    Answers L cfg j now s body d sessionId ↔
      ∀ response n, L.parse body = some response → isClientResponse response →
        McpShard.responseId response = some n → n ∈ s.pendingClientRequests →
        (IsNumber (response.getD "id".toList) n ↔ Legible response) := by
  constructor
  · intro h response n hparse hshape hid hpending
    constructor
    · intro hnumber
      by_contra hlegible
      obtain ⟨value, -, -, hsettled⟩ :=
        h.settles response n hparse hshape ⟨lt_of_responseId hid, hpending, hnumber⟩
      have hnone : taken L s body = none := by
        rw [Option.eq_none_iff_forall_ne_some]
        rintro ⟨m, v⟩ htaken
        obtain ⟨response', hparse', -, -, -, houtcome⟩ := taken_eq_some_iff.mp htaken
        obtain rfl := Option.some.inj (hparse.symm.trans hparse')
        exact hlegible ((outcome_isSome_iff _).mp (houtcome ▸ rfl))
      rw [proceed_dispatch, hnone] at hsettled
      exact proceed_asRequest hsettled
    · intro hlegible
      by_contra hnumber
      obtain ⟨value, houtcome⟩ := Option.isSome_iff_exists.mp
        ((outcome_isSome_iff response).mpr hlegible)
      have htaken : taken L s body = some (n, value) :=
        taken_eq_some_iff.mpr ⟨response, hparse, hshape, hid, hpending, houtcome⟩
      have hpasses := h.passes (fun response' m hparse' hnames => by
        obtain rfl := Option.some.inj (hparse.symm.trans hparse')
        obtain rfl := Option.some.inj (hid.symm.trans (responseId_of_names hshape hnames))
        exact hnumber hnames.2.2)
      rw [proceed_dispatch, htaken] at hpasses
      exact proceed_asRequest hpasses.symm
  · intro h
    have hnone : (∀ response n, L.parse body = some response → ¬Names s response n) →
        taken L s body = none := by
      intro hnames
      rw [Option.eq_none_iff_forall_ne_some]
      rintro ⟨n, value⟩ htaken
      obtain ⟨response, hparse, hshape, hid, hpending, houtcome⟩ := taken_eq_some_iff.mp htaken
      have hlegible : Legible response := (outcome_isSome_iff _).mp (houtcome ▸ rfl)
      exact hnames response n hparse ⟨lt_of_responseId hid, hpending,
        (h response n hparse hshape hid hpending).mpr hlegible⟩
    refine ⟨?_, ?_, ?_⟩
    · intro response n hparse hshape hnames
      have hid := responseId_of_names hshape hnames
      have hlegible := (h response n hparse hshape hid hnames.2.1).mp hnames.2.2
      obtain ⟨value, houtcome⟩ := Option.isSome_iff_exists.mp
        ((outcome_isSome_iff response).mpr hlegible)
      obtain ⟨hresult, herror⟩ := outcome_of_result houtcome
      refine ⟨value, hresult, herror, ?_⟩
      have htaken : taken L s body = some (n, value) :=
        taken_eq_some_iff.mpr ⟨response, hparse, hshape, hid, hnames.2.1, houtcome⟩
      rw [proceed_dispatch, htaken]
    · intro hnames
      rw [proceed_takeClientResponse, hnone hnames]
      rfl
    · intro hnames
      rw [proceed_dispatch, hnone hnames]

/-- A response to request 1 whose error is a text. -/
def textError : Json :=
  .object [("error".toList, .string "boom".toList), ("id".toList, .integer 1)]

/-- That response does not settle request 1, which stays pending. -/
theorem text_error_is_not_taken :
    ¬Answers CompactJson.library .standard 0 0 { pendingClientRequests := [1] }
        (CompactJson.write textError) (samplingServer.dispatcher 0) [] ∧
      ((takeClientResponse CompactJson.library (CompactJson.write textError)).proceed
        (shardExec CompactJson.library .standard 0 0)
        { pendingClientRequests := [1] }).2.pendingClientRequests = [1] := by
  have hparse : CompactJson.library.parse (CompactJson.write textError) = some textError :=
    CompactJson.parse_write (by decide +kernel)
  have hnone : taken CompactJson.library { pendingClientRequests := [1] }
      (CompactJson.write textError) = none := by
    unfold taken
    rw [hparse]
    rfl
  constructor
  · intro h
    obtain ⟨value, -, -, hsettled⟩ :=
      h.settles textError 1 hparse (by decide +kernel) ⟨by decide, .head _, rfl⟩
    rw [proceed_dispatch, hnone] at hsettled
    exact proceed_asRequest hsettled
  · rw [proceed_takeClientResponse, hnone]
    rfl

end Response

end McpSdk.RequestPromises

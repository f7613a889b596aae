import McpSdk.CompactJson
import McpSdk.JsonRpcConformance
import McpSdk.RequestPromises
import McpSdk.SessionTables
import McpSdk.TaskOutcomes

/-!
# What a failed dispatch leaves behind

A POST /mcp that opens a session registers it before the body is dispatched. Where the dispatch
fails there is no reply with a stream, and only the writer of that stream would remove the session.
So the tables are as before exactly if the dispatch cannot fail, which depends on the body and on
what the handlers that it reaches return or throw.
-/

namespace McpSdk.FailedDispatches
open CppStandardLibrary CooperativeTasks JsonRpcConformance JsonRpcDispatcher RequestPromises

section Rules
variable {I : Interface} {σ : Type} {S : Surroundings I σ} {j : ℕ} {s s' : ℕ → σ}
  {L : JsonLibrary} {d : JsonRpcDispatcher I}

/-- What a handler ended with cannot be written into a response. -/
def Unwritable : Except Exception Json → Prop
  | .ok result => ¬result.serialisable
  | .error e => ¬Dumpable e

/-- The value makes `_handle_single` fail: it is no object, or a request whose method is no string,
a notification whose handler throws at once, or a call whose handler may end with what cannot be
written. -/
def Breaks (S : Surroundings I σ) (d : JsonRpcDispatcher I) (j : ℕ) (s : ℕ → σ) (v : Json) :
    Prop :=
  v.isObject = false ∨ malformed v = false ∧ ((∀ m, v.getD "method".toList ≠ .string m) ∨
    ∃ m, v.getD "method".toList = .string m ∧
      if v.contains "id".toList then ∃ handler, d.methods m = some handler ∧
        ∃ out s', (handler (paramsOf v)).Ends S j s out s' ∧ Unwritable out
      else ∃ handler, d.notifications m = some handler ∧ ∃ e, handler (paramsOf v) = .error e)

theorem serialisable_responseOf {id : Json} (hid : id.serialisable) (result : Json) :
    (JsonRpcResponse.toJson { id := id, result := some result }).serialisable ↔
      result.serialisable := by
  refine ⟨fun h => ?_, serialisable_result hid⟩
  exact Json.serialisable_of_find? h (show Json.find? _ "result".toList = some _ from rfl)

theorem fails_ofExcept_dumpText {v : Json} :
    (do
      let text ← Coroutine.ofExcept (L.dumpText v)
      return some text : Coroutine I Input Exception (Option Str)).Fails S j s ↔
        ¬v.serialisable := by
  have hdumped := L.dump_isSome v
  unfold JsonLibrary.dumpText
  cases hdump : L.dump v with
  | none =>
    rw [hdump] at hdumped
    refine iff_of_true Coroutine.fails_throw ?_
    rw [← hdumped]
    exact Bool.false_ne_true
  | some text =>
    rw [hdump] at hdumped
    refine iff_of_false Coroutine.fails_ret ?_
    rw [← hdumped]
    exact not_not_intro rfl

theorem not_fails_refuse {id : Json} (hid : id.serialisable) (code : JsonRpcErrorCode)
    {message : Str} (hm : isUtf8 message) :
    ¬(refuse (I := I) L id code message).Fails S j s := by
  intro h
  exact fails_ofExcept_dumpText.mp h (serialisable_error hid hm rfl)

theorem fails_handleSingle_of_method {v : Json} (hm : malformed v = false)
    (hmethod : ∀ m, v.getD "method".toList ≠ .string m) :
    (d.handleSingle L v).Fails S j s := by
  unfold handleSingle
  rw [if_neg (by rw [hm]; exact Bool.false_ne_true), Coroutine.fails_bind]
  refine .inl (Coroutine.fails_ofExcept.mpr ?_)
  cases hget : v.getD "method".toList with
  | string m => exact absurd hget (hmethod m)
  | _ => exact ⟨_, rfl⟩

variable (hmean : ∀ s, S.meanwhile s s)
include hmean

/-- The response to a call of a handler. -/
theorem fails_call {id params : Json} (hid : id.serialisable) (handler : MethodHandler I) :
    (do
      let response ← Coroutine.tryCatch
        (do
          let result ← (handler params).coAwait
          return { id := id, result := some result })
        (fun e => return JsonRpcResponse.ofException id e)
      reply L response : Coroutine I Input Exception (Option Str)).Fails S j s ↔
        ∃ out s', (handler params).Ends S j s out s' ∧ Unwritable out := by
  rw [Coroutine.fails_bind]
  constructor
  · rintro (⟨e, s', h⟩ | ⟨response, s₁, h, hreply⟩)
    · rcases Coroutine.ends_andThen.mp h with ⟨r, s₁, -, hr, -⟩ | ⟨e', s₁, -, hr, -⟩
      · cases hr
      · cases hr
    · have hunwritable := fails_ofExcept_dumpText.mp hreply
      rcases Coroutine.ends_andThen.mp h with ⟨r, s₂, hr, heq, -⟩ | ⟨e, s₂, he, heq, -⟩
      · cases heq
        rcases Coroutine.ends_bind.mp hr with ⟨result, s₃, hresult, heq, -⟩ | ⟨e, -, heq⟩
        · cases heq
          obtain ⟨s₄, hends, -⟩ := Coroutine.ends_coAwait.mp hresult
          exact ⟨_, s₄, hends, fun hser => hunwritable ((serialisable_responseOf hid _).mpr hser)⟩
        · cases heq
      · cases heq
        rcases Coroutine.ends_bind.mp he with ⟨result, s₃, -, heq, -⟩ | ⟨e', hfail, heq⟩
        · cases heq
        · cases heq
          obtain ⟨s₄, hends, -⟩ := Coroutine.ends_coAwait.mp hfail
          exact ⟨_, s₄, hends, fun hd => hunwritable ((serialisable_ofException hid _).mpr hd)⟩
  · rintro ⟨out, s', hends, hout⟩
    have hawait := Coroutine.ends_coAwait.mpr ⟨s', hends, hmean s'⟩
    refine .inr ?_
    cases out with
    | ok result =>
      refine ⟨{ id := id, result := some result }, s', ?_, ?_⟩
      · exact Coroutine.ends_andThen.mpr (.inl ⟨_, s',
          Coroutine.ends_bind.mpr (.inl ⟨result, s', hawait, rfl, rfl⟩), rfl, rfl⟩)
      · exact fails_ofExcept_dumpText.mpr (fun h => hout ((serialisable_responseOf hid _).mp h))
    | error e =>
      refine ⟨.ofException id e, s', ?_, ?_⟩
      · exact Coroutine.ends_andThen.mpr (.inr ⟨e, s',
          Coroutine.ends_bind.mpr (.inr ⟨e, hawait, rfl⟩), rfl, rfl⟩)
      · exact fails_ofExcept_dumpText.mpr (fun h => hout ((serialisable_ofException hid _).mp h))

theorem fails_handleSingle_of_call {v : Json} (hv : v.serialisable) (hm : malformed v = false)
    {m : Str} (hmethod : v.getD "method".toList = .string m) (hid : v.contains "id".toList) :
    (d.handleSingle L v).Fails S j s ↔ ∃ handler, d.methods m = some handler ∧
      ∃ out s', (handler (paramsOf v)).Ends S j s out s' ∧ Unwritable out := by
  rw [handleSingle_of_request hm hmethod, if_pos hid]
  cases hfound : d.methods m with
  | none =>
    have hutf8 : isUtf8 m := by
      have hget := serialisable_getD hv "method".toList
      rwa [hmethod] at hget
    refine iff_of_false (not_fails_refuse (serialisable_getD hv _) _
      (isUtf8_append (by decide) hutf8)) ?_
    rintro ⟨handler, h, -⟩
    cases h
  | some handler =>
    refine (fails_call hmean (serialisable_getD hv _) handler).trans ?_
    refine ⟨fun h => ⟨handler, rfl, h⟩, ?_⟩
    rintro ⟨_, ⟨⟩, h⟩
    exact h

omit hmean in
theorem fails_handleSingle_of_notification {v : Json} (hm : malformed v = false) {m : Str}
    (hmethod : v.getD "method".toList = .string m) (hid : ¬v.contains "id".toList) :
    (d.handleSingle L v).Fails S j s ↔
      ∃ handler, d.notifications m = some handler ∧ ∃ e, handler (paramsOf v) = .error e := by
  rw [handleSingle_of_request hm hmethod, if_neg hid]
  cases hfound : d.notifications m with
  | none =>
    refine iff_of_false Coroutine.fails_ret ?_
    rintro ⟨handler, h, -⟩
    cases h
  | some handler =>
    dsimp only
    cases htask : handler (paramsOf v) with
    | ok task =>
      refine iff_of_false (fun h => ?_) ?_
      · rcases Coroutine.fails_bind.mp h with h | ⟨_, _, _, h⟩
        · exact Coroutine.not_fails_background h
        · exact Coroutine.fails_ret h
      · rintro ⟨_, ⟨⟩, e, h⟩
        cases htask.symm.trans h
    | error e => exact iff_of_true Coroutine.fails_throw ⟨handler, rfl, e, htask⟩

theorem fails_handleSingle {v : Json} (hv : v.serialisable) :
    (d.handleSingle L v).Fails S j s ↔ Breaks S d j s v := by
  unfold Breaks
  cases hobj : v.isObject with
  | false =>
    have hm : malformed v = true := by simp [malformed, hobj]
    have hsingle : (d.handleSingle L v).Fails S j s := by
      unfold handleSingle
      rw [if_pos hm, Coroutine.fails_bind]
      refine .inl (Coroutine.fails_ofExcept.mpr ?_)
      simp only [Json.value, hobj, Bool.false_eq_true, if_false]
      exact ⟨_, rfl⟩
    exact iff_of_true hsingle (.inl rfl)
  | true =>
    rw [or_iff_right (fun h => by cases h)]
    cases hm : malformed v with
    | true =>
      rw [handleSingle_of_malformed hobj hm]
      exact iff_of_false (not_fails_refuse (serialisable_getD hv _) _ (by decide))
        (fun h => by cases h.1)
    | false =>
      rw [and_iff_right rfl]
      by_cases hmethod : ∃ m, v.getD "method".toList = .string m
      · obtain ⟨m, hmethod⟩ := hmethod
        have honly : ∀ {P : Str → Prop}, ((∀ m', v.getD "method".toList ≠ .string m') ∨
            ∃ m', v.getD "method".toList = .string m' ∧ P m') ↔ P m := by
          intro P
          refine ⟨?_, fun h => .inr ⟨m, hmethod, h⟩⟩
          rintro (h | ⟨m', h, hP⟩)
          · exact absurd hmethod (h m)
          · cases hmethod.symm.trans h
            exact hP
        rw [honly]
        split
        · exact fails_handleSingle_of_call hmean hv hm hmethod ‹_›
        · exact fails_handleSingle_of_notification hm hmethod ‹_›
      · exact iff_of_true (fails_handleSingle_of_method hm (fun m h => hmethod ⟨m, h⟩))
          (.inl (fun m h => hmethod ⟨m, h⟩))

omit hmean in
theorem serialisable_of_handleElements {elems acc responses : List Json}
    (hacc : ∀ r ∈ acc, r.serialisable)
    (h : (d.handleElements L acc elems).Ends S j s (.ok responses) s') :
    ∀ r ∈ responses, r.serialisable := by
  induction elems generalizing acc s with
  | nil =>
    obtain ⟨hok, -⟩ := h
    cases hok
    exact hacc
  | cons elem elems ih =>
    rw [handleElements] at h
    rcases Coroutine.ends_bind.mp h with ⟨resp, s₁, -, hrest⟩ | ⟨e, -, heq⟩
    · split at hrest
      · rename_i r hr
        obtain ⟨text, -, hparse⟩ := Option.bind_eq_some_iff.mp hr
        refine ih (List.forall_mem_append.mpr ⟨hacc, ?_⟩) hrest
        exact List.forall_mem_singleton.mpr (L.serialisable_of_parse text r hparse)
      · exact ih hacc hrest
    · cases heq

/-- One of the elements of a batch makes it fail, in the states that those before it leave. -/
inductive BatchBreaks (S : Surroundings I σ) (L : JsonLibrary) (d : JsonRpcDispatcher I) (j : ℕ) :
    (ℕ → σ) → List Json → Prop
  | here {s : ℕ → σ} {elem : Json} {elems : List Json} (h : Breaks S d j s elem) :
      BatchBreaks S L d j s (elem :: elems)
  | later {s s₁ : ℕ → σ} {elem : Json} {elems : List Json} (resp : Option Str)
      (hends : (d.handleSingle L elem).coAwait.Ends S j s (.ok resp) s₁)
      (h : BatchBreaks S L d j s₁ elems) : BatchBreaks S L d j s (elem :: elems)

theorem fails_handleElements {elems : List Json} (helems : ∀ v ∈ elems, v.serialisable)
    (acc : List Json) :
    (d.handleElements L acc elems).Fails S j s ↔ BatchBreaks S L d j s elems := by
  induction elems generalizing acc s with
  | nil => exact iff_of_false Coroutine.fails_ret (fun h => by cases h)
  | cons elem elems ih =>
    rw [handleElements, Coroutine.fails_bind, Coroutine.fails_coAwait hmean,
      fails_handleSingle hmean (helems elem (.head _))]
    have hrest := fun v hv => helems v (.tail elem hv)
    constructor
    · rintro (h | ⟨resp, s₁, hends, h⟩)
      · exact .here h
      · refine .later resp hends ?_
        split at h
        · exact (ih hrest _).mp h
        · exact (ih hrest _).mp h
    · intro h
      cases h with
      | here h => exact .inl h
      | later resp hends h =>
        refine .inr ⟨resp, _, hends, ?_⟩
        split
        · exact (ih hrest _).mpr h
        · exact (ih hrest _).mpr h

/-- The body makes `handle_request` fail: a batch that is neither empty nor too large, or one
value. -/
def BodyBreaks (S : Surroundings I σ) (L : JsonLibrary) (d : JsonRpcDispatcher I) (j : ℕ)
    (s : ℕ → σ) (body : Str) : Prop :=
  match L.parse body with
  | none => False
  | some (.array elems) =>
      elems ≠ [] ∧ elems.length ≤ d.maxBatchSize ∧ BatchBreaks S L d j s elems
  | some v => Breaks S d j s v

theorem fails_handleRequest (body : Str) :
    (d.handleRequest L body).Fails S j s ↔ BodyBreaks S L d j s body := by
  unfold handleRequest BodyBreaks
  cases hparse : L.parse body with
  | none => exact iff_of_false (not_fails_refuse rfl _ (by decide)) id
  | some v =>
    have hv := L.serialisable_of_parse body v hparse
    cases v with
    | array elems =>
      dsimp only
      by_cases hempty : elems = []
      · rw [if_pos hempty]
        exact iff_of_false (not_fails_refuse rfl _ (by decide)) (fun h => h.1 hempty)
      · rw [if_neg hempty, and_iff_right hempty]
        by_cases hlarge : elems.length > d.maxBatchSize
        · rw [if_pos hlarge]
          refine iff_of_false (not_fails_refuse rfl _ ?_) (fun h => ?_)
          · exact isUtf8_append (isUtf8_append (by decide) (isUtf8_toStr _)) (by decide)
          · omega
        · rw [if_neg hlarge, and_iff_right (Nat.le_of_not_lt hlarge), Coroutine.fails_bind,
            fails_handleElements hmean (Json.serialisable_array.mp hv)]
          refine or_iff_left ?_
          rintro ⟨responses, s₁, hends, hfails⟩
          have hser := serialisable_of_handleElements (fun r hr => by cases hr) hends
          split at hfails
          · exact Coroutine.fails_ret hfails
          · exact fails_ofExcept_dumpText.mp hfails (Json.serialisable_array.mpr hser)
    | _ => exact (Coroutine.fails_coAwait hmean).trans (fails_handleSingle hmean hv)

end Rules

section Shards

/-- The tables that show a session are the same. -/
structure SameTables (s s' : McpShard) : Prop where
  sessions : s'.sessions = s.sessions
  sessionToIp : s'.sessionToIp = s.sessionToIp
  ipConnCount : s'.ipConnCount = s.ipConnCount
  subscriptions : s'.subscriptions = s.subscriptions

theorem SameTables.refl (s : McpShard) : SameTables s s := ⟨rfl, rfl, rfl, rfl⟩

variable (L : JsonLibrary) (cfg : McpServerConfig) (now : Int) (j : ℕ)

/-- A request on shard `j` whose tables no other task changes in the meantime; all else of the
shards may change. The clock is read by the checks before the dispatch alone. -/
def alone : Surroundings ShardI McpShard where
  exec i := shardExec L cfg i now
  ready := shardReady
  meanwhile s s' := SameTables (s j) (s' j)
  later := True

variable (d : JsonRpcDispatcher HandlerI) {s s' : ℕ → McpShard}

/-- The dispatch of a body under session `id` fails in the states `s`. -/
def DispatchBreaks (s : ℕ → McpShard) (id body : Str) : Prop :=
  taken L (s j) body = none ∧ BodyBreaks (alone L cfg now j).left L d j (Function.update s j
    { s j with currentSessionId := id, currentProgressToken := progressToken L body }) body

theorem fails_dispatch (id body : Str) :
    (dispatch L d body id).Fails (alone L cfg now j) j s ↔
      DispatchBreaks L cfg now j d s id body := by
  have hcall : (dispatch L d body id).Fails (alone L cfg now j) j s ↔ (do
      let handled ← takeClientResponse L body
      if handled then return none
      else asRequest L body d id : ShardTask (Option Str)).Fails (alone L cfg now j) j s := by
    refine Coroutine.fails_perform_bind.trans ?_
    rw [show ((alone L cfg now j).exec j (.inr (.dispatch body id)) (s j)).2 = s j from rfl,
      Function.update_eq_self]
    rfl
  rw [hcall, Coroutine.fails_bind_of_proceed (proceed_takeClientResponse L cfg j now (s j) body),
    DispatchBreaks]
  cases taken L (s j) body with
  | some p => exact iff_of_false Coroutine.fails_ret (fun h => by cases h.1)
  | none =>
    rw [and_iff_right rfl, Option.elim_none, Function.update_eq_self]
    refine Coroutine.fails_perform_bind.trans ?_
    refine (Coroutine.fails_coAwait (fun s => SameTables.refl (s j))).trans ?_
    exact Coroutine.fails_inl.trans (fails_handleRequest (fun s => SameTables.refl (s j)) body)

/-- The id of the session that the next POST without one opens. -/
def nextSessionId (s : McpShard) : Str :=
  "sm".toList ++ toStr j ++ "_".toList ++ toStr (s.nextCounter + 1)

/-- The shard once the session is open. -/
def opened (clientIp : Str) (s : McpShard) : McpShard :=
  { s with nextCounter := s.nextCounter + 1 }.createSessionWithId (nextSessionId j s) clientIp

theorem lookup_opened (clientIp : Str) (s : McpShard) :
    (opened j clientIp s).sessions.lookup (nextSessionId j s) = some s.objects.length :=
  McpShard.getSession_createSessionWithId _ _ _

/-- The request passes the checks that come before the dispatch. -/
def Admitted (req : Request) (s : McpShard) : Prop :=
  McpShard.checkBodySize cfg req.content.length ∧
    (s.checkRequest cfg now (getClientIp req) (getApiKey req)).1 = .ok

/-- The request asks for a session: it names none, and accepts a stream. -/
def OpensSession (req : Request) : Prop :=
  req.header "mcp-session-id".toList = [] ∧
    containsText (req.header "accept".toList) "text/event-stream".toList

/-- The states in which the body of an admitted request is dispatched. -/
def dispatched (req : Request) (s : ℕ → McpShard) : ℕ → McpShard :=
  Function.update s j (opened j (getClientIp req)
    ((s j).checkRequest cfg now (getClientIp req) (getApiKey req)).2)

theorem ends_error_postNewSession {clientIp body : Str} {e : Exception} :
    (StreamableHttpTransport.postNewSession L d j clientIp body).Ends (alone L cfg now j) j s
        (.error e) s' ↔
      (dispatch L d body (nextSessionId j (s j))).coAwait.Ends (alone L cfg now j) j
        (Function.update s j (opened j clientIp (s j))) (.error e) s' := by
  refine Coroutine.ends_perform_bind.trans ?_
  refine Coroutine.ends_perform_bind.trans ?_
  rw [Function.update_idem, Function.update_self]
  have hcreated : ((alone L cfg now j).exec j
      (.inr (.createSessionWithId (nextSessionId j (s j)) clientIp))
      { s j with nextCounter := (s j).nextCounter + 1 }).1 = some (s j).objects.length :=
    McpShard.getSession_createSessionWithId _ _ _
  split
  · rename_i hnone
    cases hcreated.symm.trans hnone
  · refine (Coroutine.ends_error_bind (fun response s₁ => ?_)).trans Iff.rfl
    refine mt Coroutine.fails_perform_bind.mp ?_
    cases response with
    | some text => exact mt Coroutine.fails_perform_bind.mp Coroutine.fails_ret
    | none => exact Coroutine.fails_ret

theorem ends_error_handlePost {req : Request} (hopens : OpensSession req) {e : Exception} :
    (StreamableHttpTransport.handlePost L d j req).Ends (alone L cfg now j) j s (.error e) s' ↔
      Admitted cfg now req (s j) ∧
        (dispatch L d req.content (nextSessionId j (s j))).coAwait.Ends (alone L cfg now j) j
          (dispatched cfg now j req s) (.error e) s' := by
  obtain ⟨hsession, haccept⟩ := hopens
  have hcounter : ((s j).checkRequest cfg now (getClientIp req) (getApiKey req)).2.nextCounter =
      (s j).nextCounter := by
    obtain ⟨rateLimiter, circuitBreaker, h⟩ :=
      McpShard.checkRequest_frame cfg now (getClientIp req) (getApiKey req) (s j)
    rw [h]
  refine Coroutine.ends_perform_bind.trans ?_
  rw [show ((alone L cfg now j).exec j (.inr (.checkBodySize req.content.length)) (s j)).2 = s j
    from rfl, Function.update_eq_self]
  unfold Admitted
  have hrefused : ∀ (reply : Reply) (s₁ : ℕ → McpShard),
      ¬(pure reply : ShardTask Reply).Ends (alone L cfg now j) j s₁ (.error e) s' := by
    rintro reply s₁ ⟨h, -⟩
    cases h
  rw [show ((alone L cfg now j).exec j (.inr (.checkBodySize req.content.length)) (s j)).1 =
    McpShard.checkBodySize cfg req.content.length from rfl]
  cases McpShard.checkBodySize cfg req.content.length with
  | false => exact iff_of_false (hrefused _ _) (fun h => by cases h.1.1)
  | true =>
    rw [and_iff_right rfl]
    refine Coroutine.ends_perform_bind.trans ?_
    rw [show ((alone L cfg now j).exec j (.inr (.checkRequest (getClientIp req) (getApiKey req)))
      (s j)) = (s j).checkRequest cfg now (getClientIp req) (getApiKey req) from rfl]
    by_cases hcheck : ((s j).checkRequest cfg now (getClientIp req) (getApiKey req)).1 = .ok
    · rw [if_neg (not_not_intro hcheck), and_iff_right hcheck]
      dsimp only
      rw [hsession, haccept]
      refine (ends_error_postNewSession L cfg now j d).trans ?_
      rw [Function.update_self, Function.update_idem, nextSessionId, hcounter]
      rfl
    · rw [if_pos hcheck]
      exact iff_of_false (hrefused _ _) (fun h => hcheck h.1)

theorem fails_handlePost {req : Request} (hopens : OpensSession req) :
    (StreamableHttpTransport.handlePost L d j req).Fails (alone L cfg now j) j s ↔
      Admitted cfg now req (s j) ∧ DispatchBreaks L cfg now j d (dispatched cfg now j req s)
        (nextSessionId j (s j)) req.content := by
  have hmean : ∀ s, (alone L cfg now j).meanwhile s s := fun s => SameTables.refl (s j)
  rw [← fails_dispatch, ← Coroutine.fails_coAwait hmean (t := dispatch L d req.content _)]
  constructor
  · rintro ⟨e, s', h⟩
    obtain ⟨hadmitted, h⟩ := (ends_error_handlePost L cfg now j d hopens).mp h
    exact ⟨hadmitted, e, s', h⟩
  · rintro ⟨hadmitted, e, s', h⟩
    exact ⟨e, s', (ends_error_handlePost L cfg now j d hopens).mpr ⟨hadmitted, h⟩⟩

/-- Nothing takes the session out of the table again. -/
theorem not_sameTables {req : Request} (hlinked : (s j).Linked)
    {out : Except Exception (Option Str)}
    (h : (dispatch L d req.content (nextSessionId j (s j))).coAwait.Ends (alone L cfg now j) j
      (dispatched cfg now j req s) out s') : ¬SameTables (s j) (s' j) := by
  have hexec : ∀ i op (s : ℕ → McpShard), DispatchCall op →
      (Function.update s i ((alone L cfg now j).exec i op (s i)).2 j).sessions =
        (s j).sessions := by
    intro i op s hop
    rcases eq_or_ne j i with rfl | hne
    · rw [Function.update_self]
      refine ((frame_shardExec L cfg j now op (s j)).sessions ?_).1
      rcases op with op | op
      · exact id
      · cases op with
        | dispatch | handleClientResponse | setContext => exact id
        | _ => exact hop.elim
    · rw [Function.update_of_ne hne]
  have hsessions : (s' j).sessions = (dispatched cfg now j req s j).sessions :=
    Coroutine.Ends.keeps (R := fun s s' : ℕ → McpShard => (s' j).sessions = (s j).sessions)
      (fun _ => rfl) (fun _ _ _ h h' => h'.trans h) (fun _ _ h => SameTables.sessions h) hexec
      (T := fun _ => True) (calls_dispatch L d (fun _ => trivial) _ _).coAwait h
  intro hsame
  obtain ⟨rateLimiter, circuitBreaker, hcheck⟩ :=
    McpShard.checkRequest_frame cfg now (getClientIp req) (getApiKey req) (s j)
  have hopened := lookup_opened j (getClientIp req)
    ((s j).checkRequest cfg now (getClientIp req) (getApiKey req)).2
  have hold : (s j).sessions = (dispatched cfg now j req s j).sessions :=
    hsame.sessions.symm.trans hsessions
  rw [dispatched, Function.update_self] at hold
  rw [← hold, hcheck] at hopened
  exact absurd (hlinked.bound _ _ hopened) (lt_irrefl _)

/-- Wherever the POST /mcp fails on shard `j` it leaves the tables as they were. -/
def LeavesTables (s : ℕ → McpShard) (req : Request) : Prop :=
  ∀ e s', (StreamableHttpTransport.handlePost L d j req).Ends (alone L cfg now j) j s
    (.error e) s' → SameTables (s j) (s' j)

/-- A POST /mcp that opens a session leaves the tables alone wherever it fails if and only if it
cannot fail: the checks refuse it, or its body is taken for a response or is one that the dispatch
gets through. -/
theorem sameTables_iff {req : Request} (hlinked : (s j).Linked) (hopens : OpensSession req) :
    LeavesTables L cfg now j d s req ↔
      ¬(Admitted cfg now req (s j) ∧ DispatchBreaks L cfg now j d (dispatched cfg now j req s)
        (nextSessionId j (s j)) req.content) := by
  rw [← fails_handlePost L cfg now j d hopens]
  constructor
  · rintro hsame ⟨e, s', h⟩
    obtain ⟨-, hdispatch⟩ := (ends_error_handlePost L cfg now j d hopens).mp h
    exact not_sameTables L cfg now j d hlinked hdispatch (hsame e s' h)
  · intro hfails e s' h
    exact absurd ⟨e, s', h⟩ hfails

end Shards

section Example

def opening (body : Str) : Request where
  header name := if name = "accept".toList then "text/event-stream".toList else []
  content := body

theorem opensSession_opening (body : Str) : OpensSession (opening body) := by
  have hopens : OpensSession (opening []) := ⟨by decide, by decide⟩
  exact hopens

def started : ℕ → McpShard := fun _ => McpServerConfig.standard.shard

theorem linked_started (j : ℕ) : (started j).Linked where
  bound _ _ h := by cases h
  injective _ _ _ h := by cases h

def noHandlers : JsonRpcDispatcher HandlerI where
  methods _ := none
  notifications _ := none

/-- The only method is `ping`. -/
def pingDispatcher : JsonRpcDispatcher HandlerI where
  methods name := if name = "ping".toList then some (fun _ => return .object []) else none
  notifications _ := none

def busy : ℕ → McpShard := fun j => opened j "10.0.0.1".toList (started j)

theorem linked_busy (j : ℕ) : (busy j).Linked := by
  have hsessions : (busy j).sessions =
      (started j).sessions.insert (nextSessionId j (started j)) (started j).objects.length := by
    unfold busy opened McpShard.createSessionWithId McpShard.trackIpConn
    split <;> rfl
  have hobjects : (busy j).objects = (started j).objects ++ [({} : SseSession)] := by
    unfold busy opened McpShard.createSessionWithId McpShard.trackIpConn
    split <;> rfl
  exact (linked_started j).insert hsessions hobjects

/-- A ping is answered, so the session that it has opened stays for its stream, besides the one that
was there. -/
theorem sameTables_iff_ping : LeavesTables CompactJson.library .standard 0 0 pingDispatcher busy
    (opening (CompactJson.write pingRequest)) := by
  refine (sameTables_iff CompactJson.library .standard 0 0 pingDispatcher (linked_busy 0)
    (opensSession_opening _)).mpr ?_
  rintro ⟨-, -, hbody⟩
  have hparse : CompactJson.library.parse (opening (CompactJson.write pingRequest)).content =
      some pingRequest :=
    CompactJson.parse_write (by decide +kernel)
  rw [BodyBreaks, hparse] at hbody
  rcases hbody with hobj | ⟨-, hmethod | ⟨m, hm, hcall⟩⟩
  · cases hobj
  · exact hmethod "ping".toList rfl
  · cases hm
    rw [if_pos (by decide +kernel)] at hcall
    obtain ⟨handler, hhandler, out, s', hends, hout⟩ := hcall
    cases hhandler
    obtain ⟨rfl, -⟩ := hends
    exact hout rfl

/-- The body `7` makes the dispatch fail, and the session stays without a stream. -/
theorem session_left_behind : ¬LeavesTables CompactJson.library .standard 0 0 noHandlers started
    (opening (CompactJson.write (.integer 7))) := by
  intro hsame
  have hparse : CompactJson.library.parse (opening (CompactJson.write (.integer 7))).content =
      some (.integer 7) := CompactJson.parse_write rfl
  have hfails : DispatchBreaks CompactJson.library .standard 0 0 noHandlers
      (dispatched .standard 0 0 (opening (CompactJson.write (.integer 7))) started)
      (nextSessionId 0 (started 0)) (opening (CompactJson.write (.integer 7))).content := by
    refine ⟨?_, ?_⟩
    · rw [taken, hparse]
      rfl
    · rw [BodyBreaks, hparse]
      exact .inl rfl
  have hopens := opensSession_opening (CompactJson.write (.integer 7))
  obtain ⟨e, s', h⟩ := (fails_handlePost CompactJson.library .standard 0 0 noHandlers hopens).mpr
    ⟨⟨by decide +kernel, by decide +kernel⟩, hfails⟩
  obtain ⟨-, hdispatch⟩ := (ends_error_handlePost _ _ _ _ _ hopens).mp h
  exact not_sameTables _ _ _ _ _ (linked_started 0) hdispatch (hsame e s' h)

end Example

end McpSdk.FailedDispatches

import McpSdk.ConformingReplies
import McpSdk.TaskExecutions

/-!
# A batch is its elements in turn

What `handle_request` does for a batch, compared with what it does for the elements as requests of
their own, one after the other. Handlers are marked: an invocation is a call of its own, with
the name of the handler and its params, so that the calls of an execution show who is invoked.
-/

namespace McpSdk.BatchRequests
open CppStandardLibrary CooperativeTasks JsonRpcDispatcher JsonRpcConformance ConformingReplies

variable {I : Interface}

/-- The invocation of a handler. -/
structure Invocation where
  name : Str
  params : Json

def InvocationI : Interface where
  Op := Invocation
  Res _ := Unit
  answer _ := ⟨()⟩

/-- A handler that is marked as invoked before it does anything. -/
def invoked {α : Type} (name : Str) (params : Json) (t : Coroutine I Input Exception α) :
    Coroutine (I.sum InvocationI) Input Exception α := do
  Coroutine.perform (I := I.sum InvocationI) (.inr ⟨name, params⟩)
  t.inl

/-- The dispatcher with marked handlers. -/
def marked (d : JsonRpcDispatcher I) : JsonRpcDispatcher (I.sum InvocationI) where
  methods name := (d.methods name).map (fun handler params =>
    invoked name params (handler params))
  notifications name := (d.notifications name).map (fun handler params =>
    (handler params).map (invoked name params))
  maxBatchSize := d.maxBatchSize

def Readable (L : JsonLibrary) (out : Option Str) : Prop :=
  ∀ text, out = some text → ∃ r, L.parse text = some r

/-- `out` answers a batch whose elements have been answered by `outs`: with the array of what they
say, or not at all. -/
def Combines (L : JsonLibrary) (outs : List (Option Str)) (out : Option Str) : Prop :=
  ∃ responses, List.Forall₂ (fun text r => L.parse text = some r) (outs.filterMap id) responses ∧
    if responses = [] then out = none
    else ∃ text, out = some text ∧ L.parse text = some (.array responses)

/-- No element fails, if the elements are handled in turn from the world `w` on. -/
def NoneFails {W : Type} (L : JsonLibrary) (d : JsonRpcDispatcher I)
    (env : Environment I Input Exception W) : List Json → W → Prop
  | [], _ => True
  | v :: elems, w => ∀ ops w₁ r, (d.handleSingle L v).Executes env w ops w₁ r →
      (∃ out, r = .ok out) ∧ ∀ w₂, env.meanwhile w₁ w₂ → NoneFails L d env elems w₂

variable {L : JsonLibrary} {d : JsonRpcDispatcher I}

section Single
variable {W : Type} {env : Environment I Input Exception W} {w w' : W} {ops : List I.Op} {v : Json}

theorem readable_of_executes {out : Option Str}
    (hx : (d.handleSingle L v).Executes env w ops w' (.ok out)) : Readable L out := by
  obtain ⟨-, reply, -, hout⟩ := Coroutine.Follows.of_executes
    (yields_delivers (T := fun _ => True) (fun _ => trivial) v) (fun _ _ => trivial) hx
  rintro text rfl
  cases reply with
  | none => cases hout
  | some r =>
    obtain ⟨text', r', heq, hparse, -⟩ := hout
    cases heq
    exact ⟨r', hparse⟩

theorem isObject_of_executes
    (h : ∀ ops w' r, (d.handleSingle L v).Executes env w ops w' r → ∃ out, r = .ok out) :
    v.isObject := by
  by_contra hobj
  have hm : malformed v = true := by
    unfold malformed
    rw [Bool.eq_false_iff.mpr hobj]
    rfl
  have hthrow : ∃ e, d.handleSingle L v = .throw e := by
    simp only [handleSingle, hm, if_true, Json.value, Bool.eq_false_iff.mpr hobj]
    exact ⟨_, rfl⟩
  obtain ⟨e, he⟩ := hthrow
  obtain ⟨out, hout⟩ := h [] w (.error e) (he ▸ ⟨rfl, rfl, rfl⟩)
  cases hout

theorem noneFails_of_completes {elems : List Json}
    (h : ∀ v ∈ elems, Completes (d.handleSingle L v) (fun _ => True)) (w : W) :
    NoneFails L d env elems w := by
  induction elems generalizing w with
  | nil => trivial
  | cons v elems ih =>
    intro ops w₁ r hx
    refine ⟨?_, fun w₂ _ => ih (fun v hv => h v (.tail _ hv)) w₂⟩
    obtain ⟨-, hend⟩ := Coroutine.Follows.of_executes (h v (.head _)) (fun _ _ => trivial) hx
    cases r with
    | ok out => exact ⟨out, rfl⟩
    | error e => exact hend.elim

end Single

section Batch
variable {W : Type} {env : Environment I Input Exception W} {w w' : W} {ops : List I.Op}

theorem handleElements_cons (responses : List Json) (v : Json) (elems : List Json) :
    d.handleElements L responses (v :: elems) = (do
      let out ← (d.handleSingle L v).coAwait
      d.handleElements L (responses ++ (out.bind L.parse).toList) elems) := by
  rw [handleElements]
  congr 1
  funext out
  cases out.bind L.parse with
  | none => rw [Option.toList_none, List.append_nil]
  | some r => rfl

/-- The loop over a batch handles the elements in turn and collects what they say. -/
theorem executes_handleElements {elems : List Json} (h : NoneFails L d env elems w)
    {responses : List Json} {r : Except Exception (List Json)} :
    (d.handleElements L responses elems).Executes env w ops w' r ↔
      ∃ outs, r = .ok (responses ++ outs.filterMap (·.bind L.parse)) ∧
        InTurn env (elems.map (fun v => (d.handleSingle L v).coAwait)) w ops w' outs := by
  induction elems generalizing responses w ops with
  | nil =>
    constructor
    · rintro ⟨rfl, rfl, rfl⟩
      exact ⟨[], by rw [List.filterMap_nil, List.append_nil], rfl, rfl, rfl⟩
    · rintro ⟨_, rfl, rfl, rfl, rfl⟩
      exact ⟨rfl, rfl, by rw [List.filterMap_nil, List.append_nil]⟩
  | cons v elems ih =>
    have hcollected : ∀ (out : Option Str) (outs : List (Option Str)),
        responses ++ (out :: outs).filterMap (·.bind L.parse) =
          responses ++ (out.bind L.parse).toList ++ outs.filterMap (·.bind L.parse) := by
      intro out outs
      rw [List.append_assoc, List.filterMap_cons]
      cases out.bind L.parse <;> rfl
    rw [handleElements_cons, Coroutine.executes_bind]
    constructor
    · rintro ⟨first, rest, w₁, r₁, rfl, hx, hmore⟩
      obtain ⟨w₀, hsingle, hmeanwhile⟩ := Coroutine.executes_coAwait.mp hx
      obtain ⟨⟨out, rfl⟩, helems⟩ := h _ _ _ hsingle
      obtain ⟨outs, rfl, hturn⟩ := (ih (helems w₁ hmeanwhile)).mp hmore
      exact ⟨out :: outs, congrArg Except.ok (hcollected out outs).symm,
        first, rest, w₁, out, outs, rfl, rfl, hx, hturn⟩
    · rintro ⟨_, rfl, first, rest, w₁, out, outs, rfl, rfl, hx, hturn⟩
      obtain ⟨w₀, hsingle, hmeanwhile⟩ := Coroutine.executes_coAwait.mp hx
      obtain ⟨-, helems⟩ := h _ _ _ hsingle
      exact ⟨first, rest, w₁, .ok out, rfl, hx, (ih (helems w₁ hmeanwhile)).mpr
        ⟨outs, congrArg Except.ok (hcollected out outs), hturn⟩⟩

theorem readable_of_inTurn {elems : List Json} {outs : List (Option Str)}
    (hturn : InTurn env (elems.map (fun v => (d.handleSingle L v).coAwait)) w ops w' outs) :
    ∀ out ∈ outs, Readable L out := by
  induction elems generalizing w ops outs with
  | nil =>
    obtain ⟨-, -, rfl⟩ := hturn
    exact nofun
  | cons v elems ih =>
    obtain ⟨first, rest, w₁, out, outs, rfl, rfl, hx, hmore⟩ := hturn
    obtain ⟨w₀, hsingle, -⟩ := Coroutine.executes_coAwait.mp hx
    exact List.forall_mem_cons.mpr ⟨readable_of_executes hsingle, ih hmore⟩

theorem forall_collected {outs : List (Option Str)} (h : ∀ out ∈ outs, Readable L out) :
    List.Forall₂ (fun text r => L.parse text = some r) (outs.filterMap id)
      (outs.filterMap (·.bind L.parse)) := by
  induction outs with
  | nil => exact .nil
  | cons out outs ih =>
    have ih := ih (fun out hout => h out (.tail _ hout))
    cases out with
    | none => exact ih
    | some text =>
      obtain ⟨r, hr⟩ := h (some text) (List.mem_cons_self ..) text rfl
      rw [List.filterMap_cons, List.filterMap_cons]
      simp only [id, Option.bind_some, hr]
      exact .cons hr ih

/-- The end of `handle_request` for a batch. -/
def combined (L : JsonLibrary) (responses : List Json) :
    Coroutine I Input Exception (Option Str) := do
  if responses = [] then return none
  let text ← Coroutine.ofExcept (L.dumpText (.array responses))
  return some text

theorem handleRequest_batch {body : Str} {elems : List Json}
    (hbody : L.parse body = some (.array elems)) (hne : elems ≠ [])
    (hlen : elems.length ≤ d.maxBatchSize) :
    d.handleRequest L body = d.handleElements L [] elems >>= combined L := by
  simp only [handleRequest, hbody, if_neg hne, if_neg (not_lt.mpr hlen)]
  rfl

theorem combined_eq {responses : List Json} (h : ∀ r ∈ responses, r.serialisable) :
    ∃ out, (if responses = [] then out = none
        else ∃ text, out = some text ∧ L.parse text = some (.array responses)) ∧
      combined (I := I) L responses = pure out := by
  by_cases hnil : responses = []
  · exact ⟨none, by rw [if_pos hnil], by rw [combined, if_pos hnil]⟩
  · obtain ⟨text, htext⟩ := Option.isSome_iff_exists.mp
      ((L.dump_isSome (.array responses)).trans (Json.serialisable_array.mpr h))
    refine ⟨some text, ?_, ?_⟩
    · rw [if_neg hnil]
      exact ⟨text, rfl, L.parse_dump _ _ htext⟩
    · rw [combined, if_neg hnil, JsonLibrary.dumpText, htext]
      rfl

theorem combines_collected {outs : List (Option Str)} (h : ∀ out ∈ outs, Readable L out) :
    ∃ out, Combines L outs out ∧
      combined (I := I) L (outs.filterMap (·.bind L.parse)) = pure out := by
  have hserialisable : ∀ r ∈ outs.filterMap (·.bind L.parse), r.serialisable := by
    intro r hr
    obtain ⟨out, -, hparse⟩ := List.mem_filterMap.mp hr
    obtain ⟨text, -, hparse⟩ := Option.bind_eq_some_iff.mp hparse
    exact L.serialisable_of_parse text r hparse
  obtain ⟨out, hout, heq⟩ := combined_eq (I := I) hserialisable
  exact ⟨out, ⟨_, forall_collected h, hout⟩, heq⟩

theorem handleRequest_single {body : Str} {v : Json} (hbody : L.parse body = some v)
    (hobj : v.isObject) : d.handleRequest L body = (d.handleSingle L v).coAwait := by
  cases v with
  | object members => simp only [handleRequest, hbody]
  | _ => cases hobj

theorem inTurn_handleRequest {bodies : List Str} {elems : List Json}
    (hbodies : List.Forall₂ (fun body v => L.parse body = some v) bodies elems)
    (h : NoneFails L d env elems w) {outs : List (Option Str)} :
    InTurn env (bodies.map (d.handleRequest L)) w ops w' outs ↔
      InTurn env (elems.map (fun v => (d.handleSingle L v).coAwait)) w ops w' outs := by
  induction hbodies generalizing w ops outs with
  | nil => rfl
  | @cons body v bodies elems hbody _ ih =>
    have hobj : v.isObject := isObject_of_executes (fun ops w₁ r hx => (h ops w₁ r hx).1)
    simp only [List.map_cons, InTurn, handleRequest_single hbody hobj]
    refine exists_congr fun first => exists_congr fun rest => exists_congr fun w₁ =>
      exists_congr fun out => exists_congr fun more => and_congr_right fun _ =>
      and_congr_right fun _ => and_congr_right fun hx => ?_
    obtain ⟨w₀, hsingle, hmeanwhile⟩ := Coroutine.executes_coAwait.mp hx
    exact ih ((h _ _ _ hsingle).2 w₁ hmeanwhile)

theorem executes_refused {body : Str} {elems : List Json} {r : Except Exception (Option Str)}
    (hbody : L.parse body = some (.array elems))
    (hsize : elems = [] ∨ elems.length > d.maxBatchSize)
    (hx : (d.handleRequest L body).Executes env w ops w' r) : ops = [] ∧ w' = w := by
  have hrefuse : ∀ message,
      (refuse (I := I) L .null .invalidRequest message).Executes env w ops w' r →
        ops = [] ∧ w' = w := by
    intro message hx
    rw [refuse, reply] at hx
    cases hdump : L.dumpText (JsonRpcResponse.toJson
        { id := .null, error := some ⟨.invalidRequest, message, .null⟩ }) with
    | ok text =>
      rw [hdump] at hx
      exact ⟨hx.1, hx.2.1⟩
    | error e =>
      rw [hdump] at hx
      exact ⟨hx.1, hx.2.1⟩
  simp only [handleRequest, hbody] at hx
  by_cases hnil : elems = []
  · rw [if_pos hnil] at hx
    exact hrefuse _ hx
  · rw [if_neg hnil, if_pos (hsize.resolve_left hnil)] at hx
    exact hrefuse _ hx

end Batch

/-- A batch within the limit, on whose elements nothing fails, comes from where to where handling
its elements in turn does, with the same invocations and the same calls in the same order, and is
answered by the responses of the elements. An empty or oversized batch invokes nothing. -/
theorem batch_in_turn (L : JsonLibrary) (d : JsonRpcDispatcher I) {W : Type}
    (env : Environment (I.sum InvocationI) Input Exception W) (body : Str) (elems : List Json)
    (hbody : L.parse body = some (.array elems)) (w w' : W) (ops : List (I.sum InvocationI).Op) :
    (elems = [] ∨ elems.length > d.maxBatchSize →
      ∀ r, ((marked d).handleRequest L body).Executes env w ops w' r → ops = [] ∧ w' = w) ∧
    (elems ≠ [] → elems.length ≤ d.maxBatchSize →
      NoneFails L (marked d) env elems w →
      ∀ bodies, List.Forall₂ (fun body v => L.parse body = some v) bodies elems →
        (∀ r, ((marked d).handleRequest L body).Executes env w ops w' r →
          ∃ outs out, r = .ok out ∧ Combines L outs out ∧
            InTurn env (bodies.map ((marked d).handleRequest L)) w ops w' outs) ∧
        ∀ outs, InTurn env (bodies.map ((marked d).handleRequest L)) w ops w' outs →
          ∃ out, Combines L outs out ∧
            ((marked d).handleRequest L body).Executes env w ops w' (.ok out)) := by
  refine ⟨fun hsize r hx => executes_refused hbody hsize hx, fun hne hlen h bodies hbodies => ?_⟩
  simp only [inTurn_handleRequest hbodies h, handleRequest_batch (d := marked d) hbody hne hlen]
  constructor
  · intro r hx
    obtain ⟨first, rest, w₁, r₁, rfl, hloop, hend⟩ := (Coroutine.executes_bind _ _).mp hx
    obtain ⟨outs, rfl, hturn⟩ := (executes_handleElements h).mp hloop
    obtain ⟨out, hout, heq⟩ :=
      combines_collected (I := I.sum InvocationI) (readable_of_inTurn hturn)
    obtain ⟨rfl, rfl, rfl⟩ : rest = [] ∧ w' = w₁ ∧ r = .ok out := by
      simp only [List.nil_append, heq] at hend
      exact hend
    rw [List.append_nil]
    exact ⟨outs, out, rfl, hout, hturn⟩
  · intro outs hturn
    obtain ⟨out, hout, heq⟩ :=
      combines_collected (I := I.sum InvocationI) (readable_of_inTurn hturn)
    refine ⟨out, hout, (Coroutine.executes_bind _ _).mpr ⟨ops, [], w', _, ?_,
      (executes_handleElements h).mpr ⟨outs, rfl, hturn⟩, ?_⟩⟩
    · rw [List.append_nil]
    · simp only [List.nil_append, heq]
      exact ⟨rfl, rfl, rfl⟩

theorem executes_reply {W : Type} {env : Environment I Input Exception W} {w : W}
    {response : JsonRpcResponse} {text : Str} (hdump : L.dump response.toJson = some text) :
    (reply L response).Executes env w [] w (.ok (some text)) := by
  have htext : L.dumpText response.toJson = .ok text := by rw [JsonLibrary.dumpText, hdump]
  rw [reply, htext]
  exact ⟨rfl, rfl, rfl⟩

/-- A world that counts the invocations of handlers that call nothing. -/
def countingInvocations (hnone : I.Op → Empty) :
    Environment (I.sum InvocationI) Input Exception ℕ where
  perform
    | .inl op, _ => (hnone op).elim
    | .inr _, w => ((), w + 1)
  ready _ _ := True
  start _ w := w
  send _ _ w := w
  meanwhile w w' := w' = w

def pong : Json := JsonRpcResponse.toJson { id := .integer 1, result := some (.object []) }

theorem malformed_ping : malformed pingRequest = false := by decide +kernel

theorem executes_ping {body text : Str} (hparse : L.parse body = some pingRequest)
    (hdump : L.dump pong = some text) (n : ℕ) :
    ((marked pingDispatcher).handleRequest L body).Executes (countingInvocations id) n
      [.inr ⟨"ping".toList, .object []⟩] (n + 1) (.ok (some text)) := by
  have hid : pingRequest.getD "id".toList = .integer 1 := rfl
  have hparams : paramsOf pingRequest = .object [] := rfl
  have hmethod : (marked pingDispatcher).methods "ping".toList =
      some (fun params => invoked "ping".toList params (pure (.object []))) := rfl
  rw [handleRequest_single hparse rfl,
    handleSingle_of_request malformed_ping (m := "ping".toList) rfl, if_pos (by decide +kernel)]
  simp only [hmethod, hid, hparams]
  apply (Coroutine.executes_andThen _ _ _).mpr
  refine ⟨_, [], n + 1, .ok (some text), (List.append_nil _).symm, ?_, .ok .null, n + 1, rfl,
    rfl, rfl, rfl⟩
  apply (Coroutine.executes_bind _ _).mpr
  exact ⟨_, [], n + 1, .ok { id := .integer 1, result := some (.object []) },
    (List.append_nil _).symm, ⟨[], rfl, .ok .null, n + 1, rfl, rfl, rfl, rfl⟩, executes_reply hdump⟩

/-- Two pings in a batch invoke the handler twice and get two responses. -/
theorem batch_in_turn_pings : ∃ batch text out,
    CompactJson.library.parse batch = some (.array [pingRequest, pingRequest]) ∧
    CompactJson.library.parse text = some pong ∧
    Combines CompactJson.library [some text, some text] out ∧
    ((marked pingDispatcher).handleRequest CompactJson.library batch).Executes
      (countingInvocations id) 0
      [.inr ⟨"ping".toList, .object []⟩, .inr ⟨"ping".toList, .object []⟩] 2 (.ok out) := by
  have written : ∀ {j : Json}, j.serialisable → ∃ text, CompactJson.library.dump j = some text ∧
      CompactJson.library.parse text = some j := by
    intro j hj
    obtain ⟨text, htext⟩ :=
      Option.isSome_iff_exists.mp ((CompactJson.library.dump_isSome j).trans hj)
    exact ⟨text, htext, CompactJson.library.parse_dump _ _ htext⟩
  have hping : pingRequest.serialisable := by decide +kernel
  have hall : ∀ v ∈ [pingRequest, pingRequest], v.serialisable :=
    List.forall_mem_cons.mpr ⟨hping, List.forall_mem_singleton.mpr hping⟩
  obtain ⟨body, -, hbody⟩ := written hping
  obtain ⟨batch, -, hbatch⟩ := written (Json.serialisable_array.mpr hall)
  obtain ⟨text, hdump, htext⟩ := written (j := pong) (by decide +kernel)
  have hreturns : HandlersReturnJson (marked pingDispatcher) := by
    intro name handler h params
    obtain ⟨handler', h', rfl⟩ := Option.map_eq_some_iff.mp h
    simp only [pingDispatcher] at h'
    split at h'
    · obtain rfl := Option.some.inj h'
      exact ⟨trivial, fun _ _ => (rfl : (Json.object []).serialisable = true)⟩
    · cases h'
  have hcompletes : Completes ((marked pingDispatcher).handleSingle CompactJson.library pingRequest)
      (fun _ => True) := by
    refine (completes_handleSingle hreturns hping ?_).mono (fun _ _ _ => trivial) (fun _ _ h => h)
    refine ⟨rfl, .inr ⟨"ping".toList, rfl, ?_⟩⟩
    rintro handler ⟨⟩
    exact ⟨trivial, fun _ _ => trivial⟩
  have hturn := InTurn.cons (executes_ping hbody hdump 0)
    (InTurn.cons (executes_ping hbody hdump 1) InTurn.nil)
  obtain ⟨out, hout, hx⟩ := ((batch_in_turn CompactJson.library pingDispatcher
    (countingInvocations id) batch [pingRequest, pingRequest] hbatch 0 2
    [.inr ⟨"ping".toList, .object []⟩, .inr ⟨"ping".toList, .object []⟩]).2 (List.cons_ne_nil _ _)
    (by decide)
    (noneFails_of_completes (List.forall_mem_cons.mpr
      ⟨hcompletes, List.forall_mem_singleton.mpr hcompletes⟩) 0)
    [body, body] (.cons hbody (.cons hbody .nil))).2 [some text, some text] hturn
  exact ⟨batch, text, out, hbatch, htext, hout, hx⟩

end McpSdk.BatchRequests

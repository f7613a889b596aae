import McpSdk.JsonRpcDispatcher
import McpSdk.CompactJson

/-!
# Which bodies the dispatcher answers

JSON-RPC 2.0 for one value and for a batch, as a relation between a body and the text that
answers it, and the bodies for which `handle_request` keeps to it. What it does not survive are
values that are no objects (reading their `id` throws), methods that are no strings, handlers
whose exceptions cannot be written as JSON, and notification handlers that throw at once.
-/

namespace McpSdk.JsonRpcConformance
open CppStandardLibrary CooperativeTasks JsonRpcDispatcher

variable {I : Interface}

/-- No demands on the calls of a coroutine, only on how it ends. -/
abbrev anything : Contract I Unit := .addressing I (fun _ => True)

/-- Whatever it is answered, the coroutine ends with a result in `Q` and does not fail. -/
def Completes {α : Type} (t : Coroutine I Input Exception α) (Q : α → Prop) : Prop :=
  t.Follows anything () (fun a _ => Q a) (fun _ _ => False)

/-- Every method handler returns a serialisable value or throws. -/
def HandlersReturnJson (d : JsonRpcDispatcher I) : Prop :=
  ∀ name handler, d.methods name = some handler → ∀ params,
    (handler params).Follows anything () (fun v _ => v.serialisable) (fun _ _ => True)

/-- A JSON-RPC 2.0 request for the method `m`, with or without an `id`. -/
def IsRequest (v : Json) (m : Str) : Prop :=
  v.find? "jsonrpc".toList = some (.string "2.0".toList) ∧
    v.find? "method".toList = some (.string m)

def IsNotification (v : Json) : Prop := (∃ m, IsRequest v m) ∧ v.find? "id".toList = none

/-- A response object with the given `id` and exactly one of `result` and `error`. -/
structure IsResponse (id r : Json) : Prop where
  jsonrpc : r.find? "jsonrpc".toList = some (.string "2.0".toList)
  id : r.find? "id".toList = some id
  exclusive : r.contains "result".toList = !r.contains "error".toList

def HasErrorCode (r : Json) (code : Int) : Prop :=
  (r.find? "error".toList).bind (·.find? "code".toList) = some (.integer code)

/-- `r` is a JSON-RPC response to the value `v`. -/
structure Answers (d : JsonRpcDispatcher I) (v r : Json) : Prop where
  response : IsResponse (v.getD "id".toList) r
  invalid : (∀ m, ¬IsRequest v m) → HasErrorCode r (-32600)
  unknown : ∀ m, IsRequest v m → d.methods m = none → HasErrorCode r (-32601)

/-- What a single value is owed: nothing if it is a notification, one response otherwise. -/
def Settles (d : JsonRpcDispatcher I) (v : Json) : Option Json → Prop
  | none => IsNotification v
  | some r => ¬IsNotification v ∧ Answers d v r

/-- The text is there and reads as a value in `P`. -/
def Says (L : JsonLibrary) (out : Option Str) (P : Json → Prop) : Prop :=
  ∃ text r, out = some text ∧ L.parse text = some r ∧ P r

/-- `out` is what the single value is owed. -/
def Delivers (L : JsonLibrary) (d : JsonRpcDispatcher I) (v : Json) (out : Option Str) : Prop :=
  ∃ reply, Settles d v reply ∧
    match reply with
    | none => out = none
    | some r => Says L out (fun r' => r' = r)

/-- `out` answers the body as JSON-RPC 2.0 asks. -/
def Conforms (L : JsonLibrary) (d : JsonRpcDispatcher I) (body : Str) (out : Option Str) : Prop :=
  match L.parse body with
  | none => Says L out (fun r => IsResponse .null r ∧ HasErrorCode r (-32700))
  | some (.array elems) =>
      if elems = [] ∨ elems.length > d.maxBatchSize then
        Says L out (fun r => IsResponse .null r ∧ HasErrorCode r (-32600))
      else ∃ replies : List (Option Json), List.Forall₂ (Settles d) elems replies ∧
        if replies.filterMap id = [] then out = none
        else Says L out (fun r => r = .array (replies.filterMap id))
  | some v => Delivers L d v out

/-- The exception can be written into a response. -/
def Dumpable : Exception → Prop
  | .std what => isUtf8 what
  | .jsonRpc _ message data => isUtf8 message ∧ data.serialisable

def paramsOf (v : Json) : Json := (v.find? "params".toList).getD (.object [])

/-- The handler that the value `v` reaches under the name `m` does not break the response: a
method handler throws only what can be written, a notification handler does not throw at once. -/
def HandlerAnswers (d : JsonRpcDispatcher I) (v : Json) (m : Str) : Prop :=
  if v.contains "id".toList then
    ∀ handler, d.methods m = some handler →
      (handler (paramsOf v)).Follows anything () (fun _ _ => True) (fun e _ => Dumpable e)
  else ∀ handler, d.notifications m = some handler → ∃ t, handler (paramsOf v) = .ok t

/-- A single value the dispatcher answers: an object which, if it has `jsonrpc` "2.0" and a
`method`, names its method by a string and reaches a handler that answers. -/
def AnswerableValue (d : JsonRpcDispatcher I) (v : Json) : Prop :=
  v.isObject ∧ (malformed v ∨
    ∃ m, v.getD "method".toList = .string m ∧ HandlerAnswers d v m)

/-- A body the dispatcher answers: no JSON at all, a batch that is empty or too large, a batch of
answerable values, or one answerable value. -/
def Answerable (L : JsonLibrary) (d : JsonRpcDispatcher I) (body : Str) : Prop :=
  match L.parse body with
  | none => True
  | some (.array elems) =>
      elems = [] ∨ elems.length > d.maxBatchSize ∨ ∀ v ∈ elems, AnswerableValue d v
  | some v => AnswerableValue d v

variable {L : JsonLibrary} {d : JsonRpcDispatcher I}

section Responses

theorem isResponse_error (id : Json) (e : JsonRpcError) :
    IsResponse id (JsonRpcResponse.toJson { id := id, error := some e }) := ⟨rfl, rfl, rfl⟩

theorem hasErrorCode_error (id : Json) (e : JsonRpcError) :
    HasErrorCode (JsonRpcResponse.toJson { id := id, error := some e }) e.code.toInt := rfl

theorem isResponse_result (id v : Json) :
    IsResponse id (JsonRpcResponse.toJson { id := id, result := some v }) := ⟨rfl, rfl, rfl⟩

theorem isResponse_ofException (id : Json) (e : Exception) :
    IsResponse id (JsonRpcResponse.ofException id e).toJson := by
  cases e <;> exact isResponse_error id _

theorem serialisable_code (c : JsonRpcErrorCode) : (Json.integer c.toInt).serialisable := by
  cases c <;> decide

theorem serialisable_error {id data : Json} {c : JsonRpcErrorCode} {message : Str}
    (hid : id.serialisable) (hm : isUtf8 message) (hd : data.serialisable) :
    (JsonRpcResponse.toJson { id := id, error := some ⟨c, message, data⟩ }).serialisable := by
  have he : (JsonRpcError.toJson ⟨c, message, data⟩).serialisable := by
    refine Json.serialisable_ofMembers ?_
    simp only [List.forall_mem_cons]
    exact ⟨⟨by decide, serialisable_code c⟩, ⟨by decide, hm⟩, ⟨by decide, hd⟩, by simp⟩
  refine Json.serialisable_ofMembers ?_
  simp only [List.forall_mem_cons]
  exact ⟨⟨by decide, by decide⟩, ⟨by decide, hid⟩, ⟨by decide, he⟩, by simp⟩

theorem serialisable_result {id v : Json} (hid : id.serialisable) (hv : v.serialisable) :
    (JsonRpcResponse.toJson { id := id, result := some v }).serialisable := by
  refine Json.serialisable_ofMembers ?_
  simp only [List.forall_mem_cons]
  exact ⟨⟨by decide, by decide⟩, ⟨by decide, hid⟩, ⟨by decide, hv⟩, by simp⟩

theorem serialisable_ofException {id : Json} (hid : id.serialisable) (e : Exception) :
    (JsonRpcResponse.ofException id e).toJson.serialisable ↔ Dumpable e := by
  have parts : ∀ {c : JsonRpcErrorCode} {message : Str} {data : Json},
      (JsonRpcResponse.toJson { id := id, error := some ⟨c, message, data⟩ }).serialisable ↔
        isUtf8 message ∧ data.serialisable := by
    intro c message data
    refine ⟨fun h => ?_, fun h => serialisable_error hid h.1 h.2⟩
    have he : (JsonRpcError.toJson ⟨c, message, data⟩).serialisable :=
      Json.serialisable_of_find? h (show Json.find? _ "error".toList = some _ from rfl)
    exact ⟨Json.serialisable_of_find? he (show Json.find? _ "message".toList = some _ from rfl),
      Json.serialisable_of_find? he (show Json.find? _ "data".toList = some _ from rfl)⟩
  cases e with
  | std what =>
    rw [JsonRpcResponse.ofException, parts]
    exact and_iff_left (by decide)
  | jsonRpc code message data => exact parts

end Responses

section Single

theorem serialisable_getD {v : Json} (hv : v.serialisable) (key : Str) :
    (v.getD key).serialisable := by
  cases h : v.find? key with
  | none => simp [Json.getD, h, Json.serialisable]
  | some w =>
    rw [Json.getD, h]
    exact Json.serialisable_of_find? hv h

theorem completes_reply (r : JsonRpcResponse) (Q : Option Str → Prop) :
    Completes (reply (I := I) L r) Q ↔ ∃ text, L.dump r.toJson = some text ∧ Q (some text) := by
  unfold Completes reply JsonLibrary.dumpText
  cases L.dump r.toJson <;> simp [Coroutine.ofExcept]

theorem completes_reply_of_serialisable {r : JsonRpcResponse} (hr : r.toJson.serialisable)
    {Q : Option Str → Prop} (hQ : ∀ text, L.parse text = some r.toJson → Q (some text)) :
    Completes (reply (I := I) L r) Q := by
  obtain ⟨text, htext⟩ := Option.isSome_iff_exists.mp ((L.dump_isSome r.toJson).trans hr)
  exact (completes_reply r Q).mpr ⟨text, htext, hQ text (L.parse_dump _ _ htext)⟩

theorem malformed_eq_false_iff {v : Json} : malformed v = false ↔
    v.isObject ∧ v.find? "jsonrpc".toList = some (.string "2.0".toList) ∧
      v.contains "method".toList := by
  cases v with
  | object ms =>
    cases hj : (Json.object ms).find? "jsonrpc".toList with
    | none => simp [malformed, Json.contains, hj, -String.reduceToList]
    | some w =>
      cases w <;>
        simp [malformed, Json.contains, Json.getD, hj, Json.isObject, -String.reduceToList]
  | _ => simp [malformed, Json.isObject]

theorem handleSingle_of_malformed {v : Json} (hobj : v.isObject) (hm : malformed v) :
    d.handleSingle L v =
      refuse L (v.getD "id".toList) .invalidRequest "Invalid Request".toList := by
  simp only [handleSingle, hm, if_true, Json.value, hobj]
  rfl

theorem handleSingle_of_request {v : Json} {m : Str} (hm : malformed v = false)
    (hmethod : v.getD "method".toList = .string m) :
    d.handleSingle L v =
      if v.contains "id".toList then
        match d.methods m with
        | none => refuse L (v.getD "id".toList) .methodNotFound ("Method not found: ".toList ++ m)
        | some handler => do
            let response ← Coroutine.tryCatch
              (do
                let result ← (handler (paramsOf v)).coAwait
                return { id := v.getD "id".toList, result := some result })
              (fun e => return JsonRpcResponse.ofException (v.getD "id".toList) e)
            reply L response
      else do
        match d.notifications m with
        | some handler =>
            match handler (paramsOf v) with
            | .ok task => task.background
            | .error e => .throw e
        | none => pure ()
        return none := by
  have hobj := (malformed_eq_false_iff.mp hm).1
  simp only [handleSingle, hm, hmethod, Json.getString, Json.value, hobj, if_true]
  cases v.contains "id".toList <;> rfl

/-- A JSON-RPC request that asks for a response. -/
def IsCall (v : Json) : Prop := (∃ m, IsRequest v m) ∧ v.contains "id".toList

/-- The text is a response to the call in the body. -/
def Responds (L : JsonLibrary) (body text : Str) : Prop :=
  ∃ v r, L.parse body = some v ∧ L.parse text = some r ∧ IsResponse (v.getD "id".toList) r

theorem yields_reply {A : I.Op → Prop} {T : ℕ → Prop} {id : Json} {r : JsonRpcResponse}
    (h : IsResponse id r.toJson) :
    (reply (I := I) L r).Yields A T (fun out => Says L out (IsResponse id)) := by
  unfold reply JsonLibrary.dumpText
  cases hdump : L.dump r.toJson with
  | none => exact .throw _
  | some text => exact .pure ⟨text, r.toJson, rfl, L.parse_dump _ _ hdump, h⟩

theorem yields_handleSingle {T : ℕ → Prop} (hT : ∀ n, T n) {v : Json} (hobj : v.isObject)
    (hcall : IsCall v) : (d.handleSingle L v).Yields (fun _ => True) T
      (fun out => Says L out (IsResponse (v.getD "id".toList))) := by
  obtain ⟨⟨m, hjsonrpc, hmethod⟩, hid⟩ := hcall
  have hcontains : v.contains "method".toList := by rw [Json.contains, hmethod]; rfl
  have hm : malformed v = false := malformed_eq_false_iff.mpr ⟨hobj, hjsonrpc, hcontains⟩
  have hget : v.getD "method".toList = .string m := by rw [Json.getD, hmethod]; rfl
  rw [handleSingle_of_request hm hget, if_pos hid]
  split
  · exact yields_reply (isResponse_error _ _)
  · rename_i handler _
    have hresult : (do
        let result ← (handler (paramsOf v)).coAwait
        return { id := v.getD "id".toList, result := some result } :
          Coroutine I Input Exception JsonRpcResponse).Yields (fun _ => True) T
        (fun r => IsResponse (v.getD "id".toList) r.toJson) :=
      .bind (Coroutine.Addresses.of_all hT _).coAwait (fun result => isResponse_result _ _)
    exact .bind_of_yields (hresult.tryCatch (fun e => isResponse_ofException _ e))
      (fun r hr => yields_reply hr)

theorem request_of_completes {v : Json} {Q : Option Str → Prop}
    (h : Completes (d.handleSingle L v) Q) :
    v.isObject ∧ (malformed v = false → ∃ m, v.getD "method".toList = .string m) := by
  cases hm : malformed v with
  | true =>
    cases hobj : v.isObject with
    | true => exact ⟨rfl, nofun⟩
    | false =>
      simp only [handleSingle, hm, if_true, Json.value, hobj] at h
      exact h.elim
  | false =>
    refine ⟨(malformed_eq_false_iff.mp hm).1, fun _ => ?_⟩
    cases hmethod : v.getD "method".toList with
    | string m => exact ⟨m, rfl⟩
    | _ =>
      simp only [handleSingle, hm, hmethod, Json.getString] at h
      exact h.elim

theorem answerableValue_of_completes {v : Json} (hv : v.serialisable) {Q : Option Str → Prop}
    (h : Completes (d.handleSingle L v) Q) : AnswerableValue d v := by
  obtain ⟨hobj, hrequest⟩ := request_of_completes h
  cases hm : malformed v with
  | true => exact ⟨hobj, .inl hm⟩
  | false =>
    obtain ⟨m, hmethod⟩ := hrequest hm
    refine ⟨hobj, .inr ⟨m, hmethod, ?_⟩⟩
    rw [handleSingle_of_request hm hmethod] at h
    unfold HandlerAnswers
    cases hid : v.contains "id".toList with
    | true =>
      intro handler hh
      simp only [hid, if_true, hh, Completes, Coroutine.follows_bind, Coroutine.follows_tryCatch,
        Coroutine.follows_coAwait, Coroutine.follows_pure] at h
      refine h.mono (fun _ _ _ => trivial) (fun e _ he => ?_)
      obtain ⟨text, htext, -⟩ := (completes_reply _ _).mp (he.2 (.ok .null))
      refine (serialisable_ofException (serialisable_getD hv "id".toList) e).mp ?_
      rw [← L.dump_isSome, htext]
      rfl
    | false =>
      intro handler hh
      simp only [hid, hh] at h
      cases ht : handler (paramsOf v) with
      | ok t => exact ⟨t, rfl⟩
      | error e =>
        rw [ht] at h
        exact h.elim

theorem not_isRequest_of_malformed {v : Json} (hobj : v.isObject) (hm : malformed v) (m : Str) :
    ¬IsRequest v m := by
  intro hr
  have hwell := malformed_eq_false_iff.mpr ⟨hobj, hr.1, by rw [Json.contains, hr.2]; rfl⟩
  rw [hm] at hwell
  cases hwell

theorem isRequest_iff {v : Json} {m m' : Str} (hm : malformed v = false)
    (hmethod : v.getD "method".toList = .string m) : IsRequest v m' ↔ m' = m := by
  obtain ⟨-, hjsonrpc, -⟩ := malformed_eq_false_iff.mp hm
  have hfind : v.find? "method".toList = some (.string m) := by
    rw [Json.getD] at hmethod
    cases hf : v.find? "method".toList with
    | none => simp [hf, -String.reduceToList] at hmethod
    | some w => simpa [hf, -String.reduceToList] using hmethod
  simp [IsRequest, hjsonrpc, hfind, eq_comm, -String.reduceToList]

theorem completes_malformed {v : Json} (hv : v.serialisable) (hobj : v.isObject)
    (hm : malformed v) : Completes (d.handleSingle L v) (Delivers L d v) := by
  have hinvalid := not_isRequest_of_malformed hobj hm
  have hid := serialisable_getD hv "id".toList
  rw [handleSingle_of_malformed hobj hm]
  refine completes_reply_of_serialisable (serialisable_error hid (by decide) rfl)
    (fun text htext => ⟨some _, ⟨fun hn => ?_, ?_⟩, text, _, rfl, htext, rfl⟩)
  · exact hn.1.elim hinvalid
  · exact ⟨isResponse_error _ _, fun _ => hasErrorCode_error _ ⟨.invalidRequest, _, _⟩,
      fun m hr => absurd hr (hinvalid m)⟩

theorem completes_notification {v : Json} {m : Str} (hm : malformed v = false)
    (hmethod : v.getD "method".toList = .string m) (hc : v.contains "id".toList = false)
    (hh : HandlerAnswers d v m) : Completes (d.handleSingle L v) (Delivers L d v) := by
  have hnone : v.find? "id".toList = none :=
    Option.isNone_iff_eq_none.mp (Option.isSome_eq_false_iff.mp hc)
  have hout : Delivers L d v none :=
    ⟨none, ⟨⟨m, (isRequest_iff hm hmethod).mpr rfl⟩, hnone⟩, rfl⟩
  rw [HandlerAnswers, hc] at hh
  rw [handleSingle_of_request hm hmethod, hc]
  cases hn : d.notifications m with
  | none => exact hout
  | some handler =>
    obtain ⟨t, ht⟩ := hh handler hn
    simp only [ht]
    exact (Coroutine.follows_bind _ _).mpr
      ((Coroutine.Addresses.of_all (fun _ => trivial) t).follows_background hout)

/-- A call is answered by a response, if what its handler throws can be dumped. -/
theorem completes_call (hd : HandlersReturnJson d) {v : Json} (hv : v.serialisable) {m : Str}
    (hm : malformed v = false) (hmethod : v.getD "method".toList = .string m)
    (hc : v.contains "id".toList) (hh : HandlerAnswers d v m) :
    Completes (d.handleSingle L v) (Delivers L d v) := by
  have hid := serialisable_getD hv "id".toList
  have hreq : IsRequest v m := (isRequest_iff hm hmethod).mpr rfl
  have hnot : ¬IsNotification v := fun hn => by
    rw [Json.contains, hn.2] at hc
    cases hc
  have delivers : ∀ {r : JsonRpcResponse}, r.toJson.serialisable →
      IsResponse (v.getD "id".toList) r.toJson →
      (d.methods m = none → HasErrorCode r.toJson (-32601)) →
      Completes (reply (I := I) L r) (Delivers L d v) := by
    intro r hs hr hunknown
    refine completes_reply_of_serialisable hs
      (fun text htext => ⟨some _, ⟨hnot, hr, fun hi => ?_, fun m' hr' => ?_⟩,
        text, _, rfl, htext, rfl⟩)
    · exact absurd hreq (hi m)
    · obtain rfl := (isRequest_iff hm hmethod).mp hr'
      exact hunknown
  rw [HandlerAnswers, if_pos hc] at hh
  rw [handleSingle_of_request hm hmethod, if_pos hc]
  cases hmethods : d.methods m with
  | none =>
    have htext : isUtf8 m := by
      have hname := serialisable_getD hv "method".toList
      rwa [hmethod, Json.serialisable] at hname
    exact delivers (serialisable_error hid (isUtf8_append (by decide) htext) rfl)
      (isResponse_error _ _) (fun _ => hasErrorCode_error _ ⟨.methodNotFound, _, _⟩)
  | some handler =>
    have hknown : ∀ {r : Json}, d.methods m = none → HasErrorCode r (-32601) := by
      intro r hnone
      rw [hmethods] at hnone
      cases hnone
    simp only [Completes, Coroutine.follows_bind, Coroutine.follows_tryCatch,
      Coroutine.follows_coAwait, Coroutine.follows_pure]
    refine ((hd m handler hmethods _).and (hh handler hmethods)).mono (fun w _ hw => ?_)
      (fun e _ he => ?_)
    · exact ⟨trivial, fun _ =>
        delivers (serialisable_result hid hw.1) (isResponse_result _ _) hknown⟩
    · exact ⟨trivial, fun _ =>
        delivers ((serialisable_ofException hid e).mpr he.2) (isResponse_ofException _ _) hknown⟩

theorem completes_handleSingle (hd : HandlersReturnJson d) {v : Json} (hv : v.serialisable)
    (h : AnswerableValue d v) : Completes (d.handleSingle L v) (Delivers L d v) := by
  obtain ⟨hobj, h⟩ := h
  cases hm : malformed v with
  | true => exact completes_malformed hv hobj hm
  | false =>
    obtain ⟨m, hmethod, hh⟩ := h.resolve_left (by simp [hm])
    cases hc : v.contains "id".toList with
    | false => exact completes_notification hm hmethod hc hh
    | true => exact completes_call hd hv hm hmethod hc hh

end Single

section Batch

theorem isUtf8_toStr (n : ℕ) : isUtf8 (toStr n) := by
  refine isUtf8_of_ascii (fun c hc => ?_)
  have hd := isDigit_of_mem_toStr hc
  simp only [Char.isDigit, Bool.and_eq_true, decide_eq_true_eq] at hd
  exact lt_of_le_of_lt (UInt32.le_iff_toNat_le.mp hd.2) (by decide)

theorem Settles.toList {v : Json} {out : Option Str} (h : Delivers L d v out) :
    Settles d v (out.bind L.parse) := by
  obtain ⟨reply, hs, hout⟩ := h
  cases reply with
  | none =>
    obtain rfl : out = none := hout
    exact hs
  | some r =>
    obtain ⟨text, r', rfl, hparse, rfl⟩ := hout
    simpa [hparse] using hs

theorem completes_handleElements (hd : HandlersReturnJson d) {elems : List Json}
    (hv : ∀ v ∈ elems, v.serialisable) (h : ∀ v ∈ elems, AnswerableValue d v)
    (responses : List Json) :
    Completes (d.handleElements L responses elems) (fun out => ∃ replies,
      List.Forall₂ (Settles d) elems replies ∧ out = responses ++ replies.filterMap id ∧
        ∀ r ∈ replies.filterMap id, r.serialisable) := by
  induction elems generalizing responses with
  | nil => exact ⟨[], .nil, by simp⟩
  | cons v elems ih =>
    have hhead := completes_handleSingle (L := L) hd (hv v (List.mem_cons_self ..))
      (h v (List.mem_cons_self ..))
    have htail := ih (fun w hw => hv w (.tail _ hw)) (fun w hw => h w (.tail _ hw))
    rw [handleElements]
    refine (Coroutine.follows_bind _ _).mpr ((Coroutine.follows_coAwait _).mpr
      (hhead.mono (fun out _ hout => ⟨trivial, fun _ => ?_⟩) (fun _ _ he => he.elim)))
    have hs := Settles.toList hout
    cases hr : out.bind L.parse with
    | none =>
      rw [hr] at hs
      refine (htail responses).mono (fun out' _ ho => ?_) (fun _ _ he => he)
      obtain ⟨replies, hall, rfl, hser⟩ := ho
      exact ⟨none :: replies, .cons hs hall, by simp, by simpa using hser⟩
    | some r =>
      rw [hr] at hs
      refine (htail (responses ++ [r])).mono (fun out' _ ho => ?_) (fun _ _ he => he)
      obtain ⟨replies, hall, rfl, hser⟩ := ho
      obtain ⟨text, -, htext⟩ := Option.bind_eq_some_iff.mp hr
      exact ⟨some r :: replies, .cons hs hall, by simp,
        List.forall_mem_cons.mpr ⟨L.serialisable_of_parse _ _ htext, hser⟩⟩

theorem answerable_of_completes_handleElements {elems : List Json}
    (hv : ∀ v ∈ elems, v.serialisable) {responses : List Json} {Q : List Json → Prop}
    (h : Completes (d.handleElements L responses elems) Q) :
    ∀ v ∈ elems, AnswerableValue d v := by
  induction elems generalizing responses with
  | nil => exact fun _ hv => (List.not_mem_nil hv).elim
  | cons v elems ih =>
    rw [handleElements] at h
    have h := (Coroutine.follows_coAwait _).mp ((Coroutine.follows_bind _ _).mp h)
    have hhead : Completes (d.handleSingle L v) (fun _ => True) :=
      h.mono (fun _ _ _ => trivial) (fun _ _ he => he.2 (.ok .null))
    rcases h.exists_end with ⟨out, hout⟩ | ⟨e, he⟩
    · -- the loop goes on from whatever the first element ends with
      have hrest := hout.2 (.ok .null)
      intro w hw
      rcases List.mem_cons.mp hw with rfl | hw
      · exact answerableValue_of_completes (hv w (List.mem_cons_self ..)) hhead
      · cases hr : Option.bind out L.parse <;> rw [hr] at hrest <;>
          exact ih (fun w hw => hv w (.tail _ hw)) hrest w hw
    · exact (he.2 (.ok .null)).elim

/-- The batch as a whole. -/
theorem completes_array (hd : HandlersReturnJson d) {elems : List Json}
    (hv : ∀ v ∈ elems, v.serialisable) :
    Completes (do
      if elems = [] then
        refuse L .null .invalidRequest "Invalid Request: empty batch".toList
      else if elems.length > d.maxBatchSize then
        refuse L .null .invalidRequest
          ("Batch too large: max ".toList ++ toStr d.maxBatchSize ++
            " requests per batch".toList)
      else
        let responses ← d.handleElements L [] elems
        if responses = [] then return none
        let text ← Coroutine.ofExcept (L.dumpText (.array responses))
        return some text) (fun out =>
      if elems = [] ∨ elems.length > d.maxBatchSize then
        Says L out (fun r => IsResponse .null r ∧ HasErrorCode r (-32600))
      else ∃ replies : List (Option Json), List.Forall₂ (Settles d) elems replies ∧
        if replies.filterMap id = [] then out = none
        else Says L out (fun r => r = .array (replies.filterMap id))) ↔
    (elems = [] ∨ elems.length > d.maxBatchSize ∨ ∀ v ∈ elems, AnswerableValue d v) := by
  have refused : ∀ {message : Str}, isUtf8 message →
      Completes (refuse (I := I) L .null .invalidRequest message)
        (fun out => Says L out (fun r => IsResponse .null r ∧ HasErrorCode r (-32600))) := by
    intro message hm
    exact completes_reply_of_serialisable (serialisable_error rfl hm rfl)
      (fun text htext => ⟨text, _, rfl, htext, isResponse_error _ _,
        hasErrorCode_error _ ⟨.invalidRequest, _, _⟩⟩)
  by_cases he : elems = []
  · simp only [he, if_true, true_or, iff_true]
    exact refused (by decide)
  by_cases hl : elems.length > d.maxBatchSize
  · simp only [he, hl, if_true, if_false, or_true, true_or, iff_true]
    exact refused (isUtf8_append (isUtf8_append (by decide) (isUtf8_toStr _)) (by decide))
  simp only [he, hl, if_false, false_or]
  refine ⟨fun h => ?_, fun h => ?_⟩
  · have hloop := (Coroutine.follows_bind _ _).mp h
    exact answerable_of_completes_handleElements (L := L) (Q := fun _ => True) hv
      (hloop.mono (fun _ _ _ => trivial) (fun _ _ he => he))
  · refine (Coroutine.follows_bind _ _).mpr
      ((completes_handleElements hd hv h []).mono (fun out _ ho => ?_) (fun _ _ he => he))
    obtain ⟨replies, hall, rfl, hser⟩ := ho
    rw [List.nil_append]
    by_cases hnil : replies.filterMap id = []
    · simp only [hnil, if_true]
      exact ⟨replies, hall, by simp only [hnil, if_true]⟩
    · obtain ⟨text, htext⟩ := Option.isSome_iff_exists.mp
        ((L.dump_isSome (.array (replies.filterMap id))).trans (Json.serialisable_array.mpr hser))
      simp only [hnil, if_false, JsonLibrary.dumpText, htext]
      exact ⟨replies, hall, by
        simp only [hnil, if_false]
        exact ⟨text, _, rfl, L.parse_dump _ _ htext, rfl⟩⟩

end Batch

/-- `handle_request` follows JSON-RPC 2.0 on exactly the answerable bodies. -/
theorem handleRequest_conforms_iff (hd : HandlersReturnJson d) (body : Str) :
    Completes (d.handleRequest L body) (Conforms L d body) ↔ Answerable L d body := by
  have single : ∀ {v : Json}, v.serialisable →
      (Completes (d.handleSingle L v).coAwait (Delivers L d v) ↔ AnswerableValue d v) := by
    intro v hv
    refine ⟨fun h => ?_, fun h => ?_⟩
    · refine answerableValue_of_completes (L := L) (Q := fun _ => True) hv ?_
      exact ((Coroutine.follows_coAwait _).mp h).mono (fun _ _ _ => trivial)
        (fun _ _ he => he.2 default)
    · refine (Coroutine.follows_coAwait _).mpr ((completes_handleSingle hd hv h).mono ?_ ?_)
      · exact fun _ _ ho => ⟨trivial, fun _ => ho⟩
      · exact fun _ _ he => he.elim
  unfold handleRequest Answerable Conforms
  cases hp : L.parse body with
  | none =>
    refine iff_of_true ?_ trivial
    exact completes_reply_of_serialisable (serialisable_error rfl (by decide) rfl)
      (fun text htext => ⟨text, _, rfl, htext, isResponse_error _ _,
        hasErrorCode_error _ ⟨.parseError, _, _⟩⟩)
  | some v =>
    have hv := L.serialisable_of_parse _ _ hp
    cases v with
    | array elems => exact completes_array hd (Json.serialisable_array.mp hv)
    | null => exact single hv
    | bool b => exact single hv
    | integer n => exact single hv
    | floating x => exact single hv
    | string s => exact single hv
    | object ms => exact single hv

/-- A dispatcher that knows one method, `ping`, and offers its handlers no operations. -/
def pingDispatcher : JsonRpcDispatcher ⟨Empty, Empty.elim, fun op => op.elim⟩ where
  methods name := if name = "ping".toList then some (fun _ => return .object []) else none
  notifications _ := none

def pingRequest : Json :=
  .object [("id".toList, .integer 1), ("jsonrpc".toList, .string "2.0".toList),
    ("method".toList, .string "ping".toList)]

def pingBody : Str := "\x7b\"id\":1,\"jsonrpc\":\"2.0\",\"method\":\"ping\"\x7d".toList

theorem pingDispatcher_returnsJson : HandlersReturnJson pingDispatcher := by
  intro name handler h params
  simp only [pingDispatcher] at h
  split at h
  · obtain rfl := Option.some.inj h
    exact (rfl : (Json.object []).serialisable = true)
  · cases h

theorem handleRequest_conforms_ping :
    Completes (pingDispatcher.handleRequest CompactJson.library pingBody)
      (Conforms CompactJson.library pingDispatcher pingBody) := by
  have hparse : CompactJson.library.parse pingBody = some pingRequest :=
    CompactJson.library.parse_dump _ _ rfl
  refine (handleRequest_conforms_iff pingDispatcher_returnsJson _).mpr ?_
  rw [Answerable, hparse]
  refine ⟨rfl, .inr ⟨"ping".toList, rfl, ?_⟩⟩
  rintro handler ⟨⟩
  trivial

/-- The body `5` makes `handle_request` fail: it is no object and has no `id` to read. -/
theorem handleRequest_fails_on_number :
    ¬ Completes (pingDispatcher.handleRequest CompactJson.library "5".toList)
      (Conforms CompactJson.library pingDispatcher "5".toList) := by
  have hparse : CompactJson.library.parse "5".toList = some (.integer 5) :=
    CompactJson.library.parse_dump _ _ rfl
  rw [JsonRpcDispatcher.handleRequest, hparse]
  exact fun h => ((Coroutine.follows_coAwait _).mp h).2 default

end McpSdk.JsonRpcConformance

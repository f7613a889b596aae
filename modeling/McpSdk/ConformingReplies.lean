import McpSdk.HttpTransports
import McpSdk.JsonRpcConformance

/-!
# What the dispatcher returns

Handlers may return what cannot be written, throw what cannot be written or, for a notification,
throw at once, and then `handle_request` fails. Where it does return, what it returns is the answer
to its body that JSON-RPC 2.0 asks for, whatever the handlers are.
-/

namespace McpSdk.ConformingReplies
open CppStandardLibrary CooperativeTasks JsonRpcDispatcher JsonRpcConformance

section Dispatcher
variable {I : Interface} {L : JsonLibrary} {d : JsonRpcDispatcher I} {T : ℕ → Prop}

theorem yields_reply_of {A : I.Op → Prop} {r : JsonRpcResponse} {Q : Option Str → Prop}
    (h : ∀ text, L.parse text = some r.toJson → Q (some text)) :
    (reply (I := I) L r).Yields A T Q := by
  unfold reply JsonLibrary.dumpText
  cases hdump : L.dump r.toJson with
  | none => exact .throw _
  | some text => exact .pure (h text (L.parse_dump _ _ hdump))

theorem yields_delivers_reply {A : I.Op → Prop} {v : Json} {r : JsonRpcResponse}
    (hnot : ¬IsNotification v) (hanswers : Answers d v r.toJson) :
    (reply (I := I) L r).Yields A T (Delivers L d v) :=
  yields_reply_of fun text htext => ⟨some _, ⟨hnot, hanswers⟩, text, _, rfl, htext, rfl⟩

theorem yields_delivers_malformed {v : Json} (hobj : v.isObject) (hm : malformed v) :
    (d.handleSingle L v).Yields (fun _ => True) T (Delivers L d v) := by
  have hinvalid := not_isRequest_of_malformed hobj hm
  rw [handleSingle_of_malformed hobj hm]
  refine yields_delivers_reply (fun hn => hn.1.elim hinvalid) ⟨isResponse_error _ _, ?_, ?_⟩
  · exact fun _ => hasErrorCode_error _ ⟨.invalidRequest, _, _⟩
  · exact fun m hr => absurd hr (hinvalid m)

theorem yields_delivers_notification (hT : ∀ n, T n) {v : Json} {m : Str}
    (hm : malformed v = false) (hmethod : v.getD "method".toList = .string m)
    (hc : v.contains "id".toList = false) :
    (d.handleSingle L v).Yields (fun _ => True) T (Delivers L d v) := by
  have hnone : v.find? "id".toList = none :=
    Option.isNone_iff_eq_none.mp (Option.isSome_eq_false_iff.mp hc)
  have hout : Delivers L d v none :=
    ⟨none, ⟨⟨m, (isRequest_iff hm hmethod).mpr rfl⟩, hnone⟩, rfl⟩
  have hafter : ∀ t : Coroutine I Input Exception Unit,
      (t >>= fun _ => pure none).Yields (fun _ => True) T (Delivers L d v) :=
    fun t => .bind (Coroutine.Addresses.of_all hT t) (fun _ => .pure hout)
  rw [handleSingle_of_request hm hmethod, hc]
  cases d.notifications m with
  | none => exact hout
  | some handler =>
    dsimp only
    cases handler (paramsOf v) with
    | ok task => exact hafter task.background
    | error e => exact hafter (.throw e)

theorem yields_delivers_call (hT : ∀ n, T n) {v : Json} {m : Str} (hm : malformed v = false)
    (hmethod : v.getD "method".toList = .string m) (hc : v.contains "id".toList) :
    (d.handleSingle L v).Yields (fun _ => True) T (Delivers L d v) := by
  have hrequest : IsRequest v m := (isRequest_iff hm hmethod).mpr rfl
  have hnot : ¬IsNotification v := fun hn => by
    rw [Json.contains, hn.2] at hc
    cases hc
  have answers : ∀ {r : Json}, IsResponse (v.getD "id".toList) r →
      (d.methods m = none → HasErrorCode r (-32601)) → Answers d v r := by
    intro r hr hunknown
    refine ⟨hr, fun hinvalid => absurd hrequest (hinvalid m), fun m' hr' => ?_⟩
    obtain rfl := (isRequest_iff hm hmethod).mp hr'
    exact hunknown
  rw [handleSingle_of_request hm hmethod, if_pos hc]
  cases hmethods : d.methods m with
  | none =>
    exact yields_delivers_reply hnot
      (answers (isResponse_error _ _) (fun _ => hasErrorCode_error _ ⟨.methodNotFound, _, _⟩))
  | some handler =>
    have hknown : ∀ {r : Json}, d.methods m = none → HasErrorCode r (-32601) := by
      intro r hnone
      rw [hmethods] at hnone
      cases hnone
    have hresult : (do
        let result ← (handler (paramsOf v)).coAwait
        return { id := v.getD "id".toList, result := some result } :
          Coroutine I Input Exception JsonRpcResponse).Yields (fun _ => True) T
        (fun r => IsResponse (v.getD "id".toList) r.toJson) :=
      .bind (Coroutine.Addresses.of_all hT _).coAwait (fun result => isResponse_result _ _)
    exact .bind_of_yields (hresult.tryCatch (fun e => isResponse_ofException _ e))
      (fun r hr => yields_delivers_reply hnot (answers hr hknown))

theorem yields_delivers (hT : ∀ n, T n) (v : Json) :
    (d.handleSingle L v).Yields (fun _ => True) T (Delivers L d v) := by
  cases hm : malformed v with
  | true =>
    cases hobj : v.isObject with
    | true => exact yields_delivers_malformed hobj hm
    | false =>
      simp only [handleSingle, hm, if_true, Json.value, hobj]
      exact .throw _
  | false =>
    cases hmethod : v.getD "method".toList with
    | string m =>
      cases hc : v.contains "id".toList with
      | false => exact yields_delivers_notification hT hm hmethod hc
      | true => exact yields_delivers_call hT hm hmethod hc
    | _ =>
      simp only [handleSingle, hm, hmethod, Json.getString]
      exact .throw _

theorem yields_handleElements (hT : ∀ n, T n) (elems responses : List Json) :
    (d.handleElements L responses elems).Yields (fun _ => True) T (fun out => ∃ replies,
      List.Forall₂ (Settles d) elems replies ∧ out = responses ++ replies.filterMap id) := by
  induction elems generalizing responses with
  | nil => exact .pure ⟨[], .nil, (List.append_nil _).symm⟩
  | cons v elems ih =>
    rw [handleElements]
    refine .bind_of_yields (yields_delivers hT v).coAwait (fun out hout => ?_)
    have hs := Settles.toList hout
    cases hr : out.bind L.parse with
    | none =>
      rw [hr] at hs
      refine (ih responses).weaken (fun _ h => h) ?_
      rintro out' ⟨replies, hall, rfl⟩
      exact ⟨none :: replies, .cons hs hall, rfl⟩
    | some r =>
      rw [hr] at hs
      refine (ih (responses ++ [r])).weaken (fun _ h => h) ?_
      rintro out' ⟨replies, hall, rfl⟩
      exact ⟨some r :: replies, .cons hs hall, List.append_assoc _ _ _⟩

/-- Where `handle_request` returns, it has followed JSON-RPC 2.0. -/
theorem yields_handleRequest (hT : ∀ n, T n) (body : Str) :
    (d.handleRequest L body).Yields (fun _ => True) T (Conforms L d body) := by
  have refused : ∀ {message : Str} {code : JsonRpcErrorCode},
      (refuse (I := I) L .null code message).Yields (fun _ => True) T
        (fun out => Says L out (fun r => IsResponse .null r ∧ HasErrorCode r code.toInt)) :=
    fun {message code} => yields_reply_of fun text htext =>
      ⟨text, _, rfl, htext, isResponse_error _ _, hasErrorCode_error _ ⟨code, message, .null⟩⟩
  unfold handleRequest Conforms
  cases hp : L.parse body with
  | none => exact refused
  | some v =>
    cases v with
    | array elems =>
      by_cases he : elems = []
      · simp only [he, if_true, true_or]
        exact refused
      by_cases hl : elems.length > d.maxBatchSize
      · simp only [he, hl, if_true, if_false, or_true]
        exact refused
      simp only [he, hl, if_false, or_self]
      refine .bind_of_yields (yields_handleElements hT elems []) ?_
      rintro _ ⟨replies, hall, rfl⟩
      rw [List.nil_append]
      split
      · rename_i hnone
        exact .pure ⟨replies, hall, (if_pos hnone).mpr rfl⟩
      · rename_i hsome
        unfold JsonLibrary.dumpText
        cases hdump : L.dump (.array (replies.filterMap id)) with
        | none => exact .throw _
        | some text =>
          exact .pure ⟨replies, hall, (if_neg hsome).mpr
            ⟨text, _, rfl, L.parse_dump _ _ hdump, rfl⟩⟩
    | null => exact (yields_delivers hT _).coAwait
    | bool b => exact (yields_delivers hT _).coAwait
    | integer n => exact (yields_delivers hT _).coAwait
    | floating x => exact (yields_delivers hT _).coAwait
    | string s => exact (yields_delivers hT _).coAwait
    | object ms => exact (yields_delivers hT _).coAwait

end Dispatcher

section Dispatch
variable {L : JsonLibrary} {d : JsonRpcDispatcher HandlerI}

/-- What `dispatch` owes a body: the answer that JSON-RPC asks for, or nothing if the body is a
client's response. -/
def Answered (L : JsonLibrary) (d : JsonRpcDispatcher HandlerI) (body : Str) (out : Option Str) :
    Prop :=
  Conforms L d body out ∨ out = none ∧ ∃ v, L.parse body = some v ∧ isClientResponse v

theorem yields_takeClientResponse (body : Str) :
    (takeClientResponse L body).Yields DispatchCall (fun _ => True)
      (fun taken => taken = true → ∃ v, L.parse body = some v ∧ isClientResponse v) := by
  unfold takeClientResponse
  cases hparse : L.parse body with
  | none => exact .pure nofun
  | some v =>
    dsimp only
    split
    · rename_i hresponse
      refine .bind (calls_transport trivial) (fun taken => ?_)
      split
      · exact .pure (fun _ => ⟨v, rfl, hresponse⟩)
      · exact .pure nofun
    · exact .pure nofun

theorem yields_dispatch (body sessionId : Str) :
    (dispatch L d body sessionId).Yields DispatchCall (fun _ => True) (Answered L d body) := by
  refine .bind (calls_transport trivial) (fun _ => ?_)
  refine .bind_of_yields (yields_takeClientResponse body) (fun taken htaken => ?_)
  split
  · rename_i hyes
    exact .pure (.inr ⟨rfl, htaken hyes⟩)
  · refine .bind (calls_transport trivial) (fun _ => ?_)
    have hhandle : (d.handleRequest L body).inl.Yields DispatchCall (fun _ => True)
        (Conforms L d body) :=
      Coroutine.Yields.inl (yields_handleRequest (fun _ => trivial) body)
    exact hhandle.coAwait.weaken (fun _ h => h) (fun _ h => .inl h)

end Dispatch
end McpSdk.ConformingReplies

import McpSdk.CompactJson
import McpSdk.CppTexts
import McpSdk.McpServer

/-!
# Which shard a session id addresses

The two parsers of session ids, `_parse_shard` of either transport, and the shards that requests
naming an id are sent to. Neither parser compares the number it reads with the number of
shards, so an id addresses only shards that exist exactly when the number written in it, reduced
to 32 bits, is small enough.
-/

namespace McpSdk.SessionRouting
open CppStandardLibrary CooperativeTasks ClusterRuns

/-- The handlers that take a session id from the client. -/
inductive SessionEndpoint
  | message | mcpPost | mcpDelete

/-- The session id a request names, and the handler it names it to. -/
def named {Job : Type} : Work Job → Option (SessionEndpoint × Str)
  | .postMessage req => some (.message, req.query "sessionId".toList)
  | .postMcp req => some (.mcpPost, req.header "mcp-session-id".toList)
  | .deleteMcp req => some (.mcpDelete, req.header "mcp-session-id".toList)
  | _ => none

/-- Between the prefix `pre` and the first `_` after it the id has the text `text`. -/
def Marks (id pre text : Str) : Prop :=
  text ≠ [] ∧ '_' ∉ text ∧ ∃ rest, id = pre ++ (text ++ '_' :: rest)

/-- The prefixes after which a handler looks for a shard number. -/
def IsPrefix : SessionEndpoint → Str → Prop
  | .message, pre => pre = ['s']
  | _, pre => pre = ['s', 'm'] ∨ pre.length = 1

/-- Every shard number that the handler can read out of the id is below `count`. -/
def Routable (count : ℕ) (e : SessionEndpoint) (id : Str) : Prop :=
  ∀ pre text n, IsPrefix e pre → Marks id pre text → stoul text = some n → n % 2 ^ 32 < count

section Parsing

/-- The number that the text from a prefix to the next `_` stands for, or 0. -/
def numberAfter (pre s : Str) : ℕ :=
  match find (pre ++ s) '_' pre.length with
  | some pos =>
      if pos > pre.length then
        match stoul (substr (pre ++ s) pre.length (pos - pre.length)) with
        | some n => n % 2 ^ 32
        | none => 0
      else 0
  | none => 0

theorem numberAfter_lt_iff {count : ℕ} (hcount : 0 < count) (pre s : Str) :
    numberAfter pre s < count ↔
      ∀ text n, Marks (pre ++ s) pre text → stoul text = some n → n % 2 ^ 32 < count := by
  have marks : ∀ {text : Str}, Marks (pre ++ s) pre text ↔
      text ≠ [] ∧ '_' ∉ text ∧ ∃ rest, s = text ++ '_' :: rest := by
    intro text
    simp only [Marks, List.append_cancel_left_eq]
  unfold numberAfter
  cases hf : find (pre ++ s) '_' pre.length with
  | none =>
    refine iff_of_true hcount (fun text n hm _ => ?_)
    obtain ⟨-, hc, rest, hs⟩ := marks.mp hm
    have := (find_append pre).mpr ⟨text, rest, hs, hc, rfl⟩
    rw [hf] at this
    cases this
  | some pos =>
    obtain ⟨text, rest, rfl, hc, rfl⟩ := (find_append pre).mp hf
    -- the text up to the first `_` is the only one the id marks
    have unique : ∀ {text'}, Marks (pre ++ (text ++ '_' :: rest)) pre text' → text' = text := by
      intro text' hm
      obtain ⟨-, hc', rest', hs⟩ := marks.mp hm
      have := (find_append pre).mpr ⟨text', rest', hs, hc', rfl⟩
      rw [hf] at this
      have hlen : text.length = text'.length := by
        have := Option.some.inj this
        omega
      exact (List.append_inj_left hs hlen).symm
    by_cases ht : text = []
    · subst ht
      simp only [List.length_nil, Nat.add_zero, gt_iff_lt, lt_irrefl, if_false, hcount, true_iff]
      intro text' n hm _
      exact absurd (unique hm) hm.1
    · have hpos : pre.length + text.length > pre.length := by
        have := List.length_pos_iff.mpr ht
        omega
      simp only [hpos, if_true, Nat.add_sub_cancel_left, substr_append]
      cases hn : stoul text with
      | none =>
        refine iff_of_true hcount (fun text' n hm h => ?_)
        rw [unique hm, hn] at h
        cases h
      | some n =>
        constructor
        · intro h text' n' hm h'
          rw [unique hm, hn] at h'
          obtain rfl := Option.some.inj h'
          exact h
        · intro h
          exact h text n (marks.mpr ⟨ht, hc, rest, rfl⟩) hn

theorem sse_parseShard_cons (tail : Str) :
    HttpSseTransport.parseShard ('s' :: tail) = numberAfter ['s'] tail := by
  have hfind : find ('s' :: tail) '_' 0 = find (['s'] ++ tail) '_' ['s'].length := by
    simp [find, List.findIdx?_cons, Option.map_map, Function.comp_def]
  cases tail with
  | nil => rfl
  | cons c tail =>
    have hform :
        (('s' :: c :: tail).length > 1 && ('s' :: c :: tail).head? == some 's') = true := by
      simp
    rw [HttpSseTransport.parseShard, if_pos hform, hfind]
    rfl

theorem sse_parseShard_ne {id : Str} (h : id.head? ≠ some 's') :
    HttpSseTransport.parseShard id = 0 := by
  simp [HttpSseTransport.parseShard, h]

theorem sse_parseShard_lt_iff {count : ℕ} (hcount : 0 < count) (id : Str) :
    HttpSseTransport.parseShard id < count ↔ Routable count .message id := by
  by_cases h : id.head? = some 's'
  · obtain ⟨tail, rfl⟩ : ∃ tail, id = 's' :: tail := ⟨_, List.eq_cons_of_mem_head? h⟩
    rw [sse_parseShard_cons, numberAfter_lt_iff hcount]
    constructor
    · rintro h pre text n rfl
      exact h text n
    · exact fun h text n => h ['s'] text n rfl
  · rw [sse_parseShard_ne h]
    refine iff_of_true hcount ?_
    rintro pre text n rfl ⟨-, -, rest, rfl⟩
    exact absurd rfl h

theorem mcp_parseShard_sm (c : Char) (tail : Str) :
    StreamableHttpTransport.parseShard ('s' :: 'm' :: c :: tail) =
      numberAfter ['s', 'm'] (c :: tail) := rfl

theorem mcp_parseShard_cons {c : Char} {tail : Str}
    (h : ¬∃ d rest, c :: tail = 's' :: 'm' :: d :: rest) :
    StreamableHttpTransport.parseShard (c :: tail) = numberAfter [c] tail := by
  have hstart : ((c :: tail).length > 2 && (c :: tail).head? == some 's' &&
      (c :: tail)[1]? == some 'm') = false := by
    rw [Bool.eq_false_iff]
    intro hs
    simp only [Bool.and_eq_true, decide_eq_true_eq, beq_iff_eq, List.head?_cons,
      Option.some.injEq] at hs
    obtain ⟨⟨hlen, rfl⟩, hm⟩ := hs
    match tail, hlen, hm with
    | m :: d :: rest, _, hm =>
      obtain rfl := Option.some.inj hm
      exact h ⟨d, rest, rfl⟩
  simp only [StreamableHttpTransport.parseShard, hstart]
  rfl

theorem stoul_m (s : Str) : stoul ('m' :: s) = none := by
  simp [stoul, isSpace]

theorem mcp_parseShard_lt_iff {count : ℕ} (hcount : 0 < count) {e : SessionEndpoint}
    (he : e = .mcpPost ∨ e = .mcpDelete) (id : Str) :
    StreamableHttpTransport.parseShard id < count ↔ Routable count e id := by
  have hkind : ∀ pre, IsPrefix e pre ↔ pre = ['s', 'm'] ∨ pre.length = 1 := by
    intro pre
    rcases he with rfl | rfl <;> rfl
  by_cases hsm : ∃ d rest, id = 's' :: 'm' :: d :: rest
  · obtain ⟨d, rest, rfl⟩ := hsm
    rw [mcp_parseShard_sm, numberAfter_lt_iff hcount]
    constructor
    · intro h pre text n hpre hm hn
      rcases (hkind pre).mp hpre with rfl | hlen
      · exact h text n hm hn
      · -- a prefix of one character leaves a text that begins with `m`, which is no number
        obtain ⟨c, rfl⟩ := List.length_eq_one_iff.mp hlen
        obtain ⟨hne, -, tail, htail⟩ := hm
        cases text with
        | nil => exact absurd rfl hne
        | cons m text =>
          simp only [List.cons_append, List.nil_append, List.cons.injEq] at htail
          obtain ⟨-, rfl, -⟩ := htail
          rw [stoul_m] at hn
          cases hn
    · exact fun h text n => h ['s', 'm'] text n ((hkind _).mpr (.inl rfl))
  · cases id with
    | nil =>
      refine iff_of_true hcount ?_
      rintro pre text n - ⟨-, -, rest, hr⟩
      simp at hr
    | cons c tail =>
      rw [mcp_parseShard_cons hsm, numberAfter_lt_iff hcount]
      constructor
      · intro h pre text n hpre hm hn
        rcases (hkind pre).mp hpre with rfl | hlen
        · obtain ⟨hne, -, rest, hr⟩ := hm
          cases text with
          | nil => exact absurd rfl hne
          | cons d text => exact absurd ⟨d, _, hr⟩ hsm
        · obtain ⟨d, rfl⟩ := List.length_eq_one_iff.mp hlen
          obtain rfl : c = d := by
            obtain ⟨-, -, rest, hr⟩ := hm
            exact (List.cons.inj hr).1
          exact h text n hm hn
      · exact fun h text n => h [c] text n ((hkind _).mpr (.inr rfl))

end Parsing

section Addressing
variable {T : ℕ → Prop}

theorem addresses_reply {I : Interface} (L : JsonLibrary) (r : JsonRpcResponse) :
    (JsonRpcDispatcher.reply (I := I) L r).Addresses T :=
  (Coroutine.Calls.ofExcept _).bind (fun _ => .pure _)

/-- The dispatcher addresses only the shards its handlers do. -/
theorem addresses_handleRequest {I : Interface} {d : JsonRpcDispatcher I}
    (hm : ∀ name handler, d.methods name = some handler → ∀ params, (handler params).Addresses T)
    (hn : ∀ name handler, d.notifications name = some handler → ∀ params t,
      handler params = .ok t → t.Addresses T) (L : JsonLibrary) (body : Str) :
    (d.handleRequest L body).Addresses T := by
  have single : ∀ v, (d.handleSingle L v).Addresses T := by
    intro v
    unfold JsonRpcDispatcher.handleSingle
    split
    · exact (Coroutine.Calls.ofExcept _).bind (fun id => addresses_reply L _)
    · refine (Coroutine.Calls.ofExcept _).bind (fun method => ?_)
      refine (Coroutine.Calls.ofExcept _).bind (fun params => ?_)
      split
      · cases hh : d.notifications method with
        | none => exact .pure _
        | some handler =>
          simp only
          cases ht : handler params with
          | ok t => exact (hn _ _ hh _ _ ht).background.bind (fun _ => .pure _)
          | error e => exact (Coroutine.Calls.throw e).bind (fun _ => .pure _)
      · cases hh : d.methods method with
        | none => exact addresses_reply L _
        | some handler =>
          refine Coroutine.Calls.bind ?_ (fun response => addresses_reply L _)
          exact ((hm _ _ hh _).coAwait.bind (fun _ => .pure _)).tryCatch (fun _ => .pure _)
  have elements : ∀ elems responses, (d.handleElements L responses elems).Addresses T := by
    intro elems
    induction elems with
    | nil => exact fun _ => .pure _
    | cons v elems ih =>
      intro responses
      refine (single v).coAwait.bind (fun resp => ?_)
      cases resp.bind L.parse <;> exact ih _
  unfold JsonRpcDispatcher.handleRequest
  split
  · exact addresses_reply L _
  · split
    · exact addresses_reply L _
    · split
      · exact addresses_reply L _
      · refine (elements _ _).bind (fun responses => ?_)
        split
        · exact .pure _
        · exact (Coroutine.Calls.ofExcept _).bind (fun _ => .pure _)
  · exact (single _).coAwait

theorem addresses_transport (op : TransportCall) : (transport op).Addresses T :=
  calls_transport trivial

theorem addresses_dispatch {L : JsonLibrary} {d : JsonRpcDispatcher HandlerI}
    (hd : ∀ body, (d.handleRequest L body).Addresses T) (body sessionId : Str) :
    (dispatch L d body sessionId).Addresses T := by
  apply (addresses_transport _).bind
  intro _
  apply (calls_takeClientResponse (fun _ _ => trivial)).bind
  intro handled
  split
  · exact .pure _
  · exact (addresses_transport _).bind (fun _ => (hd body).inl.coAwait)

theorem addresses_settled {L : JsonLibrary} {d : JsonRpcDispatcher HandlerI}
    (hd : ∀ body, (d.handleRequest L body).Addresses T) (body sessionId : Str) {ip : Str}
    {k : Option Str → ShardTask Reply} (hk : ∀ response, (k response).Addresses T) :
    (do
      let response ← (dispatch L d body sessionId).coAwait
      transport (.recordOutcome ip (isError response))
      k response : ShardTask Reply).Addresses T :=
  (addresses_dispatch hd _ _).coAwait.bind
    (fun response => (addresses_transport _).bind (fun _ => hk response))

theorem addresses_post {n : ℕ} {ip key : Str} {handle : ShardTask Reply}
    (h : handle.Addresses T) :
    (do
      if !(← transport (.checkBodySize n)) then return securityReject .payloadTooLarge
      else
        let check ← transport (.checkRequest ip key)
        if check ≠ .ok then return securityReject check
        else handle : ShardTask Reply).Addresses T := by
  refine (addresses_transport _).bind (fun small => ?_)
  split
  · exact .pure _
  · refine (addresses_transport _).bind (fun check => ?_)
    split
    · exact .pure _
    · exact h

theorem addresses_serve {handler : ShardTask Reply} (h : handler.Addresses T) :
    (serve handler).Addresses T := calls_serve h (fun _ => trivial)

theorem addresses_pushResponse {j target : ℕ} (h : target ≠ j → T target) (sessionId msg : Str) :
    (pushResponse j target sessionId msg).Addresses T := by
  unfold pushResponse
  split
  · exact calls_onShard trivial
  · exact Coroutine.Calls.send (h ‹_›) (calls_onShard trivial)

theorem addresses_postSession {L : JsonLibrary} {d : JsonRpcDispatcher HandlerI} {j : ℕ}
    (hd : ∀ body, (d.handleRequest L body).Addresses T) {sessionId : Str}
    (h : StreamableHttpTransport.parseShard sessionId ≠ j →
      T (StreamableHttpTransport.parseShard sessionId)) (clientIp body : Str) :
    (StreamableHttpTransport.postSession L d j clientIp body sessionId).Addresses T := by
  refine addresses_settled hd _ _ (fun response => ?_)
  split
  · exact (addresses_pushResponse h _ _).bind (fun _ => .pure _)
  · exact .pure _

/-- A program addresses only existing shards if the session id its request names is routable. -/
theorem addresses_program (srv : McpServer) (j : ℕ) {w : Work srv.Job}
    (hw : ∀ e id, named w = some (e, id) → Routable srv.count e id) :
    (srv.program j w).Addresses (· < srv.count) := by
  have hd := addresses_handleRequest (d := srv.dispatcher j)
    (srv.methods_inRange j) (srv.notifications_inRange j) srv.L
  cases w with
  | job x => exact (srv.job_inRange j x).inl.bind (fun _ => .pure _)
  | getSse req => exact addresses_serve ((calls_handleSse req).mono (fun _ _ => trivial))
  | postMessage req =>
    have hroute := (sse_parseShard_lt_iff srv.count_pos _).mpr (hw _ _ rfl)
    apply addresses_serve
    apply addresses_post
    refine addresses_settled hd _ _ (fun response => ?_)
    split
    · split <;> exact .pure _
    · split
      · exact (addresses_pushResponse (T := (· < srv.count)) (fun _ => hroute) _ _).bind
          (fun _ => .pure _)
      · exact .pure _
  | postMcp req =>
    have hroute := (mcp_parseShard_lt_iff srv.count_pos (.inl rfl) _).mpr (hw _ _ rfl)
    apply addresses_serve
    apply addresses_post
    dsimp only
    split
    · exact addresses_postSession hd (fun _ => hroute) _ _
    · split
      · apply (addresses_transport _).bind
        intro counter
        apply (addresses_transport _).bind
        intro session
        split
        · exact .pure _
        · refine addresses_settled hd _ _ (fun response => ?_)
          split
          · exact (addresses_transport _).bind (fun _ => .pure _)
          · exact .pure _
      · refine addresses_settled hd _ _ (fun response => ?_)
        split <;> exact .pure _
  | getMcp req => exact addresses_serve ((calls_handleGet req).mono (fun _ _ => trivial))
  | deleteMcp req =>
    have hroute := (mcp_parseShard_lt_iff srv.count_pos (.inr rfl) _).mpr (hw _ _ rfl)
    exact addresses_serve ((calls_handleDelete hroute).mono (fun _ _ => trivial))

end Addressing

section Escapes

/-- A server with the default configuration and no handlers. -/
def plainServer (count : ℕ) (h : 0 < count) : McpServer :=
  .plain CompactJson.library .standard count h

theorem dispatch_nil (d : JsonRpcDispatcher HandlerI) (sessionId : Str) :
    ∃ text, dispatch CompactJson.library d [] sessionId = (do
      transport (.dispatch [] sessionId)
      transport (.setContext sessionId [])
      (pure (some text) : ShardTask (Option Str)).coAwait) := by
  obtain ⟨text, htext⟩ : ∃ text, CompactJson.library.dumpText (JsonRpcResponse.toJson
      { id := .null, error := some ⟨.parseError, "Parse error".toList, .null⟩ }) = .ok text :=
    ⟨_, rfl⟩
  have htake : takeClientResponse CompactJson.library [] = pure false := by
    rw [takeClientResponse, CompactJson.parse_nil]
  have htoken : progressToken CompactJson.library [] = [] := by
    rw [progressToken, CompactJson.parse_nil]
  have hrequest : d.handleRequest CompactJson.library [] = .ret (some text) := by
    rw [JsonRpcDispatcher.handleRequest, CompactJson.parse_nil]
    simp only [JsonRpcDispatcher.refuse, JsonRpcDispatcher.reply, htext]
    rfl
  refine ⟨text, ?_⟩
  rw [dispatch, htake, htoken, hrequest]
  rfl

/-- Headers that name a session and nothing else. -/
def sessionHeader (id key : Str) : Str := if key = "mcp-session-id".toList then id else []

theorem sessionHeader_self (id : Str) : sessionHeader id "mcp-session-id".toList = id := if_pos rfl

/-- A request that names the id to the handler, with an empty body. -/
def request (e : SessionEndpoint) (id : Str) : Work Empty :=
  match e with
  | .message => .postMessage { query := fun _ => id }
  | .mcpPost => .postMcp { header := sessionHeader id }
  | .mcpDelete => .deleteMcp { header := sessionHeader id }

theorem named_request (e : SessionEndpoint) (id : Str) : named (request e id) = some (e, id) := by
  cases e <;> rfl

def target : SessionEndpoint → Str → ℕ
  | .message => HttpSseTransport.parseShard
  | _ => StreamableHttpTransport.parseShard

theorem target_lt_iff {count : ℕ} (hcount : 0 < count) (e : SessionEndpoint) (id : Str) :
    target e id < count ↔ Routable count e id := by
  cases e with
  | message => exact sse_parseShard_lt_iff hcount id
  | mcpPost => exact mcp_parseShard_lt_iff hcount (.inl rfl) id
  | mcpDelete => exact mcp_parseShard_lt_iff hcount (.inr rfl) id

theorem path_request {count : ℕ} (h : 0 < count) (e : SessionEndpoint) {id : Str}
    (hid : target e id ≠ 0) :
    ∃ u k s, Path (plainServer count h).system 0 ((plainServer count h).program 0 (request e id))
      (plainServer count h).cfg.shard (.invokeOn (target e id) u k) s := by
  have hempty : id.isEmpty = false := by
    cases id with
    | nil => cases e <;> exact absurd rfl hid
    | cons c tail => rfl
  have hL : (plainServer count h).L = CompactJson.library := rfl
  obtain ⟨text, hdispatch⟩ := dispatch_nil ((plainServer count h).dispatcher 0) id
  cases e with
  | message =>
    have hid : HttpSseTransport.parseShard id ≠ 0 := hid
    simp only [request, McpServer.program, HttpSseTransport.handleMessage, hempty, pushResponse,
      hid, hL, hdispatch, if_false]
    exact ⟨_, _, _, .call <| .call <| .call <| .call <| .await (.ok .null) <| .await (.ok .null) <|
      .call <| .refl _ _⟩
  | mcpPost =>
    have hid : StreamableHttpTransport.parseShard id ≠ 0 := hid
    simp only [request, McpServer.program, StreamableHttpTransport.handlePost,
      StreamableHttpTransport.postSession, sessionHeader_self, hempty, pushResponse, hid, hL,
      hdispatch, if_true, if_false, Bool.not_false]
    exact ⟨_, _, _, .call <| .call <| .call <| .call <| .await (.ok .null) <| .await (.ok .null) <|
      .call <| .refl _ _⟩
  | mcpDelete =>
    have hid : StreamableHttpTransport.parseShard id ≠ 0 := hid
    simp only [request, McpServer.program, StreamableHttpTransport.handleDelete,
      sessionHeader_self, hempty, hid, if_true, if_false, Bool.not_false]
    exact ⟨_, _, _, .refl _ _⟩

end Escapes

/-- All session ids that the launched requests name are in `P`. -/
def Names {Job : Type} (P : SessionEndpoint → Str → Prop) (l : Label Input (Origin Job)) : Prop :=
  l.Launches (fun o => ∀ e id, named o.work = some (e, id) → P e id)

/-- Clients that name ids of `P` can make no server on `count` shards address a shard that does
not exist, exactly if `P` holds of routable ids only. -/
theorem addresses_existing_shards_iff {count : ℕ} (hcount : 0 < count)
    (P : SessionEndpoint → Str → Prop) :
    (∀ srv : McpServer, srv.count = count → ∀ steps c, (∀ l ∈ steps, Names P l) →
      srv.Reaches steps c → ∀ t ∈ c.tasks, t.shard < count) ↔
    ∀ e id, P e id → Routable count e id := by
  constructor
  · intro h e id hP
    apply (target_lt_iff hcount e id).mp
    by_cases hid : target e id = 0
    · exact hid ▸ hcount
    · obtain ⟨u, k, s, hpath⟩ := path_request hcount e hid
      obtain ⟨steps, c, hsteps, hrun, t, ht, hshard⟩ := exists_run_invokeOn
        (S := (plainServer count hcount).system) (o := ⟨0, request e id⟩)
        (P := fun o => ∀ e id, named o.work = some (e, id) → P e id) hcount hpath (by
          intro e' id' hn
          obtain ⟨rfl, rfl⟩ := Prod.mk.inj (Option.some.inj ((named_request e id).symm.trans hn))
          exact hP)
      exact hshard ▸ h (plainServer count hcount) rfl steps c hsteps hrun t ht
  · rintro h srv rfl steps c hsteps hrun t ht
    have keeps : Keeps srv.system (fun _ => .addressing ShardI (· < srv.count))
        (fun o => ∀ e id, named o.work = some (e, id) → P e id) (fun _ _ _ => True) :=
      { answers := fun _ _ _ _ _ => trivial
        program := fun o ho => Coroutine.Follows.mono
          (addresses_program srv o.shard (fun e id hn => h e id (ho e id hn)))
          (fun x _ _ => by cases x <;> trivial) (fun _ _ _ => trivial)
        again := fun _ w _ _ => Coroutine.Follows.mono
          ((calls_runWriter w).mono (fun _ _ => trivial))
          (fun x _ _ => by cases x <;> trivial) (fun _ _ _ => trivial) }
    exact ((onTrack_of_run keeps hsteps hrun).1 t ht).1.elim id id

/-- On two shards the id `s1_7` leads a DELETE /mcp to the second. -/
theorem addresses_existing_shards_s1_7 :
    ∃ c, (plainServer 2 two_pos).Reaches
      [.launch ⟨0, request .mcpDelete "s1_7".toList⟩, .advance 0] c ∧
      (∃ t ∈ c.tasks, t.shard = 1) ∧ ∀ t ∈ c.tasks, t.shard < 2 := by
  have hroutable : ∀ e id, id = "s1_7".toList → Routable 2 e id := by
    rintro e _ rfl
    apply (target_lt_iff two_pos e _).mp
    cases e <;> decide
  have hall := (addresses_existing_shards_iff two_pos (fun _ id => id = "s1_7".toList)).mpr
    hroutable
  have hnames : ∀ l ∈ ([.launch ⟨0, request .mcpDelete "s1_7".toList⟩, .advance 0] :
      List (Label Input (Origin (plainServer 2 two_pos).Job))),
      Names (fun _ id => id = "s1_7".toList) l := by
    refine List.forall_mem_cons.mpr ⟨?_, List.forall_mem_singleton.mpr trivial⟩
    intro e id hid
    have hnamed := (named_request .mcpDelete "s1_7".toList).symm.trans hid
    exact (Prod.mk.inj (Option.some.inj hnamed)).2.symm
  obtain ⟨c, hrun⟩ : ∃ c, (plainServer 2 two_pos).Reaches
      [.launch ⟨0, request .mcpDelete "s1_7".toList⟩, .advance 0] c := ⟨_, rfl⟩
  refine ⟨c, hrun, ?_, hall (plainServer 2 two_pos) rfl _ c hnames hrun⟩
  obtain rfl := Option.some.inj hrun
  exact ⟨_, .tail _ (.head _), rfl⟩

/-- DELETE /mcp with the id `s99_1` makes a server on one shard address shard 99. -/
theorem deleteMcp_addresses_missing_shard :
    ∃ c, (plainServer 1 one_pos).Reaches
      [.launch ⟨0, request .mcpDelete "s99_1".toList⟩, .advance 0] c ∧
      ∃ t ∈ c.tasks, t.shard = 99 :=
  ⟨_, rfl, _, .tail _ (.head _), rfl⟩

end McpSdk.SessionRouting

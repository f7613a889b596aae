import McpSdk.CompactJson
import McpSdk.DispatchCalls
import McpSdk.SessionTables

/-!
# The context of a request

`_current_session_id` and `_current_progress_token` belong to the shard, and a handler reads them
after any number of suspensions. It finds what was assigned last: its own session and token, as
long as no call for another session, or with another token, has come in between.
-/

namespace McpSdk.RequestContext
open CppStandardLibrary CooperativeTasks ClusterRuns DispatchCalls

section Tokens

/-- The progress token of a request, `params._meta.progressToken`. -/
def tokenOf (request : Json) : Option Json :=
  ((request.find? "params".toList).bind (·.find? "_meta".toList)).bind
    (·.find? "progressToken".toList)

/-- The progress tokens of a body: those of its request, or of the requests of its batch. -/
def carried (L : JsonLibrary) (body : Str) : List Json :=
  match L.parse body with
  | none => []
  | some (.array requests) => requests.filterMap tokenOf
  | some request => (tokenOf request).toList

/-- The body is a request with this token, a string that is not empty; or it carries no token, and
`token` is empty. -/
def Plain (L : JsonLibrary) (body token : Str) : Prop :=
  (carried L body = [] ∧ token = []) ∨ (token ≠ [] ∧
    ∃ request, L.parse body = some request ∧ tokenOf request = some (.string token))

/-- A message about the progress of a request with the token. -/
def progressMessage (token : Json) (progress : Double) (total : Option Double) : Json :=
  .ofMembers [("jsonrpc".toList, .string "2.0".toList),
    ("method".toList, .string "notifications/progress".toList),
    ("params".toList, .ofMembers ([("progressToken".toList, token),
      ("progress".toList, .floating progress)] ++
      (total.map (fun t => ("total".toList, .floating t))).toList))]

variable {L : JsonLibrary} {body token : Str}

theorem carried_eq_toList {request : Json} (hparse : L.parse body = some request)
    (htoken : (tokenOf request).isSome) : carried L body = (tokenOf request).toList := by
  unfold carried
  rw [hparse]
  cases request with
  | array requests => cases htoken
  | _ => rfl

/-- What `dispatch` reads from a body is the token in its request, if this is a string. -/
theorem progressToken_of_tokenOf {request : Json} (hparse : L.parse body = some request) :
    progressToken L body = match tokenOf request with
      | some (.string token) => token
      | _ => [] := by
  have hcontains : ∀ {j v : Json} {key : Str}, j.find? key = some v → j.contains key = true :=
    fun h => by rw [Json.contains, h]; rfl
  have hget : ∀ {j v : Json} {key : Str}, j.find? key = some v → j.getD key = v :=
    fun h => by rw [Json.getD, h]; rfl
  have hmissing : ∀ {j : Json} {key : Str}, j.find? key = none → j.contains key = false :=
    fun h => by rw [Json.contains, h]; rfl
  rw [progressToken, hparse, tokenOf]
  cases hparams : request.find? "params".toList with
  | none =>
    change (if (request.contains "params".toList && _) = true then _ else []) = []
    rw [hmissing hparams]
    rfl
  | some params =>
    rw [Option.bind_some]
    cases hmeta : params.find? "_meta".toList with
    | none =>
      change (if (_ && (request.getD "params".toList).contains _) = true then _ else []) = []
      rw [hget hparams, hmissing hmeta, Bool.and_false]
      rfl
    | some m =>
      change (if (_ && (request.getD "params".toList).contains _) = true then _ else []) = _
      rw [hget hparams, hcontains hparams, hcontains hmeta, hget hmeta, Option.bind_some,
        Bool.and_self, if_pos rfl]
      cases m with
      | object members =>
        have hobject : (Json.object members).isObject = true := rfl
        rw [Json.valueString, Json.value, if_pos hobject]
        cases (Json.object members).find? "progressToken".toList with
        | none => rfl
        | some token => cases token <;> rfl
      | _ => rfl

theorem progressToken_of_plain (h : Plain L body token) : progressToken L body = token := by
  rcases h with ⟨hnone, rfl⟩ | ⟨-, request, hparse, htoken⟩
  · cases hparse : L.parse body with
    | none =>
      unfold progressToken
      rw [hparse]
    | some request =>
      rw [progressToken_of_tokenOf hparse]
      cases htoken : tokenOf request with
      | none => rfl
      | some token =>
        rw [carried_eq_toList hparse (by rw [htoken]; rfl), htoken] at hnone
        cases hnone
  · rw [progressToken_of_tokenOf hparse, htoken]

theorem dump_progressMessage {request : Json} (hparse : L.parse body = some request)
    (htoken : tokenOf request = some (.string token)) (progress : Double)
    (total : Option Double) : ∃ text,
      L.dump (progressMessage (.string token) progress total) = some text := by
  apply Option.isSome_iff_exists.mp
  rw [L.dump_isSome]
  obtain ⟨m, hm, htoken⟩ := Option.bind_eq_some_iff.mp htoken
  obtain ⟨params, hparams, hm⟩ := Option.bind_eq_some_iff.mp hm
  have hser : (Json.string token).serialisable :=
    Json.serialisable_of_find? (Json.serialisable_of_find? (Json.serialisable_of_find?
      (L.serialisable_of_parse _ _ hparse) hparams) hm) htoken
  apply Json.serialisable_ofMembers
  simp only [List.forall_mem_cons, List.not_mem_nil, false_implies, implies_true, and_true]
  refine ⟨by decide, by decide, by decide, Json.serialisable_ofMembers (fun member hmember => ?_)⟩
  rcases List.mem_append.mp hmember with hmember | hmember
  · rcases List.mem_cons.mp hmember with rfl | hmember
    · exact ⟨(by decide : isUtf8 "progressToken".toList), hser⟩
    · obtain rfl := List.mem_singleton.mp hmember
      exact ⟨(by decide : isUtf8 "progress".toList), rfl⟩
  · obtain ⟨t, -, rfl⟩ := Option.map_eq_some_iff.mp (Option.mem_toList.mp hmember)
    exact ⟨(by decide : isUtf8 "total".toList), rfl⟩

end Tokens

section Events
variable {Job : Type}

/-- The context that the event assigns. -/
def assigns (e : Event ShardI (Origin Job) McpShard) : Option (Str × Str) :=
  match e.op with
  | .inr (.setContext sessionId token) => some (sessionId, token)
  | _ => none

def reportsProgress : ShardI.Op → Bool
  | .inl (.pushProgress _ _) => true
  | _ => false

def usesContext : ShardI.Op → Bool
  | .inl (.subscribeResource _) | .inl (.unsubscribeResource _) | .inl (.pushProgress _ _) => true
  | _ => false

/-- The context is not the one the operation should find. -/
def foreign (sessionId token : Str) : ShardI.Op → Str × Str → Bool
  | .inl (.pushProgress _ _), context => context != (sessionId, token)
  | _, context => context.1 != sessionId

/-- The assignment of the context by the call that `e` belongs to. -/
def IsOwn (e own : Event ShardI (Origin Job) McpShard) : Prop :=
  own.origin = e.origin ∧ own.history <:+ e.past ∧ (assigns own).isSome

/-- The call acts on the shard it runs on, and each foreign assignment there has the call's own
after it. -/
def Undisturbed (older : List (Event ShardI (Origin Job) McpShard)) (sessionId token : Str)
    (e : Event ShardI (Origin Job) McpShard) : Prop :=
  e.shard = e.origin.shard ∧ ∀ newer e' rest context, older = newer ++ e' :: rest →
    e'.shard = e.shard → assigns e' = some context → foreign sessionId token e.op context →
    ∃ own ∈ newer, IsOwn e own

/-- The call is undisturbed with some token, which for a message of progress is the body's. -/
def KeepsContext (L : JsonLibrary) (older : List (Event ShardI (Origin Job) McpShard))
    (body sessionId : Str) (e : Event ShardI (Origin Job) McpShard) : Prop :=
  ∃ token, (reportsProgress e.op → Plain L body token) ∧ Undisturbed older sessionId token e

/-- The text goes to the session, if it is open, and to no other. -/
def Pushes (sessionId text : Str) (s s' : McpShard) : Prop :=
  s' = { s with objects := s'.objects } ∧ ∀ ref, s'.object ref =
    if s.sessions.lookup sessionId = some ref ∧ (s.object ref).active then
      (s.object ref).pushEventually text
    else s.object ref

/-- The event does for the session and the body of the call what it should do. -/
def ActsFor (L : JsonLibrary) (sessionId body : Str) (e : Event ShardI (Origin Job) McpShard) :
    Prop :=
  match e.op with
  | .inl (.subscribeResource uri) =>
      e.after = { e.before with
        subscriptions := if sessionId.isEmpty then e.before.subscriptions
          else e.before.subscriptions.add uri sessionId }
  | .inl (.unsubscribeResource uri) =>
      e.after = { e.before with
        subscriptions := if sessionId.isEmpty then e.before.subscriptions
          else e.before.subscriptions.remove uri sessionId }
  | .inl (.pushProgress progress total) =>
      -- a body without a token, or a call without a session, asks for no messages
      if sessionId.isEmpty || (carried L body).isEmpty then e.after = e.before
      else ∃ token ∈ carried L body, ∃ text,
        L.dump (progressMessage token progress total) = some text ∧
          Pushes sessionId text e.before e.after
  | _ => True

end Events

section Context
variable {L : JsonLibrary} {cfg : McpServerConfig} {Job : Type}

/-- The session and the token that a handler would find. -/
def context (s : McpShard) : Str × Str := (s.currentSessionId, s.currentProgressToken)

theorem context_shardExec (e : Event ShardI (Origin Job) McpShard)
    (h : shardExec L cfg e.shard e.now e.op e.before = (e.res, e.after)) :
    context e.after = (assigns e).getD (context e.before) := by
  have hframe := Frame.of_exec h
  obtain ⟨shard, now, o, past, op, r, before, after⟩ := e
  have keeps : ¬AssignsContext op → context after = context before := fun hop =>
    Prod.ext (hframe.context hop).1 (hframe.context hop).2
  rcases op with op | op
  · exact keeps id
  · cases op with
    | setContext sessionId token => exact congrArg context (congrArg Prod.snd h).symm
    | _ => exact keeps id

end Context

variable {srv : McpServer} {steps : List (Label Input (Origin srv.Job))} {c : srv.State}

/-- What an undisturbed event of a call finds is the call's own context. -/
theorem context_of_undisturbed (h : srv.Reaches steps c)
    {e : Event ShardI (Origin srv.Job) McpShard}
    {older : List (Event ShardI (Origin srv.Job) McpShard)} (hs : e :: older <:+ c.log)
    {body sessionId : Str} (hinstalled : Installed srv.L body sessionId e.past)
    (hfree : Undisturbed older sessionId (progressToken srv.L body) e) :
    foreign sessionId (progressToken srv.L body) e.op (context e.before) = false := by
  have hlawful := (onTrack_of_run (keeps_calls srv) (fun l _ => l.launches_true) h).2
  have hplaced : ∀ own ∈ older, (assigns own).isSome → own.shard = own.origin.shard := by
    intro own hown hassigns
    have hmem : own ∈ c.log := hs.mem (.tail _ hown)
    apply (placed_of_run h).2 own hmem
    have hlaw := hlawful own hmem
    obtain ⟨shard, now, o, past, op, r, before, after⟩ := own
    rcases op with op | op
    · cases hassigns
    · cases op with
      | setContext sessionId token =>
        obtain ⟨_, _, _, hstarted⟩ := of_setContext hlaw
        exact hstarted
      | _ => cases hassigns
  obtain ⟨earlier, hearlier⟩ := hinstalled
  obtain ⟨own, hown, horigin, hhistory⟩ := (recorded_of_run h).2 e older hs _ _ _ hearlier
  have hassigns : assigns own = some (sessionId, progressToken srv.L body) := by
    have hop : own.op = .inr (.setContext sessionId (progressToken srv.L body)) := by
      have := (List.cons.inj hhistory).1
      injection this
    rw [assigns, hop]
  have hshard : own.shard = e.shard := by
    rw [hplaced own hown (by rw [hassigns]; rfl), horigin, hfree.1]
  obtain ⟨shards, hcoherent, hbefore, -⟩ := (coherent_of_run h).of_suffix hs
  have hcontext := hcoherent.eq_newest context assigns (fun e _ => context_shardExec e) e.shard
  cases hnewest : newest assigns e.shard older with
  | none =>
    have hnone := newest_eq_none_iff.mp hnewest own hown hshard
    rw [hassigns] at hnone
    cases hnone
  | some found =>
    rw [hnewest, ← hbefore] at hcontext
    obtain ⟨newer, e', rest, hsplit, hshard', hassigns', hnewer⟩ := newest_eq_some_iff.mp hnewest
    rw [hcontext]
    refine Bool.eq_false_iff.mpr (fun hforeign => ?_)
    obtain ⟨own', hown', horigin', hsuffix, hsome⟩ :=
      hfree.2 newer e' rest found hsplit hshard' hassigns' hforeign
    have hmem : own' ∈ older := hsplit ▸ List.mem_append_left _ hown'
    have hnone := hnewer own' hown' (by rw [hplaced own' hmem hsome, horigin', hfree.1])
    rw [hnone] at hsome
    cases hsome

theorem undisturbed_token {e : Event ShardI (Origin Job) McpShard}
    {older : List (Event ShardI (Origin Job) McpShard)} {sessionId token : Str}
    (hop : ¬reportsProgress e.op) (h : Undisturbed older sessionId token e) (token' : Str) :
    Undisturbed older sessionId token' e := by
  obtain ⟨shard, now, o, past, op, r, before, after⟩ := e
  refine ⟨h.1, fun newer e' rest context hsplit hshard hassigns hforeign => ?_⟩
  apply h.2 newer e' rest context hsplit hshard hassigns
  rcases op with op | op
  · cases op with
    | pushProgress => exact absurd rfl hop
    | _ => exact hforeign
  · exact hforeign

theorem pushes_pushToSession {s : McpShard} (hlinked : s.Linked) (sessionId text : Str) :
    Pushes sessionId text s (s.pushToSession sessionId text) := by
  obtain ⟨objects, -, hframe⟩ := s.pushToSession_frame sessionId text
  refine ⟨by rw [hframe], fun ref => ?_⟩
  simp only [McpShard.object_pushToSession hlinked, McpShard.target_eq_some_iff]

theorem actsFor_of_plain {s : McpShard} {sessionId body token : Str} (hlinked : s.Linked)
    (hplain : Plain L body token) (progress : Double) (total : Option Double) :
    if sessionId.isEmpty || (carried L body).isEmpty then
      (s.pushProgressTo L sessionId token progress total).2 = s
    else ∃ token' ∈ carried L body, ∃ text,
      L.dump (progressMessage token' progress total) = some text ∧
        Pushes sessionId text s (s.pushProgressTo L sessionId token progress total).2 := by
  unfold McpShard.pushProgressTo
  rcases hplain with ⟨hnone, rfl⟩ | ⟨hne, request, hparse, htoken⟩
  · rw [hnone, if_pos (by simp), if_pos (by simp)]
  · have hcarried : carried L body = [.string token] := by
      rw [carried_eq_toList hparse (by rw [htoken]; rfl), htoken]
      rfl
    have hempty : token.isEmpty = false := List.isEmpty_eq_false_iff.mpr hne
    rw [hcarried, hempty]
    by_cases hsession : sessionId.isEmpty
    · rw [if_pos (by simp [hsession]), if_pos (by simp [hsession])]
    · rw [if_neg (by simp [hsession]), if_neg (by simp [hsession])]
      obtain ⟨text, hdump⟩ := dump_progressMessage hparse htoken progress total
      have hsame : L.dump (McpShard.progressNotification token progress total) = some text := hdump
      rw [JsonLibrary.dumpText, hsame]
      exact ⟨_, .head _, text, hdump, pushes_pushToSession hlinked sessionId text⟩

/-- In every run in which no call's handlers are disturbed between the assignment of the call's
context and their use of it, each handler acts for the session of its own call, and its messages
of progress go out under the token that the body of the call carries. -/
theorem acts_for_own_call (srv : McpServer) {steps : List (Label Input (Origin srv.Job))}
    {c : srv.State} (h : srv.Reaches steps c)
    (hfree : ∀ e older, e :: older <:+ c.log → usesContext e.op → ∀ body sessionId,
      callOf e.past = some (body, sessionId) → KeepsContext srv.L older body sessionId e) :
    ∀ e ∈ c.log, ∀ body sessionId, callOf e.past = some (body, sessionId) →
      ActsFor srv.L sessionId body e := by
  intro e he body sessionId hcall
  obtain ⟨older, hs⟩ := suffix_of_mem he
  have hlawful := (onTrack_of_run (keeps_calls srv) (fun l _ => l.launches_true) h).2 e he
  have hlinked := ((tables_of_run h).2 e he).1
  obtain ⟨_, -, -, hexec⟩ := (coherent_of_run h).of_suffix hs
  have hfound : usesContext e.op → Installed srv.L body sessionId e.past →
      foreign sessionId (progressToken srv.L body) e.op (context e.before) = false := by
    intro huses hinstalled
    obtain ⟨token, hplain, hundisturbed⟩ := hfree e older hs huses body sessionId hcall
    apply context_of_undisturbed h hs hinstalled
    by_cases hprogress : reportsProgress e.op
    · exact progressToken_of_plain (hplain hprogress) ▸ hundisturbed
    · exact undisturbed_token hprogress hundisturbed _
  have hkeeps := hfree e older hs
  obtain ⟨shard, now, o, past, op, r, before, after⟩ := e
  have hafter : after = (shardExec srv.L srv.cfg shard now op before).2 :=
    (congrArg Prod.snd hexec).symm
  subst hafter
  rcases op with op | op
  · cases op with
    | subscribeResource uri =>
      have hsession : before.currentSessionId = sessionId :=
        bne_eq_false_iff_eq.mp (hfound rfl (of_handlerCall hlawful id hcall))
      rw [← hsession]
      exact before.subscribeResource_eq uri
    | unsubscribeResource uri =>
      have hsession : before.currentSessionId = sessionId :=
        bne_eq_false_iff_eq.mp (hfound rfl (of_handlerCall hlawful id hcall))
      rw [← hsession]
      exact before.unsubscribeResource_eq uri
    | pushProgress progress total =>
      have hcontext : context before = (sessionId, progressToken srv.L body) :=
        bne_eq_false_iff_eq.mp (hfound rfl (of_handlerCall hlawful id hcall))
      obtain ⟨hsession, htoken⟩ := Prod.mk.inj hcontext
      obtain ⟨token, hplain, -⟩ := hkeeps rfl body sessionId hcall
      have hpushes : (shardExec srv.L srv.cfg shard now (.inl (.pushProgress progress total))
          before).2 = (before.pushProgressTo srv.L sessionId token progress total).2 := by
        rw [← progressToken_of_plain (hplain rfl), ← hsession, ← htoken]
        rfl
      unfold ActsFor
      rw [hpushes]
      exact actsFor_of_plain hlinked (hplain rfl) progress total
    | _ => trivial
  · trivial

/-- A tool that waits for something outside the server and reports its progress. -/
def slowTool : MethodHandler HandlerI := fun _ => do
  let _ ← Coroutine.external
  McpServer.pushProgress ⟨0, by decide⟩ none
  return .object []

theorem addresses_pushProgress (progress : Double) (total : Option Double) {p : ℕ → Prop} :
    (McpServer.pushProgress progress total).Addresses p := by
  apply (Coroutine.Calls.perform (I := HandlerI) trivial).bind
  exact fun _ => (Coroutine.Calls.ofExcept _).coAwait

/-- A server with a slow tool and subscriptions. -/
def slowServer : McpServer :=
  { McpServer.plain CompactJson.library .standard 1 Nat.one_pos with
    methods := fun _ name =>
      if name = "tools/call".toList then some slowTool
      else if name = "resources/subscribe".toList then some McpServer.resourcesSubscribe
      else none
    methods_inRange := by
      intro _ name handler hhandler params
      split at hhandler
      · obtain rfl := Option.some.inj hhandler
        apply Coroutine.Calls.external.bind
        exact fun _ => (addresses_pushProgress _ _).bind (fun _ => .pure _)
      · split at hhandler
        · obtain rfl := Option.some.inj hhandler
          exact McpServer.addresses_withUri _ _
        · cases hhandler }

def request (id : ℕ) (method : Str) (params : Json) : Json :=
  .ofMembers [("jsonrpc".toList, .string "2.0".toList), ("id".toList, .integer id),
    ("method".toList, .string method), ("params".toList, params)]

/-- A POST /message of a session with a batch: the slow tool, and then a subscription. -/
def batchPost (sessionId : Str) : Request where
  query k := if k = "sessionId".toList then sessionId else []
  content := CompactJson.write (.array [request 1 "tools/call".toList (.object []),
    request 2 "resources/subscribe".toList (.ofMembers [("uri".toList, .string "u".toList)])])

/-- The POST of session `A` up to the end of the first element of its batch, the POST of another
session up to the same point of its own, and the rest of the former. -/
def twoPosts (other : Str) : List (Label Input (Origin Empty)) :=
  [.launch ⟨0, .postMessage (batchPost "A".toList)⟩, .advance 0, .advance 0, .advance 0,
    .advance 0] ++
  [.launch ⟨0, .postMessage (batchPost other)⟩, .advance 1, .advance 1, .advance 1,
    .advance 1] ++
  [.resume 0 (.ok .null), .advance 0, .resume 0 (.ok .null), .resume 0 (.ok .null),
    .resume 0 (.ok .null), .advance 0]

def opened : Str := "s0_1".toList

def progressPost : Request where
  query k := if k = "sessionId".toList then opened else []
  content := CompactJson.write (request 1 "tools/call".toList (.ofMembers [("_meta".toList,
    .ofMembers [("progressToken".toList, .string "p".toList)])]))

def twoCalls : List (Label Input (Origin Empty)) :=
  [.launch ⟨0, .getSse {}⟩, .advance 0, .advance 0, .advance 0, .advance 0] ++
  [.launch ⟨0, .postMessage progressPost⟩, .advance 1, .advance 1, .advance 1, .advance 1] ++
  [.launch ⟨0, .postMessage progressPost⟩, .advance 2, .advance 2, .advance 2, .advance 2] ++
  [.resume 1 (.ok .null), .advance 1]

theorem plain_progressPost : Plain CompactJson.library progressPost.content "p".toList := by
  refine .inr ⟨by decide, _, CompactJson.parse_write (by decide +kernel), ?_⟩
  rfl

/-- With another call of the same session in between, the message goes to the session. -/
theorem acts_for_own_call_same_session :
    ∃ c, slowServer.Reaches twoCalls c ∧ ∃ e ∈ c.log, reportsProgress e.op ∧
      callOf e.past = some (progressPost.content, opened) ∧
      ActsFor slowServer.L opened progressPost.content e ∧
      (e.before.object 0).messages = [] ∧ (e.after.object 0).messages ≠ [] := by
  have hrun : (LabelledRuns.run slowServer.system.step slowServer.system.start twoCalls).any
      (fun c => c.log.any (fun e => reportsProgress e.op &&
          callOf e.past == some (progressPost.content, opened) &&
          (e.before.object 0).messages.isEmpty && !(e.after.object 0).messages.isEmpty) &&
        c.log.all (fun e => !usesContext e.op || e.shard == e.origin.shard &&
          (callOf e.past).all (fun call => call.1 == progressPost.content &&
            c.log.all (fun e' => (assigns e').all (fun context =>
              !foreign call.2 "p".toList e.op context))))) := by
    decide +kernel
  obtain ⟨c, hc, hp⟩ := (Option.any_eq_true _ _).mp hrun
  simp only [Bool.and_eq_true, List.any_eq_true, List.all_eq_true, Bool.or_eq_true,
    Bool.not_eq_true', beq_iff_eq, Option.all_eq_true, List.isEmpty_iff,
    List.isEmpty_eq_false_iff] at hp
  obtain ⟨⟨e, he, ⟨⟨hprogress, hcall⟩, hbefore⟩, hafter⟩, hall⟩ := hp
  refine ⟨c, hc, e, he, hprogress, hcall, ?_, hbefore, hafter⟩
  apply acts_for_own_call slowServer hc ?_ e he _ _ hcall
  intro e older hs huses body sessionId hcall
  rcases hall e (hs.mem (.head _)) with hnot | ⟨hshard, hassigned⟩
  · rw [huses] at hnot
    cases hnot
  · obtain ⟨hbody, hsame⟩ := hassigned _ hcall
    obtain rfl : body = progressPost.content := hbody
    refine ⟨_, fun _ => plain_progressPost, hshard,
      fun newer e' rest context hsplit _ hassigns hforeign => ?_⟩
    have hmem : e' ∈ e :: older := .tail _ (hsplit ▸ List.mem_append_right _ (.head _))
    have hown := hsame e' (hs.mem hmem) context hassigns
    rw [hforeign] at hown
    cases hown

/-- With a POST of another session in between, it is the other's. -/
theorem subscribes_other_session :
    ∃ c, slowServer.Reaches (twoPosts "B".toList) c ∧
      ∃ e ∈ c.log, ∃ body, callOf e.past = some (body, "A".toList) ∧
        ¬ActsFor slowServer.L "A".toList body e := by
  have hrun : (LabelledRuns.run slowServer.system.step slowServer.system.start
      (twoPosts "B".toList)).any (fun c => c.log.any (fun e => match e.op with
        | .inl (.subscribeResource uri) => (callOf e.past).any (fun call => call.2 == "A".toList) &&
            e.after.subscriptions.subscribers uri !=
              (e.before.subscriptions.add uri "A".toList).subscribers uri
        | .inl _ | .inr _ => false)) := by
    decide +kernel
  obtain ⟨c, hc, hp⟩ := (Option.any_eq_true _ _).mp hrun
  obtain ⟨e, he, hp⟩ := List.any_eq_true.mp hp
  refine ⟨c, hc, e, he, ?_⟩
  obtain ⟨shard, now, o, past, op, r, before, after⟩ := e
  rcases op with op | op
  · cases op with
    | subscribeResource uri =>
      obtain ⟨hcall, hne⟩ := Bool.and_eq_true_iff.mp hp
      obtain ⟨⟨body, sessionId⟩, hcall, hsession⟩ := (Option.any_eq_true _ _).mp hcall
      obtain rfl : sessionId = "A".toList := beq_iff_eq.mp hsession
      refine ⟨body, hcall, fun hacts => bne_iff_ne.mp hne ?_⟩
      have hafter : after = { before with
        subscriptions := before.subscriptions.add uri "A".toList } := hacts
      rw [hafter]
    | _ => cases hp
  · cases hp

end McpSdk.RequestContext

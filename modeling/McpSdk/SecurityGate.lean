import McpSdk.CompactJson
import McpSdk.McpServer

/-!
# The check chain stands first

Four of the five endpoints begin with `check_request`, whose first two steps look at the client's
address and key alone. A request that fails one of them does nothing at all: its origin only ever
makes calls that leave the state of a shard alone. DELETE /mcp runs no checks, by design: whoever
holds the id of a session may close it.
-/

namespace McpSdk.SecurityGate
open CppStandardLibrary CooperativeTasks ClusterRuns

/-- The request of an endpoint that runs the check chain. -/
def checked {Job : Type} : Work Job → Option Request
  | .getSse req | .postMessage req | .postMcp req | .getMcp req => some req
  | .deleteMcp _ | .job _ => none

/-- The IP filter refuses the client, or the request lacks a valid key. -/
def Refused (cfg : McpServerConfig) (req : Request) : Prop :=
  cfg.ipFilter.isAllowed (getClientIp req) = false ∨
    (cfg.security.apiKey.enabled ∧ getApiKey req ∉ cfg.security.apiKey.keys)

theorem refused_iff {cfg : McpServerConfig} {req : Request} : Refused cfg req ↔
    ∃ result, McpShard.refusal cfg (getClientIp req) (getApiKey req) = some result := by
  unfold Refused McpShard.refusal
  cases cfg.ipFilter.isAllowed (getClientIp req) with
  | false => simp
  | true =>
    cases cfg.security.apiKey.enabled with
    | false => simp
    | true => by_cases hkey : getApiKey req ∈ cfg.security.apiKey.keys <;> simp [hkey]

theorem refusal_ne_ok {cfg : McpServerConfig} {ip key : Str} :
    McpShard.refusal cfg ip key ≠ some .ok := by
  unfold McpShard.refusal
  split
  · exact nofun
  · split <;> exact nofun

theorem checkRequest_of_refusal {cfg : McpServerConfig} {ip key : Str}
    {result : SecurityCheckResult}
    (h : McpShard.refusal cfg ip key = some result) (now : Int) (s : McpShard) :
    s.checkRequest cfg now ip key = (result, s) := by
  rw [McpShard.checkRequest, h]

section Contract
variable {Job : Type}

def Harmless (req : Request) : ShardI.Op → Prop
  | .inr (.checkBodySize _) | .inr (.respond _) => True
  | .inr (.checkRequest clientIp apiKey) => clientIp = getClientIp req ∧ apiKey = getApiKey req
  | _ => False

def CheckResult (cfg : McpServerConfig) : (op : ShardI.Op) → ShardI.Res op → Prop
  | .inr (.checkRequest clientIp apiKey), r =>
      ∀ result, McpShard.refusal cfg clientIp apiKey = some result → r = result
  | _, _ => True

/-- A refused request makes harmless calls only. -/
def gate (cfg : McpServerConfig) (o : Origin Job) : Contract ShardI Unit where
  init := ()
  allows _ op := ∀ req, checked o.work = some req → Refused cfg req → Harmless req op
  answers := CheckResult cfg
  next _ _ _ := ()
  child _ := ()
  rests _ := True
  addresses _ := True

theorem checkResult_shardExec (L : JsonLibrary) (cfg : McpServerConfig) (j : ℕ) (now : Int)
    (op : ShardI.Op) (s : McpShard) : CheckResult cfg op (shardExec L cfg j now op s).1 := by
  rcases op with op | op
  · trivial
  · cases op with
    | checkRequest ip key =>
      intro result hr
      exact congrArg Prod.fst (checkRequest_of_refusal hr now s)
    | _ => trivial

theorem free_gate {cfg : McpServerConfig} {o : Origin Job}
    (h : ∀ req, checked o.work = some req → ¬Refused cfg req) : (gate cfg o).Free where
  allows _ _ req hreq hr := absurd hr (h req hreq)
  rests _ := trivial
  addresses _ := trivial

theorem follows_checkRequest {cfg : McpServerConfig} {o : Origin Job} {req : Request}
    (hreq : checked o.work = some req) (hr : Refused cfg req)
    {k : SecurityCheckResult → ShardTask Reply} {Q : Reply → Unit → Prop}
    {E : Exception → Unit → Prop} (hk : ∀ r ≠ .ok, (k r).Follows (gate cfg o) () Q E) :
    (transport (.checkRequest (getClientIp req) (getApiKey req)) >>= k).Follows
      (gate cfg o) () Q E := by
  obtain ⟨result, hresult⟩ := refused_iff.mp hr
  rw [Coroutine.follows_bind, follows_transport]
  constructor
  · intro req' hreq' _
    obtain rfl := Option.some.inj (hreq.symm.trans hreq')
    exact ⟨rfl, rfl⟩
  · intro r hanswer
    apply hk
    rintro rfl
    obtain rfl := hanswer result hresult
    exact refusal_ne_ok hresult

theorem follows_serve {cfg : McpServerConfig} {o : Origin Job} {handler : ShardTask Reply}
    (h : handler.Follows (gate cfg o) () (fun reply _ => reply.stream = none) (fun _ _ => False)) :
    (serve handler).Follows (gate cfg o) () (fun x _ => x = none) (fun _ _ => True) := by
  apply McpSdk.follows_serve
  apply h.mono
  · intro reply _ hstream
    have hnone : reply.stream.map Stream.writer = none := by rw [hstream, Option.map_none]
    exact ⟨fun _ _ _ => trivial, trivial, hnone, rfl⟩
  · exact fun _ _ hfalse => hfalse.elim

theorem securityReject_stream (r : SecurityCheckResult) : (securityReject r).stream = none := by
  cases r <;> rfl

end Contract

theorem follows_program_of_refused (srv : McpServer) (o : Origin srv.Job) {req : Request}
    (hreq : checked o.work = some req) (hr : Refused srv.cfg req) :
    (srv.program o.shard o.work).Follows (gate srv.cfg o) () (fun x _ => x = none)
      (fun _ _ => True) := by
  have reject : ∀ {k : SecurityCheckResult → ShardTask Reply},
      (∀ r ≠ .ok, k r = pure (securityReject r)) →
      (transport (.checkRequest (getClientIp req) (getApiKey req)) >>= k).Follows (gate srv.cfg o)
        () (fun reply _ => reply.stream = none) (fun _ _ => False) := by
    intro k hk
    apply follows_checkRequest hreq hr
    intro r hne
    rw [hk r hne]
    exact securityReject_stream r
  have small : ∀ {n : ℕ} {k : Bool → ShardTask Reply},
      (∀ b, (k b).Follows (gate srv.cfg o) () (fun reply _ => reply.stream = none)
        (fun _ _ => False)) →
      (transport (.checkBodySize n) >>= k).Follows (gate srv.cfg o) ()
        (fun reply _ => reply.stream = none) (fun _ _ => False) := by
    intro n k hk
    exact (Coroutine.follows_bind _ _).mpr ⟨fun _ _ _ => trivial, fun b _ => hk b⟩
  obtain ⟨j, work⟩ := o
  cases work with
  | getSse req' =>
    obtain rfl := Option.some.inj hreq
    exact follows_serve (reject (fun r hne => if_pos hne))
  | postMessage req' =>
    obtain rfl := Option.some.inj hreq
    apply follows_serve
    apply small
    intro b
    split
    · exact securityReject_stream _
    · exact reject (fun r hne => if_pos hne)
  | postMcp req' =>
    obtain rfl := Option.some.inj hreq
    apply follows_serve
    apply small
    intro b
    split
    · exact securityReject_stream _
    · exact reject (fun r hne => if_pos hne)
  | getMcp req' =>
    obtain rfl := Option.some.inj hreq
    exact follows_serve (reject (fun r hne => if_pos hne))
  | deleteMcp req' => cases hreq
  | job x => cases hreq

theorem keeps_gate (srv : McpServer) : Keeps srv.system (gate srv.cfg) (fun _ => True)
    (fun o _ _ => ∀ req, checked o.work = some req → ¬Refused srv.cfg req) where
  answers _ j now op s := checkResult_shardExec srv.L srv.cfg j now op s
  program o _ := by
    by_cases h : ∃ req, checked o.work = some req ∧ Refused srv.cfg req
    · obtain ⟨req, hreq, hr⟩ := h
      apply (follows_program_of_refused srv o hreq hr).mono
      · rintro x _ rfl
        trivial
      · exact fun _ _ _ => trivial
    · have hfree : ∀ req, checked o.work = some req → ¬Refused srv.cfg req :=
        fun req hreq hr => h ⟨req, hreq, hr⟩
      apply (Coroutine.Follows.of_free (free_gate hfree) _ _).mono
      · rintro x _ -
        cases x with
        | none => trivial
        | some w => exact hfree
      · exact fun _ _ _ => trivial
  again o w _ hfree := by
    apply (Coroutine.Follows.of_free (free_gate hfree) _ _).mono
    · rintro x _ -
      cases x with
      | none => trivial
      | some w => exact hfree
    · exact fun _ _ _ => trivial

theorem after_of_harmless {srv : McpServer} {req : Request}
    {e : Event ShardI (Origin srv.Job) McpShard}
    (hop : Harmless req e.op) (hr : Refused srv.cfg req)
    (hexec : shardExec srv.L srv.cfg e.shard e.now e.op e.before = (e.res, e.after)) :
    e.after = e.before := by
  obtain ⟨j, now, o, past, op, res, before, after⟩ := e
  have hafter : after = (shardExec srv.L srv.cfg j now op before).2 := by rw [hexec]
  rcases op with op | op
  · exact hop.elim
  · cases op with
    | checkBodySize | respond => exact hafter
    | checkRequest ip key =>
      obtain ⟨rfl, rfl⟩ := hop
      obtain ⟨result, hresult⟩ := refused_iff.mp hr
      exact hafter.trans (congrArg Prod.snd (checkRequest_of_refusal hresult now before))
    | _ => exact hop.elim

/-- In every run, nothing that is done for a refused request to an endpoint with checks changes
the state of a shard. -/
theorem refused_changes_nothing (srv : McpServer) {steps : List (Label Input (Origin srv.Job))}
    {c : srv.State} (h : srv.Reaches steps c) : ∀ e ∈ c.log, ∀ req,
      checked e.origin.work = some req → Refused srv.cfg req → e.after = e.before := by
  intro e he req hreq hr
  have hlawful := (onTrack_of_run (keeps_gate srv) (fun l _ => l.launches_true) h).2 e he
  exact after_of_harmless (hlawful.1.1 req hreq hr) hr ((coherent_of_run h).exec e he)

/-- A server that wants the key `k`. -/
def keyedServer : McpServer :=
  .plain CompactJson.library
    { security := { apiKey := { enabled := true, keys := ["k".toList] } } } 1 Nat.one_pos

def keyless : List (Label Input (Origin Empty)) :=
  [.launch ⟨0, .getSse {}⟩, .advance 0, .advance 0]

/-- The check and the reply of a request without a key leave the shard as it is. -/
theorem refused_changes_nothing_keyless :
    ∃ c, keyedServer.Reaches keyless c ∧ ∃ check reply, c.log = [reply, check] ∧
      check.after = check.before ∧ reply.after = reply.before := by
  have hreach : keyedServer.Reaches keyless _ := rfl
  have hrefused : Refused keyedServer.cfg {} := .inr ⟨rfl, by decide⟩
  exact ⟨_, hreach, _, _, rfl,
    refused_changes_nothing keyedServer hreach _ (.tail _ (.head _)) {} rfl hrefused,
    refused_changes_nothing keyedServer hreach _ (.head _) {} rfl hrefused⟩

/-- One client has the key and opens a stream; another has none and closes its session. -/
def intrusion : List (Label Input (Origin Empty)) :=
  [.launch ⟨0, .getSse { header := fun k => if k = "x-api-key".toList then "k".toList else [] }⟩,
    .advance 0, .advance 0, .advance 0, .advance 0,
    .launch ⟨0, .deleteMcp
      { header := fun k => if k = "mcp-session-id".toList then "s0_1".toList else [] }⟩,
    .advance 1, .advance 1, .advance 1, .advance 1]

/-- DELETE /mcp from a client that the checks would refuse removes a session. -/
theorem deleteMcp_removes_session :
    ∃ c, keyedServer.Reaches intrusion c ∧ ∃ e ∈ c.log, ∃ req, e.origin.work = .deleteMcp req ∧
      Refused keyedServer.cfg req ∧ "s0_1".toList ∈ e.before.sessions.keys ∧
      e.after.sessions.keys = [] := by
  refine ⟨_, rfl, _, .head _, _, rfl, .inr ⟨rfl, by decide⟩, by decide, rfl⟩

end McpSdk.SecurityGate

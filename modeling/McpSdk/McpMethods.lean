import McpSdk.ClientLogLevels
import McpSdk.McpRegistry
import McpSdk.McpServer

/-!
# The methods of the server

`_register_mcp_methods`, with the parts of the registry that run code of the application: tools
are called and prompts are asked for their messages. An application is what the SDK is given:
tools, resources and prompts, and the jobs it starts beside the requests.
-/

namespace McpSdk
open CppStandardLibrary CooperativeTasks

/-- A tool with what it does. -/
structure ExecutableTool extends McpTool where
  execute : Json → Coroutine HandlerI Input Exception Json

/-- A prompt with its messages. -/
structure MessagePrompt extends McpPrompt where
  getMessages : Json → Coroutine HandlerI Input Exception Json

/-- The same entries, seen otherwise. -/
def Registered.map {α β : Type*} (f : α → β) (r : Registered α) : Registered β where
  table := ⟨r.table.entries.map (fun entry => ⟨entry.1, f entry.2⟩), by
    have hkeys : (r.table.entries.map fun entry => (⟨entry.1, f entry.2⟩ : (_ : Str) × β)).keys =
        r.table.entries.keys := by simp [List.keys]
    rw [List.NodupKeys, hkeys]
    exact r.table.nodupKeys⟩
  size_lt := by simpa using r.size_lt

def Registered.empty {α : Type*} : Registered α where
  table := ∅
  size_lt := Nat.two_pow_pos 63

/-- The registry, with code. -/
structure CallableRegistry where
  tools : Registered ExecutableTool := .empty
  resources : Registered McpResource := .empty
  prompts : Registered MessagePrompt := .empty

namespace CallableRegistry
variable (registry : CallableRegistry)

def registerTool (tool : ExecutableTool) : Option CallableRegistry :=
  (registry.tools.register tool.name tool).map (fun tools =>
    { registry with tools := tools })

def registerResource (res : McpResource) : Option CallableRegistry :=
  (registry.resources.register res.uri res).map (fun resources =>
    { registry with resources := resources })

def registerPrompt (prompt : MessagePrompt) : Option CallableRegistry :=
  (registry.prompts.register prompt.name prompt).map (fun prompts =>
    { registry with prompts := prompts })

def toMcpRegistry : McpRegistry where
  tools := registry.tools.map (·.toMcpTool)
  resources := registry.resources
  prompts := registry.prompts.map (·.toMcpPrompt)

/-- `if (!result.contains("isError")) result["isError"] = false`. -/
def completed (result : Json) : Except Exception Json :=
  if result.contains "isError".toList then .ok result
  else result.assign "isError".toList (.bool false)

/-- `call_tool`. -/
def callTool (name : Str) (args : Json) : Coroutine HandlerI Input Exception Json :=
  match registry.tools.table.lookup name with
  | none => .throw (.jsonRpc .invalidParams ("Tool not found: ".toList ++ name) .null)
  | some tool => do
      let result ← (tool.execute args).coAwait
      Coroutine.ofExcept (completed result)

/-- `get_prompt`. -/
def getPrompt (name : Str) (args : Json) : Coroutine HandlerI Input Exception Json :=
  match registry.prompts.table.lookup name with
  | none => .throw (.jsonRpc .invalidParams ("Prompt not found: ".toList ++ name) .null)
  | some prompt => do
      let msgs ← (prompt.getMessages args).coAwait
      let description ← Coroutine.ofExcept (prompt.definition.valueString "description".toList [])
      return .ofMembers [("description".toList, .string description), ("messages".toList, msgs)]

end CallableRegistry

section Handlers

/-- The capabilities that `initialize` reports. -/
def capabilities : Json :=
  .ofMembers [("tools".toList, .ofMembers [("listChanged".toList, .bool false)]),
    ("resources".toList,
      .ofMembers [("listChanged".toList, .bool false), ("subscribe".toList, .bool true)]),
    ("prompts".toList, .ofMembers [("listChanged".toList, .bool false)]),
    ("logging".toList, .object [])]

/-- The method `initialize`. -/
def initializeMethod (cfgName cfgVersion : Str) : MethodHandler HandlerI := fun _ =>
  return .ofMembers [("protocolVersion".toList, .string "2025-11-25".toList),
    ("serverInfo".toList,
      .ofMembers [("name".toList, .string cfgName), ("version".toList, .string cfgVersion)]),
    ("capabilities".toList, capabilities)]

/-- The method `ping`. -/
def ping : MethodHandler HandlerI := fun _ => return .object []

/-- A method that runs an entry of the registry: it takes its name and its arguments from the
parameters. -/
def named (run : Str → Json → Coroutine HandlerI Input Exception Json) : MethodHandler HandlerI :=
  fun params => do
    let name ← Coroutine.ofExcept (params.valueString "name".toList [])
    let args ← Coroutine.ofExcept (params.value "arguments".toList (.object []))
    (run name args).coAwait

/-- The method `tools/call`. -/
def toolsCall (registry : CallableRegistry) : MethodHandler HandlerI := named registry.callTool

/-- The method `prompts/get`. -/
def promptsGet (registry : CallableRegistry) : MethodHandler HandlerI := named registry.getPrompt

/-- The method `resources/templates/list`. -/
def resourcesTemplatesList : MethodHandler HandlerI := fun _ =>
  return .ofMembers [("resourceTemplates".toList, .array [.ofMembers
    [("uriTemplate".toList, .string "sys://metrics/\x7bcomponent\x7d".toList),
      ("name".toList, .string "system_metrics_template".toList),
      ("description".toList, .string (literal
        "动态获取系统各组件的指标（component 可为 cpu / disk / network）"))]])]

/-- The method `roots/list`. -/
def rootsList : MethodHandler HandlerI := fun _ =>
  return .ofMembers [("roots".toList, .array [])]

/-- What there is for the argument `focus` of the prompt `analyze_server_health`. -/
def focusOptions : List Str :=
  ["memory".toList, "cpu".toList, "disk".toList, "network".toList]

/-- Is it this argument of this prompt that is to be completed? -/
def asksForFocus (ref argument : Json) : Except Exception Bool := do
  if (← ref.valueString "type".toList []) ≠ "prompt".toList then return false
  else if (← ref.valueString "name".toList []) ≠ "analyze_server_health".toList then return false
  else return (← argument.valueString "name".toList []) = "focus".toList

/-- The values that `completion/complete` offers. -/
def completions (ref argument : Json) : Except Exception (List Json) := do
  if ← asksForFocus ref argument then
    let input ← argument.valueString "value".toList []
    return (focusOptions.filter (fun opt => input.isPrefixOf opt)).map .string
  else return []

/-- The method `completion/complete`. -/
def completionComplete : MethodHandler HandlerI := fun params => do
  let ref ← Coroutine.ofExcept (params.value "ref".toList (.object []))
  let argument ← Coroutine.ofExcept (params.value "argument".toList (.object []))
  let values ← Coroutine.ofExcept (completions ref argument)
  return .ofMembers [("completion".toList, .ofMembers [("values".toList, .array values),
    ("total".toList, .integer values.length), ("hasMore".toList, .bool false)])]

/-- `notifications/initialized`. -/
def notificationsInitialized : NotificationHandler HandlerI := fun _ => .ok (pure ())

/-- `notifications/cancelled`: what it makes of the parameters is for the log. -/
def notificationsCancelled (L : JsonLibrary) : NotificationHandler HandlerI := fun params =>
  .ok do
    if params.contains "requestId".toList then
      let _ ← Coroutine.ofExcept (L.dumpText (params.getD "requestId".toList))
    let _ ← Coroutine.ofExcept (params.valueString "reason".toList [])

/-- The methods that shard `j` registers. -/
def mcpMethods (cfgName cfgVersion : Str) (registry : CallableRegistry) (count j : ℕ) :
    List (Str × MethodHandler HandlerI) :=
  [("initialize".toList, initializeMethod cfgName cfgVersion),
    ("ping".toList, ping),
    ("tools/list".toList, toolsList registry.toMcpRegistry),
    ("tools/call".toList, toolsCall registry),
    ("resources/list".toList, resourcesList registry.toMcpRegistry),
    ("resources/templates/list".toList, resourcesTemplatesList),
    ("resources/read".toList, resourcesRead registry.toMcpRegistry),
    ("resources/subscribe".toList, McpServer.resourcesSubscribe),
    ("resources/unsubscribe".toList, McpServer.resourcesUnsubscribe),
    ("prompts/list".toList, promptsList registry.toMcpRegistry),
    ("prompts/get".toList, promptsGet registry),
    ("logging/setLevel".toList, ClientLogLevels.loggingSetLevel count j),
    ("roots/list".toList, rootsList),
    ("completion/complete".toList, completionComplete)]

def mcpNotifications (L : JsonLibrary) : List (Str × NotificationHandler HandlerI) :=
  [("notifications/initialized".toList, notificationsInitialized),
    ("notifications/cancelled".toList, notificationsCancelled L)]

end Handlers

section Calls
variable {A : HandlerCall → Prop} {T : ℕ → Prop}

/-- What the code of the application calls and whom it addresses. -/
structure CallableRegistry.Calls (registry : CallableRegistry) (A : HandlerCall → Prop)
    (T : ℕ → Prop) : Prop where
  tools : ∀ name tool, registry.tools.table.lookup name = some tool → ∀ args,
    Coroutine.Calls (I := HandlerI) A T (tool.execute args)
  resources : ∀ uri res, registry.resources.table.lookup uri = some res →
    Coroutine.Calls (I := HandlerI) A T res.read
  prompts : ∀ name prompt, registry.prompts.table.lookup name = some prompt → ∀ args,
    Coroutine.Calls (I := HandlerI) A T (prompt.getMessages args)

/-- What a method of the server calls itself on account of its parameters. -/
def Requests (method : Str) (params : Json) : HandlerCall → Prop
  | .subscribeResource uri => method = "resources/subscribe".toList ∧ uri ≠ [] ∧
      params.valueString "uri".toList [] = .ok uri
  | .unsubscribeResource uri => method = "resources/unsubscribe".toList ∧ uri ≠ [] ∧
      params.valueString "uri".toList [] = .ok uri
  | .setClientLogLevel level => method = "logging/setLevel".toList ∧
      ∃ text, params.valueString "level".toList "info".toList = .ok text ∧
        ClientLogLevels.levelOf text = level
  | .gathered _ => method = "logging/setLevel".toList
  | _ => False

theorem calls_ofExcept_bind {α β : Type} {x : Except Exception α}
    {k : α → Coroutine HandlerI Input Exception β} (h : ∀ a, x = .ok a → (k a).Calls A T) :
    (Coroutine.ofExcept x >>= k).Calls A T := by
  cases x with
  | ok a => exact h a rfl
  | error e => exact .throw e

theorem calls_listHandler (key : Str) (list : Except Exception (List Json)) (params : Json) :
    (listHandler key list params).Calls A T := by
  apply calls_ofExcept_bind
  intro all _
  split
  · exact .pure _
  · exact .throw _

theorem calls_named {run : Str → Json → Coroutine HandlerI Input Exception Json}
    (h : ∀ name args, (run name args).Calls A T) (params : Json) :
    (named run params).Calls A T := by
  apply calls_ofExcept_bind
  intro name _
  apply calls_ofExcept_bind
  intro args _
  exact (h name args).coAwait

theorem calls_callTool {registry : CallableRegistry} (h : registry.Calls A T) (name : Str)
    (args : Json) : (registry.callTool name args).Calls A T := by
  unfold CallableRegistry.callTool
  cases htool : registry.tools.table.lookup name with
  | none => exact .throw _
  | some tool =>
    have hexecute := h.tools name tool htool args
    exact hexecute.coAwait.bind (fun result => .ofExcept _)

theorem calls_getPrompt {registry : CallableRegistry} (h : registry.Calls A T) (name : Str)
    (args : Json) : (registry.getPrompt name args).Calls A T := by
  unfold CallableRegistry.getPrompt
  cases hprompt : registry.prompts.table.lookup name with
  | none => exact .throw _
  | some prompt =>
    have hmessages := h.prompts name prompt hprompt args
    exact hmessages.coAwait.bind (fun _ => (Coroutine.Calls.ofExcept _).bind (fun _ => .pure _))

theorem calls_resourcesRead {registry : McpRegistry}
    (h : ∀ uri res, registry.resources.table.lookup uri = some res →
      Coroutine.Calls (I := HandlerI) A T res.read) (params : Json) :
    (resourcesRead registry params).Calls A T := by
  apply calls_ofExcept_bind
  intro uri _
  split
  · exact .pure _
  · apply Coroutine.Calls.coAwait
    unfold McpRegistry.readResource
    cases hres : registry.resources.table.lookup uri with
    | none => exact .throw _
    | some res =>
      have hread := h uri res hres
      exact hread.coAwait.bind (fun _ => (Coroutine.Calls.ofExcept _).bind (fun _ => .pure _))

theorem calls_withUri {op : Str → HandlerCall} {params : Json}
    (h : ∀ uri, uri ≠ [] → params.valueString "uri".toList [] = .ok uri → A (op uri)) :
    (McpServer.withUri op params).Calls A T := by
  apply calls_ofExcept_bind
  intro uri huri
  split
  · exact .pure _
  · rename_i hempty
    have hop : A (op uri) := h uri (by simpa using hempty) huri
    exact (Coroutine.Calls.perform (I := HandlerI) hop).bind (fun _ => .pure _)

theorem calls_loggingSetLevel {count j : ℕ} (hT : ∀ n, n < count → T n) {params : Json}
    (h : ∀ text, params.valueString "level".toList "info".toList = .ok text →
      A (.setClientLogLevel (ClientLogLevels.levelOf text)))
    (hgathered : ∀ n, A (.gathered n)) :
    (ClientLogLevels.loggingSetLevel count j params).Calls A T := by
  apply calls_ofExcept_bind
  intro text htext
  have hset : A (.setClientLogLevel (ClientLogLevels.levelOf text)) := h text htext
  apply (Coroutine.Calls.perform (I := HandlerI) hset).bind
  intro _
  have hmessage :=
    Coroutine.Calls.perform (I := HandlerI) (ι := Input) (ε := Exception) (T := T) hset
  exact (Coroutine.Calls.invokeOnOthers hgathered hT hmessage).bind (fun _ => .pure _)

theorem calls_completionComplete (params : Json) : (completionComplete params).Calls A T := by
  apply calls_ofExcept_bind
  intro ref _
  apply calls_ofExcept_bind
  intro argument _
  apply calls_ofExcept_bind
  exact fun values _ => .pure _

theorem mem_of_lookup {β : Type*} {key : Str} {v : β} {entries : List (Str × β)}
    (h : entries.lookup key = some v) : (key, v) ∈ entries := by
  obtain ⟨before, after, rfl, -⟩ := List.lookup_eq_some_iff.mp h
  simp

theorem calls_mcpMethods {cfgName cfgVersion : Str} {registry : CallableRegistry} {count j : ℕ}
    (hregistry : registry.Calls A T) (hT : ∀ n, n < count → T n) {method : Str}
    {handler : MethodHandler HandlerI}
    (h : (mcpMethods cfgName cfgVersion registry count j).lookup method = some handler)
    {params : Json} (hA : ∀ op, Requests method params op → A op) :
    Coroutine.Calls (I := HandlerI) A T (handler params) := by
  have hmem := mem_of_lookup h
  simp only [mcpMethods, List.mem_cons, Prod.mk.injEq, List.not_mem_nil, or_false] at hmem
  rcases hmem with ⟨-, rfl⟩ | ⟨-, rfl⟩ | ⟨-, rfl⟩ | ⟨-, rfl⟩ | ⟨-, rfl⟩ | ⟨-, rfl⟩ | ⟨-, rfl⟩ |
    ⟨hname, rfl⟩ | ⟨hname, rfl⟩ | ⟨-, rfl⟩ | ⟨-, rfl⟩ | ⟨hname, rfl⟩ | ⟨-, rfl⟩ | ⟨-, rfl⟩
  · exact .pure _
  · exact .pure _
  · exact calls_listHandler _ _ params
  · exact calls_named (calls_callTool hregistry) params
  · exact calls_listHandler _ _ params
  · exact .pure _
  · exact calls_resourcesRead hregistry.resources params
  · exact calls_withUri (fun uri hne huri => hA _ ⟨hname, hne, huri⟩)
  · exact calls_withUri (fun uri hne huri => hA _ ⟨hname, hne, huri⟩)
  · exact calls_listHandler _ _ params
  · exact calls_named (calls_getPrompt hregistry) params
  · exact calls_loggingSetLevel hT (fun text htext => hA _ ⟨hname, text, htext, rfl⟩)
      (fun _ => hA _ hname)
  · exact .pure _
  · exact calls_completionComplete params

theorem calls_mcpNotifications {L : JsonLibrary} {method : Str}
    {handler : NotificationHandler HandlerI}
    (h : (mcpNotifications L).lookup method = some handler) {params : Json}
    {t : Coroutine HandlerI Input Exception Unit} (ht : handler params = .ok t) :
    Coroutine.Calls (I := HandlerI) A T t := by
  have hmem := mem_of_lookup h
  simp only [mcpNotifications, List.mem_cons, Prod.mk.injEq, List.not_mem_nil, or_false] at hmem
  rcases hmem with ⟨-, rfl⟩ | ⟨-, rfl⟩
  · obtain rfl := Except.ok.inj ht
    exact .pure _
  · obtain rfl := Except.ok.inj ht
    dsimp only
    split
    · exact (Coroutine.Calls.ofExcept _).bind
        (fun _ => (Coroutine.Calls.ofExcept _).bind (fun _ => .pure _))
    · exact (Coroutine.Calls.ofExcept _).bind (fun _ => .pure _)

end Calls

/-- What the SDK is given: the name of the server, its entries and the jobs that the embedding
program starts. Its code addresses shards that exist. -/
structure Application where
  L : JsonLibrary
  cfg : McpServerConfig
  name : Str := "mcp-server".toList
  version : Str := "1.0.0".toList
  registry : CallableRegistry := {}
  count : ℕ
  Job : Type
  job : ℕ → Job → Coroutine HandlerI Input Exception Unit
  count_pos : 0 < count
  registry_inRange : registry.Calls (fun _ => True) (· < count)
  job_inRange : ∀ j x, (job j x).Addresses (· < count)

/-- The server of an application: `start` has registered the methods on every shard. -/
def Application.server (app : Application) : McpServer where
  L := app.L
  cfg := app.cfg
  count := app.count
  methods j method := (mcpMethods app.name app.version app.registry app.count j).lookup method
  notifications _ method := (mcpNotifications app.L).lookup method
  Job := app.Job
  job := app.job
  count_pos := app.count_pos
  methods_inRange _ _ _ h _ :=
    calls_mcpMethods app.registry_inRange (fun _ hn => hn) h (fun _ _ => trivial)
  notifications_inRange _ _ _ h _ _ ht := calls_mcpNotifications h ht
  job_inRange := app.job_inRange

end McpSdk

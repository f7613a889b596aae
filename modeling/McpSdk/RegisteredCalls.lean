import McpSdk.BatchRequests
import McpSdk.CompactJson
import McpSdk.JsonRpcConformance
import McpSdk.McpMethods
import McpSdk.ResourceReads
import McpSdk.TaskOutcomes

/-!
# Calling what is registered

After any registrations, `tools/call` runs the tool registered last under the name and
`prompts/get` asks the prompt registered last, whatever else the server does meanwhile: the
possible responses to a request are its possible outcomes, completed. The lists show these
tools and prompts, each name once.
-/

namespace McpSdk.RegisteredCalls
open CppStandardLibrary CooperativeTasks JsonRpcDispatcher JsonRpcConformance CallableRegistry
open RegistryLists

section Registration

inductive Registration
  | tool (tool : ExecutableTool)
  | resource (res : McpResource)
  | prompt (prompt : MessagePrompt)

namespace Registration

def register (registry : CallableRegistry) : Registration → Option CallableRegistry
  | tool t => registry.registerTool t
  | resource r => registry.registerResource r
  | prompt p => registry.registerPrompt p

def tool? : Registration → Option ExecutableTool
  | tool t => some t
  | _ => none

def prompt? : Registration → Option MessagePrompt
  | prompt p => some p
  | _ => none

end Registration

/-- The registry after a series of registrations, if there is room for them all. -/
def registerAll (rs : List Registration) : Option CallableRegistry :=
  rs.foldlM Registration.register {}

def lastNamed {α : Type*} (nameOf : α → Str) (xs : List α) (name : Str) : Option α :=
  xs.reverse.find? (fun x => nameOf x == name)

/-- The tool that is called by the name. -/
def lastTool (rs : List Registration) (name : Str) : Option ExecutableTool :=
  lastNamed (fun t : ExecutableTool => t.name) (rs.filterMap Registration.tool?) name

/-- The prompt that is asked for by the name. -/
def lastPrompt (rs : List Registration) (name : Str) : Option MessagePrompt :=
  lastNamed (fun p : MessagePrompt => p.name) (rs.filterMap Registration.prompt?) name

theorem lookup_register {α : Type*} {r r' : Registered α} {name : Str} {x : α}
    (h : r.register name x = some r') (key : Str) :
    r'.table.lookup key = if name = key then some x else r.table.lookup key := by
  unfold Registered.register at h
  split at h
  · obtain rfl := Option.some.inj h
    by_cases hkey : name = key
    · subst hkey
      simp
    · simp [hkey, AList.lookup_insert_ne (Ne.symm hkey)]
  · cases h

/-- A table has, under each name, what has been registered last. -/
theorem lookup_of_registerAll {α : Type*} {table : CallableRegistry → Registered α}
    {entry : Registration → Option α} {nameOf : α → Str} (hempty : (table {}).table = ∅)
    (hstep : ∀ r registry registry', Registration.register registry r = some registry' →
      match entry r with
      | some x => (table registry).register (nameOf x) x = some (table registry')
      | none => table registry' = table registry)
    {rs : List Registration} {registry : CallableRegistry} (h : registerAll rs = some registry)
    (name : Str) :
    (table registry).table.lookup name = lastNamed nameOf (rs.filterMap entry) name := by
  induction rs using List.reverseRecOn generalizing registry with
  | nil =>
    obtain rfl := Option.some.inj h
    rw [hempty]
    rfl
  | append_singleton rs r ih =>
    rw [registerAll, List.foldlM_append] at h
    obtain ⟨old, hold, hr⟩ := Option.bind_eq_some_iff.mp h
    have hregister : Registration.register old r = some registry := by simpa using hr
    have hnew := hstep r old registry hregister
    rw [List.filterMap_append]
    cases hentry : entry r with
    | none =>
      rw [hentry] at hnew
      simp only [List.filterMap_cons, hentry, List.filterMap_nil, List.append_nil]
      rw [← ih hold, hnew]
    | some x =>
      rw [hentry] at hnew
      rw [lookup_register hnew, ih hold]
      simp only [List.filterMap_cons, hentry, List.filterMap_nil, lastNamed, List.reverse_append,
        List.reverse_singleton, List.singleton_append, List.find?_cons]
      by_cases hname : nameOf x = name
      · have hsame : (nameOf x == name) = true := beq_iff_eq.mpr hname
        rw [if_pos hname, hsame]
      · have hother : (nameOf x == name) = false := beq_eq_false_iff_ne.mpr hname
        rw [if_neg hname, hother]

variable {rs : List Registration} {registry : CallableRegistry}

theorem lookup_tools (h : registerAll rs = some registry) (name : Str) :
    registry.tools.table.lookup name = lastTool rs name := by
  refine lookup_of_registerAll rfl ?_ h name
  intro r registry registry' hr
  cases r with
  | tool t =>
    obtain ⟨tools, htools, rfl⟩ := Option.map_eq_some_iff.mp hr
    exact htools
  | resource res =>
    obtain ⟨resources, -, rfl⟩ := Option.map_eq_some_iff.mp hr
    rfl
  | prompt p =>
    obtain ⟨prompts, -, rfl⟩ := Option.map_eq_some_iff.mp hr
    rfl

theorem lookup_prompts (h : registerAll rs = some registry) (name : Str) :
    registry.prompts.table.lookup name = lastPrompt rs name := by
  refine lookup_of_registerAll rfl ?_ h name
  intro r registry registry' hr
  cases r with
  | tool t =>
    obtain ⟨tools, -, rfl⟩ := Option.map_eq_some_iff.mp hr
    rfl
  | resource res =>
    obtain ⟨resources, -, rfl⟩ := Option.map_eq_some_iff.mp hr
    rfl
  | prompt p =>
    obtain ⟨prompts, hprompts, rfl⟩ := Option.map_eq_some_iff.mp hr
    exact hprompts

end Registration

section Requests
variable {L : JsonLibrary} {d : JsonRpcDispatcher HandlerI} {σ : Type}
  {S : Surroundings HandlerI σ} {j : ℕ} {s : ℕ → σ}

/-- The response to a request whose handler ends so. -/
def responseTo (id : Json) : Except Exception Json → JsonRpcResponse
  | .ok result => { id := id, result := some result }
  | .error e => .ofException id e

theorem reply_eq (r : JsonRpcResponse) :
    reply (I := HandlerI) L r = Coroutine.ofExcept ((L.dumpText r.toJson).map some) := by
  unfold reply
  cases L.dumpText r.toJson <;> rfl

/-- The possible replies to a request that has a handler are the possible outcomes of the handler,
as responses. -/
theorem mayEnd_handleRequest (hmean : ∀ s, S.meanwhile s s) {body : Str} {v : Json} {method : Str}
    (hbody : L.parse body = some v) (hrequest : IsRequest v method) (hid : v.contains "id".toList)
    {handler : MethodHandler HandlerI} (hhandler : d.methods method = some handler)
    {out : Except Exception (Option Str)} :
    (d.handleRequest L body).MayEnd S j s out ↔ ∃ x, (handler (paramsOf v)).MayEnd S j s x ∧
      out = (L.dumpText (responseTo (v.getD "id".toList) x).toJson).map some := by
  have hobj : v.isObject := by
    cases v with
    | object members => rfl
    | _ => cases hrequest.1
  have hmethod : v.getD "method".toList = .string method := by
    rw [Json.getD, hrequest.2, Option.getD_some]
  have hm : malformed v = false := by
    refine malformed_eq_false_iff.mpr ⟨hobj, hrequest.1, ?_⟩
    rw [Json.contains, hrequest.2, Option.isSome_some]
  have hreply : reply (I := HandlerI) L =
      fun r => Coroutine.ofExcept ((L.dumpText r.toJson).map some) := funext reply_eq
  rw [BatchRequests.handleRequest_single hbody hobj, Coroutine.mayEnd_coAwait hmean,
    handleSingle_of_request hm hmethod, if_pos hid, hhandler]
  dsimp only
  rw [hreply, Coroutine.mayEnd_bind_ofExcept]
  constructor
  · rintro ⟨y, hy, rfl⟩
    obtain ⟨z, hz, rfl⟩ := Coroutine.mayEnd_tryCatch.mp hy
    obtain ⟨x, hx, rfl⟩ := Coroutine.mayEnd_bind_pure.mp hz
    refine ⟨x, (Coroutine.mayEnd_coAwait hmean).mp hx, ?_⟩
    cases x <;> rfl
  · rintro ⟨x, hx, rfl⟩
    have hawait := (Coroutine.mayEnd_coAwait hmean).mpr hx
    refine ⟨_, Coroutine.mayEnd_tryCatch.mpr
      ⟨_, Coroutine.mayEnd_bind_pure.mpr ⟨x, hawait, rfl⟩, rfl⟩, ?_⟩
    cases x <;> rfl

/-- The parameters name an entry of the registry, and give it arguments. -/
structure Names (params : Json) (name : Str) (args : Json) : Prop where
  name : params.valueString "name".toList [] = .ok name
  args : params.value "arguments".toList (.object []) = .ok args

theorem mayEnd_named (hmean : ∀ s, S.meanwhile s s)
    {run : Str → Json → Coroutine HandlerI Input Exception Json} {params : Json} {name : Str}
    {args : Json} (h : Names params name args) {x : Except Exception Json} :
    (named run params).MayEnd S j s x ↔ (run name args).MayEnd S j s x := by
  rw [named, h.name, h.args]
  exact Coroutine.mayEnd_coAwait hmean

/-- A tool may end so, when it is called by a name. -/
def ToolEnds (rs : List Registration) (S : Surroundings HandlerI σ) (j : ℕ) (s : ℕ → σ) (name : Str)
    (args : Json) (x : Except Exception Json) : Prop :=
  match lastTool rs name with
  | some tool => ∃ y, (tool.execute args).MayEnd S j s y ∧ x = y.bind completed
  | none => x = .error (.jsonRpc .invalidParams ("Tool not found: ".toList ++ name) .null)

/-- What is returned for the messages of a prompt. -/
def described (prompt : MessagePrompt) (msgs : Json) : Except Exception Json :=
  (prompt.definition.valueString "description".toList []).map (fun description =>
    .ofMembers [("description".toList, .string description), ("messages".toList, msgs)])

/-- A prompt may end so, when it is asked for by a name. -/
def PromptEnds (rs : List Registration) (S : Surroundings HandlerI σ) (j : ℕ) (s : ℕ → σ)
    (name : Str) (args : Json) (x : Except Exception Json) : Prop :=
  match lastPrompt rs name with
  | some prompt => ∃ y, (prompt.getMessages args).MayEnd S j s y ∧ x = y.bind (described prompt)
  | none => x = .error (.jsonRpc .invalidParams ("Prompt not found: ".toList ++ name) .null)

variable {rs : List Registration} {registry : CallableRegistry}

theorem mayEnd_callTool (hmean : ∀ s, S.meanwhile s s) (h : registerAll rs = some registry)
    {name : Str} {args : Json} {x : Except Exception Json} :
    (registry.callTool name args).MayEnd S j s x ↔ ToolEnds rs S j s name args x := by
  unfold callTool ToolEnds
  rw [lookup_tools h]
  cases lastTool rs name with
  | none => exact Coroutine.mayEnd_throw
  | some tool =>
    refine Coroutine.mayEnd_bind_ofExcept.trans (exists_congr fun y => and_congr_left' ?_)
    exact Coroutine.mayEnd_coAwait hmean

theorem mayEnd_getPrompt (hmean : ∀ s, S.meanwhile s s) (h : registerAll rs = some registry)
    {name : Str} {args : Json} {x : Except Exception Json} :
    (registry.getPrompt name args).MayEnd S j s x ↔ PromptEnds rs S j s name args x := by
  unfold getPrompt PromptEnds
  rw [lookup_prompts h]
  cases lastPrompt rs name with
  | none => exact Coroutine.mayEnd_throw
  | some prompt =>
    have hdescribed : (fun msgs => (do
        let description ← Coroutine.ofExcept (prompt.definition.valueString "description".toList [])
        return .ofMembers [("description".toList, .string description), ("messages".toList, msgs)] :
          Coroutine HandlerI Input Exception Json)) =
        fun msgs => Coroutine.ofExcept (described prompt msgs) := by
      funext msgs
      unfold described
      cases prompt.definition.valueString "description".toList [] <;> rfl
    dsimp only
    rw [hdescribed, Coroutine.mayEnd_bind_ofExcept]
    exact exists_congr fun y => and_congr_left' (Coroutine.mayEnd_coAwait hmean)

end Requests

section Results

theorem find?_insertMember_self (key : Str) (v : Json) (members : List (Str × Json)) :
    (Json.object (Json.insertMember key v members)).find? key = some v := by
  induction members with
  | nil => simp [Json.find?, Json.insertMember]
  | cons m ms ih =>
    unfold Json.insertMember
    simp only [Json.find?] at ih ⊢
    split
    · simp
    · split
      · simp
      · rename_i hne
        have hm : (m.1 == key) = false := beq_eq_false_iff_ne.mpr (Ne.symm hne)
        rw [List.find?_cons, hm]
        exact ih

theorem find?_completed {result result' : Json} (h : completed result = .ok result') :
    result'.find? "isError".toList =
        some ((result.find? "isError".toList).getD (.bool false)) ∧
      ∀ key, key ≠ "isError".toList → result'.find? key = result.find? key := by
  unfold completed at h
  split at h
  · rename_i hflag
    obtain rfl := Except.ok.inj h
    obtain ⟨flag, hfind⟩ := Option.isSome_iff_exists.mp hflag
    exact ⟨by rw [hfind, Option.getD_some], fun _ _ => rfl⟩
  · rename_i hflag
    have hnone : result.find? "isError".toList = none := by
      cases hfind : result.find? "isError".toList with
      | none => rfl
      | some flag => simp [Json.contains, hfind, -String.reduceToList] at hflag
    rw [hnone, Option.getD_none]
    cases result with
    | object members =>
      obtain rfl := Except.ok.inj h
      exact ⟨find?_insertMember_self _ _ _, fun key hkey => ResourceReads.find?_insertMember hkey _⟩
    | null =>
      obtain rfl := Except.ok.inj h
      exact ⟨rfl, fun key hkey => by simp [Json.find?, Ne.symm hkey, -String.reduceToList]⟩
    | _ => cases h

/-- The list shows what is registered last under each name, each name once. -/
structure Shows {α : Type*} (registered : Registered α) (last : Str → Option α)
    (listing : α → Except Exception Json) (items : List Json) : Prop where
  entries : List.Forall₂ (fun entry item => last entry.1 = some entry.2 ∧
    listing entry.2 = .ok item) registered.table.entries items
  once : registered.table.keys.Nodup
  all : ∀ name, name ∈ registered.table.keys ↔ ∃ x, last name = some x

theorem shows_of_lookup {α : Type*} {registered : Registered α} {last : Str → Option α}
    (listing : α → Except Exception Json)
    (hlookup : ∀ name, registered.table.lookup name = last name)
    (hlisting : ∀ x, ∃ item, listing x = .ok item) :
    ∃ items, registered.table.entries.mapM (fun entry => listing entry.2) = .ok items ∧
      Shows registered last listing items := by
  obtain ⟨items, hlist, hitems⟩ := mapM_isOk (f := fun entry => listing entry.2)
    (fun (entry : (_ : Str) × α) (_ : entry ∈ registered.table.entries) => hlisting entry.2)
  refine ⟨items, hlist, (List.forall₂_and_left _ _).mpr ⟨fun entry hentry => ?_, hitems⟩,
    registered.table.keys_nodup, fun name => ?_⟩
  · rw [← hlookup]
    exact AList.mem_lookup_iff.mpr hentry
  · rw [← hlookup, ← Option.isSome_iff_exists, AList.lookup_isSome]
    rfl

theorem mapM_entries {α β : Type*} (f : α → β) (registered : Registered α)
    (listing : β → Except Exception Json) :
    (registered.map f).table.entries.mapM (fun entry => listing entry.2) =
      registered.table.entries.mapM (fun entry => listing (f entry.2)) := by
  simp only [Registered.map]
  induction registered.table.entries with
  | nil => rfl
  | cons entry entries ih => simp [List.map_cons, List.mapM_cons, ih]

end Results

/-- After any registrations: the lists show the tools and the prompts that are the last ones under
their names; a call by a name is answered with a possible outcome of the last tool of that name,
flagged as no error if the tool does not say, or with the messages of the last prompt of that
name; and a name without an entry is refused. -/
theorem registered_called (app : Application) (rs : List Registration)
    (h : registerAll rs = some app.registry) :
    (∃ items, app.registry.toMcpRegistry.getToolsList = .ok items ∧
      Shows app.registry.tools (lastTool rs) (fun tool => tool.toMcpTool.listed) items) ∧
    (∃ items, app.registry.toMcpRegistry.getPromptsList = .ok items ∧
      Shows app.registry.prompts (lastPrompt rs) (fun prompt => prompt.toMcpPrompt.listed) items) ∧
    (∀ result result', completed result = .ok result' →
      result'.find? "isError".toList =
          some ((result.find? "isError".toList).getD (.bool false)) ∧
        ∀ key, key ≠ "isError".toList → result'.find? key = result.find? key) ∧
    ∀ {σ : Type} (S : Surroundings HandlerI σ), (∀ s, S.meanwhile s s) →
      ∀ j s body v name args out, app.L.parse body = some v → v.contains "id".toList →
        Names (paramsOf v) name args →
        (IsRequest v "tools/call".toList →
          (((app.server.dispatcher j).handleRequest app.L body).MayEnd S j s out ↔
            ∃ x, ToolEnds rs S j s name args x ∧
              out = (app.L.dumpText (responseTo (v.getD "id".toList) x).toJson).map some)) ∧
        (IsRequest v "prompts/get".toList →
          (((app.server.dispatcher j).handleRequest app.L body).MayEnd S j s out ↔
            ∃ x, PromptEnds rs S j s name args x ∧
              out = (app.L.dumpText (responseTo (v.getD "id".toList) x).toJson).map some)) := by
  refine ⟨?_, ?_, fun result result' => find?_completed, ?_⟩
  · obtain ⟨items, hitems, hshows⟩ := shows_of_lookup
      (fun tool : ExecutableTool => tool.toMcpTool.listed) (lookup_tools h)
      (fun tool => listed_isOk _ _ _ _ tool.isObject)
    exact ⟨items, (mapM_entries _ _ _).trans hitems, hshows⟩
  · obtain ⟨items, hitems, hshows⟩ := shows_of_lookup
      (fun prompt : MessagePrompt => prompt.toMcpPrompt.listed) (lookup_prompts h)
      (fun prompt => listed_isOk _ _ _ _ prompt.isObject)
    exact ⟨items, (mapM_entries _ _ _).trans hitems, hshows⟩
  · intro σ S hmean j s body v name args out hbody hid hnames
    constructor
    · intro hrequest
      have hhandler : (app.server.dispatcher j).methods "tools/call".toList =
          some (toolsCall app.registry) := rfl
      rw [mayEnd_handleRequest hmean hbody hrequest hid hhandler]
      refine exists_congr fun x => and_congr_left' ?_
      exact (mayEnd_named hmean hnames).trans (mayEnd_callTool hmean h)
    · intro hrequest
      have hhandler : (app.server.dispatcher j).methods "prompts/get".toList =
          some (promptsGet app.registry) := rfl
      rw [mayEnd_handleRequest hmean hbody hrequest hid hhandler]
      refine exists_congr fun x => and_congr_left' ?_
      exact (mayEnd_named hmean hnames).trans (mayEnd_getPrompt hmean h)

section Examples

def tellingTool (text : Str) : ExecutableTool where
  name := "t".toList
  definition := .object []
  isObject := rfl
  execute _ := pure (.object [("text".toList, .string text)])

def twoTools : List Registration :=
  [.tool (tellingTool "old".toList), .tool (tellingTool "new".toList)]

def newTools : Registered ExecutableTool where
  table := AList.singleton "t".toList (tellingTool "new".toList)

def toolApp : Application where
  L := CompactJson.library
  cfg := .standard
  registry := { tools := newTools }
  count := 1
  Job := Empty
  job _ x := x.elim
  count_pos := Nat.one_pos
  registry_inRange := by
    refine ⟨fun name tool h args => ?_, fun uri res h => ?_, fun name prompt h args => ?_⟩
    · obtain ⟨-, rfl⟩ : name = "t".toList ∧ tool = tellingTool "new".toList := by
        have hmem := AList.mem_lookup_iff.mp h
        simpa [newTools] using hmem
      exact .pure _
    · cases h
    · cases h
  job_inRange _ x := x.elim

def toolCall : Json :=
  .object [("id".toList, .integer 1), ("jsonrpc".toList, .string "2.0".toList),
    ("method".toList, .string "tools/call".toList),
    ("params".toList, .object [("name".toList, .string "t".toList)])]

def toolResult : Json :=
  .object [("isError".toList, .bool false), ("text".toList, .string "new".toList)]

/-- The call reaches the second tool. -/
theorem registered_called_twoTools : ∃ body text,
    CompactJson.library.dump toolCall = some body ∧
    CompactJson.library.dump (responseTo (.integer 1) (.ok toolResult)).toJson = some text ∧
    ((toolApp.server.dispatcher 0).handleRequest CompactJson.library body).MayEnd
      ResourceReads.alone 0 (fun _ => {}) (.ok (some text)) := by
  obtain ⟨body, hbody⟩ := Option.isSome_iff_exists.mp
    (show (CompactJson.library.dump toolCall).isSome by decide +kernel)
  obtain ⟨text, htext⟩ := Option.isSome_iff_exists.mp
    (show (CompactJson.library.dump (responseTo (.integer 1) (.ok toolResult)).toJson).isSome by
      decide +kernel)
  have hcalls := (registered_called toolApp twoTools rfl).2.2.2 ResourceReads.alone (fun _ => rfl) 0
    (fun _ => {}) body toolCall "t".toList (.object []) (.ok (some text))
    (CompactJson.library.parse_dump _ _ hbody) rfl ⟨rfl, rfl⟩
  refine ⟨body, text, hbody, htext, (hcalls.1 ⟨rfl, rfl⟩).mpr ⟨.ok toolResult, ?_, ?_⟩⟩
  · exact ⟨.ok (.object [("text".toList, .string "new".toList)]), ⟨_, rfl, rfl⟩, rfl⟩
  · have hdump :
        toolApp.L.dumpText (responseTo (.integer 1) (.ok toolResult)).toJson = .ok text := by
      rw [JsonLibrary.dumpText, show toolApp.L.dump _ = some text from htext]
    exact (congrArg (Except.map some) hdump).symm

end Examples

end McpSdk.RegisteredCalls

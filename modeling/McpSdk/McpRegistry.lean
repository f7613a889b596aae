import McpSdk.CppTexts
import McpSdk.ShardOperations

/-!
# The registry and its handlers

`registry.hh` and the list handlers of `mcp_server.cc`. Tools, resources and prompts are found by
name; what a list shows of each is its definition, an object, with what the definition does not
say itself. The three lists are served in pages of 50, by one algorithm. Its iterators are
positions, and arithmetic that would leave the list has no result.
-/

namespace McpSdk
open CppStandardLibrary CooperativeTasks

namespace Json

/-- `j[key] = v`: null becomes an object, and what is neither null nor an object throws. -/
def assign (j : Json) (key : Str) (v : Json) : Except Exception Json :=
  match j with
  | object members => .ok (object (insertMember key v members))
  | null => .ok (object [(key, v)])
  | j => .error (typeError 305
      ("cannot use operator[] with a string argument with ".toList ++ j.typeName))

/-- The same where there is a value to assign. -/
def assignIfSome (j : Json) (key : Str) : Option Json → Except Exception Json
  | some v => j.assign key v
  | none => .ok j

/-- `!j.is_null()`, with the value. -/
def nonNull : Json → Option Json
  | null => none
  | j => some j

end Json

structure McpTool where
  name : Str
  title : Str := name
  definition : Json
  outputSchema : Option Json := none
  annotations : Json := .null
  iconUri : Option Str := none
  isObject : definition.isObject

structure McpResource where
  uri : Str
  name : Str
  title : Str := name
  definition : Json
  read : Coroutine HandlerI Input Exception Str
  iconUri : Option Str := none
  isObject : definition.isObject

structure McpPrompt where
  name : Str
  title : Str := name
  definition : Json
  iconUri : Option Str := none
  isObject : definition.isObject

/-- The entries of one kind, by name: no more than a container holds. -/
structure Registered (α : Type*) where
  table : AList (fun _ : Str => α) := ∅
  size_lt : table.entries.length < 2 ^ 63 := by decide

/-- `table[name] = entry`. It throws, here it has no result, when there is no room. -/
def Registered.register {α : Type*} (r : Registered α) (name : Str) (entry : α) :
    Option (Registered α) :=
  if h : (r.table.insert name entry).entries.length < 2 ^ 63 then
    some ⟨r.table.insert name entry, h⟩
  else none

structure McpRegistry where
  tools : Registered McpTool := {}
  resources : Registered McpResource := {}
  prompts : Registered McpPrompt := {}

/-- What a list shows of an entry. -/
def listed (title : Str) (outputSchema : Option Json) (annotations : Json) (iconUri : Option Str)
    (definition : Json) : Except Exception Json := do
  let item ← definition.assignIfSome "title".toList
    (if definition.contains "title".toList then none else some (.string title))
  let item ← item.assignIfSome "outputSchema".toList outputSchema
  let item ← item.assignIfSome "annotations".toList annotations.nonNull
  item.assignIfSome "icon".toList (iconUri.map .string)

def McpTool.listed (tool : McpTool) : Except Exception Json :=
  McpSdk.listed tool.title tool.outputSchema tool.annotations tool.iconUri tool.definition

def McpResource.listed (res : McpResource) : Except Exception Json :=
  McpSdk.listed res.title none .null res.iconUri res.definition

def McpPrompt.listed (p : McpPrompt) : Except Exception Json :=
  McpSdk.listed p.title none .null p.iconUri p.definition

namespace McpRegistry
variable (registry : McpRegistry)

def registerTool (tool : McpTool) : Option McpRegistry :=
  (registry.tools.register tool.name tool).map (fun tools =>
    { registry with tools := tools })

def registerResource (res : McpResource) : Option McpRegistry :=
  (registry.resources.register res.uri res).map (fun resources =>
    { registry with resources := resources })

def registerPrompt (prompt : McpPrompt) : Option McpRegistry :=
  (registry.prompts.register prompt.name prompt).map (fun prompts =>
    { registry with prompts := prompts })

def getToolsList : Except Exception (List Json) :=
  registry.tools.table.entries.mapM (fun entry => entry.2.listed)

def getResourcesList : Except Exception (List Json) :=
  registry.resources.table.entries.mapM (fun entry => entry.2.listed)

def getPromptsList : Except Exception (List Json) :=
  registry.prompts.table.entries.mapM (fun entry => entry.2.listed)

def readResource (uri : Str) : Coroutine HandlerI Input Exception Json :=
  match registry.resources.table.lookup uri with
  | none => .throw (.jsonRpc .invalidParams ("Resource not found: ".toList ++ uri) .null)
  | some res => do
      let content ← res.read.coAwait
      let mimeType ← Coroutine.ofExcept
        (res.definition.valueString "mimeType".toList "text/plain".toList)
      return .ofMembers [("contents".toList, .array [.ofMembers [("uri".toList, .string uri),
        ("mimeType".toList, .string mimeType), ("text".toList, .string content)]])]

end McpRegistry

section Handlers

/-- `static_cast<std::ptrdiff_t>` of a `std::size_t`. -/
def toPtrdiff (n : ℕ) : Int := if n < 2 ^ 63 then n else n - 2 ^ 64

/-- `it + d` for an iterator over `size` elements, by its position. -/
def iteratorAdd (size it : ℕ) (d : Int) : Option ℕ :=
  if 0 ≤ it + d ∧ it + d ≤ size then some (it + d).toNat else none

/-- The offset that a cursor stands for: 0 where there is none, or none that can be read. -/
def cursorOffset (params : Json) : ℕ :=
  match params.find? "cursor".toList with
  | some (.string cursor) => (stoul cursor).getD 0
  | _ => 0

def pageSize : ℕ := 50

/-- The offsets of the page at `offset` among `size` elements: where it begins and ends. -/
def pageBounds (size offset : ℕ) : Option (ℕ × ℕ) := do
  let first ← iteratorAdd size 0 (toPtrdiff offset)
  let last ← if (offset + pageSize) % 2 ^ 64 < size then iteratorAdd size first (toPtrdiff pageSize)
    else some size
  return (first, last)

/-- The result of a list handler, from all there is to list; none if an iterator leaves it. -/
def listPage (key : Str) (all : List Json) (params : Json) : Option Json :=
  let offset := cursorOffset params
  if all.length ≤ offset then some (.ofMembers [(key, .array [])])
  else do
    let (first, last) ← pageBounds all.length offset
    let page := (all.drop first).take (last - first)
    if last ≠ all.length then
      return .ofMembers [(key, .array page),
        ("nextCursor".toList, .string (toStr ((offset + pageSize) % 2 ^ 64)))]
    else return .ofMembers [(key, .array page)]

/-- A list handler. What lies outside the language appears as an exception of its own. -/
def listHandler (key : Str) (list : Except Exception (List Json)) : MethodHandler HandlerI :=
  fun params => do
    let all ← Coroutine.ofExcept list
    match listPage key all params with
    | some result => return result
    | none => .throw (.std "undefined behaviour".toList)

variable (registry : McpRegistry)

/-- The method `tools/list`. -/
def toolsList : MethodHandler HandlerI := listHandler "tools".toList registry.getToolsList

/-- The method `resources/list`. -/
def resourcesList : MethodHandler HandlerI :=
  listHandler "resources".toList registry.getResourcesList

/-- The method `prompts/list`. -/
def promptsList : MethodHandler HandlerI := listHandler "prompts".toList registry.getPromptsList

/-- What the uris of the built-in resource template begin with. -/
def metricsPrefix : Str := "sys://metrics/".toList

/-- The text of the built-in template for `uri.substr(14)`. -/
def metricsText (comp : Str) : Str :=
  literal "动态组件 [" ++ comp ++ literal "] 状态: 运行良好, 负载极低。"

/-- The method `resources/read`. -/
def resourcesRead : MethodHandler HandlerI := fun params => do
  let uri ← Coroutine.ofExcept (params.valueString "uri".toList [])
  if metricsPrefix.isPrefixOf uri then
    return .ofMembers [("contents".toList, .array [.ofMembers [("uri".toList, .string uri),
      ("mimeType".toList, .string "text/plain".toList),
      ("text".toList, .string (metricsText (uri.drop 14)))]])]
  else (registry.readResource uri).coAwait

end Handlers
end McpSdk

import McpSdk.CooperativeTasks
import McpSdk.JsonValues

/-!
# The JSON-RPC dispatcher

`json_rpc.hh` and `dispatcher.hh`. A handler is a task on the operations `I` that the server
offers to handlers, and what it awaits from outside the server is a JSON value or an exception.
A method handler that throws at once is a task that fails at once; of a notification handler the
two are kept apart, since the dispatcher treats them differently.
-/

namespace McpSdk
open CppStandardLibrary CooperativeTasks

abbrev Input := Except Exception Json

instance : Inhabited Input := ⟨.ok .null⟩

abbrev MethodHandler (I : Interface) := Json → Coroutine I Input Exception Json

abbrev NotificationHandler (I : Interface) :=
  Json → Except Exception (Coroutine I Input Exception Unit)

structure JsonRpcError where
  code : JsonRpcErrorCode
  message : Str
  data : Json := .null

def JsonRpcError.toJson (e : JsonRpcError) : Json :=
  .ofMembers [("code".toList, .integer e.code.toInt), ("message".toList, .string e.message),
    ("data".toList, e.data)]

structure JsonRpcResponse where
  id : Json
  result : Option Json := some .null
  error : Option JsonRpcError := none

/-- `to_json`: an error takes precedence over a result. -/
def JsonRpcResponse.toJson (r : JsonRpcResponse) : Json :=
  .ofMembers [("jsonrpc".toList, .string "2.0".toList), ("id".toList, r.id),
    match r.error, r.result with
    | some e, _ => ("error".toList, e.toJson)
    | none, some v => ("result".toList, v)
    | none, none => ("result".toList, .null)]

/-- The response to a request whose handler threw `e`. -/
def JsonRpcResponse.ofException (id : Json) : Exception → JsonRpcResponse
  | .jsonRpc code message data => { id := id, error := some ⟨code, message, data⟩ }
  | .std what => { id := id, error := some ⟨.internalError, what, .null⟩ }

/-- The tables of a dispatcher and the limit on the size of a batch. -/
structure JsonRpcDispatcher (I : Interface) where
  methods : Str → Option (MethodHandler I)
  notifications : Str → Option (NotificationHandler I)
  maxBatchSize : ℕ := 20

namespace JsonRpcDispatcher
variable {I : Interface} (L : JsonLibrary) (d : JsonRpcDispatcher I)

/-- `json(response).dump()`. -/
def reply (r : JsonRpcResponse) : Coroutine I Input Exception (Option Str) := do
  let text ← Coroutine.ofExcept (L.dumpText r.toJson)
  return some text

/-- The reply to what is not a JSON-RPC request. -/
def refuse (id : Json) (code : JsonRpcErrorCode) (message : Str) :
    Coroutine I Input Exception (Option Str) :=
  reply L { id := id, error := some ⟨code, message, .null⟩ }

/-- `!req.is_object() || !req.contains("jsonrpc") || req["jsonrpc"] != "2.0" ||
!req.contains("method")`. -/
def malformed (req : Json) : Bool :=
  !req.isObject || !req.contains "jsonrpc".toList ||
    (match req.getD "jsonrpc".toList with
      | .string s => s != "2.0".toList
      | _ => true) ||
    !req.contains "method".toList

/-- `_handle_single`. -/
def handleSingle (req : Json) : Coroutine I Input Exception (Option Str) := do
  if malformed req then
    let id ← Coroutine.ofExcept (req.value "id".toList .null)
    refuse L id .invalidRequest "Invalid Request".toList
  else
    let method ← Coroutine.ofExcept (req.getD "method".toList).getString
    let params ← Coroutine.ofExcept (req.value "params".toList (.object []))
    if !req.contains "id".toList then
      match d.notifications method with
      | some handler =>
          match handler params with
          | .ok task => task.background
          | .error e => .throw e
      | none => pure ()
      return none
    let id := req.getD "id".toList
    match d.methods method with
    | none =>
        refuse L id .methodNotFound ("Method not found: ".toList ++ method)
    | some handler =>
        let response ← Coroutine.tryCatch
          (do
            let result ← (handler params).coAwait
            return { id := id, result := some result })
          (fun e => return JsonRpcResponse.ofException id e)
        reply L response

/-- The loop over a batch: the responses so far and those of the remaining elements. -/
def handleElements : List Json → List Json → Coroutine I Input Exception (List Json)
  | responses, [] => return responses
  | responses, elem :: elems => do
      let resp ← (d.handleSingle L elem).coAwait
      match resp.bind L.parse with
      | some r => handleElements (responses ++ [r]) elems
      | none => handleElements responses elems

/-- `handle_request`. -/
def handleRequest (rawBody : Str) : Coroutine I Input Exception (Option Str) :=
  match L.parse rawBody with
  | none => refuse L .null .parseError "Parse error".toList
  | some (.array elems) => do
      if elems = [] then
        refuse L .null .invalidRequest "Invalid Request: empty batch".toList
      else if elems.length > d.maxBatchSize then
        refuse L .null .invalidRequest
          ("Batch too large: max ".toList ++ toStr d.maxBatchSize ++
            " requests per batch".toList)
      else
        let responses ← d.handleElements L [] elems
        if responses = [] then return none
        let text ← Coroutine.ofExcept (L.dumpText (.array responses))
        return some text
  | some reqJson => (d.handleSingle L reqJson).coAwait

end JsonRpcDispatcher
end McpSdk

import McpSdk.McpServer
import McpSdk.TextLines

/-!
# The stdio transport

`stdio_transport.hh`: a thread on shard 0 that reads a line from the standard input, dispatches it,
and prints the answer, if there is one. It runs beside the requests and jobs of the server, which
go on while a dispatch is awaited. The standard streams are a part of the state of shard 0.
-/

namespace McpSdk
open CppStandardLibrary CooperativeTasks ClusterRuns

/-- What is still to be read, what has been printed, and `_stop_requested`. -/
structure Console where
  input : Str := []
  output : Str := []
  stopRequested : Bool := false

inductive ConsoleCall
  | stopRequested
  /-- `std::getline(std::cin, line)`; until the line is there, nothing else runs on the shard. -/
  | getline
  /-- `std::cout << text << "\n"; std::cout.flush();`. -/
  | print (text : Str)
  | requestStop

@[reducible] def ConsoleCall.Res : ConsoleCall → Type
  | .stopRequested => Bool
  | .getline => Option Str
  | .print _ | .requestStop => Unit

def ConsoleCall.exec : (op : ConsoleCall) → Console → op.Res × Console
  | .stopRequested, s => (s.stopRequested, s)
  | .getline, s =>
      match TextLines.getline s.input with
      | some (line, rest) => (some line, { s with input := rest })
      | none => (none, s)
  | .print text, s => ((), { s with output := s.output ++ text ++ "\n".toList })
  | .requestStop, s => ((), { s with stopRequested := true })

def ConsoleI : Interface where
  Op := ConsoleCall
  Res := ConsoleCall.Res
  answer op := by
    cases op with
    | stopRequested => exact ⟨false⟩
    | getline => exact ⟨none⟩
    | _ => exact ⟨()⟩

/-- The operations of a shard with a console. -/
def StdioI : Interface := ShardI.sum ConsoleI

abbrev ConsoleTask (α : Type) := Coroutine StdioI Input Exception α

def console (op : ConsoleCall) : ConsoleTask op.Res := Coroutine.perform (I := StdioI) (.inr op)

/-- What may run in turns: the writer of a stream, or the thread of the transport. -/
inductive Turning
  | writer (w : WriterState)
  | thread

/-- What is started on a server with a stdio transport: a request or a job, `start` of the
transport, or its `stop`. -/
inductive StdioOrigin (Job : Type)
  | server (o : Origin Job)
  | start
  | stop

namespace StdioTransport

/-- One turn of the loop of the thread: is there another? -/
def turn (L : JsonLibrary) (d : JsonRpcDispatcher HandlerI) : ConsoleTask (Option Turning) := do
  if ← console .stopRequested then return none
  else
    match ← console .getline with
    | none => return none
    | some line =>
        if line.isEmpty then return some .thread
        else
          let result ← (dispatch L d line []).inl.coAwait
          match result with
          | some text => console (.print text)
          | none => pure ()
          return some .thread

/-- A coroutine of the server where there is a console. -/
def beside (t : ShardTask (Option WriterState)) : ConsoleTask (Option Turning) := do
  let next ← t.inl
  return next.map .writer

variable (srv : McpServer)

def program : StdioOrigin srv.Job → ConsoleTask (Option Turning)
  | .server o => beside (srv.program o.shard o.work)
  | .start => return some .thread
  | .stop => do
      console .requestStop
      return none

def again : Turning → ConsoleTask (Option Turning)
  | .writer w => beside (runWriter w)
  | .thread => turn srv.L (srv.dispatcher 0)

def exec (j : ℕ) (now : Int) : (op : StdioI.Op) → McpShard × Console →
    StdioI.Res op × (McpShard × Console)
  | .inl op, s => ((shardExec srv.L srv.cfg j now op s.1).1,
      ((shardExec srv.L srv.cfg j now op s.1).2, s.2))
  | .inr op, s => ((op.exec s.2).1, (s.1, (op.exec s.2).2))

def ready : StdioI.Op → McpShard × Console → Bool
  | .inl op, s => shardReady op s.1
  | .inr _, _ => true

def gathers : StdioI.Op → Option ℕ
  | .inl op => shardGathers op
  | .inr _ => none

def place : StdioOrigin srv.Job → ℕ
  | .server o => o.shard
  | .start | .stop => 0

/-- The server with a standard input. -/
def system (stdin : Str) :
    System StdioI Input Exception (StdioOrigin srv.Job) Turning (McpShard × Console) where
  count := srv.count
  init j := (srv.cfg.shard, if j = 0 then { input := stdin } else {})
  exec := exec srv
  ready := ready
  gathers := gathers
  place := place srv
  program := program srv
  again _ := again srv

abbrev State := Cluster StdioI Input Exception (StdioOrigin srv.Job) Turning (McpShard × Console)

/-- The server reaches the state by these steps. -/
def Reaches (stdin : Str) (steps : List (Label Input (StdioOrigin srv.Job))) (c : State srv) :
    Prop :=
  LabelledRuns.run (system srv stdin).step (system srv stdin).start steps = some c

end StdioTransport
end McpSdk

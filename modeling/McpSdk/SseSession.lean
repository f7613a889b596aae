import McpSdk.JsonValues

/-!
# Stream sessions

`SseSession` of `transport.hh`: the message queue of one stream and its `active` flag. The queue
is a `seastar::queue` of 100 messages. A push into a full queue waits for room; a pop from an empty
queue waits for a message and is woken by the push that brings one. On each side the queue
remembers one waiter: a second one takes the place of the first, whose future breaks.

A push that waits enters here with the pop that makes room. In seastar that pop only makes it
runnable: it enters in a task of its own, before which another push may take the room, and then the
two texts come in the other order.
-/

namespace McpSdk
open CppStandardLibrary

structure SseSession where
  messages : List Str := []
  active : Bool := true
  /-- The push that waits for room. -/
  delayed : Option Str := none
  /-- The pop that waits for a message, by its number. -/
  waiting : Option ℕ := none
  /-- The pops that have been woken and have not yet gone on. -/
  woken : List ℕ := []
  pops : ℕ := 0

/-- What `pop_eventually` gives at once: a message, or the number of a pop that waits. -/
inductive Popped
  | message (msg : Str)
  | waiter (n : ℕ)

namespace SseSession

/-- `messages{100}`. -/
def capacity : ℕ := 100

/-- A message enters the queue and wakes the pop that waits. -/
def append (s : SseSession) (msg : Str) : SseSession :=
  { s with
    messages := s.messages ++ [msg]
    waiting := none
    woken := s.waiting.toList ++ s.woken }

/-- `messages.push_eventually(msg)`. -/
def pushEventually (s : SseSession) (msg : Str) : SseSession :=
  if s.messages.length ≥ capacity then { s with delayed := some msg } else s.append msg

/-- The first message leaves the queue and makes room for the push that waits. -/
def popFront (s : SseSession) : SseSession :=
  let popped := { s with messages := s.messages.tail, delayed := none }
  match s.delayed with
  | some msg => popped.append msg
  | none => popped

/-- `messages.pop_eventually()`, up to its first suspension. -/
def popEventually (s : SseSession) : Popped × SseSession :=
  match s.messages with
  | msg :: _ => (.message msg, s.popFront)
  | [] => (.waiter s.pops, { s with waiting := some s.pops, pops := s.pops + 1 })

/-- Pop `n` has been woken, or another one has taken its place. -/
def popReady (s : SseSession) (n : ℕ) : Bool := s.waiting != some n

/-- The end of a waiting `pop_eventually`. If other pops have emptied the queue in the meantime,
which C++ leaves open, the future breaks too. -/
def popWaiting (s : SseSession) (n : ℕ) : Except Exception Str × SseSession :=
  match s.messages with
  | msg :: _ =>
      if n ∈ s.woken then (.ok msg, { s.popFront with woken := s.popFront.woken.erase n })
      else (.error (.std "broken promise".toList), s)
  | [] => (.error (.std "broken promise".toList), s)

theorem pushEventually_messages {s : SseSession} (h : s.messages.length < capacity) (msg : Str) :
    (s.pushEventually msg).messages = s.messages ++ [msg] := by
  rw [pushEventually, if_neg (not_le.mpr h)]
  rfl

@[simp] theorem pushEventually_active (s : SseSession) (msg : Str) :
    (s.pushEventually msg).active = s.active := by
  unfold pushEventually
  split <;> rfl

end SseSession
end McpSdk

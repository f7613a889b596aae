import McpSdk.CppStandardLibrary
import Mathlib.Data.List.Lex
import Mathlib.Data.Char
import Mathlib.Data.UInt

/-!
# JSON values

`nlohmann::json` as the server uses it. Objects are `std::map`s: their members stand in
ascending order of the keys. A floating-point number is kept as the bits of its double, since the
server never computes with one. `json::parse` and `dump` are the library's own code: they
are the parameter `JsonLibrary`, with the laws its documentation gives.
-/

namespace McpSdk
open CppStandardLibrary

/-- A finite double, by its bits. -/
structure Double where
  bits : UInt64
  finite : bits / 2 ^ 52 % 2 ^ 11 ≠ 2 ^ 11 - 1

/-- `static_cast<uint64_t>` of a double: truncation. Where C++ leaves the result open (a value
out of range) it wraps. -/
def Double.toUInt64 (d : Double) : ℕ :=
  let exponent := d.bits.toNat / 2 ^ 52 % 2 ^ 11
  let significand := 2 ^ 52 + d.bits.toNat % 2 ^ 52
  let magnitude :=
    if exponent = 0 then 0
    else if 1075 ≤ exponent then significand * 2 ^ (exponent - 1075)
    else significand / 2 ^ (1075 - exponent)
  if d.bits.toNat < 2 ^ 63 then magnitude % 2 ^ 64 else (2 ^ 64 - magnitude % 2 ^ 64) % 2 ^ 64

inductive Json
  | null
  | bool (b : Bool)
  | integer (n : Int)
  | floating (d : Double)
  | string (s : Str)
  | array (elems : List Json)
  | object (members : List (Str × Json))

inductive JsonRpcErrorCode
  | parseError | invalidRequest | methodNotFound | invalidParams | internalError
  deriving DecidableEq, Repr

/-- `static_cast<int>(code)`. -/
def JsonRpcErrorCode.toInt : JsonRpcErrorCode → Int
  | parseError => -32700
  | invalidRequest => -32600
  | methodNotFound => -32601
  | invalidParams => -32602
  | internalError => -32603

/-- What the server's code may throw: a `std::exception` with its text, or the protocol's own
exception with its code and data. -/
inductive Exception
  | std (what : Str)
  | jsonRpc (code : JsonRpcErrorCode) (message : Str) (data : Json)

/-- `json::type_error`. -/
def typeError (id : ℕ) (text : Str) : Exception :=
  .std ("[json.exception.type_error.".toList ++ toStr id ++ "] ".toList ++ text)

namespace Json

def typeName : Json → Str
  | null => "null".toList
  | bool _ => "boolean".toList
  | integer _ => "number".toList
  | floating _ => "number".toList
  | string _ => "string".toList
  | array _ => "array".toList
  | object _ => "object".toList

def isObject : Json → Bool
  | object _ => true
  | _ => false

/-- The member `key` of an object. -/
def find? : Json → Str → Option Json
  | object members, key => (members.find? (fun m => m.1 == key)).map (·.2)
  | _, _ => none

/-- `j.contains(key)`: false on everything but objects. -/
def contains (j : Json) (key : Str) : Bool := (j.find? key).isSome

/-- `j[key]` where the member is known to be there. -/
def getD (j : Json) (key : Str) : Json := (j.find? key).getD null

/-- `j.value(key, default)`. -/
def value (j : Json) (key : Str) (default : Json) : Except Exception Json :=
  if j.isObject then .ok ((j.find? key).getD default)
  else .error (typeError 306 ("cannot use value() with ".toList ++ j.typeName))

/-- `j.get<std::string>()`. -/
def getString : Json → Except Exception Str
  | string s => .ok s
  | j => .error (typeError 302 ("type must be string, but is ".toList ++ j.typeName))

/-- `j.value(key, default)` with a string for default. -/
def valueString (j : Json) (key default : Str) : Except Exception Str :=
  (j.value key (string default)).bind getString

/-- `j.get<uint64_t>()`. -/
def getUInt64 : Json → Except Exception ℕ
  | integer n => .ok (n % 2 ^ 64).toNat
  | floating d => .ok d.toUInt64
  | j => .error (typeError 302 ("type must be number, but is ".toList ++ j.typeName))

/-- `members[key] = v` in the `std::map` of an object. -/
def insertMember (key : Str) (v : Json) : List (Str × Json) → List (Str × Json)
  | [] => [(key, v)]
  | m :: ms =>
      if key < m.1 then (key, v) :: m :: ms
      else if key = m.1 then (key, v) :: ms
      else m :: insertMember key v ms

/-- An object given by its members, `json{{"key", value}, ...}`. -/
def ofMembers (members : List (Str × Json)) : Json :=
  object (members.foldl (fun ms m => insertMember m.1 m.2 ms) [])

end Json

section Utf8

/-- Between the bytes of a character: how many are owed, and the range of the next one. -/
structure Utf8State where
  owed : ℕ
  low : ℕ
  high : ℕ
  deriving DecidableEq

def Utf8State.start : Utf8State := ⟨0, 0x80, 0xBF⟩

def Utf8State.next (q : Utf8State) (c : Char) : Option Utf8State :=
  let b := c.toNat
  if q.owed = 0 then
    if b < 0x80 then some .start
    else if 0xC2 ≤ b ∧ b ≤ 0xDF then some ⟨1, 0x80, 0xBF⟩
    else if b = 0xE0 then some ⟨2, 0xA0, 0xBF⟩
    else if b = 0xED then some ⟨2, 0x80, 0x9F⟩
    else if 0xE1 ≤ b ∧ b ≤ 0xEF then some ⟨2, 0x80, 0xBF⟩
    else if b = 0xF0 then some ⟨3, 0x90, 0xBF⟩
    else if 0xF1 ≤ b ∧ b ≤ 0xF3 then some ⟨3, 0x80, 0xBF⟩
    else if b = 0xF4 then some ⟨3, 0x80, 0x8F⟩
    else none
  else if q.low ≤ b ∧ b ≤ q.high then some ⟨q.owed - 1, 0x80, 0xBF⟩
  else none

def utf8Run : Utf8State → Str → Option Utf8State
  | q, [] => some q
  | q, c :: s => (q.next c).bind (fun q => utf8Run q s)

def isUtf8 (s : Str) : Bool := utf8Run .start s = some .start

theorem utf8Run_append (q : Utf8State) (s t : Str) :
    utf8Run q (s ++ t) = (utf8Run q s).bind (fun q => utf8Run q t) := by
  induction s generalizing q with
  | nil => rfl
  | cons c s ih =>
    rw [List.cons_append, utf8Run, utf8Run, Option.bind_assoc]
    simp only [ih]

theorem isUtf8_append {s t : Str} (hs : isUtf8 s) (ht : isUtf8 t) : isUtf8 (s ++ t) := by
  simp only [isUtf8, decide_eq_true_eq] at hs ht ⊢
  rw [utf8Run_append, hs]
  exact ht

theorem isUtf8_of_ascii {s : Str} (h : ∀ c ∈ s, c.toNat < 0x80) : isUtf8 s := by
  induction s with
  | nil => rfl
  | cons c s ih =>
    have hc : Utf8State.start.next c = some .start := by
      simp [Utf8State.next, Utf8State.start, h c (List.mem_cons_self ..)]
    have hs := ih (fun d hd => h d (.tail _ hd))
    simp only [isUtf8, utf8Run, hc, decide_eq_true_eq] at hs ⊢
    exact hs

end Utf8

mutual

/-- The value is one that `nlohmann::json` can hold and `dump` can write: its integers fit 64
bits, its strings and keys are UTF-8 and the members of its objects are in order. -/
def Json.serialisable : Json → Bool
  | .null | .bool _ | .floating _ => true
  | .integer n => -2 ^ 63 ≤ n ∧ n < 2 ^ 64
  | .string s => isUtf8 s
  | .array elems => serialisableElems elems
  | .object members =>
      (members.map (·.1)).Pairwise (· < ·) && serialisableMembers members

def Json.serialisableElems : List Json → Bool
  | [] => true
  | j :: js => j.serialisable && serialisableElems js

def Json.serialisableMembers : List (Str × Json) → Bool
  | [] => true
  | (key, j) :: ms => (isUtf8 key && j.serialisable) && serialisableMembers ms

end

/-- `json::parse` and `dump`. Parsing fails with `none`; `dump` fails, with `type_error.316`, on
what is not serialisable. What is dumped is read back as it was, and what has been read can
be dumped. -/
structure JsonLibrary where
  parse : Str → Option Json
  dump : Json → Option Str
  dump_isSome : ∀ j, (dump j).isSome = j.serialisable
  parse_dump : ∀ j s, dump j = some s → parse s = some j
  serialisable_of_parse : ∀ s j, parse s = some j → j.serialisable

/-- `j.dump()` with its exception. -/
def JsonLibrary.dumpText (L : JsonLibrary) (j : Json) : Except Exception Str :=
  match L.dump j with
  | some s => .ok s
  | none => .error (typeError 316 "invalid UTF-8 byte".toList)

namespace Json

theorem serialisableElems_iff {js : List Json} :
    serialisableElems js ↔ ∀ j ∈ js, j.serialisable := by
  induction js with
  | nil => simp [serialisableElems]
  | cons j js ih => simp [serialisableElems, ih]

theorem serialisableMembers_iff {ms : List (Str × Json)} :
    serialisableMembers ms ↔ ∀ m ∈ ms, isUtf8 m.1 ∧ m.2.serialisable := by
  induction ms with
  | nil => simp [serialisableMembers]
  | cons m ms ih => simp [serialisableMembers, ih]

theorem serialisable_array {js : List Json} :
    (array js).serialisable ↔ ∀ j ∈ js, j.serialisable := by
  rw [serialisable, serialisableElems_iff]

theorem serialisable_of_find? {j v : Json} {key : Str} (hj : j.serialisable)
    (h : j.find? key = some v) : v.serialisable := by
  cases j with
  | object members =>
    obtain ⟨m, hm, rfl⟩ := Option.map_eq_some_iff.mp h
    rw [serialisable, Bool.and_eq_true, serialisableMembers_iff] at hj
    exact (hj.2 m (List.mem_of_find?_eq_some hm)).2
  | _ => cases h

theorem mem_insertMember {key : Str} {v : Json} {ms : List (Str × Json)} {m : Str × Json}
    (h : m ∈ insertMember key v ms) : m = (key, v) ∨ m ∈ ms := by
  induction ms with
  | nil => exact .inl (List.mem_singleton.mp h)
  | cons n ms ih =>
    rw [insertMember] at h
    split at h
    · exact List.mem_cons.mp h
    · split at h
      · exact (List.mem_cons.mp h).imp_right (.tail _)
      · rcases List.mem_cons.mp h with rfl | h
        · exact .inr (List.mem_cons_self ..)
        · exact (ih h).imp_right (.tail _)

theorem pairwise_insertMember (key : Str) (v : Json) {ms : List (Str × Json)}
    (h : ms.Pairwise (fun m n => m.1 < n.1)) :
    (insertMember key v ms).Pairwise (fun m n => m.1 < n.1) := by
  induction ms with
  | nil => exact List.pairwise_singleton ..
  | cons m ms ih =>
    obtain ⟨hm, hms⟩ := List.pairwise_cons.mp h
    rw [insertMember]
    split
    · rename_i hlt
      refine List.pairwise_cons.mpr ⟨fun n hn => ?_, h⟩
      rcases List.mem_cons.mp hn with rfl | hn
      · exact hlt
      · exact lt_trans hlt (hm n hn)
    · rename_i hlt
      split
      · rename_i heq
        exact List.pairwise_cons.mpr ⟨fun n hn => heq ▸ hm n hn, hms⟩
      · rename_i hne
        refine List.pairwise_cons.mpr ⟨fun n hn => ?_, ih hms⟩
        rcases mem_insertMember hn with rfl | hn
        · exact lt_of_le_of_ne (not_lt.mp hlt) (Ne.symm hne)
        · exact hm n hn

theorem serialisable_ofMembers {ms : List (Str × Json)}
    (h : ∀ m ∈ ms, isUtf8 m.1 ∧ m.2.serialisable) : (ofMembers ms).serialisable := by
  have step : ∀ (ms acc : List (Str × Json)), (∀ m ∈ ms, isUtf8 m.1 ∧ m.2.serialisable) →
      acc.Pairwise (fun m n => m.1 < n.1) → (∀ m ∈ acc, isUtf8 m.1 ∧ m.2.serialisable) →
      (object (ms.foldl (fun ms m => insertMember m.1 m.2 ms) acc)).serialisable := by
    intro ms
    induction ms with
    | nil =>
      intro acc _ hp hacc
      rw [serialisable, Bool.and_eq_true, serialisableMembers_iff]
      exact ⟨decide_eq_true (List.pairwise_map.mpr hp), hacc⟩
    | cons m ms ih =>
      intro acc hms hp hacc
      refine ih _ (fun n hn => hms n (.tail _ hn)) (pairwise_insertMember _ _ hp) (fun n hn => ?_)
      rcases mem_insertMember hn with rfl | hn
      · exact hms m (List.mem_cons_self ..)
      · exact hacc n hn
  exact step ms [] h .nil (fun _ hm => (List.not_mem_nil hm).elim)

end Json
end McpSdk

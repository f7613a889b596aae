import McpSdk.JsonValues

/-!
# A JSON library for compact texts

A concrete `JsonLibrary`: `dump` writes what `nlohmann::json` writes for values without
floating-point numbers, and `parse` reads such texts back. It reads no blanks between tokens and
no escapes that `dump` does not write, and it writes a double as its bits with an exponent; the
texts it is used on have none of these.
-/

namespace McpSdk.CompactJson
open CppStandardLibrary

section Writer

/-- The escape sequences of `dump`, for one byte. -/
def escape (c : Char) : Str :=
  if c = '"' then ['\\', '"']
  else if c = '\\' then ['\\', '\\']
  else if c = '\x08' then ['\\', 'b']
  else if c = '\x0c' then ['\\', 'f']
  else if c = '\n' then ['\\', 'n']
  else if c = '\r' then ['\\', 'r']
  else if c = '\t' then ['\\', 't']
  else if c.toNat < 0x20 then
    ['\\', 'u', '0', '0', Nat.digitChar (c.toNat / 16), Nat.digitChar (c.toNat % 16)]
  else [c]

/-- The characters of a string and its closing quote. -/
def writeChars (s : Str) : Str := s.flatMap escape ++ ['"']

def writeInt (n : Int) : Str := if n < 0 then '-' :: toStr n.natAbs else toStr n.natAbs

mutual

def write : Json → Str
  | .null => "null".toList
  | .bool true => "true".toList
  | .bool false => "false".toList
  | .integer n => writeInt n
  | .floating d => toStr d.bits.toNat ++ ['e', '0']
  | .string s => '"' :: writeChars s
  | .array [] => ['[', ']']
  | .array (j :: js) => '[' :: (write j ++ writeElems js)
  | .object [] => ['{', '}']
  | .object (m :: ms) => '{' :: '"' :: (writeChars m.1 ++ ':' :: (write m.2 ++ writeMembers ms))

def writeElems : List Json → Str
  | [] => [']']
  | j :: js => ',' :: (write j ++ writeElems js)

def writeMembers : List (Str × Json) → Str
  | [] => ['}']
  | m :: ms => ',' :: '"' :: (writeChars m.1 ++ ':' :: (write m.2 ++ writeMembers ms))

end

end Writer

section Reader

def hexValue (c : Char) : Option ℕ :=
  if c.isDigit then some (c.toNat - 48)
  else if 'a' ≤ c ∧ c ≤ 'f' then some (c.toNat - 87)
  else none

/-- Characters up to the closing quote. -/
def readChars : Str → Option (Str × Str)
  | '"' :: r => some ([], r)
  | '\\' :: '"' :: r => (readChars r).map (fun p => ('"' :: p.1, p.2))
  | '\\' :: '\\' :: r => (readChars r).map (fun p => ('\\' :: p.1, p.2))
  | '\\' :: 'b' :: r => (readChars r).map (fun p => ('\x08' :: p.1, p.2))
  | '\\' :: 'f' :: r => (readChars r).map (fun p => ('\x0c' :: p.1, p.2))
  | '\\' :: 'n' :: r => (readChars r).map (fun p => ('\n' :: p.1, p.2))
  | '\\' :: 'r' :: r => (readChars r).map (fun p => ('\r' :: p.1, p.2))
  | '\\' :: 't' :: r => (readChars r).map (fun p => ('\t' :: p.1, p.2))
  | '\\' :: 'u' :: '0' :: '0' :: a :: b :: r =>
      (hexValue a).bind fun x => (hexValue b).bind fun y =>
        (readChars r).map (fun p => (Char.ofNat (16 * x + y) :: p.1, p.2))
  | '\\' :: _ => none
  | c :: r => if c.toNat < 0x20 then none else (readChars r).map (fun p => (c :: p.1, p.2))
  | [] => none

/-- A number without its sign: an integer, or the bits of a double. -/
def readNumber (negative : Bool) (s : Str) : Option (Json × Str) :=
  let digits := s.takeWhile Char.isDigit
  let n := decimalValue digits
  if digits = [] then none
  else match s.dropWhile Char.isDigit with
    | 'e' :: '0' :: r =>
        if h : (UInt64.ofNat n) / 2 ^ 52 % 2 ^ 11 ≠ 2 ^ 11 - 1 then
          some (.floating ⟨UInt64.ofNat n, h⟩, r)
        else none
    | r => some (.integer (if negative then -n else n), r)

/-- The word `w` with the value it stands for. -/
def readWord (w : Str) (j : Json) (s : Str) : Option (Json × Str) :=
  if w.isPrefixOf s then some (j, s.drop w.length) else none

mutual

/-- A value at the start of the text, and the text after it. -/
def read : ℕ → Str → Option (Json × Str)
  | 0, _ => none
  | _, [] => none
  | n + 1, c :: r =>
      if c = 'n' then readWord "ull".toList .null r
      else if c = 't' then readWord "rue".toList (.bool true) r
      else if c = 'f' then readWord "alse".toList (.bool false) r
      else if c = '"' then (readChars r).map (fun p => (.string p.1, p.2))
      else if c = '-' then readNumber true r
      else if c = '[' then
        if r.head? = some ']' then some (.array [], r.tail)
        else (readElems n r).map (fun p => (.array p.1, p.2))
      else if c = '{' then
        if r.head? = some '}' then some (.object [], r.tail)
        else (readMembers n r).map (fun p => (.ofMembers p.1, p.2))
      else readNumber false (c :: r)

def readElems : ℕ → Str → Option (List Json × Str)
  | 0, _ => none
  | n + 1, s => (read n s).bind fun p =>
      match p.2 with
      | ']' :: r => some ([p.1], r)
      | ',' :: r => (readElems n r).map (fun q => (p.1 :: q.1, q.2))
      | _ => none

def readMembers : ℕ → Str → Option (List (Str × Json) × Str)
  | n + 1, '"' :: s => (readChars s).bind fun k =>
      match k.2 with
      | ':' :: r => (read n r).bind fun p =>
          match p.2 with
          | '}' :: r => some ([(k.1, p.1)], r)
          | ',' :: r => (readMembers n r).map (fun q => ((k.1, p.1) :: q.1, q.2))
          | _ => none
      | _ => none
  | _, _ => none

end

def parse (s : Str) : Option Json :=
  match read (s.length + 1) s with
  | some (j, []) => if j.serialisable then some j else none
  | _ => none

def dump (j : Json) : Option Str := if j.serialisable then some (write j) else none

end Reader

section RoundTrip

theorem hexValue_digitChar : ∀ n < 16, hexValue (Nat.digitChar n) = some n := by decide

theorem readChars_plain {c : Char} (hquote : c ≠ '"') (hslash : c ≠ '\\') (hc : ¬c.toNat < 0x20)
    (s : Str) : readChars (c :: s) = (readChars s).map (fun p => (c :: p.1, p.2)) := by
  rw [readChars, if_neg hc] <;> simp [hquote, hslash]

theorem readChars_control {c : Char} (hc : c.toNat < 0x20) (s : Str) :
    readChars (['\\', 'u', '0', '0', Nat.digitChar (c.toNat / 16), Nat.digitChar (c.toNat % 16)]
      ++ s) = (readChars s).map (fun p => (c :: p.1, p.2)) := by
  have hhi := hexValue_digitChar (c.toNat / 16) (by omega)
  have hlo := hexValue_digitChar (c.toNat % 16) (by omega)
  have hc : Char.ofNat (16 * (c.toNat / 16) + c.toNat % 16) = c := by
    rw [Nat.div_add_mod, Char.ofNat_toNat]
  simp only [List.cons_append, List.nil_append, readChars, hhi, hlo, Option.bind_some, hc]

theorem readChars_escape (c : Char) (s : Str) :
    readChars (escape c ++ s) = (readChars s).map (fun p => (c :: p.1, p.2)) := by
  unfold escape
  split_ifs with hquote hslash h₃ h₄ h₅ h₆ h₇ hcontrol
  -- the seven characters with an escape of their own
  iterate 7
    · subst_vars
      rfl
  · exact readChars_control hcontrol s
  · exact readChars_plain hquote hslash hcontrol s

theorem readChars_writeChars (s r : Str) : readChars (writeChars s ++ r) = some (s, r) := by
  induction s with
  | nil => rfl
  | cons c s ih =>
    rw [writeChars, List.flatMap_cons, List.append_assoc, List.append_assoc, readChars_escape,
      ← List.append_assoc (s.flatMap escape), ← writeChars, ih]
    rfl

def Ends (r : Str) : Prop := ∀ c ∈ r.head?, c.isDigit = false ∧ c ≠ 'e'

theorem takeWhile_toStr {n : ℕ} {r : Str} (hr : ∀ c ∈ r.head?, c.isDigit = false) :
    (toStr n ++ r).takeWhile Char.isDigit = toStr n ∧
      (toStr n ++ r).dropWhile Char.isDigit = r := by
  have hn : ∀ c ∈ toStr n, c.isDigit := fun c => isDigit_of_mem_toStr
  rw [List.takeWhile_append_of_pos hn, List.dropWhile_append_of_pos hn]
  cases r with
  | nil => simp
  | cons c r => simp [hr c rfl]

theorem readNumber_toStr (negative : Bool) (n : ℕ) {r : Str} (hr : Ends r) :
    readNumber negative (toStr n ++ r) = some (.integer (if negative then -n else n), r) := by
  obtain ⟨htake, hdrop⟩ := takeWhile_toStr (n := n) (fun c hc => (hr c hc).1)
  simp only [readNumber, htake, hdrop, toStr_ne_nil, if_false, decimalValue_toStr]
  split
  · exact absurd rfl (hr 'e' rfl).2
  · rfl

theorem readNumber_double (d : Double) (r : Str) :
    readNumber false (toStr d.bits.toNat ++ 'e' :: '0' :: r) = some (.floating d, r) := by
  obtain ⟨htake, hdrop⟩ := takeWhile_toStr (n := d.bits.toNat) (r := 'e' :: '0' :: r)
    (fun c hc => by obtain rfl := Option.some.inj hc; decide)
  simp only [readNumber, htake, hdrop, toStr_ne_nil, if_false, decimalValue_toStr,
    UInt64.ofNat_toNat]
  exact dif_pos d.finite

theorem ends_writeElems (js : List Json) (r : Str) : Ends (writeElems js ++ r) := by
  intro c hc
  cases js <;> rw [writeElems] at hc <;> obtain rfl := Option.some.inj hc <;> decide

theorem ends_writeMembers (ms : List (Str × Json)) (r : Str) : Ends (writeMembers ms ++ r) := by
  intro c hc
  cases ms <;> rw [writeMembers] at hc <;> obtain rfl := Option.some.inj hc <;> decide

theorem insertMember_of_lt {key : Str} (v : Json) {ms : List (Str × Json)}
    (h : ∀ m ∈ ms, m.1 < key) : Json.insertMember key v ms = ms ++ [(key, v)] := by
  induction ms with
  | nil => rfl
  | cons m ms ih =>
    have hm := h m (List.mem_cons_self ..)
    rw [Json.insertMember, if_neg (lt_asymm hm), if_neg (ne_of_gt hm),
      ih (fun n hn => h n (.tail _ hn)), List.cons_append]

theorem ofMembers_of_pairwise {ms : List (Str × Json)} (h : ms.Pairwise (fun m n => m.1 < n.1)) :
    Json.ofMembers ms = .object ms := by
  have step : ∀ (ms acc : List (Str × Json)), (acc ++ ms).Pairwise (fun m n => m.1 < n.1) →
      ms.foldl (fun ms m => Json.insertMember m.1 m.2 ms) acc = acc ++ ms := by
    intro ms
    induction ms with
    | nil => exact fun acc _ => (List.append_nil acc).symm
    | cons m ms ih =>
      intro acc hp
      have hlt : ∀ n ∈ acc, n.1 < m.1 := fun n hn =>
        (List.pairwise_append.mp hp).2.2 n hn m (List.mem_cons_self ..)
      have hp' : ((acc ++ [m]) ++ ms).Pairwise (fun m n => m.1 < n.1) := by simpa using hp
      rw [List.foldl_cons, insertMember_of_lt _ hlt, ih _ hp', List.append_assoc]
      rfl
  rw [Json.ofMembers, step ms [] h, List.nil_append]

private theorem digit_ne {c : Char} (h : c.isDigit) :
    c ≠ 'n' ∧ c ≠ 't' ∧ c ≠ 'f' ∧ c ≠ '"' ∧ c ≠ '-' ∧ c ≠ '[' ∧ c ≠ '{' := by
  refine ⟨?_, ?_, ?_, ?_, ?_, ?_, ?_⟩ <;> rintro rfl <;> exact absurd h (by decide)

theorem read_toStr (n fuel : ℕ) (r : Str) :
    read (fuel + 1) (toStr n ++ r) = readNumber false (toStr n ++ r) := by
  obtain ⟨c, ds, hds⟩ := List.exists_cons_of_ne_nil (toStr_ne_nil n)
  obtain ⟨h₁, h₂, h₃, h₄, h₅, h₆, h₇⟩ :=
    digit_ne (isDigit_of_mem_toStr (hds ▸ List.mem_cons_self .. : c ∈ toStr n))
  rw [hds, List.cons_append, read]
  simp only [h₁, h₂, h₃, h₄, h₅, h₆, h₇, if_false]

theorem head?_write_ne (j : Json) (r : Str) : ((write j ++ r).head? = some ']') = False := by
  have digits : ∀ (n : ℕ) (r : Str), (toStr n ++ r).head? ≠ some ']' := by
    intro n r h
    obtain ⟨c, ds, hds⟩ := List.exists_cons_of_ne_nil (toStr_ne_nil n)
    rw [hds] at h
    obtain rfl := Option.some.inj h
    exact absurd (isDigit_of_mem_toStr (hds ▸ List.mem_cons_self .. : ']' ∈ toStr n)) (by decide)
  refine eq_false (fun h => ?_)
  cases j with
  | null => cases h
  | bool b => cases b <;> cases h
  | integer n =>
    rw [write, writeInt] at h
    split at h
    · cases h
    · exact digits _ _ h
  | floating d =>
    rw [write, List.append_assoc] at h
    exact digits _ _ h
  | string s => cases h
  | array js => cases js <;> cases h
  | object ms => cases ms <;> cases h

mutual

/-- What is written is read back, whatever follows it. -/
theorem read_write : ∀ (j : Json), j.serialisable → ∀ (n : ℕ) (r : Str), (write j).length < n →
    Ends r → read n (write j ++ r) = some (j, r)
  | _, _, 0, _, hn, _ => absurd hn (Nat.not_lt_zero _)
  | .null, _, n + 1, r, _, _ => rfl
  | .bool true, _, n + 1, r, _, _ => rfl
  | .bool false, _, n + 1, r, _, _ => rfl
  | .integer i, _, n + 1, r, _, hr => by
    rw [write, writeInt]
    split
    · rw [List.cons_append, read]
      simp only [Char.reduceEq, if_false, if_true, readNumber_toStr true i.natAbs hr]
      congr
      omega
    · rw [read_toStr, readNumber_toStr false i.natAbs hr]
      simp only [Bool.false_eq_true, if_false]
      congr
      omega
  | .floating d, _, n + 1, r, _, _ => by
    rw [write, List.append_assoc, read_toStr]
    exact readNumber_double d r
  | .string s, _, n + 1, r, _, _ => by
    rw [write, List.cons_append, read]
    simp only [Char.reduceEq, if_false, if_true, readChars_writeChars, Option.map_some]
  | .array [], _, n + 1, r, _, _ => rfl
  | .array (j :: js), hs, n + 1, r, hn, _ => by
    rw [Json.serialisable, Json.serialisableElems, Bool.and_eq_true] at hs
    rw [write, List.length_cons] at hn
    have hread := readElems_write js hs.2 j n r (read_write j hs.1) (by omega)
    rw [write, List.cons_append, List.append_assoc, read]
    simp only [Char.reduceEq, if_false, if_true, head?_write_ne, hread, Option.map_some]
  | .object [], _, n + 1, r, _, _ => rfl
  | .object (m :: ms), hs, n + 1, r, hn, _ => by
    rw [Json.serialisable, Bool.and_eq_true, decide_eq_true_eq, List.pairwise_map] at hs
    obtain ⟨hsorted, hms⟩ := hs
    rw [Json.serialisableMembers, Bool.and_eq_true, Bool.and_eq_true] at hms
    rw [write, List.length_cons] at hn
    have hread := readMembers_write ms hms.2 m n r (read_write m.2 hms.1.2) (by omega)
    rw [write, List.cons_append, read]
    simp only [Char.reduceEq, if_false, if_true, List.cons_append, List.append_assoc,
      List.head?_cons, Option.some.injEq, hread, Option.map_some, ofMembers_of_pairwise hsorted]

theorem readElems_write : ∀ (js : List Json), Json.serialisableElems js → ∀ (j : Json) (n : ℕ)
    (r : Str), (∀ n r, (write j).length < n → Ends r → read n (write j ++ r) = some (j, r)) →
    (write j ++ writeElems js).length < n →
    readElems n (write j ++ (writeElems js ++ r)) = some (j :: js, r)
  | _, _, _, 0, _, _, hn => absurd hn (Nat.not_lt_zero _)
  | [], _, j, n + 1, r, hj, hn => by
    rw [writeElems, List.length_append] at hn
    rw [readElems, hj n _ (by simp at hn; omega) (ends_writeElems [] r)]
    rfl
  | j' :: js, hs, j, n + 1, r, hj, hn => by
    rw [Json.serialisableElems, Bool.and_eq_true] at hs
    rw [writeElems, List.length_append, List.length_cons] at hn
    rw [readElems, hj n _ (by omega) (ends_writeElems (j' :: js) r), Option.bind_some, writeElems]
    simp only [List.cons_append, List.append_assoc]
    rw [readElems_write js hs.2 j' n r (read_write j' hs.1) (by omega)]
    rfl

theorem readMembers_write : ∀ (ms : List (Str × Json)), Json.serialisableMembers ms →
    ∀ (m : Str × Json) (n : ℕ) (r : Str),
    (∀ n r, (write m.2).length < n → Ends r → read n (write m.2 ++ r) = some (m.2, r)) →
    ('"' :: (writeChars m.1 ++ ':' :: (write m.2 ++ writeMembers ms))).length < n →
    readMembers n ('"' :: (writeChars m.1 ++ ':' :: (write m.2 ++ (writeMembers ms ++ r)))) =
      some (m :: ms, r)
  | _, _, _, 0, _, _, hn => absurd hn (Nat.not_lt_zero _)
  | [], _, m, n + 1, r, hm, hn => by
    simp only [List.length_cons, List.length_append] at hn
    rw [readMembers, readChars_writeChars, Option.bind_some]
    simp only [hm n _ (by omega) (ends_writeMembers [] r)]
    rfl
  | m' :: ms, hs, m, n + 1, r, hm, hn => by
    rw [Json.serialisableMembers, Bool.and_eq_true, Bool.and_eq_true] at hs
    simp only [writeMembers, List.length_cons, List.length_append] at hn
    have hread := readMembers_write ms hs.2 m' n r (read_write m'.2 hs.1.2)
      (by simp only [List.length_cons, List.length_append]; omega)
    rw [readMembers, readChars_writeChars, Option.bind_some]
    simp only [hm n _ (by omega) (ends_writeMembers (m' :: ms) r)]
    simp only [writeMembers, Option.bind_some, List.cons_append, List.append_assoc, hread]
    rfl

end

/-- The library of compact texts. -/
def library : JsonLibrary where
  parse := parse
  dump := dump
  dump_isSome j := by
    unfold dump
    cases h : j.serialisable <;> rfl
  parse_dump j s h := by
    unfold dump at h
    split at h
    · rename_i hs
      obtain rfl := Option.some.inj h
      have hread := read_write j hs ((write j).length + 1) [] (by omega) (fun c hc => by cases hc)
      rw [List.append_nil] at hread
      simp only [parse, hread, hs, if_true]
    · cases h
  serialisable_of_parse s j h := by
    unfold parse at h
    split at h
    · split at h
      · rename_i hs
        obtain rfl := Option.some.inj h
        exact hs
      · cases h
    · cases h

theorem dump_eq_write {j : Json} (h : j.serialisable) : library.dump j = some (write j) := by
  change dump j = some (write j)
  rw [dump, if_pos h]

theorem parse_write {j : Json} (h : j.serialisable) : library.parse (write j) = some j :=
  library.parse_dump j (write j) (dump_eq_write h)

end RoundTrip

theorem parse_nil : library.parse [] = none := by decide +kernel

end McpSdk.CompactJson

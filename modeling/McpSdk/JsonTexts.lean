import Mathlib.Data.List.Chain
import Mathlib.Tactic.Common

/-!
# JSON texts

The grammar of RFC 8259 as two automata: one cuts a text into tokens, and one accepts the tokens
of a value with a stack of open brackets. White space between the tokens is all that the first one
drops, so the value of a text is a function of its tokens. Since no token holds a line break, a
text may be cut at each of them, and since no value is the beginning of another one, only white
space can follow a cut behind which there is a value already.
-/

namespace JsonTexts

def isBlank (c : Char) : Bool := c == ' ' || c == '\t' || c == '\n' || c == '\r'

/-- The white space that is also a control character. -/
def isControl (c : Char) : Bool := isBlank c && c.toNat < 0x20

def isMark (c : Char) : Bool := "\x7b\x7d[]:,".toList.contains c

/-- What a number or a literal name may begin with. -/
def beginsWord (c : Char) : Bool := c.isDigit || "-tfn".toList.contains c

inductive Token
  | mark (c : Char)
  | word (w : List Char)
  | string (s : List Char)
  deriving DecidableEq, Repr

section Words

def isExponent : List Char → Bool
  | [] => true
  | 'e' :: '+' :: digits | 'e' :: '-' :: digits | 'E' :: '+' :: digits | 'E' :: '-' :: digits
  | 'e' :: digits | 'E' :: digits => !digits.isEmpty && digits.all Char.isDigit
  | _ => false

def isFraction : List Char → Bool
  | '.' :: rest =>
      !(rest.takeWhile Char.isDigit).isEmpty && isExponent (rest.dropWhile Char.isDigit)
  | rest => isExponent rest

/-- A number without its sign. -/
def isMagnitude (w : List Char) : Bool :=
  let digits := w.takeWhile Char.isDigit
  !digits.isEmpty && (digits.head? != some '0' || digits.length == 1) &&
    isFraction (w.dropWhile Char.isDigit)

def isNumber : List Char → Bool
  | '-' :: w => isMagnitude w
  | w => isMagnitude w

def isLiteral (w : List Char) : Bool :=
  w == "true".toList || w == "false".toList || w == "null".toList

end Words

section Tokens

/-- Where the first automaton stands in a text. -/
inductive Mode
  | between
  | inWord (w : List Char)
  | inString (s : List Char)
  | escaped (s : List Char)
  | inHex (owed : ℕ) (s : List Char)

def isHexDigit (c : Char) : Bool := c.isDigit || "abcdefABCDEF".toList.contains c

/-- One character: the tokens that end with it, and where it leads. -/
def Mode.step : Mode → Char → Option (List Token × Mode)
  | .between, c =>
      if isBlank c then some ([], .between)
      else if isMark c then some ([.mark c], .between)
      else if c = '"' then some ([], .inString [])
      else if beginsWord c then some ([], .inWord [c])
      else none
  | .inWord w, c =>
      if isBlank c then some ([.word w], .between)
      else if isMark c then some ([.word w, .mark c], .between)
      else some ([], .inWord (w ++ [c]))
  | .inString s, c =>
      if c = '"' then some ([.string s], .between)
      else if c = '\\' then some ([], .escaped s)
      else if c.toNat < 0x20 then none
      else some ([], .inString (s ++ [c]))
  | .escaped s, c =>
      if "\"\\/bfnrt".toList.contains c then some ([], .inString (s ++ ['\\', c]))
      else if c = 'u' then some ([], .inHex 4 (s ++ ['\\', 'u']))
      else none
  | .inHex owed s, c =>
      if !isHexDigit c then none
      else if owed = 1 then some ([], .inString (s ++ [c]))
      else some ([], .inHex (owed - 1) (s ++ [c]))

/-- The end of a text ends a word, and nothing else that has begun. -/
def Mode.finish : Mode → Option (List Token)
  | .between => some []
  | .inWord w => some [.word w]
  | _ => none

/-- The tokens of a text that is entered in a mode. -/
def lexFrom : Mode → List Char → Option (List Token)
  | m, [] => m.finish
  | m, c :: text => (m.step c).bind fun p => (lexFrom p.2 text).map (p.1 ++ ·)

end Tokens

section Values

inductive Bracket
  | array | object

/-- What the second automaton waits for. After `[` or `,` in an array and `{` or `,` in an object
these are different things. -/
inductive Place
  | value | element | key | member | colon | after

/-- One token, with the open brackets. -/
def Place.step : Place → List Bracket → Token → Option (Place × List Bracket)
  | .value, brackets, .mark '[' | .element, brackets, .mark '[' =>
      some (.element, .array :: brackets)
  | .value, brackets, .mark '\x7b' | .element, brackets, .mark '\x7b' =>
      some (.member, .object :: brackets)
  | .value, brackets, .string _ | .element, brackets, .string _ => some (.after, brackets)
  | .value, brackets, .word w | .element, brackets, .word w =>
      if isLiteral w || isNumber w then some (.after, brackets) else none
  | .element, .array :: brackets, .mark ']' => some (.after, brackets)
  | .member, .object :: brackets, .mark '\x7d' => some (.after, brackets)
  | .member, brackets, .string _ | .key, brackets, .string _ => some (.colon, brackets)
  | .colon, brackets, .mark ':' => some (.value, brackets)
  | .after, .array :: brackets, .mark ',' => some (.value, .array :: brackets)
  | .after, .array :: brackets, .mark ']' => some (.after, brackets)
  | .after, .object :: brackets, .mark ',' => some (.key, .object :: brackets)
  | .after, .object :: brackets, .mark '\x7d' => some (.after, brackets)
  | _, _, _ => none

/-- The place that the tokens lead to. -/
def advance : Place → List Bracket → List Token → Option (Place × List Bracket)
  | place, brackets, [] => some (place, brackets)
  | place, brackets, t :: ts => (place.step brackets t).bind fun p => advance p.1 p.2 ts

/-- The tokens are those of one value. -/
def isValue (ts : List Token) : Bool :=
  match advance .value [] ts with
  | some (.after, []) => true
  | _ => false

end Values

/-- The tokens of a JSON text. -/
def tokens (text : List Char) : Option (List Token) := (lexFrom .between text).filter isValue

example : tokens "\x7b\"a\" : [1, -2.5e3,\ntrue]\x7d ".toList =
    some [.mark '\x7b', .string ['a'], .mark ':', .mark '[', .word ['1'], .mark ',',
      .word "-2.5e3".toList, .mark ',', .word "true".toList, .mark ']', .mark '\x7d'] := by
  decide +kernel

section Grammar

theorem advance_append (place : Place) (brackets : List Bracket) (ts us : List Token) :
    advance place brackets (ts ++ us) =
      (advance place brackets ts).bind fun p => advance p.1 p.2 us := by
  induction ts generalizing place brackets with
  | nil => rfl
  | cons t ts ih =>
    rw [List.cons_append, advance, advance]
    cases place.step brackets t with
    | none => rfl
    | some p => exact ih p.1 p.2

theorem isValue_iff {ts : List Token} :
    isValue ts ↔ advance .value [] ts = some (.after, []) := by
  unfold isValue
  split
  · simp [*]
  · rename_i hother
    exact iff_of_false Bool.false_ne_true (hother ·)

theorem eq_nil_of_isValue_append {ts us : List Token} (h : isValue ts) (h' : isValue (ts ++ us)) :
    us = [] := by
  rw [isValue_iff] at h h'
  rw [advance_append, h] at h'
  cases us with
  | nil => rfl
  | cons t us => cases h'

end Grammar

section Cuts
variable {c : Char}

theorem isControl_iff : isControl c ↔ c = '\t' ∨ c = '\n' ∨ c = '\r' := by
  constructor
  · intro hc
    obtain ⟨hblank, hcode⟩ := Bool.and_eq_true_iff.mp hc
    have hspace : c ≠ ' ' := by
      rintro rfl
      exact absurd hcode (by decide)
    simpa [isBlank, hspace, or_assoc] using hblank
  · rintro (rfl | rfl | rfl) <;> rfl

theorem step_of_isControl (hc : isControl c) (m : Mode) :
    m.step c = m.finish.map (fun ts => (ts, .between)) := by
  rcases isControl_iff.mp hc with rfl | rfl | rfl <;> cases m <;> rfl

/-- A text may be cut at a control character. -/
theorem lexFrom_append (hc : isControl c) (m : Mode) (text rest : List Char) :
    lexFrom m (text ++ c :: rest) =
      (lexFrom m text).bind fun ts => (lexFrom .between rest).map (ts ++ ·) := by
  induction text generalizing m with
  | nil =>
    have hstep : lexFrom m (c :: rest) =
        (m.step c).bind fun p => (lexFrom p.2 rest).map (p.1 ++ ·) := rfl
    rw [List.nil_append, hstep, step_of_isControl hc, lexFrom]
    cases m.finish <;> rfl
  | cons d text ih =>
    rw [List.cons_append, lexFrom, lexFrom]
    cases m.step d with
    | none => rfl
    | some p =>
      simp only [Option.bind_some, ih]
      cases lexFrom p.2 text with
      | none => rfl
      | some ts => cases lexFrom .between rest <;> simp

/-- What has begun becomes a token. -/
theorem ne_nil_of_lexFrom {m : Mode} {text : List Char} {ts : List Token}
    (h : lexFrom m text = some ts) (hm : m ≠ .between) : ts ≠ [] := by
  induction text generalizing m ts with
  | nil =>
    cases m with
    | between => exact absurd rfl hm
    | inWord w =>
      obtain rfl := Option.some.inj h
      exact List.cons_ne_nil _ _
    | _ => cases h
  | cons c text ih =>
    obtain ⟨p, hp, h⟩ := Option.bind_eq_some_iff.mp h
    obtain ⟨us, hus, rfl⟩ := Option.map_eq_some_iff.mp h
    have hstep : p.1 ≠ [] ∨ p.2 ≠ .between := by
      cases m with
      | between => exact absurd rfl hm
      | inWord w | inString s | escaped s | inHex owed s =>
        simp only [Mode.step] at hp
        split_ifs at hp <;> cases hp <;> simp
    rcases hstep with hne | hnext
    · exact List.append_ne_nil_of_left_ne_nil hne us
    · exact List.append_ne_nil_of_right_ne_nil p.1 (ih hus hnext)

/-- Only white space has no tokens. -/
theorem lexFrom_eq_nil_iff {text : List Char} :
    lexFrom .between text = some [] ↔ ∀ c ∈ text, isBlank c := by
  induction text with
  | nil => exact iff_of_true rfl nofun
  | cons c text ih =>
    rw [List.forall_mem_cons, ← ih]
    by_cases hc : isBlank c
    · simp [lexFrom, Mode.step, hc]
    · refine iff_of_false (fun h => ?_) (fun h => hc h.1)
      obtain ⟨p, hp, h⟩ := Option.bind_eq_some_iff.mp h
      obtain ⟨us, hus, hnil⟩ := Option.map_eq_some_iff.mp h
      obtain ⟨hfirst, rfl⟩ := List.append_eq_nil_iff.mp hnil
      have hnext : p.2 ≠ .between := by
        simp only [Mode.step] at hp
        split_ifs at hp <;> cases hp <;> simp_all
      exact ne_nil_of_lexFrom hus hnext rfl

/-- A line break is white space, and what follows it is too, or begins a token. -/
theorem isChain_of_lexFrom {m : Mode} {text : List Char} {ts : List Token}
    (h : lexFrom m text = some ts) :
    text.IsChain (fun c d => isControl c → isBlank d ∨ isMark d ∨ d = '"' ∨ beginsWord d) := by
  induction text generalizing m ts with
  | nil => exact List.isChain_nil
  | cons c text ih =>
    obtain ⟨p, hp, h⟩ := Option.bind_eq_some_iff.mp h
    obtain ⟨us, hus, rfl⟩ := Option.map_eq_some_iff.mp h
    cases text with
    | nil => exact List.isChain_singleton c
    | cons d text =>
      refine List.isChain_cons_cons.mpr ⟨fun hc => ?_, ih hus⟩
      rw [step_of_isControl hc] at hp
      obtain ⟨_, _, rfl⟩ := Option.map_eq_some_iff.mp hp
      obtain ⟨q, hq, -⟩ := Option.bind_eq_some_iff.mp hus
      simp only [Mode.step] at hq
      split_ifs at hq <;> simp_all

end Cuts

/-- Where a text has a control character, white space follows it if what stands before it is a
JSON text already, and only then. -/
theorem tokens_of_append {text rest : List Char} {c : Char} {ts : List Token} (hc : isControl c)
    (h : tokens (text ++ c :: rest) = some ts) :
    tokens text = if rest.all isBlank then some ts else none := by
  obtain ⟨hlex, hvalue⟩ := Option.filter_eq_some_iff.mp h
  rw [lexFrom_append hc] at hlex
  obtain ⟨us, hus, hlex⟩ := Option.bind_eq_some_iff.mp hlex
  obtain ⟨vs, hvs, rfl⟩ := Option.map_eq_some_iff.mp hlex
  rw [tokens, hus]
  split
  · rename_i hblank
    have hnil := lexFrom_eq_nil_iff.mpr (List.all_eq_true.mp hblank)
    obtain rfl : vs = [] := Option.some.inj (hvs.symm.trans hnil)
    rw [List.append_nil] at hvalue ⊢
    exact Option.filter_eq_some_iff.mpr ⟨rfl, hvalue⟩
  · rename_i hmore
    refine Option.filter_eq_none_iff.mpr fun us' hus' hshort => hmore (List.all_eq_true.mpr ?_)
    obtain rfl := Option.some.inj hus'
    obtain rfl := eq_nil_of_isValue_append hshort hvalue
    exact lexFrom_eq_nil_iff.mp hvs

end JsonTexts

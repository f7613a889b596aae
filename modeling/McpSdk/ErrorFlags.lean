import McpSdk.CompactJson
import McpSdk.CppTexts
import McpSdk.HttpTransports

/-!
# What the transports take for an error

The flag that a transport hands to `record_outcome` says whether the text of the response has
`"error"` in it, with the quotes. In a compact text quotes stand around keys and strings, and
quotes within these are escaped: so the text is found exactly if a key or string of the response
is `error`, or ends in it after a quote. Every error response has such a key.
-/

namespace McpSdk.ErrorFlags
open CppStandardLibrary CooperativeTasks

/-- A part of the text of a JSON value: a key or a string, a double, or what is written as such. -/
inductive Lexeme
  | mark (s : Str)
  | double (d : Double)
  | literal (s : Str)

mutual

/-- The parts of the text of a value. Its literals are the keys and strings in it, however deep. -/
def lexemes : Json → List Lexeme
  | .null => [.mark "null".toList]
  | .bool true => [.mark "true".toList]
  | .bool false => [.mark "false".toList]
  | .integer n => [.mark (CompactJson.writeInt n)]
  | .floating d => [.double d]
  | .string s => [.literal s]
  | .array [] => [.mark "[]".toList]
  | .array (j :: js) => .mark "[".toList :: (lexemes j ++ lexemesElems js)
  | .object [] => [.mark ['{', '}']]
  | .object (m :: ms) =>
      .mark ['{'] :: .literal m.1 :: .mark ":".toList :: (lexemes m.2 ++ lexemesMembers ms)

def lexemesElems : List Json → List Lexeme
  | [] => [.mark "]".toList]
  | j :: js => .mark ",".toList :: (lexemes j ++ lexemesElems js)

def lexemesMembers : List (Str × Json) → List Lexeme
  | [] => [.mark ['}']]
  | m :: ms =>
      .mark ",".toList :: .literal m.1 :: .mark ":".toList :: (lexemes m.2 ++ lexemesMembers ms)

end

section Texts
variable (number : Double → Str)

/-- The text of a part, with `number` for the texts of doubles. -/
def Lexeme.text : Lexeme → Str
  | .mark s => s
  | .double d => number d
  | .literal s => '"' :: CompactJson.writeChars s

def render (ls : List Lexeme) : Str := ls.flatMap (Lexeme.text number)

/-- `dump` writes compact texts: the parts of a value, one after the other. A number has no
quotes. -/
structure Compact (L : JsonLibrary) : Prop where
  dump_eq : ∀ j text, L.dump j = some text → text = render number (lexemes j)
  number_noQuote : ∀ d, '"' ∉ number d

end Texts

/-- The string, between its quotes or escaped within others, spells `"error"`. -/
def Spells (w : Str) : Prop := w = "error".toList ∨ '"' :: "error".toList <:+ w

section Literals

theorem digitChar_ne_quote : ∀ n < 16, Nat.digitChar n ≠ '"' := by decide

theorem escape_cases (c : Char) : (CompactJson.escape c = [c] ∧ c ≠ '"' ∧ c ≠ '\\') ∨
    (∃ t, CompactJson.escape c = '\\' :: t ∧ '"' ∉ t ∧ c ≠ '"') ∨
    CompactJson.escape c = ['\\', '"'] ∧ c = '"' := by
  unfold CompactJson.escape
  by_cases hquote : c = '"'
  · exact .inr (.inr ⟨if_pos hquote, hquote⟩)
  rw [if_neg hquote]
  by_cases hbackslash : c = '\\'
  · exact .inr (.inl ⟨['\\'], if_pos hbackslash, by decide, hquote⟩)
  rw [if_neg hbackslash]
  split
  · exact .inr (.inl ⟨_, rfl, by decide, hquote⟩)
  split
  · exact .inr (.inl ⟨_, rfl, by decide, hquote⟩)
  split
  · exact .inr (.inl ⟨_, rfl, by decide, hquote⟩)
  split
  · exact .inr (.inl ⟨_, rfl, by decide, hquote⟩)
  split
  · exact .inr (.inl ⟨_, rfl, by decide, hquote⟩)
  split
  · rename_i hcontrol
    have hhigh := digitChar_ne_quote (c.toNat / 16) (by omega)
    have hlow := digitChar_ne_quote (c.toNat % 16) (by omega)
    refine .inr (.inl ⟨_, rfl, ?_, hquote⟩)
    simp [Ne.symm hhigh, Ne.symm hlow]
  · exact .inl ⟨rfl, hquote, hbackslash⟩

def Verbatim (c : Char) : Prop := CompactJson.escape c = [c] ∧ c ≠ '"' ∧ c ≠ '\\'

variable {e s w : Str}

/-- Such characters and a closing quote are read from that string only. -/
theorem prefix_writeChars_iff (he : ∀ c ∈ e, Verbatim c) :
    e ++ ['"'] <+: w.flatMap CompactJson.escape ++ '"' :: s ↔ w = e := by
  induction e generalizing w with
  | nil =>
    cases w with
    | nil => simp
    | cons c w =>
      refine iff_of_false (fun h => ?_) (by simp)
      rw [List.flatMap_cons, List.append_assoc] at h
      rcases escape_cases c with ⟨hc, hquote, -⟩ | ⟨t, hc, -⟩ | ⟨hc, -⟩ <;> rw [hc] at h
      · exact hquote (List.cons_prefix_cons.mp h).1.symm
      · exact absurd (List.cons_prefix_cons.mp h).1 (by decide)
      · exact absurd (List.cons_prefix_cons.mp h).1 (by decide)
  | cons a e ih =>
    obtain ⟨hverbatim, hquote, hbackslash⟩ := he a (.head _)
    cases w with
    | nil =>
      refine iff_of_false (fun h => ?_) (by simp)
      exact hquote (List.cons_prefix_cons.mp h).1
    | cons c w =>
      have escaped : ∀ t, CompactJson.escape c = '\\' :: t →
          (a :: (e ++ ['"']) <+: ('\\' :: t) ++ (w.flatMap CompactJson.escape ++ '"' :: s) ↔
            c :: w = a :: e) := by
        intro t hc
        refine iff_of_false (fun h => hbackslash (List.cons_prefix_cons.mp h).1) (fun h => ?_)
        rw [(List.cons.inj h).1, hverbatim] at hc
        exact hbackslash (List.cons.inj hc).1
      rw [List.flatMap_cons, List.append_assoc, List.cons_append]
      rcases escape_cases c with ⟨hc, -⟩ | ⟨t, hc, -⟩ | ⟨hc, -⟩
      · rw [hc, List.singleton_append, List.cons_prefix_cons,
          ih (fun b hb => he b (.tail _ hb)), List.cons.injEq, eq_comm (a := a)]
      · rw [hc]
        exact escaped t hc
      · rw [hc]
        exact escaped _ hc

/-- What is found from the inside of a string on: an end of the string after a quote, or something
behind it. -/
theorem containsText_writeChars (he : ∀ c ∈ e, Verbatim c) (hs : ¬e ++ ['"'] <+: s) :
    containsText (w.flatMap CompactJson.escape ++ '"' :: s) ('"' :: (e ++ ['"'])) ↔
      '"' :: e <:+ w ∨ containsText s ('"' :: (e ++ ['"'])) := by
  induction w with
  | nil =>
    rw [List.flatMap_nil, List.nil_append, containsText_cons, List.cons_prefix_cons,
      List.suffix_nil]
    simp [hs]
  | cons c w ih =>
    rw [List.flatMap_cons, List.append_assoc, List.suffix_cons_iff, List.cons.injEq]
    rcases escape_cases c with ⟨hc, hquote, -⟩ | ⟨t, hc, ht, hquote⟩ | ⟨hc, rfl⟩
    · have hplain : '"' ∉ [c] := by simpa using Ne.symm hquote
      rw [hc, containsText_append hplain, ih]
      simp [Ne.symm hquote]
    · have hplain : '"' ∉ '\\' :: t := by simpa using ht
      rw [hc, containsText_append hplain, ih]
      simp [Ne.symm hquote]
    · have hplain : '"' ∉ ['\\'] := by decide
      have hsplit : ['\\', '"'] ++ (w.flatMap CompactJson.escape ++ '"' :: s) =
          ['\\'] ++ '"' :: (w.flatMap CompactJson.escape ++ '"' :: s) := rfl
      rw [hc, hsplit, containsText_append hplain, containsText_cons, List.cons_prefix_cons,
        prefix_writeChars_iff he, ih, eq_self_iff_true, true_and, true_and, or_assoc,
        eq_comm (a := e)]

theorem verbatim_error : ∀ c ∈ "error".toList, Verbatim c := by
  have hall : List.Forall Verbatim "error".toList := by
    unfold Verbatim
    decide
  exact List.forall_iff_forall_mem.mp hall

theorem containsText_plain {plain : Str} (h : '"' ∉ plain) :
    containsText (plain ++ s) "\"error\"".toList ↔ containsText s "\"error\"".toList :=
  containsText_append h

theorem containsText_literal (hs : s.head? ≠ some 'e') :
    containsText ('"' :: (CompactJson.writeChars w ++ s)) "\"error\"".toList ↔
      Spells w ∨ containsText s "\"error\"".toList := by
  have hnext : ¬"error".toList ++ ['"'] <+: s := by
    rintro ⟨t, rfl⟩
    exact hs rfl
  have htext : "\"error\"".toList = '"' :: ("error".toList ++ ['"']) := rfl
  rw [htext, CompactJson.writeChars, List.append_assoc, List.singleton_append, containsText_cons,
    List.cons_prefix_cons, prefix_writeChars_iff verbatim_error,
    containsText_writeChars verbatim_error hnext, eq_self_iff_true, true_and, ← or_assoc, Spells]

end Literals

section Spacing

def Separated (ls : List Lexeme) : Prop :=
  ∀ l ∈ ls.head?, ∃ c s, l = .mark (c :: s) ∧ c ≠ 'e'

def WellSpaced : List Lexeme → Prop
  | [] => True
  | .mark s :: ls => '"' ∉ s ∧ WellSpaced ls
  | .double _ :: ls => WellSpaced ls
  | .literal _ :: ls => Separated ls ∧ WellSpaced ls

theorem separated_cons {c : Char} {s : Str} {ls : List Lexeme} (h : c ≠ 'e') :
    Separated (.mark (c :: s) :: ls) := by
  rintro l ⟨⟩
  exact ⟨c, s, rfl, h⟩

theorem head?_render {number : Double → Str} {ls : List Lexeme} (h : Separated ls) :
    (render number ls).head? ≠ some 'e' := by
  cases ls with
  | nil => exact (Option.some_ne_none _).symm
  | cons l ls =>
    obtain ⟨c, s, rfl, hc⟩ := h l rfl
    exact fun he => hc (Option.some.inj he)

theorem containsText_render {number : Double → Str} (hnumber : ∀ d, '"' ∉ number d)
    {ls : List Lexeme} (h : WellSpaced ls) :
    containsText (render number ls) "\"error\"".toList ↔ ∃ w, .literal w ∈ ls ∧ Spells w := by
  induction ls with
  | nil =>
    have hnone : containsText [] "\"error\"".toList = false := rfl
    refine iff_of_false (Bool.eq_false_iff.mp hnone) ?_
    rintro ⟨w, hw, -⟩
    cases hw
  | cons l ls ih =>
    rw [render, List.flatMap_cons, ← render]
    cases l with
    | mark s =>
      rw [Lexeme.text, containsText_plain h.1, ih h.2]
      simp
    | double d =>
      rw [Lexeme.text, containsText_plain (hnumber d), ih h]
      simp
    | literal s =>
      rw [Lexeme.text, List.cons_append, containsText_literal (head?_render h.1), ih h.2]
      simp only [List.mem_cons, Lexeme.literal.injEq, or_and_right, exists_or, exists_eq_left]

theorem isDigit_ne_quote {c : Char} (h : c.isDigit) : '"' ≠ c := by
  rintro rfl
  cases h

theorem quote_notMem_toStr (n : ℕ) : '"' ∉ toStr n := fun h =>
  isDigit_ne_quote (isDigit_of_mem_toStr h) rfl

theorem quote_notMem_writeInt (n : Int) : '"' ∉ CompactJson.writeInt n := by
  unfold CompactJson.writeInt
  split
  · intro h
    rcases List.mem_cons.mp h with h | h
    · cases h
    · exact quote_notMem_toStr _ h
  · exact quote_notMem_toStr _

theorem separated_lexemesElems (js : List Json) (ls : List Lexeme) :
    Separated (lexemesElems js ++ ls) := by
  cases js <;> exact separated_cons (by decide)

theorem separated_lexemesMembers (ms : List (Str × Json)) (ls : List Lexeme) :
    Separated (lexemesMembers ms ++ ls) := by
  cases ms <;> exact separated_cons (by decide)

mutual

theorem wellSpaced_lexemes : ∀ (j : Json) {ls : List Lexeme}, WellSpaced ls → Separated ls →
    WellSpaced (lexemes j ++ ls)
  | .null, _, h, _ => ⟨by decide, h⟩
  | .bool true, _, h, _ => ⟨by decide, h⟩
  | .bool false, _, h, _ => ⟨by decide, h⟩
  | .integer n, _, h, _ => ⟨quote_notMem_writeInt n, h⟩
  | .floating _, _, h, _ => h
  | .string _, _, h, hs => ⟨hs, h⟩
  | .array [], _, h, _ => ⟨by decide, h⟩
  | .array (j :: js), ls, h, _ => by
    rw [lexemes, List.cons_append, List.append_assoc]
    exact ⟨by decide, wellSpaced_lexemes j (wellSpaced_lexemesElems js h)
      (separated_lexemesElems js ls)⟩
  | .object [], _, h, _ => ⟨by decide, h⟩
  | .object (m :: ms), ls, h, _ => by
    rw [lexemes, List.cons_append, List.cons_append, List.cons_append, List.append_assoc]
    exact ⟨by decide, separated_cons (by decide), by decide,
      wellSpaced_lexemes m.2 (wellSpaced_lexemesMembers ms h) (separated_lexemesMembers ms ls)⟩

theorem wellSpaced_lexemesElems : ∀ (js : List Json) {ls : List Lexeme}, WellSpaced ls →
    WellSpaced (lexemesElems js ++ ls)
  | [], _, h => ⟨by decide, h⟩
  | j :: js, ls, h => by
    rw [lexemesElems, List.cons_append, List.append_assoc]
    exact ⟨by decide, wellSpaced_lexemes j (wellSpaced_lexemesElems js h)
      (separated_lexemesElems js ls)⟩

theorem wellSpaced_lexemesMembers : ∀ (ms : List (Str × Json)) {ls : List Lexeme},
    WellSpaced ls → WellSpaced (lexemesMembers ms ++ ls)
  | [], _, h => ⟨by decide, h⟩
  | m :: ms, ls, h => by
    rw [lexemesMembers, List.cons_append, List.cons_append, List.cons_append, List.append_assoc]
    exact ⟨by decide, separated_cons (by decide), by decide,
      wellSpaced_lexemes m.2 (wellSpaced_lexemesMembers ms h) (separated_lexemesMembers ms ls)⟩

end

end Spacing

section Responses

/-- The response is an error, or, for a batch, one of the responses is: it has a member `error`. -/
def IsErrorResponse : Json → Prop
  | .array responses => ∃ r ∈ responses, r.contains "error".toList
  | r => r.contains "error".toList

theorem literal_of_contains {v : Json} {key : Str} (h : v.contains key) :
    .literal key ∈ lexemes v := by
  cases v with
  | object members =>
    have hrest : ∀ ms : List (Str × Json), ∀ m ∈ ms, .literal m.1 ∈ lexemesMembers ms := by
      intro ms
      induction ms with
      | nil => exact fun m hm => (List.not_mem_nil hm).elim
      | cons m' ms ih =>
        intro m hm
        rw [lexemesMembers]
        rcases List.mem_cons.mp hm with rfl | hm
        · exact .tail _ (.head _)
        · exact .tail _ (.tail _ (.tail _ (List.mem_append_right _ (ih m hm))))
    obtain ⟨v, hv⟩ := Option.isSome_iff_exists.mp h
    obtain ⟨m, hm, -⟩ := Option.map_eq_some_iff.mp hv
    have hmem := List.mem_of_find?_eq_some hm
    have hkey : m.1 = key := by simpa using List.find?_some hm
    cases members with
    | nil => cases hmem
    | cons m' ms =>
      rw [lexemes, ← hkey]
      rcases List.mem_cons.mp hmem with rfl | hmem
      · exact .tail _ (.head _)
      · exact .tail _ (.tail _ (.tail _ (List.mem_append_right _ (hrest ms m hmem))))
  | _ => cases h

theorem mem_lexemes_array {r : Json} {responses : List Json} (hr : r ∈ responses) {l : Lexeme}
    (hl : l ∈ lexemes r) : l ∈ lexemes (.array responses) := by
  have hrest : ∀ js : List Json, r ∈ js → l ∈ lexemesElems js := by
    intro js hr
    induction js with
    | nil => cases hr
    | cons j js ih =>
      rw [lexemesElems]
      rcases List.mem_cons.mp hr with rfl | hr
      · exact .tail _ (List.mem_append_left _ hl)
      · exact .tail _ (List.mem_append_right _ (ih hr))
  cases responses with
  | nil => cases hr
  | cons j js =>
    rw [lexemes]
    rcases List.mem_cons.mp hr with rfl | hr
    · exact .tail _ (List.mem_append_left _ hl)
    · exact .tail _ (List.mem_append_right _ (hrest js hr))

theorem literal_of_isErrorResponse {v : Json} (h : IsErrorResponse v) :
    .literal "error".toList ∈ lexemes v := by
  cases v with
  | array responses =>
    obtain ⟨r, hr, herror⟩ := h
    exact mem_lexemes_array hr (literal_of_contains herror)
  | _ => exact literal_of_contains h

variable {L : JsonLibrary} {number : Double → Str}

theorem isError_iff (hL : Compact number L) {v : Json} {text : Str} (h : L.dump v = some text) :
    isError (some text) ↔ ∃ w, .literal w ∈ lexemes v ∧ Spells w := by
  have hspaced : WellSpaced (lexemes v) := by
    have hend : WellSpaced (lexemes v ++ []) :=
      wellSpaced_lexemes v trivial (fun _ h => by cases h)
    rwa [List.append_nil] at hend
  rw [isError, hL.dump_eq v text h]
  exact containsText_render hL.number_noQuote hspaced

/-- What `dispatch` returns is the text of a value, if anything. -/
def Dumped (L : JsonLibrary) (response : Option Str) : Prop :=
  ∀ text, response = some text → ∃ v, L.dump v = some text

theorem dumped_none : Dumped L none := fun _ h => by cases h

section Dispatch
variable {I : Interface}

theorem yields_ofExcept_dumpText (v : Json) :
    (do
      let text ← Coroutine.ofExcept (L.dumpText v)
      return some text : Coroutine I Input Exception (Option Str)).Yields (fun _ => True)
        (fun _ => True) (Dumped L) := by
  unfold JsonLibrary.dumpText
  cases hdump : L.dump v with
  | none => trivial
  | some text =>
    rintro text' ⟨⟩
    exact ⟨v, hdump⟩

variable (d : JsonRpcDispatcher I)

theorem yields_handleSingle (v : Json) :
    (d.handleSingle L v).Yields (fun _ => True) (fun _ => True) (Dumped L) := by
  have hcalls : ∀ {α : Type} (t : Coroutine I Input Exception α),
      t.Calls (fun _ => True) (fun _ => True) :=
    Coroutine.Addresses.of_all (fun _ => trivial)
  unfold JsonRpcDispatcher.handleSingle
  split
  · exact .bind (hcalls _) (fun id => yields_ofExcept_dumpText _)
  · refine .bind (hcalls _) (fun method => .bind (hcalls _) (fun params => ?_))
    split
    · have hnone : (pure none : Coroutine I Input Exception (Option Str)).Yields (fun _ => True)
          (fun _ => True) (Dumped L) := dumped_none
      dsimp only
      split
      · split
        · exact .bind (hcalls _) (fun _ => hnone)
        · exact .bind (hcalls _) (fun _ => hnone)
      · exact hnone
    · dsimp only
      split
      · exact yields_ofExcept_dumpText _
      · exact .bind (hcalls _) (fun response => yields_ofExcept_dumpText _)

theorem yields_handleRequest (body : Str) :
    (d.handleRequest L body).Yields (fun _ => True) (fun _ => True) (Dumped L) := by
  unfold JsonRpcDispatcher.handleRequest
  split
  · exact yields_ofExcept_dumpText _
  · split
    · exact yields_ofExcept_dumpText _
    · split
      · exact yields_ofExcept_dumpText _
      · refine .bind (Coroutine.Addresses.of_all (fun _ => trivial) _) (fun responses => ?_)
        split
        · exact .pure dumped_none
        · exact yields_ofExcept_dumpText _
  · exact (yields_handleSingle d _).coAwait

end Dispatch

theorem yields_dispatch (d : JsonRpcDispatcher HandlerI) (body sessionId : Str) :
    (dispatch L d body sessionId).Yields (fun _ => True) (fun _ => True) (Dumped L) := by
  have hcalls : ∀ {α : Type} (t : ShardTask α), t.Calls (fun _ => True) (fun _ => True) :=
    Coroutine.Addresses.of_all (fun _ => trivial)
  refine .bind (hcalls _) (fun _ => .bind (hcalls _) (fun handled => ?_))
  split
  · exact .pure dumped_none
  · exact .bind (hcalls _) (fun _ => (Coroutine.Yields.inl (yields_handleRequest d body)).coAwait)

/-- The flag says whether the response is an error. -/
def RightFlag (L : JsonLibrary) (response : Option Str) : Prop :=
  isError response ↔
    ∃ text v, response = some text ∧ L.parse text = some v ∧ IsErrorResponse v

/-- The flag of a response of `dispatch` is right if the response is an error, or none of its keys
and strings spells `"error"`. -/
theorem rightFlag_iff (hL : Compact number L) (d : JsonRpcDispatcher HandlerI)
    (body sessionId : Str) :
    (dispatch L d body sessionId).Yields (fun _ => True) (fun _ => True) (fun response =>
      RightFlag L response ↔ ∀ text v, response = some text → L.parse text = some v →
        IsErrorResponse v ∨ ∀ w, .literal w ∈ lexemes v → ¬Spells w) := by
  refine (yields_dispatch d body sessionId).mono ?_ (fun _ _ h => h)
  intro response _ hdumped
  cases response with
  | none =>
    refine iff_of_true (iff_of_false Bool.false_ne_true ?_) (fun _ _ h => by cases h)
    rintro ⟨text, v, h, -⟩
    cases h
  | some text =>
    obtain ⟨v, hdump⟩ := hdumped text rfl
    have hparse := L.parse_dump v text hdump
    have hflag := isError_iff hL hdump
    constructor
    · rintro hright text' v' ⟨⟩ hparse'
      obtain rfl := Option.some.inj (hparse.symm.trans hparse')
      by_cases herror : IsErrorResponse v
      · exact .inl herror
      · refine .inr (fun w hw hspells => herror ?_)
        obtain ⟨text', v', ⟨⟩, hparse', herror'⟩ := hright.mp (hflag.mpr ⟨w, hw, hspells⟩)
        obtain rfl := Option.some.inj (hparse.symm.trans hparse')
        exact herror'
    · intro hquiet
      refine ⟨fun h => ⟨text, v, rfl, hparse, ?_⟩, ?_⟩
      · obtain ⟨w, hw, hspells⟩ := hflag.mp h
        exact (hquiet text v rfl hparse).resolve_right (fun hnone => hnone w hw hspells)
      · rintro ⟨text', v', ⟨⟩, hparse', herror⟩
        obtain rfl := Option.some.inj (hparse.symm.trans hparse')
        exact hflag.mpr ⟨_, literal_of_isErrorResponse herror, .inl rfl⟩

end Responses

section Ping

def exponentText (d : Double) : Str := toStr d.bits.toNat ++ ['e', '0']

mutual

theorem render_lexemes : ∀ j : Json, render exponentText (lexemes j) = CompactJson.write j
  | .null => rfl
  | .bool true => rfl
  | .bool false => rfl
  | .integer n => List.append_nil _
  | .floating d => List.append_nil _
  | .string s => List.append_nil _
  | .array [] => rfl
  | .array (j :: js) => by
    rw [lexemes, CompactJson.write, ← render_lexemes j, ← render_lexemesElems js]
    simp [render, Lexeme.text]
  | .object [] => rfl
  | .object (m :: ms) => by
    rw [lexemes, CompactJson.write, ← render_lexemes m.2, ← render_lexemesMembers ms]
    simp [render, Lexeme.text]

theorem render_lexemesElems :
    ∀ js : List Json, render exponentText (lexemesElems js) = CompactJson.writeElems js
  | [] => rfl
  | j :: js => by
    rw [lexemesElems, CompactJson.writeElems, ← render_lexemes j, ← render_lexemesElems js]
    simp [render, Lexeme.text]

theorem render_lexemesMembers : ∀ ms : List (Str × Json),
    render exponentText (lexemesMembers ms) = CompactJson.writeMembers ms
  | [] => rfl
  | m :: ms => by
    rw [lexemesMembers, CompactJson.writeMembers, ← render_lexemes m.2,
      ← render_lexemesMembers ms]
    simp [render, Lexeme.text]

end

theorem compact_library : Compact exponentText CompactJson.library where
  dump_eq j text h := by
    change CompactJson.dump j = some text at h
    unfold CompactJson.dump at h
    split at h
    · rw [render_lexemes]
      exact (Option.some.inj h).symm
    · cases h
  number_noQuote d h := by
    rcases List.mem_append.mp h with h | h
    · exact quote_notMem_toStr _ h
    · revert h
      decide

/-- A dispatcher with the method `ping`. -/
def pings : JsonRpcDispatcher HandlerI where
  methods name := if name = "ping".toList then some (fun _ => return .object []) else none
  notifications _ := none

/-- The call of `ping` with this id. -/
def ping (id : Str) : Json :=
  .object [("id".toList, .string id), ("jsonrpc".toList, .string "2.0".toList),
    ("method".toList, .string "ping".toList)]

def pong (id : Str) : Json :=
  .object [("id".toList, .string id), ("jsonrpc".toList, .string "2.0".toList),
    ("result".toList, .object [])]

/-- What holds of all that the call may return holds of that response. -/
theorem dispatch_ping {id : Str} (hping : (ping id).serialisable) (hpong : (pong id).serialisable)
    {R : Option Str → Prop}
    (h : (dispatch CompactJson.library pings (CompactJson.write (ping id)) []).Yields
      (fun _ => True) (fun _ => True) R) : R (some (CompactJson.write (pong id))) := by
  have hparse := CompactJson.parse_write hping
  have htake : takeClientResponse CompactJson.library (CompactJson.write (ping id)) =
      return false := by
    unfold takeClientResponse
    rw [hparse]
    rfl
  have hcall := h.2 () trivial
  rw [htake] at hcall
  have hrequest := (Coroutine.follows_inl _).mp ((Coroutine.follows_coAwait _).mp
    (hcall.2 () trivial))
  unfold JsonRpcDispatcher.handleRequest at hrequest
  rw [hparse] at hrequest
  have hsingle : pings.handleSingle CompactJson.library (ping id) = .await (fun _ =>
      JsonRpcDispatcher.reply CompactJson.library
        { id := .string id, result := some (.object []) }) := rfl
  have hdump : CompactJson.library.dumpText (pong id) = .ok (CompactJson.write (pong id)) := by
    rw [JsonLibrary.dumpText, CompactJson.dump_eq_write hpong]
  have hreply : JsonRpcDispatcher.reply (I := HandlerI) CompactJson.library
      { id := .string id, result := some (.object []) } =
        return some (CompactJson.write (pong id)) := by
    change (Coroutine.ofExcept (CompactJson.library.dumpText (pong id)) >>= fun text =>
      return some text : Coroutine HandlerI Input Exception (Option Str)) = _
    rw [hdump]
    rfl
  have hanswer := (Coroutine.follows_coAwait _).mp hrequest
  rw [hsingle] at hanswer
  have hreplied := hanswer.2 default
  rw [hreply] at hreplied
  exact (hreplied.2 default).2 default

theorem rightFlag_iff_ping :
    (dispatch CompactJson.library pings (CompactJson.write (ping "1".toList)) []).Yields
      (fun _ => True) (fun _ => True) (fun response =>
        RightFlag CompactJson.library response ↔
          ∀ text v, response = some text → CompactJson.library.parse text = some v →
            IsErrorResponse v ∨ ∀ w, .literal w ∈ lexemes v → ¬Spells w) :=
  rightFlag_iff compact_library pings _ _

/-- A successful call with the id `error` is taken for a failure. -/
theorem ping_error_is_flagged :
    ¬(dispatch CompactJson.library pings (CompactJson.write (ping "error".toList)) []).Yields
      (fun _ => True) (fun _ => True) (RightFlag CompactJson.library) := by
  intro h
  have hpong : (pong "error".toList).serialisable := by decide +kernel
  have hright := dispatch_ping (by decide +kernel) hpong h
  have hflag : isError (some (CompactJson.write (pong "error".toList))) := by decide +kernel
  obtain ⟨text, v, ⟨⟩, hparse, herror⟩ := hright.mp hflag
  rw [CompactJson.parse_write hpong] at hparse
  obtain rfl := Option.some.inj hparse
  have hmember : (pong "error".toList).contains "error".toList := herror
  exact absurd hmember (by decide)

end Ping

end McpSdk.ErrorFlags

import Mathlib.Data.List.Chain
import Mathlib.Data.List.TakeWhile
import Mathlib.Tactic.Common

/-!
# Server-sent events

How a client reads a stream: lines that end with CR, LF or both, fields of an event on the lines
before a blank one, and the data lines of the event joined by line feeds. A text that is sent as
one data line without regard to its line breaks comes back up to the first of them, if none of
its other lines is a field.
-/

namespace ServerSentEvents

def isBreak (c : Char) : Bool := c == '\n' || c == '\r'

/-- The complete lines of a stream. What has been read of the first of them is `line`; a line feed
belongs to the carriage return before it, if there is one. -/
def linesFrom (line : List Char) (afterReturn : Bool) : List Char → List (List Char)
  | [] => []
  | c :: rest =>
      if c = '\n' then
        if afterReturn then linesFrom line false rest else line :: linesFrom [] false rest
      else if c = '\r' then line :: linesFrom [] true rest
      else linesFrom (line ++ [c]) false rest

structure Event where
  type : List Char
  data : List Char
  deriving DecidableEq, Repr

/-- What a client keeps of an event before its blank line. -/
structure Buffers where
  type : List Char := []
  data : List Char := []

/-- What follows the colon, and one blank after it. -/
def valueOf (line : List Char) : List Char :=
  match (line.dropWhile (· != ':')).tail with
  | ' ' :: value => value
  | value => value

/-- A line that is not blank. Fields that are not part of an event, and comments, are skipped. -/
def Buffers.field (b : Buffers) (line : List Char) : Buffers :=
  let name := line.takeWhile (· != ':')
  if name = "data".toList then { b with data := b.data ++ valueOf line ++ ['\n'] }
  else if name = "event".toList then { b with type := valueOf line }
  else b

/-- A blank line ends the event, if it has data. -/
def Buffers.dispatch (b : Buffers) : Option Event :=
  if b.data = [] then none
  else some ⟨if b.type = [] then "message".toList else b.type, b.data.dropLast⟩

def eventsFrom : Buffers → List (List Char) → List Event
  | _, [] => []
  | b, [] :: lines => b.dispatch.toList ++ eventsFrom {} lines
  | b, line :: lines => eventsFrom (b.field line) lines

def decode (stream : List Char) : List Event := eventsFrom {} (linesFrom [] false stream)

def Unbroken (text : List Char) : Prop := ∀ c ∈ text, isBreak c = false

instance (text : List Char) : Decidable (Unbroken text) := List.decidableBAll _ _

theorem Unbroken.append {s t : List Char} (hs : Unbroken s) (ht : Unbroken t) :
    Unbroken (s ++ t) :=
  fun c hc => (List.mem_append.mp hc).elim (hs c) (ht c)

section Lines
variable {line : List Char} {b : Bool}

@[simp] theorem linesFrom_feed (s : List Char) :
    linesFrom line false ('\n' :: s) = line :: linesFrom [] false s := rfl

@[simp] theorem linesFrom_return (s : List Char) :
    linesFrom line b ('\r' :: s) = line :: linesFrom [] true s := rfl

theorem linesFrom_of_not_isBreak {c : Char} (hc : isBreak c = false) (s : List Char) :
    linesFrom line b (c :: s) = linesFrom (line ++ [c]) false s := by
  obtain ⟨hfeed, hreturn⟩ : c ≠ '\n' ∧ c ≠ '\r' := by simpa [isBreak] using hc
  rw [linesFrom, if_neg hfeed, if_neg hreturn]

theorem linesFrom_append_of_unbroken {first : List Char} (h : Unbroken first)
    (hne : first ≠ []) (s : List Char) :
    linesFrom line b (first ++ s) = linesFrom (line ++ first) false s := by
  induction first generalizing line b with
  | nil => exact absurd rfl hne
  | cons c first ih =>
    rw [List.cons_append, linesFrom_of_not_isBreak (h c (.head _))]
    cases first with
    | nil => rfl
    | cons d first =>
      rw [ih (fun e he => h e (.tail _ he)) (List.cons_ne_nil d first), List.append_assoc]
      rfl

theorem linesFrom_line {first : List Char} (h : Unbroken first) (hne : first ≠ [])
    (s : List Char) :
    linesFrom [] false (first ++ '\n' :: s) = first :: linesFrom [] false s := by
  rw [linesFrom_append_of_unbroken h hne, linesFrom_feed]
  rfl

theorem linesFrom_append (hline : b = true → line = []) (s t : List Char) :
    linesFrom line b (s ++ '\n' :: t) =
      linesFrom line b (s ++ ['\n']) ++ linesFrom [] false t := by
  induction s generalizing line b with
  | nil =>
    cases b with
    | false => rfl
    | true =>
      rw [hline rfl]
      rfl
  | cons c s ih =>
    rw [List.cons_append, List.cons_append, linesFrom, linesFrom]
    split
    · split
      · exact ih nofun
      · exact congrArg (line :: ·) (ih nofun)
    · split
      · exact congrArg (line :: ·) (ih fun _ => rfl)
      · exact ih nofun

theorem eventsFrom_append (buffers : Buffers) (lines lines' : List (List Char)) :
    eventsFrom buffers (lines ++ [] :: lines') =
      eventsFrom buffers (lines ++ [[]]) ++ eventsFrom {} lines' := by
  induction lines generalizing buffers with
  | nil => simp [eventsFrom]
  | cons line lines ih =>
    cases line with
    | nil => simp [eventsFrom, ih]
    | cons c line => exact ih (buffers.field (c :: line))

theorem linesFrom_blank (hline : b = true → line = []) (s : List Char) :
    linesFrom line b (s ++ ['\n', '\n']) = linesFrom line b (s ++ ['\n']) ++ [[]] :=
  linesFrom_append hline s ['\n']

theorem decode_append (s t : List Char) :
    decode (s ++ '\n' :: '\n' :: t) = decode (s ++ ['\n', '\n']) ++ decode t := by
  have hlines : linesFrom [] false (s ++ '\n' :: '\n' :: t) =
      linesFrom [] false (s ++ ['\n']) ++ [] :: linesFrom [] false t :=
    linesFrom_append (b := false) nofun s ('\n' :: t)
  rw [decode, hlines, eventsFrom_append, ← linesFrom_blank (b := false) nofun]
  rfl

theorem linesFrom_prefix (s t : List Char) :
    linesFrom line b s <+: linesFrom line b (s ++ t) := by
  induction s generalizing line b with
  | nil => exact List.nil_prefix
  | cons c s ih =>
    rw [List.cons_append, linesFrom, linesFrom]
    split
    · split
      · exact ih
      · exact List.cons_prefix_cons.mpr ⟨rfl, ih⟩
    · split
      · exact List.cons_prefix_cons.mpr ⟨rfl, ih⟩
      · exact ih

theorem eventsFrom_prefix (buffers : Buffers) (lines lines' : List (List Char)) :
    eventsFrom buffers lines <+: eventsFrom buffers (lines ++ lines') := by
  induction lines generalizing buffers with
  | nil => exact List.nil_prefix
  | cons line lines ih =>
    cases line with
    | nil => exact List.prefix_append_right_inj _ |>.mpr (ih {})
    | cons c line => exact ih (buffers.field (c :: line))

theorem decode_prefix {s t : List Char} (h : s <+: t) : decode s <+: decode t := by
  obtain ⟨more, rfl⟩ := h
  have hmore : linesFrom [] false s <+: linesFrom [] false (s ++ more) := linesFrom_prefix s more
  obtain ⟨lines, hlines⟩ := hmore
  rw [decode, decode, ← hlines]
  exact eventsFrom_prefix {} _ lines

end Lines

section Frames

def Inert (line : List Char) : Prop := ∀ c ∈ line.head?, c ≠ 'd' ∧ c ≠ 'e'

/-- No line of the text but the first begins a field. -/
def Plain (text : List Char) : Prop :=
  text.IsChain (fun c d => isBreak c → d ≠ 'd' ∧ d ≠ 'e')

def firstLine (text : List Char) : List Char := text.takeWhile (! isBreak ·)

/-- The text as a data line, with a blank line. -/
def frame (text : List Char) : List Char := "data: ".toList ++ text ++ "\n\n".toList

def typedFrame (type data : List Char) : List Char :=
  "event: ".toList ++ type ++ '\n' :: ("data: ".toList ++ data ++ "\n\n".toList)

theorem decode_typedFrame {type data : List Char} (htype : Unbroken type) (hne : type ≠ [])
    (hdata : Unbroken data) (s : List Char) :
    decode (typedFrame type data ++ s) = ⟨type, data⟩ :: decode s := by
  have hevent : Unbroken ("event: ".toList ++ type) := .append (by decide) htype
  have hvalue : Unbroken ("data: ".toList ++ data) := .append (by decide) hdata
  have hlines : linesFrom [] false (typedFrame type data ++ s) =
      ("event: ".toList ++ type) :: ("data: ".toList ++ data) :: [] :: linesFrom [] false s := by
    have htext : typedFrame type data ++ s = ("event: ".toList ++ type) ++
        '\n' :: (("data: ".toList ++ data) ++ '\n' :: '\n' :: s) := by
      unfold typedFrame
      rw [List.append_assoc, List.cons_append, List.append_assoc ("data: ".toList ++ data)]
      rfl
    rw [htext, linesFrom_line hevent (List.cons_ne_nil _ _),
      linesFrom_line hvalue (List.cons_ne_nil _ _), linesFrom_feed]
  have hfields : Buffers.field (Buffers.field {} ("event: ".toList ++ type))
      ("data: ".toList ++ data) = ⟨type, data ++ ['\n']⟩ := rfl
  have hevents : decode (typedFrame type data ++ s) =
      (Buffers.field (Buffers.field {} ("event: ".toList ++ type))
        ("data: ".toList ++ data)).dispatch.toList ++ decode s := by
    rw [decode, hlines]
    rfl
  rw [hevents, hfields]
  simp [Buffers.dispatch, hne]

theorem Inert.field {line : List Char} (h : Inert line) (b : Buffers) : b.field line = b := by
  have hname : ∀ c rest, line.takeWhile (· != ':') = c :: rest → c ≠ 'd' ∧ c ≠ 'e' := by
    intro c rest hname
    apply h
    cases line with
    | nil => cases hname
    | cons d line =>
      rw [List.takeWhile_cons] at hname
      split at hname
      · rw [(List.cons.inj hname).1]
        rfl
      · cases hname
  have hdata : line.takeWhile (· != ':') ≠ "data".toList := fun hd => (hname _ _ hd).1 rfl
  have hevent : line.takeWhile (· != ':') ≠ "event".toList := fun he => (hname _ _ he).2 rfl
  rw [Buffers.field, if_neg hdata, if_neg hevent]

theorem Plain.inert {c : Char} {text : List Char} (h : Plain (c :: text)) (hc : isBreak c) :
    Inert text := by
  intro d hd
  cases text with
  | nil => cases hd
  | cons e text =>
    obtain rfl := Option.some.inj hd
    exact (List.isChain_cons_cons.mp h).1 hc

theorem eventsFrom_inert {lines : List (List Char)} (h : ∀ line ∈ lines, Inert line) :
    eventsFrom {} lines = [] := by
  induction lines with
  | nil => rfl
  | cons line lines ih =>
    have hrest := ih (fun l hl => h l (.tail _ hl))
    cases line with
    | nil => exact hrest
    | cons c line =>
      rw [eventsFrom, (h _ (.head _)).field, hrest]
      exact List.cons_ne_nil c line

theorem eventsFrom_of_inert (b : Buffers) {lines : List (List Char)}
    (h : ∀ line ∈ lines, Inert line) (hblank : [] ∈ lines) :
    eventsFrom b lines = b.dispatch.toList := by
  induction lines with
  | nil => cases hblank
  | cons line lines ih =>
    have hinert : ∀ l ∈ lines, Inert l := fun l hl => h l (.tail _ hl)
    cases line with
    | nil => rw [eventsFrom, eventsFrom_inert hinert, List.append_nil]
    | cons c line =>
      have hlater : [] ∈ lines := by simpa using hblank
      rw [eventsFrom, (h _ (.head _)).field, ih hinert hlater]
      exact List.cons_ne_nil c line

/-- Where no line begins a field in a text, none does in its lines. -/
theorem inert_linesFrom {line text : List Char} {b : Bool} (hb : b = true → line = [])
    (hline : Inert (line ++ text)) (htext : Plain text) :
    ∀ l ∈ linesFrom line b text, Inert l := by
  induction text generalizing line b with
  | nil => exact fun l hl => (List.not_mem_nil hl).elim
  | cons c text ih =>
    have hrest : Plain text := htext.tail
    have hfirst : Inert line := by
      intro d hd
      apply hline
      cases line with
      | nil => cases hd
      | cons e line => exact hd
    by_cases hc : isBreak c
    · have hbreak : ∀ b' l, l ∈ line :: linesFrom [] b' text → Inert l := by
        rintro b' l hl
        rcases List.mem_cons.mp hl with rfl | hl
        · exact hfirst
        · exact ih (fun _ => rfl) (htext.inert hc) hrest l hl
      rw [linesFrom]
      split
      · split
        · rename_i hafter
          rw [hb hafter]
          exact ih nofun (htext.inert hc) hrest
        · exact hbreak false
      · have hreturn : c = '\r' := by simpa [isBreak, *] using hc
        rw [if_pos hreturn]
        exact hbreak true
    · rw [linesFrom_of_not_isBreak (Bool.eq_false_iff.mpr hc)]
      refine ih nofun ?_ hrest
      rwa [List.append_assoc]

theorem exists_break (text : List Char) : ∃ c rest, isBreak c = true ∧
    text ++ ['\n'] = firstLine text ++ c :: rest := by
  cases hrest : text.dropWhile (! isBreak ·) with
  | nil =>
    refine ⟨'\n', [], rfl, congrArg (· ++ ['\n']) ?_⟩
    have hall := List.takeWhile_append_dropWhile (p := (! isBreak ·)) (l := text)
    rw [hrest, List.append_nil] at hall
    exact hall.symm
  | cons c rest =>
    have hall := List.takeWhile_append_dropWhile (p := (! isBreak ·)) (l := text)
    have hc := List.head?_dropWhile_not (! isBreak ·) text
    rw [hrest] at hall hc
    refine ⟨c, rest ++ ['\n'], by simpa using hc, ?_⟩
    nth_rewrite 1 [← hall]
    rw [List.append_assoc]
    rfl

theorem linesFrom_of_isBreak {c : Char} (hc : isBreak c = true) (line rest : List Char) :
    ∃ b, linesFrom line false (c :: rest) = line :: linesFrom [] b rest := by
  rw [linesFrom]
  split
  · exact ⟨false, rfl⟩
  · have hreturn : c = '\r' := by simpa [isBreak, *] using hc
    exact ⟨true, if_pos hreturn⟩

/-- The lines of a frame: the data line with the first line of the text, and others that are no
fields. -/
theorem linesFrom_frame {text : List Char} (h : Plain text) :
    ∃ lines, linesFrom [] false (frame text) =
        ("data: ".toList ++ firstLine text) :: lines ∧
      (∀ line ∈ lines, Inert line) ∧ [] ∈ lines := by
  obtain ⟨c, rest, hc, htext⟩ := exists_break text
  obtain ⟨b, hline⟩ := linesFrom_of_isBreak hc ("data: ".toList ++ firstLine text) rest
  have hplain : Plain (c :: rest) := by
    have hfeed : Plain (text ++ ['\n']) :=
      List.isChain_append.mpr ⟨h, List.isChain_singleton _, by simp⟩
    rw [htext] at hfeed
    exact (List.isChain_append.mp hfeed).2.1
  have hfirst : Unbroken ("data: ".toList ++ firstLine text) :=
    .append (by decide) (fun d hd => by simpa using List.mem_takeWhile_imp hd)
  have hlines : linesFrom [] false (frame text) =
      ("data: ".toList ++ firstLine text) :: (linesFrom [] b rest ++ [[]]) := by
    calc linesFrom [] false (frame text)
      _ = linesFrom [] false ("data: ".toList ++ text ++ ['\n']) ++ [[]] :=
          linesFrom_blank (b := false) nofun ("data: ".toList ++ text)
      _ = linesFrom [] false ("data: ".toList ++ firstLine text ++ c :: rest) ++ [[]] := by
          rw [List.append_assoc, htext, List.append_assoc]
      _ = _ := by
          rw [linesFrom_append_of_unbroken hfirst (List.cons_ne_nil _ _), List.nil_append, hline]
          rfl
  refine ⟨_, hlines, ?_, by simp⟩
  intro line hmem
  rcases List.mem_append.mp hmem with hmem | hmem
  · exact inert_linesFrom (fun _ => rfl) (hplain.inert hc) hplain.tail line hmem
  · obtain rfl := List.mem_singleton.mp hmem
    exact nofun

theorem decode_frame {text : List Char} (h : Plain text) :
    decode (frame text) = [⟨"message".toList, firstLine text⟩] := by
  obtain ⟨lines, hlines, hinert, hblank⟩ := linesFrom_frame h
  have hdata : Buffers.field {} ("data: ".toList ++ firstLine text) =
      { data := firstLine text ++ ['\n'] } := by
    rfl
  have hevents : decode (frame text) =
      eventsFrom (Buffers.field {} ("data: ".toList ++ firstLine text)) lines := by
    rw [decode, hlines]
    rfl
  rw [hevents, eventsFrom_of_inert _ hinert hblank, hdata]
  simp [Buffers.dispatch]

theorem decode_frames {texts : List (List Char)} (h : ∀ text ∈ texts, Plain text) :
    decode (texts.flatMap frame) = texts.map (fun text => ⟨"message".toList, firstLine text⟩) := by
  induction texts with
  | nil => rfl
  | cons text texts ih =>
    have hcut : frame text ++ texts.flatMap frame =
        "data: ".toList ++ text ++ '\n' :: '\n' :: texts.flatMap frame :=
      List.append_assoc _ _ _
    rw [List.flatMap_cons, hcut, decode_append, ih (fun t ht => h t (.tail _ ht)), List.map_cons]
    exact congrArg (· ++ _) (decode_frame (h text (.head _)))

end Frames

end ServerSentEvents

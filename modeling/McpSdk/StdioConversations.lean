import McpSdk.ConformingReplies
import McpSdk.ErrorFlags
import McpSdk.StdioTransport
import McpSdk.TaskCourses

/-!
# Conversations on the standard streams

What has been read and what has been printed, whatever else the server does meanwhile. The lines of
the standard input are taken one after the other, and none but empty ones are passed over. What
stands on the standard output are the answers to them, each with the end of a line, in the same
order; since the text of a JSON value has no line ends, they are read back line by line.
-/

namespace McpSdk.StdioConversations
open CppStandardLibrary CooperativeTasks ClusterRuns ConformingReplies StdioTransport TextLines

/-- What the thread of the transport has behind it: the lines that are done with, each with what
has been printed for it, and the line that it is at. -/
structure Conversation where
  thread : Bool := false
  done : List (Str × Option Str) := []
  pending : Option Str := none

section Statement

def requests (s : Str) : List Str := (lines s).filter (fun line => !line.isEmpty)

/-- The console is as the conversation leaves it, and the conversation is as it should be. -/
structure Converses (srv : McpServer) (stdin : Str) (s : Console) (q : Conversation) : Prop where
  answered : ∀ p ∈ q.done, Answered srv.L (srv.dispatcher 0) p.1 p.2
  taken : q.done.map Prod.fst ++ q.pending.toList ++ requests s.input = requests stdin
  printed : s.output = (q.done.filterMap Prod.snd).flatMap (· ++ ['\n'])
  legible : ∀ number, ErrorFlags.Compact number srv.L → (∀ d, '\n' ∉ number d) →
    lines s.output = q.done.filterMap Prod.snd

end Statement

section Texts
open ErrorFlags

theorem digitChar_ne_newline : ∀ n < 16, Nat.digitChar n ≠ '\n' := by decide

theorem newline_notMem_toStr (n : ℕ) : '\n' ∉ toStr n := fun h => by
  cases isDigit_of_mem_toStr h

theorem newline_notMem_writeInt (n : Int) : '\n' ∉ CompactJson.writeInt n := by
  unfold CompactJson.writeInt
  split
  · intro h
    rcases List.mem_cons.mp h with h | h
    · cases h
    · exact newline_notMem_toStr _ h
  · exact newline_notMem_toStr _

theorem newline_notMem_escape (c : Char) : '\n' ∉ CompactJson.escape c := by
  unfold CompactJson.escape
  split
  · decide
  split
  · decide
  split
  · decide
  split
  · decide
  split
  · decide
  rename_i hnewline
  split
  · decide
  split
  · decide
  split
  · have hhigh := digitChar_ne_newline (c.toNat / 16) (by omega)
    have hlow := digitChar_ne_newline (c.toNat % 16) (by omega)
    simp [Ne.symm hhigh, Ne.symm hlow]
  · exact fun h => hnewline (List.mem_singleton.mp h).symm

theorem newline_notMem_writeChars (s : Str) : '\n' ∉ CompactJson.writeChars s := fun h => by
  rcases List.mem_append.mp h with h | h
  · obtain ⟨c, -, hc⟩ := List.mem_flatMap.mp h
    exact newline_notMem_escape c hc
  · cases List.mem_singleton.mp h

def OnLine (number : Double → Str) (ls : List Lexeme) : Prop := ∀ l ∈ ls, '\n' ∉ l.text number

variable {number : Double → Str} {ls : List Lexeme}

theorem OnLine.nil : OnLine number [] := nofun

theorem OnLine.mark {s : Str} (h : '\n' ∉ s) (hls : OnLine number ls) :
    OnLine number (.mark s :: ls) :=
  List.forall_mem_cons.mpr ⟨h, hls⟩

theorem OnLine.literal (s : Str) (hls : OnLine number ls) : OnLine number (.literal s :: ls) := by
  refine List.forall_mem_cons.mpr ⟨fun h => ?_, hls⟩
  rcases List.mem_cons.mp h with h | h
  · cases h
  · exact newline_notMem_writeChars s h

theorem OnLine.append {ls' : List Lexeme} (h : OnLine number ls) (h' : OnLine number ls') :
    OnLine number (ls ++ ls') :=
  List.forall_mem_append.mpr ⟨h, h'⟩

mutual

theorem onLine_lexemes (hnumber : ∀ d, '\n' ∉ number d) : ∀ j : Json, OnLine number (lexemes j)
  | .null => .mark (by decide) .nil
  | .bool true => .mark (by decide) .nil
  | .bool false => .mark (by decide) .nil
  | .integer n => .mark (newline_notMem_writeInt n) .nil
  | .floating d => List.forall_mem_singleton.mpr (hnumber d)
  | .string s => .literal s .nil
  | .array [] => .mark (by decide) .nil
  | .array (j :: js) =>
      .mark (by decide) (.append (onLine_lexemes hnumber j) (onLine_lexemesElems hnumber js))
  | .object [] => .mark (by decide) .nil
  | .object (m :: ms) =>
      .mark (by decide) (.literal m.1 (.mark (by decide)
        (.append (onLine_lexemes hnumber m.2) (onLine_lexemesMembers hnumber ms))))

theorem onLine_lexemesElems (hnumber : ∀ d, '\n' ∉ number d) :
    ∀ js : List Json, OnLine number (lexemesElems js)
  | [] => .mark (by decide) .nil
  | j :: js =>
      .mark (by decide) (.append (onLine_lexemes hnumber j) (onLine_lexemesElems hnumber js))

theorem onLine_lexemesMembers (hnumber : ∀ d, '\n' ∉ number d) :
    ∀ ms : List (Str × Json), OnLine number (lexemesMembers ms)
  | [] => .mark (by decide) .nil
  | m :: ms =>
      .mark (by decide) (.literal m.1 (.mark (by decide)
        (.append (onLine_lexemes hnumber m.2) (onLine_lexemesMembers hnumber ms))))

end

theorem newline_notMem_dump {L : JsonLibrary} (hL : Compact number L)
    (hnumber : ∀ d, '\n' ∉ number d) {v : Json} {text : Str} (h : L.dump v = some text) :
    '\n' ∉ text := by
  rw [hL.dump_eq v text h]
  intro hmem
  obtain ⟨l, hl, hc⟩ := List.mem_flatMap.mp hmem
  exact onLine_lexemes hnumber v l hl hc

end Texts
namespace Conversation

def settle (q : Conversation) (out : Option Str) : Conversation :=
  { q with done := q.done ++ q.pending.toList.map (·, out), pending := none }

def next (q : Conversation) : (op : StdioI.Op) → StdioI.Res op → Conversation
  | .inr .stopRequested, _ => q.settle none
  | .inr .getline, (line : Option Str) => { q with pending := line.filter (fun s => !s.isEmpty) }
  | .inr (.print text), _ => q.settle (some text)
  | _, _ => q

/-- Only the thread uses the console. It comes back to the head of its loop when nothing is left to
be printed, and prints the answer to the line that it is at. -/
def Allows (srv : McpServer) (q : Conversation) : StdioI.Op → Prop
  | .inr .stopRequested =>
      q.thread ∧ ∀ line ∈ q.pending, Answered srv.L (srv.dispatcher 0) line none
  | .inr .getline => q.thread ∧ q.pending = none
  | .inr (.print text) => q.thread ∧ ∃ line, q.pending = some line ∧
      Answered srv.L (srv.dispatcher 0) line (some text) ∧ ∃ v, srv.L.dump v = some text
  | _ => True

end Conversation

def isStart {Job : Type} : StdioOrigin Job → Bool
  | .start => true
  | _ => false

/-- How the transport talks on the standard streams. -/
def conversation (srv : McpServer) (o : StdioOrigin srv.Job) : Contract StdioI Conversation where
  init := { thread := isStart o }
  allows := Conversation.Allows srv
  answers _ _ := True
  next := Conversation.next
  child _ := {}
  rests _ := True
  addresses _ := True

section Programs
variable {srv : McpServer} {o : StdioOrigin srv.Job} {q : Conversation}

theorem free_left : (conversation srv o).left.Free where
  allows _ _ := trivial
  rests _ := trivial
  addresses _ := trivial

theorem idle_left : (conversation srv o).left.Idle (fun _ => True) (fun _ => True) where
  allows _ _ _ _ := trivial
  next _ _ _ _ _ := rfl
  rests _ _ := trivial
  child _ _ := trivial

def AtHead (srv : McpServer) (x : Turning) (q : Conversation) : Prop :=
  match x with
  | .writer _ => True
  | .thread => q.Allows srv (.inr .stopRequested)

def Turns (srv : McpServer) (o : StdioOrigin srv.Job) (q : Conversation)
    (t : ConsoleTask (Option Turning)) : Prop :=
  t.Follows (conversation srv o) q (fun x q => x.elim True (fun x => AtHead srv x q))
    (fun _ _ => True)

theorem turns_beside (t : ShardTask (Option WriterState)) : Turns srv o q (beside t) := by
  refine (Coroutine.follows_bind _ _).mpr ((Coroutine.follows_inl t).mpr ?_)
  refine (Coroutine.Follows.of_free free_left t q).mono (fun next q _ => ?_) (fun _ _ _ => trivial)
  cases next <;> trivial

theorem turns_console {op : ConsoleCall} {k : op.Res → ConsoleTask (Option Turning)} :
    Turns srv o q (console op >>= k) ↔
      q.Allows srv (.inr op) ∧ ∀ r : op.Res, Turns srv o (q.next (.inr op) r) (k r) :=
  ⟨fun h => ⟨h.1, fun r => h.2 r trivial⟩, fun h => ⟨h.1, fun r _ => h.2 r⟩⟩

theorem turns_line (hthread : q.thread) {line : Str} (hpending : q.pending = some line) :
    Turns srv o q (do
      let result ← (dispatch srv.L (srv.dispatcher 0) line []).inl.coAwait
      match result with
      | some text => console (.print text)
      | none => pure ()
      return some .thread) := by
  have hanswered := (yields_dispatch (L := srv.L) (d := srv.dispatcher 0) line []).weaken
    (fun _ _ => trivial) (fun _ h => h)
  have hdumped := ErrorFlags.yields_dispatch (L := srv.L) (srv.dispatcher 0) line []
  have hboth : (dispatch srv.L (srv.dispatcher 0) line []).Follows (conversation srv o).left q
      _ _ :=
    Coroutine.Follows.of_calling idle_left (fun _ _ => trivial) trivial (hanswered.and hdumped)
  refine (Coroutine.follows_bind _ _).mpr ((Coroutine.follows_coAwait _).mpr
    ((Coroutine.follows_inl _).mpr (hboth.mono ?_ (fun _ _ _ => ⟨trivial, fun _ => trivial⟩))))
  rintro result _ ⟨⟨hresult, htext⟩, rfl⟩
  refine ⟨trivial, fun _ => ?_⟩
  cases result with
  | none =>
    refine ⟨hthread, fun line' hline => ?_⟩
    obtain rfl : line = line' := Option.some.inj (hpending.symm.trans hline)
    exact hresult
  | some text =>
    exact turns_console.mpr ⟨⟨hthread, line, hpending, hresult, htext text rfl⟩,
      fun _ => ⟨hthread, fun _ => nofun⟩⟩

theorem turns_turn (h : q.Allows srv (.inr .stopRequested)) :
    Turns srv o q (turn srv.L (srv.dispatcher 0)) := by
  refine turns_console.mpr ⟨h, fun (stop : Bool) => ?_⟩
  cases stop with
  | true => trivial
  | false =>
    refine turns_console.mpr ⟨⟨h.1, rfl⟩, fun (line : Option Str) => ?_⟩
    cases line with
    | none => trivial
    | some line =>
      dsimp only
      split
      · rename_i hempty
        refine ⟨h.1, fun line' hline => ?_⟩
        simp [Conversation.next, Option.filter, hempty] at hline
      · rename_i hnonempty
        refine turns_line ?_ ?_
        · exact h.1
        · simp [Conversation.next, Option.filter, hnonempty]

theorem keeps_conversation (stdin : Str) : Keeps (system srv stdin) (conversation srv)
    (fun _ => True) (fun _ x q => AtHead srv x q) where
  answers _ _ _ _ _ := trivial
  program o _ := by
    cases o with
    | server o => exact turns_beside _
    | start => exact ⟨rfl, nofun⟩
    | stop => exact turns_console.mpr ⟨trivial, fun _ => trivial⟩
  again o x q h := by
    cases x with
    | writer w => exact turns_beside _
    | thread => exact turns_turn h

end Programs

section Histories
variable {srv : McpServer} {o : StdioOrigin srv.Job} {past : List (Mark StdioI)}

def reads : (op : StdioI.Op) → StdioI.Res op → List Str
  | .inr .getline, (line : Option Str) => (line.filter (fun s => !s.isEmpty)).toList
  | _, _ => []

def prints : (op : StdioI.Op) → StdioI.Res op → Str
  | .inr (.print text), _ => text ++ "\n".toList
  | _, _ => []

structure Sound (srv : McpServer) (q : Conversation) (past : List (Mark StdioI)) : Prop where
  answered : ∀ p ∈ q.done, Answered srv.L (srv.dispatcher 0) p.1 p.2
  dumped : ∀ text ∈ q.done.filterMap Prod.snd, ∃ v, srv.L.dump v = some text
  taken : q.done.map Prod.fst ++ q.pending.toList = story reads past
  printed : (q.done.filterMap Prod.snd).flatMap (· ++ ['\n']) = story prints past
  apart : q.thread = false → q.done = [] ∧ q.pending = none

theorem Sound.settle {q : Conversation} (h : Sound srv q past) (hthread : q.thread)
    {out : Option Str} (hanswered : ∀ line ∈ q.pending, Answered srv.L (srv.dispatcher 0) line out)
    (hout : ∀ text ∈ out, q.pending.isSome ∧ ∃ v, srv.L.dump v = some text)
    {op : StdioI.Op} {r : StdioI.Res op} (hreads : reads op r = [])
    (hprints : prints op r = out.toList.flatMap (· ++ ['\n'])) :
    Sound srv (q.settle out) (.did op r :: past) := by
  obtain ⟨thread, done, pending⟩ := q
  have hsnd : (done ++ pending.toList.map (·, out)).filterMap Prod.snd =
      done.filterMap Prod.snd ++ out.toList := by
    rw [List.filterMap_append]
    cases pending with
    | none =>
      cases out with
      | none => rfl
      | some text => cases (hout text rfl).1
    | some line => cases out <;> rfl
  constructor
  · intro p hp
    rcases List.mem_append.mp hp with hp | hp
    · exact h.answered p hp
    · obtain ⟨line, hline, rfl⟩ := List.mem_map.mp hp
      exact hanswered line (Option.mem_toList.mp hline)
  · intro text htext
    rw [Conversation.settle, hsnd] at htext
    rcases List.mem_append.mp htext with htext | htext
    · exact h.dumped text htext
    · exact (hout text (Option.mem_toList.mp htext)).2
  · rw [story, hreads, List.append_nil, ← h.taken]
    simp [Conversation.settle, Function.comp_def]
  · rw [story, hprints, ← h.printed, Conversation.settle, hsnd, List.flatMap_append]
  · exact fun hnot => absurd hthread (Bool.eq_false_iff.mp hnot)

theorem Sound.next {q : Conversation} (h : Sound srv q past) {op : StdioI.Op}
    (hallows : q.Allows srv op) (r : StdioI.Res op) :
    Sound srv (q.next op r) (.did op r :: past) := by
  have other : reads op r = [] → prints op r = [] → Sound srv q (.did op r :: past) := by
    intro hreads hprints
    refine ⟨h.answered, h.dumped, ?_, ?_, h.apart⟩
    · rw [story, hreads, List.append_nil, h.taken]
    · rw [story, hprints, List.append_nil, h.printed]
  rcases op with op | op
  · exact other rfl rfl
  · cases op with
    | stopRequested => exact h.settle hallows.1 hallows.2 (fun _ hnone => by cases hnone) rfl rfl
    | getline =>
      obtain ⟨hthread, hpending⟩ := hallows
      refine ⟨h.answered, h.dumped, ?_, ?_, fun hnot => absurd hthread (Bool.eq_false_iff.mp hnot)⟩
      · have htaken := h.taken
        rw [hpending, Option.toList_none, List.append_nil] at htaken
        exact congrArg (· ++ _) htaken
      · exact h.printed.trans (List.append_nil _).symm
    | print text =>
      obtain ⟨hthread, line, hpending, hanswered, hdumped⟩ := hallows
      refine h.settle hthread ?_ ?_ rfl (List.append_nil _).symm
      · intro line' hline
        obtain rfl : line = line' := Option.some.inj (hpending.symm.trans hline)
        exact hanswered
      · rintro text' ⟨⟩
        exact ⟨by rw [hpending]; rfl, hdumped⟩
    | requestStop => exact other rfl rfl

theorem sound_of_lawful (h : Lawful (conversation srv o) past) :
    Sound srv (phase (conversation srv o) past) past := by
  induction past with
  | nil => exact ⟨nofun, nofun, rfl, rfl, fun _ => ⟨rfl, rfl⟩⟩
  | cons mark past ih =>
    cases mark with
    | started => exact ⟨nofun, nofun, rfl, rfl, fun _ => ⟨rfl, rfl⟩⟩
    | did op r => exact (ih h.2).next h.1.1 r

theorem thread_phase : (phase (conversation srv o) past).thread = (isStart o && isNew past) := by
  induction past with
  | nil => exact (Bool.and_true _).symm
  | cons mark past ih =>
    cases mark with
    | started => exact (Bool.and_false _).symm
    | did op r =>
      refine Eq.trans ?_ ih
      rcases op with op | op
      · rfl
      · cases op <;> rfl

end Histories

section Runs
variable {srv : McpServer} {stdin : Str}

theorem exec_console {j : ℕ} {now : Int} {op : StdioI.Op} {s s' : McpShard × Console}
    {r : StdioI.Res op} (h : exec srv j now op s = (r, s')) :
    s'.2.output = s.2.output ++ prints op r ∧
      reads op r ++ requests s'.2.input = requests s.2.input := by
  rcases op with op | op
  · obtain ⟨-, rfl⟩ := Prod.mk.inj h
    exact ⟨(List.append_nil _).symm, rfl⟩
  · obtain ⟨rfl, rfl⟩ := Prod.mk.inj h
    cases op with
    | getline =>
      dsimp only [ConsoleCall.exec, reads, prints]
      cases hline : getline s.2.input with
      | none => exact ⟨(List.append_nil _).symm, rfl⟩
      | some p =>
        refine ⟨(List.append_nil _).symm, ?_⟩
        unfold requests
        rw [lines_of_getline hline, List.filter_cons]
        dsimp only [Option.filter]
        split <;> rfl
    | print text => exact ⟨List.append_assoc _ _ _, rfl⟩
    | _ => exact ⟨(List.append_nil _).symm, rfl⟩

theorem console_of_coherent {shards : ℕ → McpShard × Console}
    {log : List (Event StdioI (StdioOrigin srv.Job) (McpShard × Console))}
    (h : Coherent (system srv stdin) shards log) :
    (shards 0).2.output = chronicle (fun e => prints e.op e.res) 0 log ∧
      chronicle (fun e => reads e.op e.res) 0 log ++ requests (shards 0).2.input =
        requests stdin := by
  induction h with
  | nil => exact ⟨rfl, rfl⟩
  | @cons shards log e h hbefore hexec ih =>
    obtain ⟨houtput, hinput⟩ := exec_console hexec
    unfold chronicle
    by_cases hshard : e.shard = 0
    · rw [hbefore, hshard] at houtput hinput
      rw [if_pos hshard, if_pos hshard, hshard, Function.update_self, houtput, ih.1,
        List.append_assoc, hinput, ih.2]
      exact ⟨rfl, rfl⟩
    · rw [if_neg hshard, if_neg hshard, List.append_nil, List.append_nil,
        Function.update_of_ne (Ne.symm hshard)]
      exact ih

theorem told_nil {β : Type} {w : (op : StdioI.Op) → StdioI.Res op → List β} {j k : ℕ}
    {ts : List (Running StdioI Input Exception (StdioOrigin srv.Job) Turning)}
    (h : ∀ u, ts[k]? = some u → story w u.past = []) : told w j ts k = [] := by
  unfold told
  cases hu : ts[k]? with
  | none => rfl
  | some u => rw [Option.elim_some, h u hu, ite_self]

theorem exists_told {Q : List (Mark StdioI) → Prop} (hnil : Q []) {j i : ℕ}
    {ts : List (Running StdioI Input Exception (StdioOrigin srv.Job) Turning)}
    (h : ∀ t ∈ ts, Q t.past) : ∃ past, Q past ∧ told reads j ts i = story reads past ∧
      told prints j ts i = story prints past := by
  unfold told
  cases ht : ts[i]? with
  | none => exact ⟨[], hnil, rfl, rfl⟩
  | some t =>
    rw [Option.elim_some, Option.elim_some]
    split
    · exact ⟨t.past, h t (List.mem_of_getElem? ht), rfl, rfl⟩
    · exact ⟨[], hnil, rfl, rfl⟩

/-- In every run of a server whose transport is started at most once the standard output holds the
answers to the lines that have been read, in their order and each on a line of its own. -/
theorem stdout_of_run (srv : McpServer) {stdin : Str}
    {steps : List (Label Input (StdioOrigin srv.Job))} {c : State srv}
    (h : Reaches srv stdin steps c) (honce : steps.countP (Label.starts isStart) ≤ 1) :
    ∃ q, Converses srv stdin (c.shards 0).2 q := by
  have htracks := (onTrack_of_run (keeps_conversation stdin) (fun l _ => l.launches_true) h).1
  have sound : ∀ t ∈ c.tasks, Sound srv (phase (conversation srv t.origin) t.past) t.past :=
    fun t ht => sound_of_lawful (htracks t ht).2.1
  obtain ⟨i, hi⟩ := exists_sole ((countP_launched_of_run isStart h).trans_le honce)
  -- no other task uses the console
  have hothers : ∀ k ≠ i, ∀ u, c.tasks[k]? = some u →
      story reads u.past = [] ∧ story prints u.past = [] := by
    intro k hk u hu
    have hsound := sound u (List.mem_of_getElem? hu)
    obtain ⟨hdone, hpending⟩ := hsound.apart (thread_phase.trans (hi k hk u hu))
    constructor
    · rw [← hsound.taken, hdone, hpending]
      rfl
    · rw [← hsound.printed, hdone]
      rfl
  obtain ⟨hreadSublist, hreadLength⟩ := told_of_run reads h 0 i
  obtain ⟨hprintSublist, hprintLength⟩ := told_of_run prints h 0 i
  have hread := hreadSublist.eq_of_length
    (hreadLength.mpr fun k hk => told_nil fun u hu => (hothers k hk u hu).1)
  have hprint := hprintSublist.eq_of_length
    (hprintLength.mpr fun k hk => told_nil fun u hu => (hothers k hk u hu).2)
  obtain ⟨past, ⟨q, hq⟩, htaken, hprinted⟩ := exists_told (j := 0) (i := i)
    (Q := fun past => ∃ q, Sound srv q past) ⟨{}, nofun, nofun, rfl, rfl, fun _ => ⟨rfl, rfl⟩⟩
    (fun t ht => ⟨_, sound t ht⟩)
  obtain ⟨houtput, hinput⟩ := console_of_coherent (coherent_of_run h)
  have hlines : (c.shards 0).2.output = (q.done.filterMap Prod.snd).flatMap (· ++ ['\n']) := by
    rw [houtput, ← hprint, hprinted, hq.printed]
  refine ⟨q, hq.answered, ?_, hlines, fun number hL hnumber => ?_⟩
  · rw [hq.taken, ← htaken, hread, hinput]
  · rw [hlines]
    refine lines_flatMap fun text htext => ?_
    obtain ⟨v, hv⟩ := hq.dumped text htext
    exact newline_notMem_dump hL hnumber hv

end Runs
section Examples

def stdioServer : McpServer := McpServer.plain CompactJson.library .standard 1 Nat.one_pos

def steps (s : List Char) : List (Label Input (StdioOrigin Empty)) :=
  s.map (fun c => if c = 'a' then .advance 0 else .resume 0 (.ok .null))

/-- An object without members, an empty line and an array without elements. -/
theorem stdout_of_run_twoLines :
    ∃ c q, Reaches stdioServer "\x7b\x7d\n\n[]\n".toList
        (.launch .start :: steps "aaaaarrraaaaaaaaarraaaa".toList) c ∧
      Converses stdioServer "\x7b\x7d\n\n[]\n".toList (c.shards 0).2 q ∧
      (lines (c.shards 0).2.output).length = 2 := by
  have hrun : (LabelledRuns.run (system stdioServer "\x7b\x7d\n\n[]\n".toList).step
      (system stdioServer "\x7b\x7d\n\n[]\n".toList).start
      (.launch .start :: steps "aaaaarrraaaaaaaaarraaaa".toList)).any (fun c =>
        (lines (c.shards 0).2.output).length == 2) := by
    decide +kernel
  obtain ⟨c, hc, hp⟩ := (Option.any_eq_true _ _).mp hrun
  obtain ⟨q, hq⟩ := stdout_of_run stdioServer hc (by decide)
  exact ⟨c, q, hc, hq, beq_iff_eq.mp hp⟩

end Examples
end McpSdk.StdioConversations

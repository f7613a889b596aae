import McpSdk.JsonTexts
import McpSdk.WriterTranscripts

/-!
# The framing of streams

What a client reads of the texts pushed to its session. The writer puts each text on one data line
without regard to its line breaks, so the client finds the text up to the first of them. That is
the same JSON if only white space follows, and no JSON otherwise. Before that a text can be lost
on its way: a push takes the place of another one that waits for room in the queue, or a second
stream of the session takes the text.
-/

namespace McpSdk
open CppStandardLibrary CooperativeTasks ClusterRuns ServerSentEvents JsonTexts WriterTranscripts

namespace SseSession
variable {s s' : SseSession} {ins outs : List Str}

def contents (s : SseSession) : List Str := s.messages ++ s.delayed.toList

theorem length_contents (s : SseSession) : s.contents.length = s.held := List.length_append

/-- A push waits for room only while the queue is full. -/
def Settled (s : SseSession) : Prop := s.delayed.isSome → capacity ≤ s.messages.length

theorem Settled.delayed (hs : s.Settled) (hroom : ¬capacity ≤ s.messages.length) :
    s.delayed = none := by
  by_contra hsome
  exact hroom (hs (Option.isSome_iff_ne_none.mpr hsome))

theorem Flows.settled (h : s.Flows ins outs s') (hs : s.Settled) : s'.Settled := by
  unfold Settled at hs ⊢
  cases h with
  | keeps hmessages hdelayed => rwa [hmessages, hdelayed]
  | push msg =>
    unfold pushEventually
    split
    · rename_i hfull
      exact fun _ => hfull
    · intro hdelayed
      have hlength : capacity ≤ s.messages.length := hs hdelayed
      simp only [append, List.length_append]
      omega
  | pop hmessages hrest hdelayed =>
    intro hsome
    rw [hdelayed] at hsome
    cases hsome

theorem Flows.sublist (h : s.Flows ins outs s') (hs : s.Settled) :
    (outs ++ s'.contents).Sublist (s.contents ++ ins) := by
  unfold contents
  cases h with
  | keeps hmessages hdelayed =>
    rw [hmessages, hdelayed, List.append_nil]
    exact List.Sublist.refl _
  | push msg =>
    unfold pushEventually
    split
    · rw [List.append_assoc]
      exact (List.sublist_append_right s.delayed.toList [msg]).append_left s.messages
    · rename_i hroom
      rw [append, hs.delayed hroom]
      simp
  | pop hmessages hrest hdelayed =>
    rw [hmessages, hrest, hdelayed]
    simp

theorem Flows.length (h : s.Flows ins outs s') (hs : s.Settled) :
    outs.length + s'.held + (decide (ins ≠ []) && s.delayed.isSome).toNat =
      s.held + ins.length := by
  unfold SseSession.held
  cases h with
  | keeps hmessages hdelayed =>
    rw [hmessages, hdelayed]
    simp
  | push msg =>
    unfold pushEventually
    split
    · cases s.delayed <;> simp
    · rename_i hroom
      rw [append, hs.delayed hroom]
      simp
  | pop hmessages hrest hdelayed =>
    rw [hmessages, hrest, hdelayed]
    simp only [List.length_append, List.length_cons, Option.toList_none, List.length_nil]
    simp
    omega

end SseSession

namespace StreamFraming

section Queues
variable {srv : McpServer} {steps : List (Label Input (Origin srv.Job))} {c : srv.State}

/-- The texts pushed to the object, in order. -/
def sent (srv : McpServer) (log : List (Event ShardI (Origin srv.Job) McpShard)) (j ref : ℕ) :
    List Str :=
  chronicle (fun e => QueueWaiters.brings srv.L ref e.op e.before) j log

def taken {O : Type} (log : List (Event ShardI O McpShard)) (j ref : ℕ) : List Str :=
  chronicle (fun e => QueueWaiters.gives ref e.op e.res) j log

/-- The event pushes a text to the object and finds another push waiting for room. -/
def displaces (srv : McpServer) (j ref : ℕ) (e : Event ShardI (Origin srv.Job) McpShard) : Bool :=
  QueueWaiters.pushes srv j ref e && (e.before.object ref).delayed.isSome

/-- What has been pushed to an object has been taken from it or is on its way, in this order, but
for one text for each push that has found another one waiting. -/
structure Accounted (srv : McpServer) (log : List (Event ShardI (Origin srv.Job) McpShard))
    (j ref : ℕ) (o : SseSession) : Prop where
  settled : o.Settled
  sublist : (taken log j ref ++ o.contents).Sublist (sent srv log j ref)
  length : (taken log j ref).length + o.held + log.countP (displaces srv j ref) =
    (sent srv log j ref).length

theorem Accounted.call {log : List (Event ShardI (Origin srv.Job) McpShard)} {ref : ℕ}
    {e : Event ShardI (Origin srv.Job) McpShard} {o : SseSession}
    (h : Accounted srv log e.shard ref (e.before.object ref))
    (hflows : (e.before.object ref).Flows (QueueWaiters.brings srv.L ref e.op e.before)
      (QueueWaiters.gives ref e.op e.res) o) : Accounted srv (e :: log) e.shard ref o := by
  have htaken : taken (e :: log) e.shard ref =
      taken log e.shard ref ++ QueueWaiters.gives ref e.op e.res :=
    congrArg (taken log e.shard ref ++ ·) (if_pos rfl)
  have hsent : sent srv (e :: log) e.shard ref =
      sent srv log e.shard ref ++ QueueWaiters.brings srv.L ref e.op e.before :=
    congrArg (sent srv log e.shard ref ++ ·) (if_pos rfl)
  refine ⟨hflows.settled h.settled, ?_, ?_⟩ <;> rw [htaken, hsent]
  · have hqueue := (hflows.sublist h.settled).append_left (taken log e.shard ref)
    rw [← List.append_assoc, ← List.append_assoc] at hqueue
    exact hqueue.trans (h.sublist.append_right _)
  · have hdisplaces : displaces srv e.shard ref e =
        (decide (QueueWaiters.brings srv.L ref e.op e.before ≠ []) &&
          (e.before.object ref).delayed.isSome) := by
      unfold displaces QueueWaiters.pushes QueueWaiters.brings
      split <;> simp [*]
    have hflow := hflows.length h.settled
    have hlength := h.length
    rw [← hdisplaces] at hflow
    rw [List.countP_cons, List.length_append, List.length_append]
    cases hpush : displaces srv e.shard ref e <;> simp [hpush] at hflow ⊢ <;> omega

theorem Accounted.other {log : List (Event ShardI (Origin srv.Job) McpShard)} {j ref : ℕ}
    {e : Event ShardI (Origin srv.Job) McpShard} {o : SseSession} (h : Accounted srv log j ref o)
    (hj : e.shard ≠ j) : Accounted srv (e :: log) j ref o := by
  have htaken : taken (e :: log) j ref = taken log j ref :=
    (congrArg (taken log j ref ++ ·) (if_neg hj)).trans (List.append_nil _)
  have hsent : sent srv (e :: log) j ref = sent srv log j ref :=
    (congrArg (sent srv log j ref ++ ·) (if_neg hj)).trans (List.append_nil _)
  have hdisplaces : displaces srv j ref e = false := by
    simp [displaces, QueueWaiters.pushes, hj]
  refine ⟨h.settled, ?_, ?_⟩ <;> rw [htaken, hsent]
  · exact h.sublist
  · rw [List.countP_cons, hdisplaces]
    exact h.length

theorem accounted_of_run (h : srv.Reaches steps c) (j ref : ℕ) :
    Accounted srv c.log j ref ((c.shards j).object ref) := by
  refine LabelledRuns.invariant_of_reached (C := fun _ _ _ => True)
    (J := fun c : srv.State => Accounted srv c.log j ref ((c.shards j).object ref)) ?_ ?_
    (LabelledRuns.along_true _ _) h
  · exact ⟨nofun, List.Sublist.refl [], rfl⟩
  intro steps c l c' hrun hold hstep _
  cases advance_of_step hstep with
  | stays more htasks hshards hlog | goes more hi hgoes hheard htasks hshards hlog =>
    rw [hlog, hshards]
    exact hold
  | calls e hi hgoes hshard horigin hpast hbefore hexec htasks hshards hlog =>
    rw [hlog, hshards]
    by_cases hj : e.shard = j
    · subst hj
      rw [← hbefore] at hold
      rw [Function.update_self]
      exact hold.call (QueueWaiters.flows_of_call hrun hbefore hexec ref)
    · rw [Function.update_of_ne (Ne.symm hj)]
      exact hold.other hj

end Queues

section Texts
variable {V : Type}

/-- Both texts are JSON and mean the same. -/
def SameJson (value : List Token → V) (s t : Str) : Prop :=
  ∃ ts us, tokens s = some ts ∧ tokens t = some us ∧ value ts = value us

/-- Nothing but white space follows the first line break of the text. -/
def isOneLine (text : Str) : Bool := (text.dropWhile (! isBreak ·)).all isBlank

theorem isControl_of_isBreak {c : Char} (h : isBreak c = true) : isControl c = true := by
  rw [isBreak, Bool.or_eq_true, beq_iff_eq, beq_iff_eq] at h
  rw [isControl_iff]
  exact .inr h

theorem isBlank_of_isBreak {c : Char} (h : isBreak c = true) : isBlank c = true :=
  (Bool.and_eq_true_iff.mp (isControl_of_isBreak h)).1

theorem plain_of_tokens {text : Str} {ts : List Token} (h : tokens text = some ts) :
    Plain text := by
  obtain ⟨hlex, -⟩ := Option.filter_eq_some_iff.mp h
  refine (isChain_of_lexFrom hlex).imp (fun c d hnext hbreak => ?_)
  have hbegins := hnext (isControl_of_isBreak hbreak)
  constructor <;> rintro rfl <;> exact absurd hbegins (by decide)

theorem tokens_firstLine {text : Str} {ts : List Token} (h : tokens text = some ts) :
    tokens (firstLine text) = if isOneLine text then some ts else none := by
  have hall : firstLine text ++ text.dropWhile (! isBreak ·) = text :=
    List.takeWhile_append_dropWhile
  unfold isOneLine
  cases hrest : text.dropWhile (! isBreak ·) with
  | nil =>
    rw [hrest, List.append_nil] at hall
    rw [hall]
    exact h
  | cons c rest =>
    have hbreak : isBreak c = true := by
      have hhead := List.head?_dropWhile_not (! isBreak ·) text
      rw [hrest] at hhead
      simpa using hhead
    rw [hrest] at hall
    have hcut := tokens_of_append (isControl_of_isBreak hbreak) (hall.symm ▸ h)
    rw [hcut, List.all_cons, isBlank_of_isBreak hbreak, Bool.true_and]

theorem sameJson_firstLine_iff (value : List Token → V) {text : Str} (h : (tokens text).isSome) :
    SameJson value (firstLine text) text ↔ isOneLine text := by
  obtain ⟨ts, hts⟩ := Option.isSome_iff_exists.mp h
  unfold SameJson
  rw [tokens_firstLine hts, hts]
  by_cases hline : isOneLine text <;> simp [hline]

end Texts

section Streams
variable {srv : McpServer} {steps : List (Label Input (Origin srv.Job))} {c : srv.State}

/-- No other request of shard `j` than task `i` has taken a text from the queue of the object. -/
def SoleReader (c : srv.State) (i j ref : ℕ) : Prop :=
  ∀ k ≠ i, told (QueueWaiters.gives ref) j c.tasks k = []

/-- The texts pushed to the object of a task's stream but for the last ones, which are in its queue
or in the hands of the writer. -/
def due (c : srv.State) (t : Running ShardI Input Exception (Origin srv.Job) WriterState)
    (ref : ℕ) : List Str :=
  (sent srv c.log t.shard ref).take ((sent srv c.log t.shard ref).length -
    ((transcript t.past).hand.length + ((c.shards t.shard).object ref).held))

theorem sublist_take {α : Type*} {l₁ l₂ l : List α} (h : (l₁ ++ l₂).Sublist l) :
    l₁.Sublist (l.take (l.length - l₂.length)) := by
  obtain ⟨m₁, m₂, rfl, h₁, h₂⟩ := List.append_sublist_iff.mp h
  have hlength := h₂.length_le
  have hfirst : m₁ <+: (m₁ ++ m₂).take ((m₁ ++ m₂).length - l₂.length) := by
    refine List.prefix_take_iff.mpr ⟨List.prefix_append m₁ m₂, ?_⟩
    rw [List.length_append]
    omega
  exact h₁.trans hfirst.sublist

/-- What a writer has written are the texts that are due, but for those that have been lost or that
another reader has taken. -/
theorem written_of_run (h : srv.Reaches steps c) {i ref : ℕ}
    {t : Running ShardI Input Exception (Origin srv.Job) WriterState} (hi : c.tasks[i]? = some t)
    (hsession : (transcript t.past).session = some ref) :
    (transcript t.past).written.Sublist (due c t ref) ∧
      ((transcript t.past).written.length = (due c t ref).length ↔
        SoleReader c i t.shard ref ∧ c.log.countP (displaces srv t.shard ref) = 0) := by
  have hlawful := ((onTrack_of_run (keeps_framing srv) (fun l _ => l.launches_true) h).1 t
    (List.mem_of_getElem? hi)).2.1
  have htold : told (QueueWaiters.gives ref) t.shard c.tasks i =
      (transcript t.past).written ++ (transcript t.past).hand := by
    rw [told, hi]
    change (if t.shard = t.shard then story (QueueWaiters.gives ref) t.past else []) = _
    rw [if_pos rfl, story_of_lawful hlawful, Transcript.popped, if_pos hsession]
  have htaken : ((transcript t.past).written ++ (transcript t.past).hand).Sublist
        (taken c.log t.shard ref) ∧
      (((transcript t.past).written ++ (transcript t.past).hand).length =
        (taken c.log t.shard ref).length ↔ SoleReader c i t.shard ref) := by
    rw [← htold]
    exact told_of_run (QueueWaiters.gives ref) h t.shard i
  have haccounted := accounted_of_run h t.shard ref
  have hsublist := (htaken.1.append_right _).trans haccounted.sublist
  have hlength := haccounted.length
  have hle := htaken.1.length_le
  have hsole := htaken.2
  rw [List.append_assoc] at hsublist
  have hwritten := sublist_take hsublist
  rw [List.length_append, SseSession.length_contents] at hwritten
  rw [List.length_append] at hle hsole
  refine ⟨hwritten, ?_⟩
  rw [← hsole, due, List.length_take]
  omega

/-- The client of a task's stream reads the texts that are due, each as one message, in order. -/
def Recovers {V : Type} (value : List Token → V) (c : srv.State)
    (t : Running ShardI Input Exception (Origin srv.Job) WriterState) (ref : ℕ) : Prop :=
  List.Forall₂ (SameJson value) (messages (decode (transcript t.past).emitted)) (due c t ref)

/-- No push to the object has found another one waiting for room in its queue; one that a pop has
woken and that has not entered yet, which the model does not know, would count as waiting. -/
def FindsRoom (srv : McpServer) (log : List (Event ShardI (Origin srv.Job) McpShard))
    (j ref : ℕ) : Prop :=
  ∀ e ∈ log, QueueWaiters.pushes srv j ref e → (e.before.object ref).delayed = none

theorem findsRoom_iff {log : List (Event ShardI (Origin srv.Job) McpShard)} {j ref : ℕ} :
    FindsRoom srv log j ref ↔ log.countP (displaces srv j ref) = 0 := by
  rw [List.countP_eq_zero]
  refine forall₂_congr fun e _ => ?_
  unfold displaces
  cases QueueWaiters.pushes srv j ref e <;> simp

/-- The client of a session's stream reads the JSON texts that have been pushed to the session if
nobody else reads from its queue, no push takes the place of another and only white space follows
the first line break of each text, and only then. -/
theorem recovers_iff (srv : McpServer) {steps : List (Label Input (Origin srv.Job))}
    {c : srv.State} (h : srv.Reaches steps c) {i ref : ℕ}
    {t : Running ShardI Input Exception (Origin srv.Job) WriterState} (hi : c.tasks[i]? = some t)
    (hsession : (transcript t.past).session = some ref)
    {V : Type} (value : List Token → V) (hjson : ∀ text ∈ due c t ref, (tokens text).isSome) :
    Recovers value c t ref ↔
      SoleReader c i t.shard ref ∧ FindsRoom srv c.log t.shard ref ∧
        ∀ text ∈ due c t ref, isOneLine text := by
  obtain ⟨hsublist, hlength⟩ := written_of_run h hi hsession
  have hlawful := ((onTrack_of_run (keeps_framing srv) (fun l _ => l.launches_true) h).1 t
    (List.mem_of_getElem? hi)).2.1
  have hplain : ∀ text ∈ (transcript t.past).written, Plain text := by
    intro text hmem
    obtain ⟨ts, hts⟩ := Option.isSome_iff_exists.mp (hjson text (hsublist.subset hmem))
    exact plain_of_tokens hts
  have hlines : List.Forall₂ (SameJson value) ((due c t ref).map firstLine) (due c t ref) ↔
      ∀ text ∈ due c t ref, isOneLine text := by
    rw [List.forall₂_map_left_iff, List.forall₂_same]
    exact forall₂_congr fun text hmem => sameJson_firstLine_iff value (hjson text hmem)
  rw [← and_assoc, findsRoom_iff, ← hlength, Recovers,
    messages_decode (framed_of_lawful hlawful) hplain]
  constructor
  · intro hall
    have hsame := hall.length_eq
    rw [List.length_map] at hsame
    rw [hsublist.eq_of_length hsame] at hall
    exact ⟨hsame, hlines.mp hall⟩
  · rintro ⟨hsame, hall⟩
    rw [hsublist.eq_of_length hsame]
    exact hlines.mpr hall

end Streams

section Examples

def callingServer : McpServer :=
  { McpServer.plain CompactJson.library .standard 1 Nat.one_pos with
    Job := HandlerCall
    job := fun _ op => do
      let _ ← Coroutine.perform (I := HandlerI) op
      return ()
    job_inRange := fun _ _ => (Coroutine.Calls.perform trivial).bind (fun _ => .pure _) }

def answered : Label Input (Origin HandlerCall) := .resume 0 (.ok .null)

/-- GET /sse opens session `s0_1`, and its writer waits for a text. -/
def openSse : List (Label Input (Origin HandlerCall)) :=
  .launch ⟨0, .getSse {}⟩ :: (List.replicate 4 (.advance 0) ++ answered ::
    (List.replicate 2 (.advance 0) ++ answered :: answered :: List.replicate 3 (.advance 0)))

/-- Task `i` pushes a text to the session, and the writer sends it. -/
def pushText (i : ℕ) (text : Str) : List (Label Input (Origin HandlerCall)) :=
  .launch ⟨0, .job (.pushToSession "s0_1".toList text)⟩ :: .advance i :: .wake 0 ::
    (List.replicate 2 (.advance 0) ++ answered :: answered :: List.replicate 3 (.advance 0))

/-- The run ends with the writer of object 0 as task 0, the only reader of its queue, and these
texts due. -/
def streams (texts : List Str) (c : callingServer.State) : Bool :=
  c.tasks[0]?.any (fun t => t.shard == 0 && (transcript t.past).session == some 0 &&
    due c t 0 == texts) &&
  c.tasks.tail.all (fun u => story (QueueWaiters.gives 0) u.past == [])

theorem exists_of_streams {texts : List Str} {c : callingServer.State} (h : streams texts c) :
    ∃ t, c.tasks[0]? = some t ∧ t.shard = 0 ∧ (transcript t.past).session = some 0 ∧
      SoleReader c 0 0 0 ∧ due c t 0 = texts := by
  obtain ⟨hfirst, hothers⟩ := Bool.and_eq_true_iff.mp h
  obtain ⟨t, ht, hp⟩ := (Option.any_eq_true _ _).mp hfirst
  simp only [Bool.and_eq_true, beq_iff_eq] at hp
  refine ⟨t, ht, hp.1.1, hp.1.2, fun k hk => ?_, hp.2⟩
  obtain ⟨k, rfl⟩ := Nat.exists_eq_succ_of_ne_zero hk
  unfold told
  cases hu : c.tasks[k.succ]? with
  | none => rfl
  | some u =>
    have hmem : u ∈ c.tasks.tail := by
      rw [← List.getElem?_tail] at hu
      exact List.mem_of_getElem? hu
    have hstory : story (QueueWaiters.gives 0) u.past = [] :=
      beq_iff_eq.mp (List.all_eq_true.mp hothers u hmem)
    rw [Option.elim_some, hstory, ite_self]

/-- Two texts come back, one with a line break behind it. -/
theorem recovers_iff_twoTexts :
    ∃ c t, callingServer.Reaches
        (openSse ++ pushText 1 "[1, 2]\n".toList ++ pushText 2 "[true]".toList) c ∧
      c.tasks[0]? = some t ∧ due c t 0 = ["[1, 2]\n".toList, "[true]".toList] ∧
      Recovers id c t 0 := by
  have hrun : (LabelledRuns.run callingServer.system.step callingServer.system.start
      (openSse ++ pushText 1 "[1, 2]\n".toList ++ pushText 2 "[true]".toList)).any (fun c =>
        streams ["[1, 2]\n".toList, "[true]".toList] c &&
        c.log.countP (displaces callingServer 0 0) == 0) := by
    decide +kernel
  obtain ⟨c, hc, hp⟩ := (Option.any_eq_true _ _).mp hrun
  obtain ⟨hstreams, hroom⟩ := Bool.and_eq_true_iff.mp hp
  obtain ⟨t, ht, hshard, hsession, hsole, hdue⟩ := exists_of_streams hstreams
  refine ⟨c, t, hc, ht, hdue, ?_⟩
  refine (recovers_iff callingServer hc ht hsession id ?_).mpr ⟨hshard ▸ hsole, ?_, ?_⟩
  · rw [hdue]
    decide
  · rw [hshard]
    exact findsRoom_iff.mpr (beq_iff_eq.mp hroom)
  · rw [hdue]
    decide

/-- A JSON text with a line break between two tokens comes back as no JSON at all. -/
theorem broken_line_lost :
    ∃ c t, callingServer.Reaches (openSse ++ pushText 1 "[1,\n2]".toList) c ∧
      c.tasks[0]? = some t ∧ t.shard = 0 ∧ (transcript t.past).session = some 0 ∧
      SoleReader c 0 0 0 ∧ FindsRoom callingServer c.log 0 0 ∧ due c t 0 = ["[1,\n2]".toList] ∧
      (tokens "[1,\n2]".toList).isSome ∧ ¬Recovers (fun _ => ()) c t 0 := by
  have hrun : (LabelledRuns.run callingServer.system.step callingServer.system.start
      (openSse ++ pushText 1 "[1,\n2]".toList)).any (fun c =>
        streams ["[1,\n2]".toList] c && c.log.countP (displaces callingServer 0 0) == 0 &&
        c.tasks[0]?.all (fun t =>
          messages (decode (transcript t.past).emitted) == ["[1,".toList])) := by
    decide +kernel
  obtain ⟨c, hc, hp⟩ := (Option.any_eq_true _ _).mp hrun
  simp only [Bool.and_eq_true, beq_iff_eq] at hp
  obtain ⟨⟨hstreams, hroom⟩, hread⟩ := hp
  obtain ⟨t, ht, hshard, hsession, hsole, hdue⟩ := exists_of_streams hstreams
  refine ⟨c, t, hc, ht, hshard, hsession, hsole, findsRoom_iff.mpr hroom, hdue, by decide, ?_⟩
  intro hrecovers
  have hmessages : messages (decode (transcript t.past).emitted) = ["[1,".toList] := by
    rw [ht, Option.all_some, beq_iff_eq] at hread
    exact hread
  rw [Recovers, hmessages, hdue] at hrecovers
  obtain ⟨⟨ts, us, hts, -⟩, -⟩ := List.forall₂_cons.mp hrecovers
  have hnone : tokens "[1,".toList = none := by decide
  cases hnone.symm.trans hts

end Examples

end StreamFraming
end McpSdk

import McpSdk.HttpBodySinks
import McpSdk.StreamFraming

/-!
# The delivery of streams

The way of a text from the push to a session to the client: the queue of the session, the frame
that the writer makes of it, the chunks of the body, and the buffers of two output streams. The
client reads the bytes that have come to the socket. It never has a text that was not pushed, nor
one twice or before its turn, and it has each text as soon as the writer has flushed it.
-/

namespace McpSdk.StreamDelivery
open CppStandardLibrary CooperativeTasks ClusterRuns ServerSentEvents WriterTranscripts
open StreamFraming HttpBodySinks BufferedStreams ChunkedCoding

/-- What a write does with the body of the reply: the text is written and flushed. -/
def writeCalls : ShardI.Op → List (Call Char)
  | .inr (.write _ text) => [.write text, .flush]
  | _ => []

/-- The calls on the body of its reply in the history of a task. -/
def bodyCalls (past : List (Mark ShardI)) : List (Call Char) :=
  story (fun op _ => writeCalls op) past

/-- The calls so far: the last flush may be still to come, and does not come if the write fails. -/
def Called (past : List (Mark ShardI)) (calls : List (Call Char)) : Prop :=
  calls = bodyCalls past ∨ calls ++ [.flush] = bodyCalls past

section Calls
variable {past : List (Mark ShardI)} {calls : List (Call Char)}

theorem text_bodyCalls (past : List (Mark ShardI)) :
    (bodyCalls past).flatMap Call.text = (transcript past).emitted := by
  induction past with
  | nil => rfl
  | cons mark past ih =>
    cases mark with
    | started => rfl
    | did op r =>
      change (bodyCalls past ++ writeCalls op).flatMap Call.text = _
      rw [List.flatMap_append, ih]
      rcases op with op | op
      · exact List.append_nil _
      · cases op with
        | write id text => exact congrArg ((transcript past).emitted ++ ·) (List.append_nil text)
        | _ => exact List.append_nil _

theorem Called.text (h : Called past calls) :
    calls.flatMap Call.text = (transcript past).emitted := by
  rw [← text_bodyCalls]
  rcases h with rfl | h
  · rfl
  · rw [← h, List.flatMap_append]
    exact (List.append_nil _).symm

theorem bodyCalls_cases (past : List (Mark ShardI)) :
    bodyCalls past = [] ∨ ∃ before, bodyCalls past = before ++ [.flush] := by
  induction past with
  | nil => exact .inl rfl
  | cons mark past ih =>
    cases mark with
    | started => exact .inl rfl
    | did op r =>
      change bodyCalls past ++ writeCalls op = [] ∨
        ∃ before, bodyCalls past ++ writeCalls op = before ++ [.flush]
      by_cases hop : writeCalls op = []
      · rwa [hop, List.append_nil]
      · refine .inr ⟨bodyCalls past ++ (writeCalls op).dropLast, ?_⟩
        rw [List.append_assoc]
        unfold writeCalls at hop ⊢
        split at hop
        · rfl
        · exact absurd rfl hop

theorem lawful_of_append {Φ : Type} {C : Contract ShardI Φ} {newer : List (Mark ShardI)}
    (h : Lawful C (newer ++ past)) : Lawful C past := by
  induction newer with
  | nil => exact h
  | cons mark newer ih =>
    cases mark with
    | did op r => exact ih h.2
    | started => exact ih h

theorem written_append {newer : List (Mark ShardI)} (h : .started ∉ newer) :
    (transcript past).written <+: (transcript (newer ++ past)).written := by
  induction newer with
  | nil => exact List.prefix_rfl
  | cons mark newer ih =>
    have hnewer := ih (fun hmem => h (.tail _ hmem))
    cases mark with
    | started => exact absurd (.head _) h
    | did op r =>
      refine hnewer.trans ?_
      rcases op with op | op
      · exact List.prefix_rfl
      · cases op with
        | write id text => exact List.prefix_append _ _
        | _ => exact List.prefix_rfl

end Calls

section Texts

theorem plain_of_unbroken {text : Str} (h : Unbroken text) : Plain text := by
  induction text with
  | nil => exact .nil
  | cons c text ih =>
    refine List.isChain_cons.mpr ⟨fun d _ hbreak => ?_, ih (fun d hd => h d (.tail _ hd))⟩
    rw [h c (.head _)] at hbreak
    cases hbreak

theorem firstLine_of_unbroken {text : Str} (h : Unbroken text) : firstLine text = text :=
  List.takeWhile_eq_self_iff.mpr (fun c hc => by rw [h c hc]; rfl)

theorem messages_of_unbroken {past : List (Mark ShardI)} (hlawful : Lawful framing past)
    (h : ∀ text ∈ (transcript past).written, Unbroken text) :
    messages (decode (transcript past).emitted) = (transcript past).written := by
  rw [messages_decode (framed_of_lawful hlawful) (fun text ht => plain_of_unbroken (h text ht))]
  exact (List.map_congr_left (fun text ht => firstLine_of_unbroken (h text ht))).trans
    (List.map_id _)

theorem messages_prefix {s s' : Str} (h : s <+: s') :
    messages (decode s) <+: messages (decode s') := by
  obtain ⟨more, hmore⟩ := decode_prefix h
  rw [messages, messages, ← hmore, List.filter_append, List.map_append]
  exact List.prefix_append _ _

end Texts

section Delivery
variable {srv : McpServer} {steps : List (Label Input (Origin srv.Job))} {c : srv.State}

/-- The client of a session's stream reads the first ones of the texts that the writer has written,
and all that it has flushed. -/
theorem read_of_run (h : srv.Reaches steps c) {i ref : ℕ}
    {t : Running ShardI Input Exception (Origin srv.Job) WriterState} (hi : c.tasks[i]? = some t)
    (hsession : (transcript t.past).session = some ref)
    (htexts : ∀ text ∈ sent srv c.log t.shard ref, Unbroken text) {calls : List (Call Char)}
    {body : BodyStream} (hcalls : Called t.past calls)
    (hbody : BodyStream.new.Runs HttpChunkedDataSink.sink calls body) :
    ∃ client, Recipient.feed {} body.sink.sink = some client ∧ client.mode ≠ .done ∧
      messages (decode client.body) <+: (transcript t.past).written ∧
      ∀ newer past, t.past = newer ++ past → .started ∉ newer → bodyCalls past <+: calls →
        (transcript past).written <+: messages (decode client.body) := by
  obtain ⟨hsublist, -⟩ := written_of_run h hi hsession
  have hlawful := ((onTrack_of_run (keeps_framing srv) (fun l _ => l.launches_true) h).1 t
    (List.mem_of_getElem? hi)).2.1
  have hdue : due c t ref <+: sent srv c.log t.shard ref := List.take_prefix _ _
  have hunbroken : ∀ text ∈ (transcript t.past).written, Unbroken text :=
    fun text ht => htexts text (hdue.subset (hsublist.subset ht))
  obtain ⟨client, hclient, hread, hmode, hflushed⟩ := recipient_of_runs hbody
  rw [hcalls.text] at hread
  refine ⟨client, hclient, hmode, ?_, ?_⟩
  · rw [← messages_of_unbroken hlawful hunbroken]
    exact messages_prefix hread
  · intro newer past hpast hnew hdone
    rw [hpast] at hlawful hunbroken
    have hflush : (transcript past).emitted <+: client.body := by
      rw [← text_bodyCalls]
      rcases bodyCalls_cases past with hnone | ⟨before, hbefore⟩
      · rw [hnone]
        exact List.nil_prefix
      · obtain ⟨after, rfl⟩ := hdone
        rw [hbefore, List.flatMap_append]
        refine (congrArg (· <+: client.body) (List.append_nil _)).mpr (hflushed before after ?_)
        rw [hbefore, List.append_assoc]
        rfl
    rw [← messages_of_unbroken (lawful_of_append hlawful)
      (fun text ht => hunbroken text ((written_append hnew).subset ht))]
    exact messages_prefix hflush

/-- The client of a session's stream has texts that were pushed to the session, in their order, and
no other; if nobody else reads from the queue and no push takes the place of another, the first
ones without a gap. It has all the texts that the writer has flushed. -/
theorem client_of_run (h : srv.Reaches steps c) {i ref : ℕ}
    {t : Running ShardI Input Exception (Origin srv.Job) WriterState} (hi : c.tasks[i]? = some t)
    (hsession : (transcript t.past).session = some ref)
    (htexts : ∀ text ∈ sent srv c.log t.shard ref, Unbroken text) {calls : List (Call Char)}
    {body : BodyStream} (hcalls : Called t.past calls)
    (hbody : BodyStream.new.Runs HttpChunkedDataSink.sink calls body) :
    ∃ client, Recipient.feed {} body.sink.sink = some client ∧ client.mode ≠ .done ∧
      (messages (decode client.body)).Sublist (sent srv c.log t.shard ref) ∧
      (SoleReader c i t.shard ref → FindsRoom srv c.log t.shard ref →
        messages (decode client.body) <+: sent srv c.log t.shard ref) ∧
      ∀ newer past, t.past = newer ++ past → .started ∉ newer → bodyCalls past <+: calls →
        (transcript past).written <+: messages (decode client.body) := by
  obtain ⟨hsublist, hall⟩ := written_of_run h hi hsession
  have hdue : due c t ref <+: sent srv c.log t.shard ref := List.take_prefix _ _
  obtain ⟨client, hclient, hmode, hmessages, hflushed⟩ :=
    read_of_run h hi hsession htexts hcalls hbody
  refine ⟨client, hclient, hmode, hmessages.sublist.trans (hsublist.trans hdue.sublist), ?_,
    hflushed⟩
  intro hsole hroom
  have hwritten : (transcript t.past).written = due c t ref :=
    hsublist.eq_of_length (hall.mpr ⟨hsole, findsRoom_iff.mp hroom⟩)
  rw [hwritten] at hmessages
  exact hmessages.trans hdue

/-- Two texts that have been flushed. -/
theorem client_of_run_twoTexts :
    ∃ c t body client, callingServer.Reaches
        (openSse ++ pushText 1 "[1, 2]".toList ++ pushText 2 "[true]".toList) c ∧
      c.tasks[0]? = some t ∧
      BodyStream.new.Runs HttpChunkedDataSink.sink (bodyCalls t.past) body ∧
      Recipient.feed {} body.sink.sink = some client ∧
      messages (decode client.body) = ["[1, 2]".toList, "[true]".toList] := by
  have hrun : (LabelledRuns.run callingServer.system.step callingServer.system.start
      (openSse ++ pushText 1 "[1, 2]".toList ++ pushText 2 "[true]".toList)).any (fun c =>
        c.tasks[0]?.any (fun t => t.shard == 0 && (transcript t.past).session == some 0 &&
          (transcript t.past).written == ["[1, 2]".toList, "[true]".toList]) &&
        sent callingServer c.log 0 0 == ["[1, 2]".toList, "[true]".toList]) := by
    decide +kernel
  obtain ⟨c, hc, hp⟩ := (Option.any_eq_true _ _).mp hrun
  obtain ⟨htask, hsent⟩ := Bool.and_eq_true_iff.mp hp
  obtain ⟨t, ht, hp⟩ := (Option.any_eq_true _ _).mp htask
  simp only [Bool.and_eq_true, beq_iff_eq] at hp hsent
  obtain ⟨⟨hshard, hsession⟩, hwritten⟩ := hp
  obtain ⟨body, hbody⟩ := exists_runs (bodyCalls t.past) BodyStream.new
  obtain ⟨client, hclient, -, hsublist, -, hflushed⟩ := client_of_run hc ht hsession
    (by rw [hshard, hsent]; decide) (.inl rfl) hbody
  have hread := hflushed [] t.past rfl nofun List.prefix_rfl
  rw [hwritten] at hread
  rw [hshard, hsent] at hsublist
  exact ⟨c, t, body, client, hc, ht, hbody, hclient,
    (hread.eq_of_length_le hsublist.length_le).symm⟩

end Delivery
end McpSdk.StreamDelivery

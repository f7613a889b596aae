import McpSdk.QueueWaiters
import McpSdk.ServerSentEvents
import McpSdk.SessionIds

/-!
# The transcripts of stream writers

What the writer of a stream has popped and written. It writes one frame for each message that it
pops, in their order, and nothing else but an endpoint event before them. So a client that reads
the stream finds the first line of each message.
-/

namespace McpSdk
open CppStandardLibrary CooperativeTasks ClusterRuns ServerSentEvents

namespace WriterTranscripts

/-- What a request has done with its stream: the object the stream is for, the text written, the
messages that are in it, and those that have been popped and not yet written. -/
structure Transcript where
  session : Option ℕ := none
  emitted : Str := []
  written : List Str := []
  hand : List Str := []

def endpointEvent (sessionId : Str) : Str :=
  "event: endpoint\ndata: /message?sessionId=".toList ++ sessionId ++ "\n\n".toList

namespace Transcript

def next : Transcript → (op : ShardI.Op) → ShardI.Res op → Transcript
  | q, .inr (.respond reply), _ => { q with session := reply.stream.map Stream.session }
  | q, .inr (.popEventually _), (popped : Popped) => { q with hand := q.hand ++ popped.given }
  | q, .inr (.popWaiting _ _), (msg : Except Exception Str) =>
      { q with hand := q.hand ++ msg.toOption.toList }
  | q, .inr (.write _ text), _ =>
      { q with emitted := q.emitted ++ text, written := q.written ++ q.hand, hand := [] }
  | q, _, _ => q

/-- The text writes what has been popped, or it is the endpoint event at the start. -/
def Writes (q : Transcript) (text : Str) : Prop :=
  text = q.hand.flatMap frame ∨
    q.emitted = [] ∧ q.written = [] ∧ q.hand = [] ∧ ∃ id, Unbroken id ∧ text = endpointEvent id

def Allows (q : Transcript) : ShardI.Op → Prop
  | .inr (.respond _) => q = {}
  | .inr (.popEventually ref) | .inr (.popWaiting ref _) => q.session = some ref
  | .inr (.write _ text) => q.Writes text
  | _ => True

end Transcript

/-- A request pops from the queue of its stream only, and writes what it has popped. The ids of
GET /sse have no line breaks. -/
def framing : Contract ShardI Transcript where
  init := {}
  allows := Transcript.Allows
  answers
    | .inr (.createSession _), (id : Str) => Unbroken id
    | _, _ => True
  next := Transcript.next
  child _ := {}
  rests _ := True
  addresses _ := True

def transcript (past : List (Mark ShardI)) : Transcript := phase framing past

section Programs

def Silent : ShardI.Op → Prop
  | .inr (.respond _) | .inr (.popEventually _) | .inr (.popWaiting _ _) | .inr (.write _ _) =>
      False
  | _ => True

theorem idle_silent : framing.Idle Silent (fun _ => True) where
  allows q op _ hop := by
    rcases op with op | op
    · trivial
    · cases op <;> trivial
  next q op r _ hop := by
    rcases op with op | op
    · rfl
    · cases op <;> first | rfl | exact hop.elim
  rests _ _ := trivial
  child _ _ := trivial

theorem silent_of_beforeReply {op : ShardI.Op} (h : BeforeReply op) : Silent op := by
  rcases op with op | op
  · trivial
  · cases op <;> trivial

theorem follows_of_yields {α : Type} {t : ShardTask α} {R : α → Prop} (q : Transcript)
    (h : t.Yields Silent (fun _ => True) R) :
    t.Follows framing q (fun a q' => R a ∧ q' = q) (fun _ q' => q' = q) :=
  (Coroutine.Follows.of_calling idle_silent (fun _ _ => trivial) trivial h).mono
    (fun _ _ h => h) (fun _ _ h => h.2)

def Ready : WriterState → Transcript → Prop
  | .opening s, q => q = { session := some s.session } ∧ Unbroken s.sessionId
  | .looping s, q => q.session = some s.session ∧ q.hand = []

def Stops (w : Option WriterState) (q : Transcript) : Prop := ∀ x ∈ w, Ready x q

def Named (reply : Reply) : Prop := ∀ s ∈ reply.stream, s.kind = .sse → Unbroken s.sessionId

theorem sends_of_named {reply : Reply} (h : Named reply) : Sends framing Stops reply {} where
  allows := rfl
  rests := trivial
  streams := by
    intro x hx
    obtain ⟨s, hs, rfl⟩ := Option.mem_map.mp hx
    have hsession : (framing.next {} (.inr (.respond reply)) ()) =
        { session := some s.session } := by
      change ({ session := reply.stream.map Stream.session } : Transcript) = _
      rw [Option.mem_def.mp hs]
      rfl
    rw [hsession]
    unfold Stream.writer
    split
    · rename_i hkind
      exact ⟨rfl, h s hs hkind⟩
    · exact ⟨rfl, rfl⟩
    · exact ⟨rfl, rfl⟩
  fails := nofun

theorem follows_serve_of_yields {handler : ShardTask Reply}
    (h : handler.Yields Silent (fun _ => True) Named) :
    (serve handler).Follows framing {} Stops (fun _ _ => True) := by
  refine follows_serve ((follows_of_yields {} h).mono ?_ ?_)
  · rintro reply _ ⟨hnamed, rfl⟩
    exact sends_of_named hnamed
  · rintro _ _ rfl reply - hnone
    exact sends_of_named (forall_of_stream_none hnone)

theorem follows_handleSse (req : Request) : (HttpSseTransport.handleSse req).Follows framing {}
    (fun reply q => Named reply ∧ q = {}) (fun _ q => q = {}) := by
  have rejected : ∀ result, Named (securityReject result) :=
    fun result => forall_of_stream_none (stream_securityReject result)
  refine idle_silent.perform_bind trivial (by trivial) (fun check => ?_)
  split
  · exact ⟨rejected _, rfl⟩
  · apply (Coroutine.follows_bind _ _).mpr
    refine ⟨trivial, fun (id : Str) (hid : Unbroken id) => ?_⟩
    change (if id.isEmpty then _ else _ : ShardTask Reply).Follows framing {} _ _
    split
    · exact ⟨rejected _, rfl⟩
    · refine idle_silent.perform_bind trivial (by trivial) (fun session => ?_)
      cases session with
      | none => rfl
      | some ref =>
        refine ⟨?_, rfl⟩
        rintro s ⟨⟩ -
        exact hid

theorem follows_program (srv : McpServer) (j : ℕ) (work : Work srv.Job) :
    (srv.program j work).Follows framing {} Stops (fun _ _ => True) := by
  have hT : ∀ n : ℕ, (fun _ => True) n := fun _ => trivial
  have unstreamed : ∀ reply : Reply, reply.stream = none → Named reply :=
    fun _ hnone => forall_of_stream_none hnone
  have other : ∀ {kind : StreamKind} (reply : Reply), kind ≠ .sse →
      (∀ s ∈ reply.stream, s.kind = kind) → Named reply :=
    fun _ hkind hall s hs hsse => absurd ((hall s hs).symm.trans hsse) hkind
  cases work with
  | getSse req =>
    refine follows_serve ((follows_handleSse req).mono ?_ ?_)
    · rintro reply _ ⟨hnamed, rfl⟩
      exact sends_of_named hnamed
    · rintro _ _ rfl reply - hnone
      exact sends_of_named (unstreamed reply hnone)
  | postMessage req =>
    exact follows_serve_of_yields ((yields_handleMessage _ _ hT j req).weaken
      (fun _ h => silent_of_beforeReply h.beforeReply) unstreamed)
  | postMcp req =>
    exact follows_serve_of_yields ((yields_handlePost _ _ hT j req).weaken
      (fun _ h => silent_of_beforeReply h) (fun reply => other reply nofun))
  | getMcp req =>
    exact follows_serve_of_yields ((yields_handleGet req).weaken
      (fun _ h => silent_of_beforeReply h.beforeReply) (fun reply => other reply nofun))
  | deleteMcp req =>
    exact follows_serve_of_yields ((yields_handleDelete trivial).weaken
      (fun _ h => silent_of_beforeReply h.beforeReply) unstreamed)
  | job x =>
    have hcalls : (srv.job j x).inl.Yields Silent (fun _ => True) (fun _ => True) :=
      Coroutine.Calls.inl (Coroutine.Addresses.of_all hT _)
    exact (Coroutine.follows_bind _ _).mpr ((follows_of_yields {} hcalls).mono
      (fun _ _ _ => nofun) (fun _ _ _ => trivial))

theorem follows_closeStream (s : Stream) (q : Transcript) :
    (closeStream s).Follows framing q (fun _ => Stops none) (fun _ _ => True) := by
  unfold closeStream
  split
  · exact ⟨trivial, fun _ _ => ⟨trivial, fun _ _ => ⟨trivial, fun _ => nofun⟩⟩⟩
  · exact ⟨trivial, fun _ _ => ⟨trivial, fun _ => nofun⟩⟩

theorem follows_writeOut {q : Transcript} {id text : Str} (h : q.Writes text) :
    (writeOut id text).Follows framing q (fun _ q' => q'.session = q.session ∧ q'.hand = [])
      (fun _ _ => True) := by
  have hflush : (do
      let _ ← Coroutine.ofExcept (← Coroutine.external)
      let _ ← Coroutine.ofExcept (← Coroutine.external) : ShardTask Unit).Yields Silent
        (fun _ => True) (fun _ => True) := by
    apply Coroutine.Calls.external.bind
    intro written
    apply (Coroutine.Calls.ofExcept written).bind
    intro _
    apply Coroutine.Calls.external.bind
    intro flushed
    exact (Coroutine.Calls.ofExcept flushed).bind (fun _ => .pure _)
  refine ⟨h, fun _ _ => (follows_of_yields _ hflush).mono ?_ (fun _ _ _ => trivial)⟩
  rintro _ _ ⟨-, rfl⟩
  exact ⟨rfl, rfl⟩

theorem follows_popMessage {s : Stream} {q : Transcript} (hq : Ready (.looping s) q) :
    (popMessage s.session).Follows framing q
      (fun msg q' => q'.session = some s.session ∧ q'.hand = [msg]) (fun _ _ => True) := by
  obtain ⟨hsession, hhand⟩ := hq
  refine ⟨hsession, fun popped _ => ?_⟩
  cases popped with
  | message msg => exact ⟨trivial, fun _ => ⟨hsession, by simp [framing, Transcript.next, hhand,
      Popped.given]⟩⟩
  | waiter n =>
    refine ⟨trivial, hsession, fun msg _ => ?_⟩
    cases msg with
    | error e => trivial
    | ok msg => exact ⟨hsession, by simp [framing, Transcript.next, hhand, Popped.given,
        Except.toOption]⟩

theorem follows_writerTurn {s : Stream} {q : Transcript} (hq : Ready (.looping s) q) :
    (writerTurn s).Follows framing q (fun again q' => again = true → Ready (.looping s) q')
      (fun _ _ => True) := by
  refine idle_silent.perform_bind (I := ShardI) trivial (by trivial) (fun active => ?_)
  split
  · exact fun h => by cases h
  · refine (Coroutine.follows_bind _ _).mpr ((follows_popMessage hq).mono ?_ (fun _ _ h => h))
    rintro msg q' ⟨hsession, hhand⟩
    refine idle_silent.perform_bind (I := ShardI) trivial (by trivial) (fun active => ?_)
    split
    · exact fun h => by cases h
    · have hwrites : q'.Writes ("data: ".toList ++ msg ++ "\n\n".toList) := by
        refine .inl ?_
        rw [hhand, List.flatMap_singleton]
        rfl
      refine (Coroutine.follows_bind _ _).mpr ((follows_writeOut hwrites).mono ?_ (fun _ _ h => h))
      rintro _ q'' ⟨hsession', hhand'⟩ -
      exact ⟨hsession'.trans hsession, hhand'⟩

theorem follows_runWriter {w : WriterState} {q : Transcript} (hq : Ready w q) :
    (runWriter w).Follows framing q Stops (fun _ _ => True) := by
  have closes : ∀ s : Stream, ∀ q' : Transcript,
      framing.allows q' (.inr (.deactivate s.session)) ∧
        (closeStream s).Follows framing (framing.next q' (.inr (.deactivate s.session)) ())
          (fun _ => Stops none) (fun _ _ => True) :=
    fun s q' => ⟨trivial, follows_closeStream s q'⟩
  have ends : ∀ s : Stream, ∀ again : Bool, ∀ q' : Transcript,
      (again = true → Ready (.looping s) q') →
        if again then Stops (some (.looping s)) q'
        else (closeStream s).Follows framing q' (fun _ => Stops none) (fun _ _ => True) := by
    intro s again q' hready
    split
    · rename_i hagain
      rintro x ⟨⟩
      exact hready hagain
    · exact follows_closeStream s q'
  cases w with
  | opening s =>
    obtain ⟨rfl, hid⟩ := hq
    have hwrites : Transcript.Writes { session := some s.session }
        ("event: endpoint\ndata: /message?sessionId=".toList ++ s.sessionId ++ "\n\n".toList) :=
      .inr ⟨rfl, rfl, rfl, s.sessionId, hid, rfl⟩
    refine follows_guarded_of_closes ((Coroutine.follows_bind _ _).mpr
      ((follows_writeOut hwrites).mono ?_ (fun _ q' _ => closes s q')))
    intro _ q' hq'
    exact ends s true q' (fun _ => hq')
  | looping s =>
    exact follows_guarded_of_closes ((follows_writerTurn hq).mono (ends s)
      (fun _ q' _ => closes s q'))

theorem unbroken_sseId (j n : ℕ) : Unbroken (SessionIds.sseId j n) := by
  have hnumber : ∀ m, Unbroken (toStr m) := by
    intro m c hc
    have hdigit := isDigit_of_mem_toStr hc
    by_contra hbreak
    have hcases : c = '\n' ∨ c = '\r' := by
      rw [Bool.not_eq_false, isBreak, Bool.or_eq_true, beq_iff_eq, beq_iff_eq] at hbreak
      exact hbreak
    rcases hcases with rfl | rfl <;> cases hdigit
  exact (((show Unbroken "s".toList by decide).append (hnumber j)).append
    (show Unbroken "_".toList by decide)).append (hnumber n)

theorem keeps_framing (srv : McpServer) :
    Keeps srv.system (fun _ => framing) (fun _ => True) (fun _ w q => Ready w q) where
  answers _ j now op s := by
    rcases op with op | op
    · trivial
    · cases op with
      | createSession ip =>
        change Unbroken (s.createSession srv.cfg j ip).1
        rcases SessionIds.createSession_cases srv.cfg j ip s with h | ⟨h, -⟩ <;> rw [h]
        · exact nofun
        · exact unbroken_sseId _ _
      | _ => trivial
  program o _ := (follows_program srv o.shard o.work).mono
    (fun x q hq => by cases x with
      | none => trivial
      | some w => exact hq w rfl)
    (fun _ _ _ => trivial)
  again _ w q hq := (follows_runWriter hq).mono
    (fun x q hq => by cases x with
      | none => trivial
      | some w => exact hq w rfl)
    (fun _ _ _ => trivial)

end Programs

section Transcripts
variable {past : List (Mark ShardI)} {q : Transcript}

structure Transcript.Framed (q : Transcript) : Prop where
  text : ∃ start, (start = [] ∨ ∃ id, Unbroken id ∧ start = endpointEvent id) ∧
    q.emitted = start ++ q.written.flatMap frame

theorem framed_write (h : q.Framed) {text : Str} (htext : q.Writes text) :
    (q.next (.inr (.write [] text)) ()).Framed := by
  obtain ⟨start, hstart, hemitted⟩ := h.text
  rcases htext with rfl | ⟨hempty, hwritten, hhand, hid⟩
  · refine ⟨start, hstart, ?_⟩
    change q.emitted ++ q.hand.flatMap frame = start ++ (q.written ++ q.hand).flatMap frame
    rw [hemitted, List.flatMap_append, List.append_assoc]
  · refine ⟨text, .inr hid, ?_⟩
    change q.emitted ++ text = text ++ (q.written ++ q.hand).flatMap frame
    rw [hempty, hwritten, hhand]
    simp

theorem framed_of_lawful (h : Lawful framing past) : (transcript past).Framed := by
  induction past with
  | nil => exact ⟨[], .inl rfl, rfl⟩
  | cons mark past ih =>
    cases mark with
    | started => exact ⟨[], .inl rfl, rfl⟩
    | did op r =>
      obtain ⟨⟨hallows, -⟩, hpast⟩ := h
      have hframed := ih hpast
      rcases op with op | op
      · exact hframed
      · cases op with
        | write id text => exact framed_write hframed hallows
        | respond reply => exact ⟨hframed.text⟩
        | popEventually ref => exact ⟨hframed.text⟩
        | popWaiting ref n => exact ⟨hframed.text⟩
        | _ => exact hframed

/-- What a request has popped from the queue of the object: what it has written and what it has in
hand, if its stream is for the object. -/
def Transcript.popped (q : Transcript) (ref : ℕ) : List Str :=
  if q.session = some ref then q.written ++ q.hand else []

theorem popped_next {op : ShardI.Op} (hallows : q.Allows op) (r : ShardI.Res op) (ref : ℕ) :
    (q.next op r).popped ref = q.popped ref ++ QueueWaiters.gives ref op r := by
  have pops : ∀ {ref' : ℕ} (outs : List Str), q.session = some ref' →
      { q with hand := q.hand ++ outs }.popped ref =
        q.popped ref ++ if ref' = ref then outs else [] := by
    intro ref' outs hsession
    unfold Transcript.popped
    by_cases href : ref' = ref <;> simp [hsession, href]
  have silent : ∀ {q' : Transcript}, q'.popped ref = q.popped ref →
      q'.popped ref = q.popped ref ++ [] := fun h => h.trans (List.append_nil _).symm
  rcases op with op | op
  · exact silent rfl
  · cases op with
    | popEventually ref' => exact pops _ hallows
    | popWaiting ref' n => exact pops _ hallows
    | write id text =>
      refine silent ?_
      simp [Transcript.popped, Transcript.next]
    | respond reply =>
      have hempty : q = {} := hallows
      refine silent ?_
      rw [hempty]
      exact ite_self _
    | _ => exact silent rfl

theorem story_of_lawful (h : Lawful framing past) (ref : ℕ) :
    story (QueueWaiters.gives ref) past = (transcript past).popped ref := by
  induction past with
  | nil => rfl
  | cons mark past ih =>
    cases mark with
    | started => rfl
    | did op r =>
      have hallows : (transcript past).Allows op := h.1.1
      calc story (QueueWaiters.gives ref) past ++ QueueWaiters.gives ref op r
        _ = (transcript past).popped ref ++ QueueWaiters.gives ref op r := by rw [ih h.2]
        _ = ((transcript past).next op r).popped ref := (popped_next hallows r ref).symm

/-- The data of the messages among the events. -/
def messages (events : List ServerSentEvents.Event) : List Str :=
  (events.filter (·.type = "message".toList)).map ServerSentEvents.Event.data

theorem messages_decode (h : q.Framed) (hplain : ∀ text ∈ q.written, Plain text) :
    messages (decode q.emitted) = q.written.map firstLine := by
  have hframes : messages (decode (q.written.flatMap frame)) = q.written.map firstLine := by
    rw [decode_frames hplain, messages]
    induction q.written with
    | nil => rfl
    | cons text texts ih => simpa using ih
  obtain ⟨start, hstart, hemitted⟩ := h.text
  rw [hemitted]
  rcases hstart with rfl | ⟨id, hid, rfl⟩
  · exact hframes
  · have hevent : endpointEvent id =
        typedFrame "endpoint".toList ("/message?sessionId=".toList ++ id) := by
      unfold endpointEvent typedFrame
      rw [List.append_assoc, List.append_assoc "data: ".toList, List.append_assoc _ id]
      rfl
    rw [hevent, decode_typedFrame (by decide) (by decide) (.append (by decide) hid)]
    exact hframes

end Transcripts

end WriterTranscripts
end McpSdk

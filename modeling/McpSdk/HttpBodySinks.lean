import McpSdk.BufferedStreams
import McpSdk.ChunkedCoding
import McpSdk.JsonValues

/-!
# The sinks of HTTP bodies

`http_common_patch.cc`: the two kinds of data sinks that a body is written through, on top of the
output stream of the connection. A chunked body is read back as what was put into the sink; and
since the sink hands a flush on, the client has everything that was written before it. A body of a
known length never grows beyond it.
-/

namespace McpSdk.HttpBodySinks
open CppStandardLibrary BufferedStreams ChunkedCoding

/-- The socket of a connection: the bytes handed to it. -/
def socket : Sink Char Str where
  put sent piece sent' := sent' = sent ++ piece
  flush sent sent' := sent' = sent

/-- The output stream of a connection, `_out`. -/
abbrev Connection := OutputStream Char Str

namespace HttpChunkedDataSink

/-- `write_size`, of `format("{:x}\r\n", s)`. -/
def writeSize (size : ℕ) (out out' : Connection) : Prop :=
  out.Write socket (Nat.toDigits 16 size ++ "\r\n".toList) out'

/-- `do_put`. A buffer of size 0 is ignored. -/
def doPut (out : Connection) (buf : Str) (out' : Connection) : Prop :=
  if buf.length = 0 then out' = out
  else ∃ o₁ o₂, writeSize buf.length out o₁ ∧ o₁.Write socket buf o₂ ∧
    o₂.Write socket "\r\n".toList out'

/-- `http_chunked_data_sink_impl`. Its `put` of several buffers puts one after the other. -/
def sink : Sink Char Connection where
  put := doPut
  flush out out' := out.Flush socket out'

end HttpChunkedDataSink

/-- What `make_http_chunked_output_stream` gives. -/
abbrev BodyStream := OutputStream Char Connection

/-- A new body on a connection that has sent all that came before it. -/
def BodyStream.new : BodyStream := ⟨[], ⟨[], []⟩⟩

theorem write_of_kept {σ : Type} (S : Sink Char σ) (out : OutputStream Char σ) (piece : Str) :
    out.Write S piece { out with buffer := out.buffer ++ piece } :=
  ⟨[], .nil _, rfl⟩

section Chunked
open HttpChunkedDataSink
variable {out out' : Connection} {data : Str}

theorem conveys_socket : socket.Conveys (fun sent data => sent = data) (fun sent data => sent = data)
    where
  put := by
    rintro s s' data piece rfl hput
    exact hput
  flush := by
    rintro s s' data rfl hflush
    exact hflush
  weaken h := h

def Chunks (out : Connection) (data : Str) : Prop :=
  ∃ datas : List Str, (∀ d ∈ datas, d ≠ []) ∧ datas.flatten = data ∧
    out.View (fun sent bytes => sent = bytes) (datas.flatMap chunk)

def Sent (out : Connection) (data : Str) : Prop := Chunks out data ∧ out.buffer = []

theorem chunks_doPut {buf : Str} (h : Chunks out data) (hput : doPut out buf out') :
    Chunks out' (data ++ buf) := by
  obtain ⟨datas, hne, rfl, hview⟩ := h
  unfold doPut at hput
  split at hput
  · rename_i hempty
    obtain rfl := hput
    obtain rfl : buf = [] := List.length_eq_zero_iff.mp hempty
    exact ⟨datas, hne, (List.append_nil _).symm, hview⟩
  · rename_i hsome
    obtain ⟨o₁, o₂, hsize, hbuf, hend⟩ := hput
    have hbytes := conveys_socket.write (conveys_socket.write (conveys_socket.write hview hsize) hbuf)
      hend
    refine ⟨datas ++ [buf], ?_, by simp, ?_⟩
    · refine List.forall_mem_append.mpr ⟨hne, List.forall_mem_singleton.mpr ?_⟩
      exact mt List.length_eq_zero_iff.mpr hsome
    · have hchunk : datas.flatMap chunk ++ (Nat.toDigits 16 buf.length ++ "\r\n".toList) ++ buf ++
          "\r\n".toList = (datas ++ [buf]).flatMap chunk := by
        rw [List.flatMap_append, List.flatMap_singleton, chunk]
        simp only [List.append_assoc]
        rfl
      rwa [hchunk] at hbytes

theorem conveys_sink : sink.Conveys Chunks Sent where
  put h hput := chunks_doPut h hput
  flush := by
    rintro out out' data ⟨datas, hne, rfl, hview⟩ hflush
    obtain ⟨hempty, hsent⟩ := conveys_socket.flush_view hview hflush
    refine ⟨⟨datas, hne, rfl, _, hsent, ?_⟩, hempty⟩
    rw [hempty, List.append_nil]
  weaken h := h.1

theorem chunks_new : Chunks ⟨[], []⟩ [] := ⟨[], nofun, rfl, [], rfl, rfl⟩

/-- What has been put into the sink, in buffers of any sizes, is what a recipient reads in front of
the last chunk; before that it has not come to the end of the message. -/
theorem recipient_of_puts {bufs : List Str} {out : Connection}
    (h : sink.Puts ⟨[], []⟩ bufs out) :
    Recipient.feed {} (out.sink ++ out.buffer ++ lastChunk) = some ⟨.done, bufs.flatten⟩ ∧
      ∀ bytes, bytes <+: out.sink ++ out.buffer →
        ∃ r, Recipient.feed {} bytes = some r ∧ r.body <+: bufs.flatten ∧ r.mode ≠ .done := by
  obtain ⟨datas, hne, hdata, sent, rfl, hview⟩ := conveys_sink.puts chunks_new h
  rw [List.nil_append] at hdata
  rw [← hview, ← hdata]
  refine ⟨?_, fun bytes hbytes => exists_feed_of_prefix hne hbytes⟩
  exact (Recipient.feed_append_of (feed_chunks [] hne)).trans (feed_lastChunk _)

theorem recipient_of_puts_greeting :
    Recipient.feed {} ("2\r\nhi\r\n1\r\n!\r\n".toList ++ lastChunk) =
      some ⟨.done, "hi!".toList⟩ := by
  have hputs : sink.Puts ⟨[], []⟩ ["hi".toList, [], "!".toList]
      ⟨"2\r\nhi\r\n1\r\n!\r\n".toList, []⟩ :=
    .cons ⟨_, _, write_of_kept _ _ _, write_of_kept _ _ _, write_of_kept _ _ _⟩ <| .cons rfl <|
      .cons ⟨_, _, write_of_kept _ _ _, write_of_kept _ _ _, write_of_kept _ _ _⟩ (.nil _)
  exact (recipient_of_puts hputs).1

end Chunked

section Delivery
open HttpChunkedDataSink

theorem exists_runs (calls : List (Call Char)) (o : BodyStream) : ∃ o', o.Runs sink calls o' := by
  refine OutputStream.exists_runs (fun out buf => ?_) (fun out => ?_) calls o
  · by_cases hempty : buf.length = 0
    · exact ⟨out, (if_pos hempty).mpr rfl⟩
    · exact ⟨_, (if_neg hempty).mpr ⟨_, _, write_of_kept _ _ _, write_of_kept _ _ _,
        write_of_kept _ _ _⟩⟩
  · exact OutputStream.exists_step (S := socket) (fun _ _ => ⟨_, rfl⟩) (fun _ => ⟨_, rfl⟩) .flush out

theorem prefix_of_calls {calls : List (Call Char)} {out out' : Connection}
    (h : out.Runs socket calls out') : out.sink <+: out'.sink := by
  refine OutputStream.related_of_runs (R := fun sent sent' : Str => sent <+: sent')
    (fun _ => List.prefix_rfl) (fun h h' => h.trans h') ?_ ?_ h
  · rintro sent _ piece rfl
    exact List.prefix_append _ _
  · rintro sent _ rfl
    exact List.prefix_rfl

theorem prefix_of_runs {calls : List (Call Char)} {o o' : BodyStream} (h : o.Runs sink calls o') :
    o.sink.sink <+: o'.sink.sink := by
  refine OutputStream.related_of_runs (R := fun out out' : Connection => out.sink <+: out'.sink)
    (fun _ => List.prefix_rfl) (fun h h' => h.trans h') ?_ ?_ h
  · intro out out' buf hput
    change doPut out buf out' at hput
    unfold doPut at hput
    split at hput
    · rw [hput]
    · obtain ⟨o₁, o₂, hsize, hbuf, hend⟩ := hput
      have hruns : out.Runs socket [.write (Nat.toDigits 16 buf.length ++ "\r\n".toList), .write buf,
          .write "\r\n".toList] out' := ⟨o₁, hsize, o₂, hbuf, out', hend, rfl⟩
      exact prefix_of_calls hruns
  · intro out out' hflush
    have hruns : out.Runs socket [.flush] out' := ⟨out', hflush, rfl⟩
    exact prefix_of_calls hruns

/-- Whatever is written to a chunked body and whenever it is flushed, the client has a first part of
it, in it all that was written before any flush, and no end of the message. -/
theorem recipient_of_runs {calls : List (Call Char)} {o : BodyStream}
    (h : BodyStream.new.Runs sink calls o) :
    ∃ r, Recipient.feed {} o.sink.sink = some r ∧ r.body <+: calls.flatMap Call.text ∧
      r.mode ≠ .done ∧ ∀ before after, calls = before ++ .flush :: after →
        before.flatMap Call.text <+: r.body := by
  have hnew : BodyStream.new.View Chunks [] := ⟨[], chunks_new, rfl⟩
  obtain ⟨passed, ⟨datas, hne, rfl, sent, hsent, hbytes⟩, hall⟩ := conveys_sink.runs hnew h
  have hpart : o.sink.sink <+: datas.flatMap chunk := by
    rw [hbytes, hsent]
    exact List.prefix_append _ _
  obtain ⟨r, hr, hbody, hmode⟩ := exists_feed_of_prefix hne hpart
  refine ⟨r, hr, ?_, hmode, ?_⟩
  · rw [← List.nil_append (calls.flatMap _), hall]
    exact hbody.trans (List.prefix_append _ _)
  · rintro before after rfl
    rw [List.append_cons] at h
    obtain ⟨o₁, hfirst, hrest⟩ := OutputStream.runs_append.mp h
    obtain ⟨-, ⟨datas₁, hne₁, hdata₁, sent₁, hsent₁, hbytes₁⟩, hempty⟩ :=
      conveys_sink.runs_flush hnew hfirst
    rw [hempty, List.append_nil, ← hsent₁] at hbytes₁
    have hfed : Recipient.feed {} o₁.sink.sink = some ⟨.size 0 false, datas₁.flatten⟩ := by
      rw [← hbytes₁]
      exact feed_chunks [] hne₁
    -- the bytes sent by then are the first of those sent by now
    obtain ⟨more, hmore⟩ := prefix_of_runs hrest
    rw [← hmore, Recipient.feed_append_of hfed] at hr
    have hkept : datas₁.flatten <+: r.body := Recipient.body_prefix hr
    rw [List.nil_append] at hdata₁
    rwa [← hdata₁]

end Delivery

/-- `http_content_length_data_sink_impl`, for a body of `limit` bytes. -/
structure HttpContentLengthDataSink where
  out : Connection
  bytesWritten : ℕ := 0

namespace HttpContentLengthDataSink

/-- The sizes of the buffers, added up in a `size_t`. -/
def totalSize (data : List Str) : ℕ := data.foldl (fun s b => (s + b.length) % 2 ^ 64) 0

/-- `put`: what it answers and what becomes of the sink. -/
def Put (limit : ℕ) (data : List Str) (s : HttpContentLengthDataSink) (r : Except Exception Unit)
    (s' : HttpContentLengthDataSink) : Prop :=
  let size := totalSize data
  if size = 0 then r = .ok () ∧ s' = s
  else if (s.bytesWritten + size) % 2 ^ 64 > limit then
    r = .error (.std ("body content length overflow: want ".toList ++
      toStr ((s.bytesWritten + size) % 2 ^ 64) ++ " limit ".toList ++ toStr limit)) ∧ s' = s
  else r = .ok () ∧ s.out.Write socket data.flatten s'.out ∧
    s'.bytesWritten = (s.bytesWritten + size) % 2 ^ 64

/-- A number of `put`s, with their answers. -/
def Puts (limit : ℕ) : HttpContentLengthDataSink → List (List Str) →
    List (Except Exception Unit) → HttpContentLengthDataSink → Prop
  | s, [], results, s' => results = [] ∧ s' = s
  | s, data :: datas, results, s' => ∃ r rest s₁, results = r :: rest ∧ Put limit data s r s₁ ∧
      Puts limit s₁ datas rest s'

end HttpContentLengthDataSink

section ContentLength
open HttpContentLengthDataSink

/-- What a body of bounded length takes of a number of texts: each that still fits. -/
def taken (limit : ℕ) (body : Str) (texts : List Str) : Str :=
  texts.foldl (fun body text => if body.length + text.length ≤ limit then body ++ text else body)
    body

def fits (limit : ℕ) : Str → List Str → List Bool
  | _, [] => []
  | body, text :: texts =>
      decide (body.length + text.length ≤ limit) :: fits limit (taken limit body [text]) texts

theorem totalSize_eq {data : List Str} (h : data.flatten.length < 2 ^ 64) :
    totalSize data = data.flatten.length := by
  have step : ∀ (data : List Str) (n : ℕ), n + data.flatten.length < 2 ^ 64 →
      data.foldl (fun s b => (s + b.length) % 2 ^ 64) n = n + data.flatten.length := by
    intro data
    induction data with
    | nil => exact fun n _ => rfl
    | cons buf data ih =>
      intro n hn
      rw [List.flatten_cons, List.length_append] at hn
      rw [List.foldl_cons, Nat.mod_eq_of_lt (by omega), ih _ (by omega), List.flatten_cons,
        List.length_append, Nat.add_assoc]
  rw [totalSize, step data 0 (by omega), Nat.zero_add]

theorem taken_of_le {limit : ℕ} {texts : List Str} {body : Str}
    (h : body.length + texts.flatten.length ≤ limit) :
    taken limit body texts = body ++ texts.flatten := by
  induction texts generalizing body with
  | nil => exact (List.append_nil _).symm
  | cons text texts ih =>
    rw [List.flatten_cons, List.length_append] at h
    have hfits : body.length + text.length ≤ limit := by omega
    have hroom : (body ++ text).length + texts.flatten.length ≤ limit := by
      rw [List.length_append]
      omega
    have hrest := ih hroom
    unfold taken at hrest ⊢
    rw [List.foldl_cons, if_pos hfits, hrest, List.flatten_cons, List.append_assoc]

/-- The sink has taken this body. -/
structure Holds (limit : ℕ) (s : HttpContentLengthDataSink) (body : Str) : Prop where
  content : s.out.View (fun sent bytes => sent = bytes) body
  counted : s.bytesWritten = body.length
  bounded : body.length ≤ limit

theorem Holds.put {limit : ℕ} {s s' : HttpContentLengthDataSink} {body : Str}
    (h : Holds limit s body) (hlimit : limit < 2 ^ 63) {data : List Str}
    (hsize : data.flatten.length < 2 ^ 63) {r : Except Exception Unit} (hput : Put limit data s r s') :
    Holds limit s' (taken limit body [data.flatten]) ∧
      r.isOk = decide (body.length + data.flatten.length ≤ limit) := by
  have hbounded := h.bounded
  have htotal : totalSize data = data.flatten.length := totalSize_eq (by omega)
  unfold Put at hput
  simp only [htotal, h.counted,
    Nat.mod_eq_of_lt (show body.length + data.flatten.length < 2 ^ 64 by omega)] at hput
  simp only [taken, List.foldl_cons, List.foldl_nil]
  split at hput
  · rename_i hempty
    obtain ⟨rfl, rfl⟩ := hput
    rw [hempty, Nat.add_zero, if_pos hbounded, List.length_eq_zero_iff.mp hempty, List.append_nil,
      decide_eq_true hbounded]
    exact ⟨h, rfl⟩
  · split at hput
    · rename_i hfull
      obtain ⟨rfl, rfl⟩ := hput
      rw [if_neg (not_le.mpr hfull), decide_eq_false (not_le.mpr hfull)]
      exact ⟨h, rfl⟩
    · rename_i hroom
      obtain ⟨rfl, hwrite, hwritten⟩ := hput
      have hle := not_lt.mp hroom
      rw [if_pos hle, decide_eq_true hle]
      refine ⟨⟨conveys_socket.write h.content hwrite, ?_, ?_⟩, rfl⟩
      · rw [hwritten, List.length_append]
      · rwa [List.length_append]

/-- Whatever is put into the sink, it takes each piece that fits into the length of the body and
refuses the others, which leave no trace. -/
theorem body_of_puts {limit : ℕ} (hlimit : limit < 2 ^ 63) {datas : List (List Str)}
    (hsizes : ∀ data ∈ datas, data.flatten.length < 2 ^ 63)
    {results : List (Except Exception Unit)} {s : HttpContentLengthDataSink}
    (h : Puts limit { out := ⟨[], []⟩ } datas results s) :
    Holds limit s (taken limit [] (datas.map List.flatten)) ∧
      results.map Except.isOk = fits limit [] (datas.map List.flatten) ∧
      (datas.flatten.flatten.length ≤ limit →
        taken limit [] (datas.map List.flatten) = datas.flatten.flatten) := by
  have run : ∀ {datas : List (List Str)}, (∀ data ∈ datas, data.flatten.length < 2 ^ 63) →
      ∀ {results : List (Except Exception Unit)} {s₀ : HttpContentLengthDataSink} {body : Str},
        Holds limit s₀ body → Puts limit s₀ datas results s →
        Holds limit s (taken limit body (datas.map List.flatten)) ∧
          results.map Except.isOk = fits limit body (datas.map List.flatten) := by
    intro datas
    induction datas with
    | nil =>
      rintro - _ s₀ body hs ⟨rfl, rfl⟩
      exact ⟨hs, rfl⟩
    | cons data datas ih =>
      rintro hsizes _ s₀ body hs ⟨r, rest, s₁, rfl, hput, hrest⟩
      obtain ⟨hdata, hdatas⟩ := List.forall_mem_cons.mp hsizes
      obtain ⟨hs₁, hr⟩ := hs.put hlimit hdata hput
      obtain ⟨hend, hresults⟩ := ih hdatas hs₁ hrest
      exact ⟨hend, congrArg₂ List.cons hr hresults⟩
  obtain ⟨hs, hresults⟩ := run hsizes ⟨⟨[], rfl, rfl⟩, rfl, Nat.zero_le _⟩ h
  refine ⟨hs, hresults, fun hle => ?_⟩
  have hflatten : (datas.map List.flatten).flatten = datas.flatten.flatten :=
    List.flatten_flatten.symm
  rw [taken_of_le (by rwa [hflatten, List.length_nil, Nat.zero_add]), hflatten, List.nil_append]

/-- Of three texts the second is too long for what is left. -/
theorem body_of_puts_refused :
    Holds 3 ⟨⟨"abe".toList, []⟩, 3⟩ "abe".toList ∧
      [true, false, true] = fits 3 [] ["ab".toList, "cd".toList, "e".toList] := by
  have hputs : Puts 3 ⟨⟨[], []⟩, 0⟩ [["a".toList, "b".toList], ["cd".toList], ["e".toList]]
      [.ok (), .error (.std "body content length overflow: want 4 limit 3".toList), .ok ()]
      ⟨⟨"abe".toList, []⟩, 3⟩ :=
    ⟨_, _, ⟨⟨"ab".toList, []⟩, 2⟩, rfl, ⟨rfl, ⟨[], .nil _, rfl⟩, rfl⟩,
      _, _, ⟨⟨"ab".toList, []⟩, 2⟩, rfl, ⟨rfl, rfl⟩,
      _, _, ⟨⟨"abe".toList, []⟩, 3⟩, rfl, ⟨rfl, ⟨[], .nil _, rfl⟩, rfl⟩, rfl, rfl⟩
  obtain ⟨hholds, hresults, -⟩ := body_of_puts (by decide) (by decide) hputs
  exact ⟨hholds, hresults⟩

end ContentLength

end McpSdk.HttpBodySinks

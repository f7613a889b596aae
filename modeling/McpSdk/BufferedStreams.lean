import Mathlib.Data.List.Basic

/-!
# Buffered output streams

An output stream keeps back some of what is written to it and passes the rest on to a sink, in
pieces of any size; a flush passes on everything. Which pieces there are, and when they are passed
on, is left open. A stream is itself what a sink may write to, so streams stand on top of each
other, and what holds of the data of the lower one carries over to the upper one.
-/

namespace BufferedStreams

variable {β σ : Type*}

/-- A sink with states `σ`: what it may do with a piece of data, and with a flush. -/
structure Sink (β σ : Type*) where
  put : σ → List β → σ → Prop
  flush : σ → σ → Prop

/-- The sink takes a number of pieces. -/
inductive Sink.Puts (S : Sink β σ) : σ → List (List β) → σ → Prop
  | nil (s : σ) : Puts S s [] s
  | cons {s s₁ s' : σ} {piece : List β} {pieces : List (List β)} (h : S.put s piece s₁)
      (hs : Puts S s₁ pieces s') : Puts S s (piece :: pieces) s'

/-- A stream: what it keeps back, and the sink under it. -/
structure OutputStream (β σ : Type*) where
  buffer : List β := []
  sink : σ

namespace OutputStream

/-- `o.write(text)`. -/
def Write (S : Sink β σ) (text : List β) (o o' : OutputStream β σ) : Prop :=
  ∃ pieces, S.Puts o.sink pieces o'.sink ∧ o.buffer ++ text = pieces.flatten ++ o'.buffer

/-- `o.flush()`. -/
def Flush (S : Sink β σ) (o o' : OutputStream β σ) : Prop :=
  ∃ pieces s, S.Puts o.sink pieces s ∧ S.flush s o'.sink ∧ o.buffer = pieces.flatten ∧
    o'.buffer = []

end OutputStream

inductive Call (β : Type*)
  | write (text : List β)
  | flush

def Call.text : Call β → List β
  | .write text => text
  | .flush => []

namespace OutputStream

def Step (S : Sink β σ) : Call β → OutputStream β σ → OutputStream β σ → Prop
  | .write text, o, o' => o.Write S text o'
  | .flush, o, o' => o.Flush S o'

/-- A number of calls, one after the other. -/
def Runs (S : Sink β σ) : OutputStream β σ → List (Call β) → OutputStream β σ → Prop
  | o, [], o' => o' = o
  | o, call :: calls, o' => ∃ o₁, o.Step S call o₁ ∧ o₁.Runs S calls o'

/-- The stream stands for the data that has been passed on and what it keeps back. -/
def View (V : σ → List β → Prop) (o : OutputStream β σ) (data : List β) : Prop :=
  ∃ passed, V o.sink passed ∧ data = passed ++ o.buffer

theorem runs_append {S : Sink β σ} {calls calls' : List (Call β)} {o o' : OutputStream β σ} :
    o.Runs S (calls ++ calls') o' ↔ ∃ o₁, o.Runs S calls o₁ ∧ o₁.Runs S calls' o' := by
  induction calls generalizing o with
  | nil => exact ⟨fun h => ⟨o, rfl, h⟩, by rintro ⟨_, rfl, h⟩; exact h⟩
  | cons call calls ih =>
    constructor
    · rintro ⟨o₁, hstep, hrest⟩
      obtain ⟨o₂, hruns, hrest⟩ := ih.mp hrest
      exact ⟨o₂, ⟨o₁, hstep, hruns⟩, hrest⟩
    · rintro ⟨o₂, ⟨o₁, hstep, hruns⟩, hrest⟩
      exact ⟨o₁, hstep, ih.mpr ⟨o₂, hruns, hrest⟩⟩

end OutputStream

/-- What every piece and every flush does to a sink, a number of calls does. -/
theorem OutputStream.related_of_runs {S : Sink β σ} {R : σ → σ → Prop} (hrefl : ∀ s, R s s)
    (htrans : ∀ {s s' s'' : σ}, R s s' → R s' s'' → R s s'')
    (hput : ∀ {s s' : σ} {piece : List β}, S.put s piece s' → R s s')
    (hflush : ∀ {s s' : σ}, S.flush s s' → R s s') {calls : List (Call β)}
    {o o' : OutputStream β σ} (h : o.Runs S calls o') : R o.sink o'.sink := by
  have puts : ∀ {s s' : σ} {pieces : List (List β)}, S.Puts s pieces s' → R s s' := by
    intro s s' pieces hputs
    induction hputs with
    | nil s => exact hrefl s
    | cons hfirst _ ih => exact htrans (hput hfirst) ih
  induction calls generalizing o with
  | nil =>
    obtain rfl := h
    exact hrefl _
  | cons call calls ih =>
    obtain ⟨o₁, hstep, hrest⟩ := h
    refine htrans ?_ (ih hrest)
    cases call with
    | write text =>
      obtain ⟨pieces, hputs, -⟩ := hstep
      exact puts hputs
    | flush =>
      obtain ⟨pieces, s, hputs, hsink, -, -⟩ := hstep
      exact htrans (puts hputs) (hflush hsink)

theorem OutputStream.exists_step {S : Sink β σ} (hput : ∀ s piece, ∃ s', S.put s piece s')
    (hflush : ∀ s, ∃ s', S.flush s s') (call : Call β) (o : OutputStream β σ) :
    ∃ o', o.Step S call o' := by
  cases call with
  | write text => exact ⟨⟨o.buffer ++ text, o.sink⟩, [], .nil _, rfl⟩
  | flush =>
    obtain ⟨s, hs⟩ := hput o.sink o.buffer
    obtain ⟨s', hs'⟩ := hflush s
    exact ⟨⟨[], s'⟩, [o.buffer], s, .cons hs (.nil s), hs', (List.append_nil _).symm, rfl⟩

theorem OutputStream.exists_runs {S : Sink β σ} (hput : ∀ s piece, ∃ s', S.put s piece s')
    (hflush : ∀ s, ∃ s', S.flush s s') (calls : List (Call β)) (o : OutputStream β σ) :
    ∃ o', o.Runs S calls o' := by
  induction calls generalizing o with
  | nil => exact ⟨o, rfl⟩
  | cons call calls ih =>
    obtain ⟨o₁, hstep⟩ := exists_step hput hflush call o
    obtain ⟨o', hrest⟩ := ih o₁
    exact ⟨o', o₁, hstep, hrest⟩

/-- The states of the sink stand for data: a piece is added to it, and a flush leaves it, but may
lead to states of which more is known. -/
structure Sink.Conveys (S : Sink β σ) (V F : σ → List β → Prop) : Prop where
  put : ∀ {s s' : σ} {data piece : List β}, V s data → S.put s piece s' → V s' (data ++ piece)
  flush : ∀ {s s' : σ} {data : List β}, V s data → S.flush s s' → F s' data
  weaken : ∀ {s : σ} {data : List β}, F s data → V s data

namespace Sink.Conveys
variable {S : Sink β σ} {V F : σ → List β → Prop} (h : S.Conveys V F)
  {o o' : OutputStream β σ} {data : List β}
include h

theorem puts {s s' : σ} {pieces : List (List β)} (hs : V s data) (hputs : S.Puts s pieces s') :
    V s' (data ++ pieces.flatten) := by
  induction hputs generalizing data with
  | nil s => rwa [List.flatten_nil, List.append_nil]
  | cons hput _ ih =>
    rw [List.flatten_cons, ← List.append_assoc]
    exact ih (h.put hs hput)

theorem write {text : List β} (ho : o.View V data) (hwrite : o.Write S text o') :
    o'.View V (data ++ text) := by
  obtain ⟨passed, hpassed, rfl⟩ := ho
  obtain ⟨pieces, hputs, hbuffer⟩ := hwrite
  refine ⟨passed ++ pieces.flatten, h.puts hpassed hputs, ?_⟩
  rw [List.append_assoc, hbuffer, List.append_assoc]

theorem flush_view (ho : o.View V data) (hflush : o.Flush S o') :
    o'.buffer = [] ∧ F o'.sink data := by
  obtain ⟨passed, hpassed, rfl⟩ := ho
  obtain ⟨pieces, s, hputs, hsink, hbuffer, hempty⟩ := hflush
  refine ⟨hempty, ?_⟩
  rw [hbuffer]
  exact h.flush (h.puts hpassed hputs) hsink

theorem step {call : Call β} (ho : o.View V data) (hstep : o.Step S call o') :
    o'.View V (data ++ call.text) := by
  cases call with
  | write text => exact h.write ho hstep
  | flush =>
    obtain ⟨hempty, hsink⟩ := h.flush_view ho hstep
    refine ⟨data, h.weaken hsink, ?_⟩
    rw [hempty]
    rfl

theorem runs {calls : List (Call β)} (ho : o.View V data) (hruns : o.Runs S calls o') :
    o'.View V (data ++ calls.flatMap Call.text) := by
  induction calls generalizing o data with
  | nil =>
    obtain rfl := hruns
    rwa [List.flatMap_nil, List.append_nil]
  | cons call calls ih =>
    obtain ⟨o₁, hstep, hrest⟩ := hruns
    rw [List.flatMap_cons, ← List.append_assoc]
    exact ih (h.step ho hstep) hrest

theorem runs_flush {calls : List (Call β)} (ho : o.View V data)
    (hruns : o.Runs S (calls ++ [.flush]) o') :
    o'.buffer = [] ∧ F o'.sink (data ++ calls.flatMap Call.text) := by
  obtain ⟨o₁, hfirst, o₂, hstep, rfl⟩ := OutputStream.runs_append.mp hruns
  exact h.flush_view (h.runs ho hfirst) hstep

end Sink.Conveys
end BufferedStreams

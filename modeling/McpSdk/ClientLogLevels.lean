import McpSdk.Broadcasts
import McpSdk.CompactJson
import McpSdk.ShardOperations
import McpSdk.TaskMessages

/-!
# The log level of the clients

`logging/setLevel` sets the level on the shard that handles it and sends it to all others. It is a
broadcast without an order between the shards: two requests on different shards may leave
different levels behind. The levels agree if no request meets another level on its way from
another shard.
-/

namespace McpSdk.ClientLogLevels
open CppStandardLibrary CooperativeTasks LabelledRuns

/-- The level that a request names; what it does not know is `info`. -/
def levelOf (level : Str) : LogLevel :=
  if level = "debug".toList ∨ level = "trace".toList then .debug
  else if level = "info".toList then .info
  else if level = "warning".toList ∨ level = "warn".toList then .warn
  else if level = "error".toList ∨ level = "critical".toList ∨ level = "alert".toList ∨
    level = "emergency".toList then .error
  else .info

/-- What a request sends to the other shards. -/
def message (level : LogLevel) : Coroutine HandlerI Input Exception Unit :=
  Coroutine.perform (I := HandlerI) (.setClientLogLevel level)

/-- The method `logging/setLevel`, on shard `j` of `count`. -/
def loggingSetLevel (count j : ℕ) : MethodHandler HandlerI := fun params => do
  let level ← Coroutine.ofExcept (params.valueString "level".toList "info".toList)
  let sl := levelOf level
  let _ ← Coroutine.perform (I := HandlerI) (.setClientLogLevel sl)
  Coroutine.invokeOnOthers (I := HandlerI) .gathered count j (message sl)
  return .object []

/-- The shards, and the levels on their way between them. -/
abbrev Levels := Network HandlerI Input Exception McpShard

/-- A request on a shard, or the arrival of the oldest message from one shard at another. -/
inductive Label
  | request (j : ℕ) (params : Json)
  | deliver (k i : ℕ)

variable (L : JsonLibrary) (count : ℕ)

/-- A request does all but answer before its first suspension. -/
def step (s : Levels) : Label → Option Levels
  | .request j params =>
      if j < count then
        some (Network.proceed (HandlerCall.exec L) j (loggingSetLevel count j params) s).2
      else none
  | .deliver k i => s.deliver (HandlerCall.exec L) k i

/-- The shards after `start`. -/
def started (cfg : McpServerConfig) : Levels := ⟨fun _ => cfg.shard, fun _ _ => []⟩

/-- The level that a step sets out to set everywhere: a request whose level is no text fails. -/
def Label.level : Label → Option LogLevel
  | .request _ params =>
      (params.valueString "level".toList "info".toList).toOption.map levelOf
  | .deliver _ _ => none

/-- A request meets no other level on its way from another shard: the newest message in each of
their channels sets the same level. -/
def Uncrossed (s : Levels) (l : Label) (_ : Levels) : Prop :=
  match l with
  | .request j params => ∀ k i level t, k < count → i < count → k ≠ j →
      (Label.request j params).level = some level → (s.channel k i).getLast? = some t →
        t = message level
  | .deliver _ _ => True

section Refinement

structure Shows (s : Levels) (n : Broadcasts.Net LogLevel) : Prop where
  value : ∀ i, (s.shards i).clientLogLevel = n.value i
  channel : ∀ k i, s.channel k i = (n.channel k i).map message

def Label.broadcast : Label → Option (Broadcasts.Label LogLevel)
  | .request j params => (Label.request j params).level.map (.write j)
  | .deliver k i => some (.deliver k i)

theorem message_inj {a b : LogLevel} (h : message a = message b) : a = b := by
  unfold message Coroutine.perform at h
  injection h with _ hop
  exact HandlerCall.setClientLogLevel.inj hop

variable {L count} {s s' : Levels} {n : Broadcasts.Net LogLevel} {j : ℕ} {params : Json}

theorem proceed_loggingSetLevel {level : LogLevel}
    (h : (Label.request j params).level = some level) :
    (Network.proceed (HandlerCall.exec L) j (loggingSetLevel count j params) s).2 =
      Network.postAll j (message level) ((List.range count).filter (· ≠ j))
        { s with shards :=
          Function.update s.shards j { s.shards j with clientLogLevel := level } } := by
  have hlevel : (params.valueString "level".toList "info".toList).toOption.map levelOf =
    some level := h
  unfold loggingSetLevel
  cases hvalue : params.valueString "level".toList "info".toList with
  | error e =>
    rw [hvalue] at hlevel
    cases hlevel
  | ok text =>
    rw [hvalue] at hlevel
    obtain rfl : levelOf text = level := Option.some.inj hlevel
    refine (congrArg Prod.snd Network.proceed_perform_bind).trans ?_
    exact congrArg Prod.snd Network.proceed_invokeOnOthers

theorem proceed_loggingSetLevel_of_none (h : (Label.request j params).level = none) :
    (Network.proceed (HandlerCall.exec L) j (loggingSetLevel count j params) s).2 = s := by
  have hlevel : (params.valueString "level".toList "info".toList).toOption.map levelOf = none := h
  unfold loggingSetLevel
  cases hvalue : params.valueString "level".toList "info".toList with
  | error e => rfl
  | ok text =>
    rw [hvalue] at hlevel
    cases hlevel

theorem step_request (h : step L count s (.request j params) = some s') :
    j < count ∧
      s' = (Network.proceed (HandlerCall.exec L) j (loggingSetLevel count j params) s).2 := by
  rw [step] at h
  split at h
  · exact ⟨‹_›, (Option.some.inj h).symm⟩
  · cases h

theorem Shows.request (h : Shows s n) (level : LogLevel) :
    Shows (Network.postAll j (message level) ((List.range count).filter (· ≠ j))
      { s with shards := Function.update s.shards j { s.shards j with clientLogLevel := level } })
      (n.write count j level) where
  value i := by
    rw [Network.shards_postAll]
    by_cases hi : i = j
    · subst hi
      simp [Broadcasts.Net.write]
    · simp [Broadcasts.Net.write, hi, h.value]
  channel k i := by
    rw [Network.channel_postAll _ _ (List.nodup_range.filter _), Broadcasts.Net.channel_write]
    simp only [List.mem_filter, List.mem_range, decide_eq_true_eq]
    split
    · rw [h.channel, List.map_append]
      rfl
    · exact h.channel k i

theorem Shows.deliver (h : Shows s n) {k i : ℕ}
    (hstep : s.deliver (HandlerCall.exec L) k i = some s') :
    ∃ n', n.deliver k i = some n' ∧ Shows s' n' := by
  have hchannel := h.channel k i
  unfold Network.deliver at hstep
  unfold Broadcasts.Net.deliver
  cases hvalues : n.channel k i with
  | nil =>
    rw [hchannel, hvalues] at hstep
    cases hstep
  | cons level rest =>
    rw [hvalues, List.map_cons] at hchannel
    rw [hchannel] at hstep
    obtain rfl := Option.some.inj hstep
    refine ⟨_, rfl, ⟨fun i' => ?_, fun k' i' => ?_⟩⟩
    · by_cases hi : i' = i
      · subst hi
        simp [message, Coroutine.perform, Network.proceed, Broadcasts.Net.arrive, HandlerCall.exec]
      · simp [message, Coroutine.perform, Network.proceed, Broadcasts.Net.arrive, HandlerCall.exec,
          hi, h.value]
    · rw [Broadcasts.Net.channel_arrive]
      by_cases hk : k' = k
      · subst hk
        by_cases hi : i' = i
        · subst hi
          simp [message, Coroutine.perform, Network.proceed]
        · simp [message, Coroutine.perform, Network.proceed, hi, h.channel]
      · simp [message, Coroutine.perform, Network.proceed, hk, h.channel]

theorem broadcast_of_run {cfg : McpServerConfig} {labels : List Label}
    (hcross : Along (step L count) (Uncrossed count) (started cfg) labels)
    (hrun : run (step L count) (started cfg) labels = some s) :
    ∃ n, run (Broadcasts.Net.step count) (.initial .warn) (labels.filterMap Label.broadcast) =
        some n ∧
      Along (Broadcasts.Net.step count) (Broadcasts.Net.Uncrossed count) (.initial .warn)
        (labels.filterMap Label.broadcast) ∧ Shows s n := by
  refine simulates (R := Shows) (C := Uncrossed count) Label.broadcast ?_ ?_
    ⟨fun _ => rfl, fun _ _ => rfl⟩ hcross hrun
  · intro s l s' n hsilent h hstep hl
    cases l with
    | request j params =>
      have hnone : (Label.request j params).level = none := Option.map_eq_none_iff.mp hsilent
      rw [(step_request hstep).2, proceed_loggingSetLevel_of_none hnone]
      exact h
    | deliver k i => exact absurd hsilent (Option.some_ne_none _)
  · intro s l s' n l' hl' h hstep hl
    cases l with
    | request j params =>
      obtain ⟨level, hlevel, rfl⟩ := Option.map_eq_some_iff.mp hl'
      obtain ⟨hj, rfl⟩ := step_request hstep
      rw [proceed_loggingSetLevel hlevel]
      refine ⟨_, if_pos hj, fun k i w hk hi hkj hw => ?_, h.request level⟩
      refine message_inj (hl k i level (message w) hk hi hkj hlevel ?_)
      rw [h.channel, List.getLast?_map, hw]
      rfl
    | deliver k i =>
      obtain rfl := Option.some.inj hl'
      obtain ⟨n', hn', h'⟩ := h.deliver hstep
      exact ⟨n', hn', trivial, h'⟩

theorem latest_broadcast (labels : List Label) :
    Broadcasts.latest .warn (labels.filterMap Label.broadcast) =
      (labels.filterMap Label.level).getLast?.getD .warn := by
  have hlevel : (fun l : Label => l.broadcast.bind Broadcasts.Label.written) = Label.level := by
    funext l
    cases l with
    | request j params =>
      change ((Label.request j params).level.map (Broadcasts.Label.write j)).bind _ = _
      cases (Label.request j params).level <;> rfl
    | deliver k i => rfl
  rw [Broadcasts.latest, List.filterMap_filterMap, hlevel]

end Refinement

/-- In every run without crossing levels, once all messages have arrived every shard has the level
of the last request that has named one. -/
theorem levels_agree (cfg : McpServerConfig) {labels : List Label} {s : Levels}
    (hcross : Along (step L count) (Uncrossed count) (started cfg) labels)
    (hrun : run (step L count) (started cfg) labels = some s)
    (hdone : ∀ k i, k < count → i < count → s.channel k i = []) {i : ℕ} (hi : i < count) :
    (s.shards i).clientLogLevel = (labels.filterMap Label.level).getLast?.getD .warn := by
  obtain ⟨n, hbroadcast, halong, hshows⟩ := broadcast_of_run hcross hrun
  have hempty : ∀ k i, k < count → i < count → n.channel k i = [] := fun k i hk hi => by
    rw [← List.map_eq_nil_iff (f := message), ← hshows.channel]
    exact hdone k i hk hi
  rw [hshows.value, Broadcasts.Net.agree_of_run halong hbroadcast hempty hi, latest_broadcast]

section Example

def setLevel (j : ℕ) (level : Str) : Label :=
  .request j (.ofMembers [("level".toList, .string level)])

def clear (count : ℕ) (s : Levels) (l : Label) (_ : Levels) : Bool :=
  match l with
  | .request j _ => (List.range count).all (fun k =>
      (List.range count).all (fun i => k == j || (s.channel k i).isEmpty))
  | .deliver _ _ => true

theorem uncrossed_of_clear {count : ℕ} {s s' : Levels} {l : Label} (h : clear count s l s') :
    Uncrossed count s l s' := by
  cases l with
  | request j params =>
    intro k i level t hk hi hkj _ ht
    simp only [clear, List.all_eq_true, List.mem_range, Bool.or_eq_true, beq_iff_eq] at h
    rw [List.isEmpty_iff.mp ((h k hk i hi).resolve_left hkj)] at ht
    cases ht
  | deliver k i => trivial

def quiet (s : Levels) : Bool :=
  (List.range 2).all (fun k => (List.range 2).all (fun i => (s.channel k i).isEmpty))

theorem channel_of_quiet {s : Levels} (h : quiet s) :
    ∀ k i, k < 2 → i < 2 → s.channel k i = [] := by
  intro k i hk hi
  simp only [quiet, List.all_eq_true, List.mem_range] at h
  exact List.isEmpty_iff.mp (h k hk i hi)

def inTurn : List Label :=
  [setLevel 0 "debug".toList, .deliver 0 1, setLevel 1 "error".toList, .deliver 1 0]

theorem levels_agree_inTurn : ∃ s, run (step CompactJson.library 2) (started .standard) inTurn =
    some s ∧ ∀ i, i < 2 → (s.shards i).clientLogLevel = .error := by
  have hrun : (testedRun (step CompactJson.library 2) (clear 2) (started .standard) inTurn).any
      quiet := by decide +kernel
  obtain ⟨s, hs, hquiet⟩ := (Option.any_eq_true _ _).mp hrun
  obtain ⟨hrun, hcross⟩ := along_of_testedRun (P := Uncrossed 2)
    (fun _ _ _ h => uncrossed_of_clear h) hs
  refine ⟨s, hrun, fun i hi => ?_⟩
  rw [levels_agree CompactJson.library 2 .standard hcross hrun (channel_of_quiet hquiet) hi]
  decide +kernel

def crossing : List Label :=
  [setLevel 0 "debug".toList, setLevel 1 "error".toList, .deliver 0 1, .deliver 1 0]

/-- When all messages have arrived each shard has the level of the other's request. -/
theorem crossing_disagree : ∃ s, run (step CompactJson.library 2) (started .standard) crossing =
    some s ∧ (∀ k i, k < 2 → i < 2 → s.channel k i = []) ∧
      (s.shards 0).clientLogLevel ≠ (s.shards 1).clientLogLevel := by
  have hrun : (run (step CompactJson.library 2) (started .standard) crossing).any (fun s =>
      quiet s && (s.shards 0).clientLogLevel != (s.shards 1).clientLogLevel) := by
    decide +kernel
  obtain ⟨s, hs, hp⟩ := (Option.any_eq_true _ _).mp hrun
  simp only [Bool.and_eq_true, bne_iff_ne] at hp
  exact ⟨s, hs, channel_of_quiet hp.1, hp.2⟩

end Example

end McpSdk.ClientLogLevels

import McpSdk.LabelledRuns
import Mathlib.Logic.Function.Basic

/-!
# A value with a copy on every node

A node that writes the value changes its own copy at once and sends the new value to every other
node. Between two nodes values arrive in the order in which they were sent, between others in
any order, so writes on two nodes may cross and leave different copies. If no write crosses another
value under way, then the newest value in every channel is the last one written, and the copies
agree on it as soon as nothing is under way.
-/

namespace Broadcasts
open LabelledRuns

/-- The copies, and the values that are under way from one node to another, oldest first. -/
structure Net (V : Type*) where
  value : ℕ → V
  channel : ℕ → ℕ → List V

inductive Label (V : Type*)
  | write (j : ℕ) (v : V)
  | deliver (k i : ℕ)

variable {V : Type*}

namespace Net

/-- All copies are the same, and nothing is under way. -/
def initial (v : V) : Net V := ⟨fun _ => v, fun _ _ => []⟩

/-- Node `j` of `count` writes. -/
def write (count j : ℕ) (v : V) (n : Net V) : Net V where
  value := Function.update n.value j v
  channel k i := if k = j ∧ i < count ∧ i ≠ j then n.channel k i ++ [v] else n.channel k i

/-- The value `v` arrives from `k` at `i`, and leaves `rest` behind it. -/
def arrive (k i : ℕ) (v : V) (rest : List V) (n : Net V) : Net V where
  value := Function.update n.value i v
  channel := Function.update n.channel k (Function.update (n.channel k) i rest)

/-- The oldest value from `k` to `i` arrives. -/
def deliver (k i : ℕ) (n : Net V) : Option (Net V) :=
  match n.channel k i with
  | [] => none
  | v :: rest => some (n.arrive k i v rest)

def step (count : ℕ) (n : Net V) : Label V → Option (Net V)
  | .write j v => if j < count then some (n.write count j v) else none
  | .deliver k i => n.deliver k i

/-- A write meets no other value from another node: the newest value in each of their channels is
the one it writes. -/
def Uncrossed (count : ℕ) (n : Net V) : Label V → Net V → Prop
  | .write j v, _ => ∀ k i w, k < count → i < count → k ≠ j →
      (n.channel k i).getLast? = some w → w = v
  | .deliver _ _, _ => True

/-- The copies are on their way to the value `v`. -/
structure Settles (count : ℕ) (v : V) (n : Net V) : Prop where
  unused : ∀ k i, ¬(k < count ∧ i < count ∧ i ≠ k) → n.channel k i = []
  newest : ∀ k i w, (n.channel k i).getLast? = some w → w = v
  arrived : ∀ i, i < count → (∀ k, k < count → n.channel k i = []) → n.value i = v

end Net

/-- The value that a step writes. -/
def Label.written : Label V → Option V
  | .write _ v => some v
  | .deliver _ _ => none

/-- The last value written, or `v`. -/
def latest (v : V) (labels : List (Label V)) : V :=
  (labels.filterMap Label.written).getLast?.getD v

theorem latest_write (v : V) (j : ℕ) (w : V) (labels : List (Label V)) :
    latest v (.write j w :: labels) = latest w labels := by
  rw [latest, List.filterMap_cons_some (f := Label.written) rfl, List.getLast?_cons]
  rfl

theorem latest_deliver (v : V) (k i : ℕ) (labels : List (Label V)) :
    latest v (.deliver k i :: labels) = latest v labels := by
  rw [latest, List.filterMap_cons_none rfl]
  rfl

namespace Net
variable {count : ℕ} {v : V} {n n' : Net V}

theorem channel_write (count j : ℕ) (v : V) (n : Net V) (k i : ℕ) :
    (n.write count j v).channel k i =
      if k = j ∧ i < count ∧ i ≠ j then n.channel k i ++ [v] else n.channel k i := rfl

theorem channel_arrive (n : Net V) (k i : ℕ) (v : V) (rest : List V) (k' i' : ℕ) :
    (n.arrive k i v rest).channel k' i' =
      if k' = k ∧ i' = i then rest else n.channel k' i' := by
  by_cases hk : k' = k
  · subst hk
    by_cases hi : i' = i
    · simp [arrive, hi]
    · simp [arrive, hi]
  · simp [arrive, hk]

theorem write_cases {j : ℕ} {v : V} (h : n.step count (.write j v) = some n') :
    j < count ∧ n' = n.write count j v := by
  rw [step] at h
  split at h
  · exact ⟨‹_›, (Option.some.inj h).symm⟩
  · cases h

theorem deliver_cases {k i : ℕ} (h : n.deliver k i = some n') :
    ∃ v rest, n.channel k i = v :: rest ∧ n' = n.arrive k i v rest := by
  unfold deliver at h
  split at h
  · cases h
  · rename_i w rest hchannel
    exact ⟨w, rest, hchannel, (Option.some.inj h).symm⟩

theorem settles_initial (count : ℕ) (v : V) : (initial v).Settles count v where
  unused _ _ _ := rfl
  newest _ _ _ h := by cases h
  arrived _ _ _ := rfl

/-- A write that crosses nothing takes over: behind it there is its own value only. -/
theorem Settles.write (h : n.Settles count v) {j : ℕ} (hj : j < count) {w : V}
    (hcross : ∀ k i u, k < count → i < count → k ≠ j →
      (n.channel k i).getLast? = some u → u = w) :
    (n.write count j w).Settles count w where
  unused k i hi := by
    have hsent : ¬(k = j ∧ i < count ∧ i ≠ j) := by
      rintro ⟨rfl, htarget⟩
      exact hi ⟨hj, htarget⟩
    rw [channel_write, if_neg hsent, h.unused k i hi]
  newest k i u hu := by
    rw [channel_write] at hu
    split at hu
    · rw [List.getLast?_concat] at hu
      exact (Option.some.inj hu).symm
    · rename_i hsent
      by_cases hk : k = j
      · subst hk
        rw [h.unused k i (fun hi => hsent ⟨rfl, hi.2⟩)] at hu
        cases hu
      · by_cases hused : k < count ∧ i < count ∧ i ≠ k
        · exact hcross k i u hused.1 hused.2.1 hk hu
        · rw [h.unused k i hused] at hu
          cases hu
  arrived i hi hempty := by
    by_cases hij : i = j
    · subst hij
      exact Function.update_self _ _ _
    · have hsent := hempty j hj
      rw [channel_write, if_pos ⟨rfl, hi, hij⟩] at hsent
      exact absurd hsent (List.append_ne_nil_of_right_ne_nil _ (List.cons_ne_nil _ _))

/-- A value that arrives leaves the newer ones behind it, and is the last one written if there are
none. -/
theorem Settles.deliver (h : n.Settles count v) {k i : ℕ} (hstep : n.deliver k i = some n') :
    n'.Settles count v := by
  obtain ⟨w, rest, hchannel, rfl⟩ := deliver_cases hstep
  constructor
  · intro k' i' hi
    rw [channel_arrive]
    split
    · rename_i hsame
      obtain ⟨rfl, rfl⟩ := hsame
      rw [h.unused k' i' hi] at hchannel
      cases hchannel
    · exact h.unused k' i' hi
  · intro k' i' u hu
    rw [channel_arrive] at hu
    split at hu
    · refine h.newest k i u ?_
      rw [hchannel, List.getLast?_cons, hu]
      rfl
    · exact h.newest k' i' u hu
  · intro i' hi hempty
    by_cases hii : i' = i
    · subst hii
      have hk : k < count := by
        by_contra hk
        rw [h.unused k i' (fun hused => hk hused.1)] at hchannel
        cases hchannel
      have hrest := hempty k hk
      rw [channel_arrive, if_pos ⟨rfl, rfl⟩] at hrest
      rw [show (n.arrive k i' w rest).value i' = w from Function.update_self _ _ _]
      refine h.newest k i' w ?_
      rw [hchannel, hrest]
      rfl
    · rw [show (n.arrive k i w rest).value i' = n.value i' from Function.update_of_ne hii _ _]
      refine h.arrived i' hi (fun k' hk' => ?_)
      have hchannel' := hempty k' hk'
      rwa [channel_arrive, if_neg (fun hsame => hii hsame.2)] at hchannel'

theorem settles_of_run {labels : List (Label V)} (h : n.Settles count v)
    (hcross : Along (step count) (Uncrossed count) n labels)
    (hrun : run (step count) n labels = some n') :
    n'.Settles count (latest v labels) := by
  induction labels generalizing n v with
  | nil =>
    obtain rfl : n = n' := Option.some.inj hrun
    exact h
  | cons label labels ih =>
    rw [run_cons, Option.bind_eq_some_iff] at hrun
    obtain ⟨n₁, hstep, hrun⟩ := hrun
    obtain ⟨hlabel, hrest⟩ := hcross n₁ hstep
    cases label with
    | write j w =>
      obtain ⟨hj, rfl⟩ := write_cases hstep
      rw [latest_write]
      exact ih (h.write hj hlabel) hrest hrun
    | deliver k i =>
      rw [latest_deliver]
      exact ih (h.deliver hstep) hrest hrun

theorem agree_of_run {labels : List (Label V)}
    (hcross : Along (step count) (Uncrossed count) (initial v) labels)
    (hrun : run (step count) (initial v) labels = some n')
    (hempty : ∀ k i, k < count → i < count → n'.channel k i = []) {i : ℕ} (hi : i < count) :
    n'.value i = latest v labels :=
  (settles_of_run (settles_initial count v) hcross hrun).arrived i hi (fun k hk => hempty k i hk hi)

end Net
end Broadcasts

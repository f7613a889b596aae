import McpSdk.CooperativeTasks
import Mathlib.Data.List.Basic
import Mathlib.Logic.Function.Basic

/-!
# Messages between shards

Shards that send each other tasks: between two shards the tasks arrive in the order in which they
were sent, and run where they arrive. A task runs up to its first suspension without
interruption; all that it sends before is under way then.
-/

namespace CooperativeTasks
variable {I : Interface} {ι ε α σ : Type}

/-- The shards, and the tasks that are under way from one to another, oldest first. -/
structure Network (I : Interface) (ι ε σ : Type) where
  shards : Nat → σ
  channel : Nat → Nat → List (Coroutine I ι ε Unit)

namespace Network
variable (exec : (op : I.Op) → σ → I.Res op × σ)

/-- Shard `k` sends a task to shard `i`. -/
def post (k i : Nat) (t : Coroutine I ι ε Unit) (s : Network I ι ε σ) : Network I ι ε σ :=
  { s with channel := fun k' i' =>
      if k' = k ∧ i' = i then s.channel k' i' ++ [t] else s.channel k' i' }

/-- What is left of a task that runs on shard `j` up to its first suspension, and the network
then. -/
def proceed : {α : Type} → Nat → Coroutine I ι ε α → Network I ι ε σ →
    Coroutine I ι ε α × Network I ι ε σ
  | _, j, .call op k, s =>
      proceed j (k (exec op (s.shards j)).1)
        { s with shards := Function.update s.shards j (exec op (s.shards j)).2 }
  | _, j, .invokeOn i t k, s => proceed j k (s.post j i t)
  | _, _, t, s => (t, s)

/-- The oldest task from `k` to `i` arrives and runs. -/
def deliver (k i : Nat) (s : Network I ι ε σ) : Option (Network I ι ε σ) :=
  match s.channel k i with
  | [] => none
  | t :: rest => some (proceed exec i t { s with
      channel := Function.update s.channel k (Function.update (s.channel k) i rest) }).2

variable {exec} {s : Network I ι ε σ}

theorem proceed_perform_bind {j : Nat} {op : I.Op} {k : I.Res op → Coroutine I ι ε α} :
    proceed exec j (Coroutine.perform op >>= k) s = proceed exec j (k (exec op (s.shards j)).1)
      { s with shards := Function.update s.shards j (exec op (s.shards j)).2 } := rfl

/-- The tasks that one task sends to a number of shards. -/
def postAll (j : Nat) (t : Coroutine I ι ε Unit) (ns : List Nat) (s : Network I ι ε σ) :
    Network I ι ε σ :=
  ns.foldl (fun s n => s.post j n t) s

theorem shards_postAll (j : Nat) (t : Coroutine I ι ε Unit) (ns : List Nat)
    (s : Network I ι ε σ) : (s.postAll j t ns).shards = s.shards := by
  induction ns generalizing s with
  | nil => rfl
  | cons n ns ih => exact ih (s.post j n t)

theorem channel_postAll (j : Nat) (t : Coroutine I ι ε Unit) {ns : List Nat} (hns : ns.Nodup)
    (s : Network I ι ε σ) (k i : Nat) : (s.postAll j t ns).channel k i =
      if k = j ∧ i ∈ ns then s.channel k i ++ [t] else s.channel k i := by
  induction ns generalizing s with
  | nil => exact (if_neg (fun h => List.not_mem_nil h.2)).symm
  | cons n ns ih =>
    obtain ⟨hn, hns⟩ := List.nodup_cons.mp hns
    refine (ih hns (s.post j n t)).trans ?_
    by_cases hi : i = n
    · subst hi
      simp [post, hn]
    · simp [post, hi]

/-- A task that invokes another on all other shards sends it to each of them, and waits. -/
theorem proceed_invokeOnOthers {gathered : Nat → I.Op} {count j : Nat}
    {t : Coroutine I ι ε Unit} {k : Unit → Coroutine I ι ε α} :
    proceed exec j (Coroutine.invokeOnOthers gathered count j t >>= k) s =
      (.wait (gathered ((List.range count).filter (· ≠ j)).length) (fun _ => k ()),
        s.postAll j t ((List.range count).filter (· ≠ j))) := by
  have step : ∀ (m : Nat) (ns : List Nat) (s : Network I ι ε σ),
      proceed exec j ((ns.foldr (fun n rest => Coroutine.invokeOn n t rest)
        (.wait (gathered m) (fun _ => .ret ()))) >>= k) s =
        (.wait (gathered m) (fun _ => k ()), s.postAll j t ns) := by
    intro m ns
    induction ns with
    | nil => exact fun s => rfl
    | cons n ns ih => exact fun s => ih (s.post j n t)
  exact step _ _ s

end Network
end CooperativeTasks

import Mathlib.Data.Option.Basic
import Mathlib.Data.List.Basic
import Mathlib.Data.List.Induction

/-!
# Runs of a labelled transition system

A system is a partial step function: `step s e` is the state after the labelled step `e`, or
`none` where `e` is not possible. A run is a list of labels. `Along P` says that every
step a run takes satisfies `P`; the rules below derive it from an invariant.
-/

namespace LabelledRuns

variable {σ : Type*} {ε : Type*} (step : σ → ε → Option σ)

/-- The state a run leads to, if all its steps are possible. -/
def run : σ → List ε → Option σ
  | s, [] => some s
  | s, e :: es => (step s e).bind (fun s' => run s' es)

/-- Every step taken by the run satisfies `P`, up to the first impossible one. -/
def Along (P : σ → ε → σ → Prop) : σ → List ε → Prop
  | _, [] => True
  | s, e :: es => ∀ s', step s e = some s' → P s e s' ∧ Along P s' es

variable {step}

@[simp] theorem run_nil (s : σ) : run step s [] = some s := rfl

theorem run_cons (s : σ) (e : ε) (es : List ε) :
    run step s (e :: es) = (step s e).bind (fun s' => run step s' es) := rfl

theorem run_singleton (s : σ) (e : ε) : run step s [e] = step s e := by
  rw [run_cons]
  cases step s e <;> rfl

@[simp] theorem along_nil (P : σ → ε → σ → Prop) (s : σ) : Along step P s [] := trivial

theorem along_cons {P : σ → ε → σ → Prop} {s s' : σ} {e : ε} (es : List ε)
    (h : step s e = some s') : Along step P s (e :: es) ↔ P s e s' ∧ Along step P s' es := by
  refine ⟨fun ha => ha s' h, fun ha t ht => ?_⟩
  obtain rfl : s' = t := Option.some.inj (h.symm.trans ht)
  exact ha

theorem along_true (s : σ) (es : List ε) : Along step (fun _ _ _ => True) s es := by
  induction es generalizing s with
  | nil => trivial
  | cons e es ih => exact fun s' _ => ⟨trivial, ih s'⟩

theorem run_append (s : σ) (es fs : List ε) :
    run step s (es ++ fs) = (run step s es).bind (fun s' => run step s' fs) := by
  induction es generalizing s with
  | nil => rfl
  | cons e es ih =>
    rw [List.cons_append, run_cons, run_cons, Option.bind_assoc]
    congr 1
    funext s'
    exact ih s'

theorem run_trans {s t u : σ} {es fs : List ε} (h : run step s es = some t)
    (h' : run step t fs = some u) : run step s (es ++ fs) = some u := by
  rw [run_append, h, Option.bind_some, h']

theorem along_of_invariant {I : σ → Prop} {C P : σ → ε → σ → Prop}
    (hstep : ∀ s e s', I s → step s e = some s' → C s e s' → I s' ∧ P s e s')
    {s : σ} (hs : I s) {es : List ε} (hc : Along step C s es) : Along step P s es := by
  induction es generalizing s with
  | nil => trivial
  | cons e es ih =>
    intro s' h
    obtain ⟨hce, hcs⟩ := hc s' h
    obtain ⟨hI, hP⟩ := hstep s e s' hs h hce
    exact ⟨hP, ih hI hcs⟩

/-- The same rule for the state a run ends in. -/
theorem invariant_of_run {I : σ → Prop} {C : σ → ε → σ → Prop}
    (hstep : ∀ s e s', I s → step s e = some s' → C s e s' → I s')
    {s t : σ} (hs : I s) {es : List ε} (hc : Along step C s es) (hrun : run step s es = some t) :
    I t := by
  induction es generalizing s with
  | nil =>
    obtain rfl : s = t := Option.some.inj hrun
    exact hs
  | cons e es ih =>
    rw [run_cons, Option.bind_eq_some_iff] at hrun
    obtain ⟨s', h, hrun⟩ := hrun
    obtain ⟨hce, hcs⟩ := hc s' h
    exact ih (hstep s e s' hs h hce) hcs hrun

/-- The steps that a run takes after another. -/
theorem along_append {P : σ → ε → σ → Prop} {s : σ} {es fs : List ε} :
    Along step P s (es ++ fs) ↔
      Along step P s es ∧ ∀ t, run step s es = some t → Along step P t fs := by
  induction es generalizing s with
  | nil => simp [Along, run]
  | cons e es ih =>
    simp only [List.cons_append, Along, run_cons, Option.bind_eq_some_iff]
    constructor
    · intro h
      exact ⟨fun s' hs => ⟨(h s' hs).1, (ih.mp (h s' hs).2).1⟩,
        fun t ⟨s', hs, hrun⟩ => (ih.mp (h s' hs).2).2 t hrun⟩
    · intro h s' hs
      exact ⟨(h.1 s' hs).1, ih.mpr ⟨(h.1 s' hs).2, fun t hrun => h.2 t ⟨s', hs, hrun⟩⟩⟩

/-- What holds at the start and survives every further step that satisfies `C` holds in every state
a run of such steps leads to. -/
theorem invariant_of_reached {J : σ → Prop} {C : σ → ε → σ → Prop} {s : σ} (hs : J s)
    (hstep : ∀ es t e t', run step s es = some t → J t → step t e = some t' → C t e t' → J t')
    {t : σ} {es : List ε} (hc : Along step C s es) (hrun : run step s es = some t) : J t := by
  induction es using List.reverseRecOn generalizing t with
  | nil =>
    obtain rfl : s = t := Option.some.inj hrun
    exact hs
  | append_singleton es e ih =>
    rw [run_append] at hrun
    obtain ⟨t₁, hrun₁, hlast⟩ := Option.bind_eq_some_iff.mp hrun
    rw [run_singleton] at hlast
    obtain ⟨hc₁, hcs⟩ := along_append.mp hc
    exact hstep es t₁ e t hrun₁ (ih hc₁ hrun₁) hlast (hcs t₁ hrun₁ t hlast).1

/-- A simulation: steps of one system are matched by steps of another, or by none. -/
theorem simulates {τ φ : Type*} {step' : τ → φ → Option τ} {R : σ → τ → Prop}
    {C : σ → ε → σ → Prop} {D : τ → φ → τ → Prop} (f : ε → Option φ)
    (hsilent : ∀ s e s' t, f e = none → R s t → step s e = some s' → C s e s' → R s' t)
    (hmatch : ∀ s e s' t e', f e = some e' → R s t → step s e = some s' → C s e s' →
      ∃ t', step' t e' = some t' ∧ D t e' t' ∧ R s' t')
    {s s' : σ} {t : τ} {es : List ε} (hR : R s t) (hc : Along step C s es)
    (hrun : run step s es = some s') :
    ∃ t', run step' t (es.filterMap f) = some t' ∧ Along step' D t (es.filterMap f) ∧ R s' t' := by
  induction es generalizing s t with
  | nil =>
    obtain rfl : s = s' := Option.some.inj hrun
    exact ⟨t, rfl, trivial, hR⟩
  | cons e es ih =>
    rw [run_cons, Option.bind_eq_some_iff] at hrun
    obtain ⟨s₁, hs₁, hrun⟩ := hrun
    obtain ⟨hce, hces⟩ := hc s₁ hs₁
    cases hf : f e with
    | none =>
      rw [List.filterMap_cons_none hf]
      exact ih (hsilent s e s₁ t hf hR hs₁ hce) hces hrun
    | some e' =>
      obtain ⟨t₁, ht₁, hd, hR₁⟩ := hmatch s e s₁ t e' hf hR hs₁ hce
      obtain ⟨t', hrun', hds, hR'⟩ := ih hR₁ hces hrun
      rw [List.filterMap_cons_some hf]
      refine ⟨t', ?_, (along_cons _ ht₁).mpr ⟨hd, hds⟩, hR'⟩
      rw [run_cons, ht₁]
      exact hrun'

/-- The state a run leads to, if all its steps are possible and pass the test. -/
def testedRun (step : σ → ε → Option σ) (p : σ → ε → σ → Bool) : σ → List ε → Option σ
  | s, [] => some s
  | s, e :: es => (step s e).bind (fun s' => if p s e s' then testedRun step p s' es else none)

theorem along_of_testedRun {p : σ → ε → σ → Bool} {P : σ → ε → σ → Prop}
    (hp : ∀ s e s', p s e s' → P s e s') {s t : σ} {es : List ε}
    (h : testedRun step p s es = some t) : run step s es = some t ∧ Along step P s es := by
  induction es generalizing s with
  | nil => exact ⟨h, trivial⟩
  | cons e es ih =>
    obtain ⟨s', hs, h⟩ := Option.bind_eq_some_iff.mp h
    split at h
    · obtain ⟨hrun, halong⟩ := ih h
      refine ⟨?_, (along_cons es hs).mpr ⟨hp s e s' ‹_›, halong⟩⟩
      rw [run_cons, hs]
      exact hrun
    · cases h

end LabelledRuns

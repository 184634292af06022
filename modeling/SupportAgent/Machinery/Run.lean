import Mathlib.Data.List.Basic

/-!
# Machinery/Run — the states a machine reaches

A machine is a partial step `σ → α → Option σ`: a move that is not possible in a state gives `none`.
`Reachable` collects the states of every run whose moves all *meet* a condition, so one induction
(`Reachable.invariant`) serves the unconditional runs (`anyMove`) and the conditional ones alike.
-/

namespace Run

variable {σ α : Type*}

/-- No condition on the moves of a run. -/
def anyMove : σ → α → Prop := fun _ _ => True

/-- The states of the runs from `init` whose moves all meet `meets`. -/
inductive Reachable (step : σ → α → Option σ) (meets : σ → α → Prop) (init : σ → Prop) : σ → Prop
  | start {s : σ} : init s → Reachable step meets init s
  | next {s s' : σ} {a : α} : Reachable step meets init s → meets s a → step s a = some s' →
      Reachable step meets init s'

variable {step : σ → α → Option σ} {meets : σ → α → Prop} {init : σ → Prop}

/-- **What holds at the start and survives every move holds in every state reached.** -/
theorem Reachable.invariant {P : σ → Prop} {s : σ} (h : Reachable step meets init s)
    (h₀ : ∀ s, init s → P s)
    (hstep : ∀ s a s', P s → meets s a → step s a = some s' → P s') : P s := by
  induction h with
  | start hs => exact h₀ _ hs
  | next _ hm hs ih => exact hstep _ _ _ ih hm hs

/-- A step whose move also passes a test. -/
def tested (ok : σ → α → Bool) (step : σ → α → Option σ) (s : σ) (a : α) : Option σ :=
  if ok s a then step s a else none

/-- **A concrete run, replayed**: if its moves pass a test of the condition, the state it ends in is
reachable. -/
theorem Reachable.replay (ok : σ → α → Bool) (hok : ∀ s a, ok s a = true → meets s a)
    {s : σ} (h : Reachable step meets init s) (as : List α) (p : σ → Bool)
    (hp : (as.foldlM (tested ok step) s).any p = true) :
    ∃ s', Reachable step meets init s' ∧ p s' = true := by
  induction as generalizing s with
  | nil => exact ⟨s, h, hp⟩
  | cons a as ih =>
    obtain ⟨s', hs', hps'⟩ := (Option.any_eq_true _ _).mp hp
    rw [List.foldlM_cons] at hs'
    obtain ⟨t, ht, hs'⟩ := Option.bind_eq_some_iff.mp hs'
    unfold tested at ht
    split at ht
    case isFalse => simp at ht
    case isTrue hoka =>
      exact ih (h.next (hok s a hoka) ht) ((Option.any_eq_true _ _).mpr ⟨s', hs', hps'⟩)

/-- The state a run ends in is reached. -/
theorem Reachable.of_run (hm : ∀ s a, meets s a) {s s' : σ} (h : Reachable step meets init s)
    {as : List α} (hrun : as.foldlM step s = some s') : Reachable step meets init s' := by
  induction as generalizing s with
  | nil => exact Option.some.inj hrun ▸ h
  | cons a as ih =>
    rw [List.foldlM_cons] at hrun
    obtain ⟨t, ht, hrun⟩ := Option.bind_eq_some_iff.mp hrun
    exact ih (h.next (hm s a) ht) hrun

/-- The condition may be relaxed. -/
theorem Reachable.mono {meets' : σ → α → Prop} {s : σ} (h : Reachable step meets init s)
    (hm : ∀ s a, meets s a → meets' s a) : Reachable step meets' init s := by
  induction h with
  | start hs => exact .start hs
  | next _ ha hs ih => exact ih.next (hm _ _ ha) hs

/-! ## Runs with their past -/

/-- A machine that keeps the states it was in, the last one first. -/
def recorded (step : σ → α → Option σ) (h : σ × List σ) (a : α) : Option (σ × List σ) :=
  (step h.1 a).map fun s => (s, h.1 :: h.2)

/-- The states of the runs from `init` whose moves all meet `meets`, each with the states before
it. -/
abbrev Recorded (step : σ → α → Option σ) (meets : σ → α → Prop)
    (init : σ → Prop) : σ × List σ → Prop :=
  Reachable (recorded step) (fun h => meets h.1) fun h => init h.1 ∧ h.2 = []

/-- **What holds at the start and survives every move holds all along**, and each state before is
related to the one reached as the moves relate states. -/
theorem Recorded.invariant {J : σ → Prop} {R : σ → σ → Prop}
    (htrans : ∀ s t u, R s t → R t u → R s u) {h : σ × List σ} (hr : Recorded step meets init h)
    (h₀ : ∀ s, init s → J s)
    (hstep : ∀ s a s', J s → meets s a → step s a = some s' → J s' ∧ R s s') :
    J h.1 ∧ ∀ s ∈ h.2, J s ∧ R s h.1 := by
  refine Reachable.invariant (P := fun h => J h.1 ∧ ∀ s ∈ h.2, J s ∧ R s h.1) hr ?_ ?_
  · rintro ⟨s, past⟩ ⟨hs, rfl⟩
    exact ⟨h₀ s hs, List.forall_mem_nil _⟩
  · rintro ⟨s, past⟩ a h' ⟨hs, hpast⟩ hm hnext
    obtain ⟨s', hs', rfl⟩ := Option.map_eq_some_iff.mp hnext
    obtain ⟨hJ, hR⟩ := hstep s a s' hs hm hs'
    refine ⟨hJ, List.forall_mem_cons.mpr ⟨⟨hs, hR⟩, fun t ht => ?_⟩⟩
    exact ⟨(hpast t ht).1, htrans _ _ _ (hpast t ht).2 hR⟩

end Run

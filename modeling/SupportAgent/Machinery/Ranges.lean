import Mathlib.Data.List.Infix

/-!
# Machinery/Ranges — elements of a list with a range each, one after another

`Ordered` ranges may have gaps between them, `Consecutive` ones have none.  A stretch of ordered
ranges is fixed by where it begins and ends: `Ordered.eq_filter`.
-/

namespace Ranges

/-! ## Ranges in order -/

section

variable {α : Type} {lo hi : α → ℕ} {l run : List α}

/-- **Ranges in order**: none of them empty, each after those before it. -/
structure Ordered (lo hi : α → ℕ) (l : List α) : Prop where
  lt : ∀ x ∈ l, lo x < hi x
  pairwise : l.Pairwise fun x y => hi x ≤ lo y

theorem Ordered.stretch (h : Ordered lo hi l) (hrun : run <:+: l) : Ordered lo hi run :=
  ⟨fun x hx => h.lt x (hrun.subset hx), h.pairwise.sublist hrun.sublist⟩

/-- The first range begins first and the last one ends last. -/
theorem Ordered.bounds (h : Ordered lo hi l) (hne : l ≠ []) {x : α} (hx : x ∈ l) :
    lo (l.head hne) ≤ lo x ∧ hi x ≤ hi (l.getLast hne) := by
  constructor
  · obtain ⟨first, rest, rfl⟩ := List.exists_cons_of_ne_nil hne
    obtain rfl | hx := List.mem_cons.1 hx
    · exact le_rfl
    · exact (h.lt first List.mem_cons_self).le.trans ((List.pairwise_cons.1 h.pairwise).1 x hx)
  · obtain ⟨front, final, rfl⟩ := l.eq_nil_or_concat'.resolve_left hne
    rw [List.getLast_concat]
    obtain hx | hx := List.mem_append.1 hx
    · have hfinal : final ∈ front ++ [final] := List.mem_append_right _ (List.mem_singleton_self _)
      have hprecedes :=
        (List.pairwise_append.1 h.pairwise).2.2 x hx final (List.mem_singleton_self _)
      exact hprecedes.trans (h.lt final hfinal).le
    · rw [List.mem_singleton.1 hx]

/-- A position is in one range only. -/
theorem Ordered.eq_of_mem (h : Ordered lo hi l) {x y : α} (hx : x ∈ l) (hy : y ∈ l) {i : ℕ}
    (hxi : lo x ≤ i ∧ i < hi x) (hyi : lo y ≤ i ∧ i < hi y) : x = y := by
  obtain ⟨xs, ys, rfl⟩ := List.append_of_mem hx
  have hpairwise := h.pairwise
  rw [List.pairwise_append, List.pairwise_cons] at hpairwise
  obtain ⟨-, ⟨hys, -⟩, hxs⟩ := hpairwise
  obtain hy | hy := List.mem_append.1 hy
  · have := hxs y hy x List.mem_cons_self
    omega
  obtain rfl | hy := List.mem_cons.1 hy
  · rfl
  · have := hys y hy
    omega

/-- **A stretch is what lies between its ends.** -/
theorem Ordered.eq_filter (h : Ordered lo hi l) (hrun : run <:+: l) (hne : run ≠ []) :
    run = l.filter fun x => decide (lo (run.head hne) ≤ lo x ∧ hi x ≤ hi (run.getLast hne)) := by
  have hbounds : ∀ x ∈ run, lo (run.head hne) ≤ lo x ∧ hi x ≤ hi (run.getLast hne) := fun x hx =>
    (h.stretch hrun).bounds hne hx
  obtain ⟨before, after, rfl⟩ := hrun
  have hpairwise := h.pairwise
  rw [List.append_assoc, List.pairwise_append, List.pairwise_append] at hpairwise
  obtain ⟨-, ⟨-, -, hafter⟩, hbefore⟩ := hpairwise
  have hbefore' : before.filter
      (fun x => decide (lo (run.head hne) ≤ lo x ∧ hi x ≤ hi (run.getLast hne))) = [] := by
    refine List.filter_eq_nil_iff.2 fun x hx => ?_
    have := h.lt x (by simp [hx])
    have := hbefore x hx _ (List.mem_append_left _ (List.head_mem hne))
    rw [decide_eq_true_eq]
    omega
  have hafter' : after.filter
      (fun x => decide (lo (run.head hne) ≤ lo x ∧ hi x ≤ hi (run.getLast hne))) = [] := by
    refine List.filter_eq_nil_iff.2 fun x hx => ?_
    have := h.lt x (by simp [hx])
    have := hafter _ (List.getLast_mem hne) x hx
    rw [decide_eq_true_eq]
    omega
  rw [List.filter_append, List.filter_append, hbefore', hafter', List.nil_append, List.append_nil]
  exact (List.filter_eq_self.2 fun x hx => decide_eq_true (hbounds x hx)).symm

end

/-! ## Ranges without gaps -/

/-- Ranges that follow one another without a gap, from `a` to `z`, none of them empty. -/
def Consecutive : (a : ℕ) → List (ℕ × ℕ) → (z : ℕ) → Prop
  | a, [], z => a = z
  | a, r :: rs, z => r.1 = a ∧ r.1 < r.2 ∧ Consecutive r.2 rs z

theorem Consecutive.le {a z : ℕ} {rs : List (ℕ × ℕ)} (h : Consecutive a rs z) : a ≤ z := by
  induction rs generalizing a with
  | nil => exact Eq.le h
  | cons r rs ih =>
    obtain ⟨rfl, hlt, hrs⟩ := h
    exact hlt.le.trans (ih hrs)

theorem consecutive_append {a z : ℕ} {rs rs' : List (ℕ × ℕ)} :
    Consecutive a (rs ++ rs') z ↔ ∃ m, Consecutive a rs m ∧ Consecutive m rs' z := by
  induction rs generalizing a with
  | nil => simp [Consecutive]
  | cons r rs ih =>
    rw [List.cons_append, Consecutive, ih]
    simp [Consecutive, and_assoc]

/-- The ranges start and end where they should. -/
theorem Consecutive.bounds {a z : ℕ} {rs : List (ℕ × ℕ)} (h : Consecutive a rs z) {r : ℕ × ℕ}
    (hr : r ∈ rs) : a ≤ r.1 ∧ r.1 < r.2 ∧ r.2 ≤ z := by
  obtain ⟨before, after, rfl⟩ := List.append_of_mem hr
  obtain ⟨m, hbefore, rfl, hlt, hafter⟩ := consecutive_append.1 h
  exact ⟨hbefore.le, hlt, hafter.le⟩

/-- A position between the two ends is in one of the ranges. -/
theorem Consecutive.exists_of_between {a z : ℕ} {rs : List (ℕ × ℕ)} (h : Consecutive a rs z) {i : ℕ}
    (ha : a ≤ i) (hz : i < z) : ∃ r ∈ rs, r.1 ≤ i ∧ i < r.2 := by
  induction rs generalizing a with
  | nil =>
    obtain rfl : a = z := h
    omega
  | cons r rs ih =>
    obtain ⟨rfl, -, hrs⟩ := h
    rcases Nat.lt_or_ge i r.2 with hlt | hge
    · exact ⟨r, List.mem_cons_self, ha, hlt⟩
    · obtain ⟨r', hr', hin⟩ := ih hrs hge
      exact ⟨r', List.mem_cons_of_mem _ hr', hin⟩

theorem Consecutive.ordered {a z : ℕ} {rs : List (ℕ × ℕ)} (h : Consecutive a rs z) :
    Ordered Prod.fst Prod.snd rs := by
  refine ⟨fun r hr => (h.bounds hr).2.1, ?_⟩
  induction rs generalizing a with
  | nil => exact List.Pairwise.nil
  | cons r rs ih => exact List.pairwise_cons.2 ⟨fun r' hr' => (h.2.2.bounds hr').1, ih h.2.2⟩

end Ranges

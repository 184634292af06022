import Mathlib.Algebra.Order.Field.Basic
import Mathlib.Algebra.Order.BigOperators.Group.List
import Mathlib.Order.MinMax
import Mathlib.Tactic.Linarith
import Mathlib.Tactic.Ring

/-!
# Machinery/TokenBucket — a bucket that fills with time and is drained by what it admits

The ideal bucket remembers only the times of its admitted calls: `level` is a function of these and
of the time, so that nothing else can change it.

* `level_advance` — filling composes: the level at a later time is the level now, filled on.
* `admitted_le` — the amortised bound: a stretch of calls admits no more than it starts with and
  gains.
* `sum_lengths_le` — intervals that do not overlap are together no longer than what holds them,
  which turns gains per call into gains per elapsed time.
-/

namespace TokenBucket

variable {K : Type*} [Field K] [LinearOrder K]

/-! ## Filling -/

/-- A level after a gain, never above the capacity. -/
def fill (capacity level gain : K) : K := min capacity (level + gain)

theorem fill_eq_capacity {capacity level gain : K} (h : capacity ≤ level + gain) :
    fill capacity level gain = capacity :=
  min_eq_left h

theorem le_fill {capacity level gain x : K} : x ≤ fill capacity level gain ↔
    x ≤ capacity ∧ x ≤ level + gain :=
  le_min_iff

variable [IsStrictOrderedRing K]

/-- **Filling twice is filling once.** -/
theorem fill_fill {capacity level a b : K} (hb : 0 ≤ b) :
    fill capacity (fill capacity level a) b = fill capacity level (a + b) := by
  rw [fill, fill, fill, min_add, ← min_assoc, min_eq_left (le_add_of_nonneg_right hb), add_assoc]

/-! ## The ideal bucket -/

/-- **The level at `t`** of a bucket full at the start and filled at `rate`, which admitted calls at
`admitted`, latest first. -/
def level (capacity rate : K) : (admitted : List K) → (t : K) → K
  | [], _ => capacity
  | s :: earlier, t => fill capacity (level capacity rate earlier s - 1) (rate * (t - s))

/-- Filling a level on gives the level at the later time. -/
theorem level_advance {capacity rate t u : K} (hrate : 0 ≤ rate) (htu : t ≤ u) (admitted : List K) :
    fill capacity (level capacity rate admitted t) (rate * (u - t)) =
      level capacity rate admitted u := by
  have hgain : 0 ≤ rate * (u - t) := mul_nonneg hrate (sub_nonneg.2 htu)
  cases admitted with
  | nil => exact fill_eq_capacity (le_add_of_nonneg_right hgain)
  | cons s earlier =>
    rw [level, fill_fill hgain, ← mul_add]
    congr 2
    ring

/-! ## What a stretch admits -/

/-- Which calls a bucket at `level` admits, each with what was gained before it. -/
def admissions (capacity : K) : (level : K) → (gains : List K) → List Bool
  | _, [] => []
  | level, gain :: gains =>
    if 1 ≤ fill capacity level gain then
      true :: admissions capacity (fill capacity level gain - 1) gains
    else false :: admissions capacity (fill capacity level gain) gains

/-- **The amortised bound**: what is admitted was there or was gained. -/
theorem admitted_le {capacity : K} (hcapacity : 0 ≤ capacity) {gains : List K}
    (hgains : ∀ g ∈ gains, 0 ≤ g) {level : K} (hlevel : 0 ≤ level) :
    ((admissions capacity level gains).count true : K) ≤ level + gains.sum := by
  induction gains generalizing level with
  | nil => simpa [admissions] using hlevel
  | cons gain gains ih =>
    have hgain : 0 ≤ gain := hgains gain List.mem_cons_self
    have hrest : ∀ g ∈ gains, 0 ≤ g := fun g hg => hgains g (List.mem_cons_of_mem _ hg)
    have hfill : fill capacity level gain ≤ level + gain := min_le_right _ _
    rw [admissions, List.sum_cons]
    split
    · rename_i hone
      have hstep := ih hrest (sub_nonneg.2 hone)
      rw [List.count_cons_self, Nat.cast_succ]
      linarith
    · have hstep := ih hrest (le_fill.2 ⟨hcapacity, add_nonneg hlevel hgain⟩)
      rw [List.count_cons_of_ne (by decide)]
      linarith

/-! ## Intervals that do not overlap -/

/-- Two intervals, each given by its ends, share no inner point. -/
def Apart (p q : K × K) : Prop := p.2 ≤ q.1 ∨ q.2 ≤ p.1

instance : DecidableRel (Apart (K := K)) := fun p q =>
  inferInstanceAs (Decidable (p.2 ≤ q.1 ∨ q.2 ≤ p.1))

/-- **Intervals that do not overlap are together no longer than what holds them.** -/
theorem sum_lengths_le {lo hi : K} (hle : lo ≤ hi) : {intervals : List (K × K)} →
    (∀ p ∈ intervals, lo ≤ p.1 ∧ p.1 ≤ p.2 ∧ p.2 ≤ hi) → intervals.Pairwise Apart →
    (intervals.map fun p => p.2 - p.1).sum ≤ hi - lo
  | [], _, _ => by simpa using hle
  | p :: intervals, hin, hapart => by
    obtain ⟨⟨hlo, hp, hhi⟩, hin⟩ := List.forall_mem_cons.1 hin
    obtain ⟨hfirst, hapart⟩ := List.pairwise_cons.1 hapart
    -- the others lie on either side of the first one
    let below : K × K → Bool := fun q => decide (q.2 ≤ p.1)
    have hbelow : ((intervals.filter below).map fun q => q.2 - q.1).sum ≤ p.1 - lo :=
      sum_lengths_le hlo (fun q hq => by
        obtain ⟨hq, hside⟩ := List.mem_filter.1 hq
        exact ⟨(hin q hq).1, (hin q hq).2.1, of_decide_eq_true hside⟩)
      (hapart.filter _)
    have habove : ((intervals.filter fun q => !below q).map fun q => q.2 - q.1).sum ≤ hi - p.2 :=
      sum_lengths_le hhi (fun q hq => by
        obtain ⟨hq, hside⟩ := List.mem_filter.1 hq
        have hnot : ¬ q.2 ≤ p.1 := by simpa [below] using hside
        exact ⟨(hfirst q hq).resolve_right hnot, (hin q hq).2⟩)
      (hapart.filter _)
    have hsplit := ((List.filter_append_perm below intervals).map fun q => q.2 - q.1).sum_eq
    rw [List.map_append, List.sum_append] at hsplit
    rw [List.map_cons, List.sum_cons, ← hsplit]
    linarith
  termination_by intervals => intervals.length
  decreasing_by all_goals exact Nat.lt_succ_of_le (List.length_filter_le _ _)

/-- The intervals over which a sequence of times goes up. -/
def rises : List K → List (K × K)
  | s :: t :: times => if s < t then (s, t) :: rises (t :: times) else rises (t :: times)
  | _ => []

omit [Field K] [IsStrictOrderedRing K] in
theorem mem_of_mem_rises : {times : List K} → {p : K × K} → p ∈ rises times →
    p.1 ∈ times ∧ p.2 ∈ times ∧ p.1 < p.2
  | s :: t :: times, p, hp => by
    have hrest : p ∈ rises (t :: times) → p.1 ∈ s :: t :: times ∧
        p.2 ∈ s :: t :: times ∧ p.1 < p.2 :=
      fun h => (mem_of_mem_rises h).imp (List.mem_cons_of_mem _)
        (And.imp_left (List.mem_cons_of_mem _))
    rw [rises] at hp
    split at hp
    · rename_i hlt
      obtain rfl | hp := List.mem_cons.1 hp
      · exact ⟨List.mem_cons_self, List.mem_cons_of_mem _ List.mem_cons_self, hlt⟩
      · exact hrest hp
    · exact hrest hp
  | [], _, hp => nomatch hp
  | [_], _, hp => nomatch hp

omit [Field K] [IsStrictOrderedRing K] in
theorem rises_sublist_cons (s : K) (times : List K) :
    (rises times).Sublist (rises (s :: times)) := by
  cases times with
  | nil => exact List.Sublist.slnil
  | cons t times =>
    rw [rises]
    split
    · exact List.sublist_cons_self _ _
    · exact List.Sublist.refl _

omit [Field K] [IsStrictOrderedRing K] in
theorem rises_sublist_append : (times later : List K) →
    (rises times).Sublist (rises (times ++ later))
  | [], _ => List.nil_sublist _
  | [_], _ => List.nil_sublist _
  | s :: t :: times, later => by
    have ih := rises_sublist_append (t :: times) later
    simp only [List.cons_append, rises] at ih ⊢
    split
    · exact ih.cons_cons _
    · exact ih

omit [Field K] [IsStrictOrderedRing K] in
/-- The rises of a stretch are rises of the whole. -/
theorem rises_sublist (before stretch later : List K) :
    (rises stretch).Sublist (rises (before ++ (stretch ++ later))) := by
  refine (rises_sublist_append stretch later).trans ?_
  induction before with
  | nil => exact List.Sublist.refl _
  | cons s before ih => exact ih.trans (rises_sublist_cons s _)

/-- **Rises that do not overlap are together no more than the spread of the times.** -/
theorem sum_rises_le {lo hi : K} {times : List K} (hne : times ≠ [])
    (hin : ∀ t ∈ times, lo ≤ t ∧ t ≤ hi) (hapart : (rises times).Pairwise Apart) :
    ((rises times).map fun p => p.2 - p.1).sum ≤ hi - lo := by
  obtain ⟨t, ht⟩ := List.exists_mem_of_ne_nil times hne
  refine sum_lengths_le ((hin t ht).1.trans (hin t ht).2) (fun p hp => ?_) hapart
  obtain ⟨hfirst, hsecond, hlt⟩ := mem_of_mem_rises hp
  exact ⟨(hin _ hfirst).1, hlt.le, (hin _ hsecond).2⟩

end TokenBucket

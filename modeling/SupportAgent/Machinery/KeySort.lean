import Mathlib.Data.List.Sort

/-!
# Machinery/KeySort — sorting by a key

A comparison that agrees with the order of a key on a list sorts it by that key; where no two
elements have the same key, the order they came in does not matter.
-/

namespace KeySort

variable {α κ : Type} [LinearOrder κ] {key : α → κ} {le : α → α → Bool} {l l' : List α}

/-- The comparison is the order of the keys, on the list. -/
def Sorts (key : α → κ) (le : α → α → Bool) (l : List α) : Prop :=
  ∀ a ∈ l, ∀ b ∈ l, le a b = decide (key a ≤ key b)

theorem mergeSort_eq (h : Sorts key le l) :
    l.mergeSort le = l.mergeSort fun a b => decide (key a ≤ key b) := by
  have hid : ∀ a ∈ l, ∀ b ∈ l, le a b = decide (key (id a) ≤ key (id b)) := h
  have hmap : (l.mergeSort le).map id = (l.map id).mergeSort fun a b => decide (key a ≤ key b) :=
    List.map_mergeSort hid
  rwa [List.map_id, List.map_id] at hmap

/-- **The sorted list is in the order of the keys.** -/
theorem pairwise_mergeSort (h : Sorts key le l) :
    (l.mergeSort le).Pairwise fun a b => key a ≤ key b := by
  rw [mergeSort_eq h]
  have htrans : ∀ a b c : α, decide (key a ≤ key b) = true → decide (key b ≤ key c) = true →
      decide (key a ≤ key c) = true := fun a b c hab hbc =>
    decide_eq_true ((of_decide_eq_true hab).trans (of_decide_eq_true hbc))
  have htotal : ∀ a b : α, (decide (key a ≤ key b) || decide (key b ≤ key a)) = true :=
    fun a b => by
    simpa using le_total (key a) (key b)
  exact (List.pairwise_mergeSort (fun a b c => htrans a b c)
    (fun a b => htotal a b) l).imp of_decide_eq_true

/-- With distinct keys it is strictly so. -/
theorem pairwise_mergeSort_lt (h : Sorts key le l) (hkeys : (l.map key).Nodup) :
    (l.mergeSort le).Pairwise fun a b => key a < key b := by
  have hnodup : ((l.mergeSort le).map key).Nodup :=
    ((List.mergeSort_perm l le).map key).nodup_iff.2 hkeys
  have hne : (l.mergeSort le).Pairwise fun a b => key a ≠ key b := List.pairwise_map.1 hnodup
  exact (pairwise_mergeSort h).imp₂ (fun _ _ hle hne => lt_of_le_of_ne hle hne) hne

/-- **The order the elements came in does not matter.** -/
theorem mergeSort_perm_eq (h : Sorts key le l) (hkeys : (l.map key).Nodup) (hperm : l'.Perm l) :
    l'.mergeSort le = l.mergeSort le := by
  have h' : Sorts key le l' := fun a ha b hb => h a (hperm.subset ha) b (hperm.subset hb)
  have hkeys' : (l'.map key).Nodup := (hperm.map key).nodup_iff.2 hkeys
  have hasymm : ∀ a b : α, a ∈ l'.mergeSort le → b ∈ l.mergeSort le → key a < key b →
      key b < key a →
      a = b := fun a b _ _ hab hba => absurd hba hab.asymm
  exact List.Perm.eq_of_pairwise hasymm (pairwise_mergeSort_lt h' hkeys')
    (pairwise_mergeSort_lt h hkeys)
    ((List.mergeSort_perm l' le).trans (hperm.trans (List.mergeSort_perm l le).symm))

end KeySort

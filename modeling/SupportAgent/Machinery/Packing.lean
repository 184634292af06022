import Mathlib.Algebra.BigOperators.Group.List.Basic
import Mathlib.Algebra.GroupWithZero.Nat
import Mathlib.Data.List.Chain
import Mathlib.Data.List.Infix

/-!
# Machinery/Packing — a list packed into groups under a cap, as greedily as possible

`pack` goes through a list with one open group: an item that no longer fits closes the group and
opens the next.  `Running` is the same from inside a loop, which knows the groups closed so far and
the open one.

* `flatten_pack` — the groups are the list, in order.
* `not_over_of_mem_pack` — a group is within the cap, or a single item.
* `isChain_pack` — a group could not have taken the first item of the next.
-/

namespace Packing

variable {α : Type} (w : α → ℕ) (heavy : ℕ → Bool)

/-- What a group weighs. -/
def weight (g : List α) : ℕ := (g.map w).sum

/-- The groups made of an open one and the items to come. -/
def packFrom : (current : List α) → List α → List (List α)
  | current, [] => if current.isEmpty then [] else [current]
  | current, x :: xs =>
    if !current.isEmpty && heavy (weight w current + w x) then current :: packFrom [x] xs
    else packFrom (current ++ [x]) xs

/-- **Greedy packing.** -/
def pack (xs : List α) : List (List α) := packFrom w heavy [] xs

@[simp] theorem weight_singleton (x : α) : weight w [x] = w x := by simp [weight]

theorem weight_append (g g' : List α) : weight w (g ++ g') = weight w g + weight w g' := by
  simp [weight]

variable {w heavy} {xs current : List α} {closed : List (List α)} {x : α}

/-! ## The groups -/

theorem flatten_packFrom : (packFrom w heavy current xs).flatten = current ++ xs := by
  induction xs generalizing current with
  | nil =>
    rw [packFrom]
    split
    · rename_i hempty
      rw [List.isEmpty_iff.1 hempty]
      rfl
    · simp
  | cons x xs ih =>
    rw [packFrom]
    split
    · rw [List.flatten_cons, ih]
      rfl
    · rw [ih, List.append_assoc]
      rfl

/-- **The groups are the list, in order.** -/
theorem flatten_pack : (pack w heavy xs).flatten = xs := flatten_packFrom

theorem ne_nil_of_mem_packFrom {g : List α} (h : g ∈ packFrom w heavy current xs) : g ≠ [] := by
  induction xs generalizing current with
  | nil =>
    rw [packFrom] at h
    split at h
    · cases h
    · rename_i hopen
      rw [List.mem_singleton.1 h]
      exact fun hnil => hopen (List.isEmpty_iff.2 hnil)
  | cons x xs ih =>
    rw [packFrom] at h
    split at h
    · rename_i hclose
      obtain rfl | h := List.mem_cons.1 h
      · intro hnil
        rw [hnil] at hclose
        cases hclose
      · exact ih h
    · exact ih h

theorem ne_nil_of_mem_pack {g : List α} (h : g ∈ pack w heavy xs) : g ≠ [] :=
  ne_nil_of_mem_packFrom h

/-- A group is a stretch of the list. -/
theorem isInfix_of_mem_pack {g : List α} (h : g ∈ pack w heavy xs) : g <:+: xs := by
  obtain ⟨before, after, hsplit⟩ := List.append_of_mem h
  refine ⟨before.flatten, after.flatten, ?_⟩
  have hflatten : (pack w heavy xs).flatten = xs := flatten_pack
  rw [← hflatten, hsplit]
  simp

theorem not_over_of_mem_packFrom (hcurrent : heavy (weight w current) = false ∨ current.length ≤ 1)
    {g : List α} (h : g ∈ packFrom w heavy current xs) :
    heavy (weight w g) = false ∨ g.length ≤ 1 := by
  induction xs generalizing current with
  | nil =>
    rw [packFrom] at h
    split at h
    · cases h
    · rwa [List.mem_singleton.1 h]
  | cons x xs ih =>
    rw [packFrom] at h
    split at h
    · obtain rfl | h := List.mem_cons.1 h
      · exact hcurrent
      · exact ih (.inr le_rfl) h
    · rename_i hkeep
      refine ih ?_ h
      cases current with
      | nil => exact .inr le_rfl
      | cons y current =>
        left
        rw [weight_append, weight_singleton]
        simpa using hkeep

/-- **A group is within the cap, or a single item.** -/
theorem not_over_of_mem_pack {g : List α} (h : g ∈ pack w heavy xs) :
    heavy (weight w g) = false ∨ g.length = 1 := by
  have hstart : heavy (weight w []) = false ∨ ([] : List α).length ≤ 1 := .inr (Nat.zero_le 1)
  obtain hfits | hlength := not_over_of_mem_packFrom hstart h
  · exact .inl hfits
  · have hpos := List.length_pos_iff.2 (ne_nil_of_mem_pack h)
    exact .inr (by omega)

/-- Where every item fits by itself, every group does. -/
theorem not_over_of_fits (hfits : ∀ x ∈ xs, heavy (w x) = false) {g : List α}
    (h : g ∈ pack w heavy xs) : heavy (weight w g) = false := by
  obtain hg | hlength := not_over_of_mem_pack h
  · exact hg
  · obtain ⟨x, rfl⟩ := List.length_eq_one_iff.1 hlength
    rw [weight_singleton]
    exact hfits x ((isInfix_of_mem_pack h).subset List.mem_cons_self)

theorem head?_packFrom {g : List α} (h : (packFrom w heavy current xs).head? = some g) :
    g.head? = (current ++ xs).head? := by
  have hflatten : (packFrom w heavy current xs).flatten = current ++ xs := flatten_packFrom
  rw [← hflatten]
  obtain ⟨gs, hgs⟩ := List.head?_eq_some_iff.1 h
  have hne : g ≠ [] := ne_nil_of_mem_packFrom (hgs ▸ List.mem_cons_self)
  rw [hgs, List.flatten_cons, List.head?_append_of_ne_nil _ hne]

/-- A group could not have taken the first item of the next. -/
def Overflows (w : α → ℕ) (heavy : ℕ → Bool) (g g' : List α) : Prop :=
  ∀ x ∈ g'.head?, heavy (weight w g + w x) = true

theorem isChain_packFrom : (packFrom w heavy current xs).IsChain (Overflows w heavy) := by
  induction xs generalizing current with
  | nil =>
    rw [packFrom]
    split
    · exact List.isChain_nil
    · exact List.isChain_singleton _
  | cons x xs ih =>
    rw [packFrom]
    split
    · rename_i hclose
      refine List.isChain_cons.2 ⟨fun g hg y hy => ?_, ih⟩
      rw [head?_packFrom hg] at hy
      obtain rfl : x = y := Option.some.inj hy
      exact (Bool.and_eq_true_iff.1 hclose).2
    · exact ih

/-- **No group could have taken the first item of the next.** -/
theorem isChain_pack : (pack w heavy xs).IsChain (Overflows w heavy) := isChain_packFrom

theorem packFrom_of_append {gs gs' : List (List α)} (h : packFrom w heavy current xs = gs ++ gs')
    (hne : gs ≠ []) (hne' : gs' ≠ []) :
    ∃ ys, gs.flatten = current ++ ys ∧ packFrom w heavy current ys = gs := by
  induction xs generalizing current gs with
  | nil =>
    have hlength : (packFrom w heavy current []).length ≤ 1 := by
      rw [packFrom]
      split <;> simp
    have hpos := List.length_pos_iff.2 hne
    have hpos' := List.length_pos_iff.2 hne'
    rw [h, List.length_append] at hlength
    omega
  | cons x xs ih =>
    rw [packFrom] at h
    split at h
    · rename_i hclose
      obtain ⟨g, gs, rfl⟩ := List.exists_cons_of_ne_nil hne
      obtain ⟨rfl, hrest⟩ := List.cons.inj h
      have hopen : current.isEmpty = false := by
        rw [Bool.and_eq_true, Bool.not_eq_true'] at hclose
        exact hclose.1
      rcases gs with _ | ⟨g, gs⟩
      · exact ⟨[], by simp, by rw [packFrom, if_neg (by simp [hopen])]⟩
      · obtain ⟨ys, hflatten, hpack⟩ := ih hrest (List.cons_ne_nil _ _)
        refine ⟨x :: ys, ?_, ?_⟩
        · rw [List.flatten_cons, hflatten]
          rfl
        · rw [packFrom, if_pos hclose, hpack]
    · rename_i hkeep
      obtain ⟨ys, hflatten, hpack⟩ := ih h hne
      refine ⟨x :: ys, ?_, ?_⟩
      · rw [hflatten, List.append_assoc]
        rfl
      · rw [packFrom, if_neg hkeep, hpack]

/-- **The first groups are the packing of what they hold**, where more groups follow. -/
theorem pack_flatten_left {gs gs' : List (List α)} (h : pack w heavy xs = gs ++ gs')
    (hne' : gs' ≠ []) : pack w heavy gs.flatten = gs := by
  rcases eq_or_ne gs [] with rfl | hne
  · rfl
  obtain ⟨ys, hflatten, hpack⟩ := packFrom_of_append h hne hne'
  rw [hflatten]
  exact hpack

/-! ## From inside a loop -/

/-- **After the items `xs`**, these groups are closed and this one is open. -/
def Running (w : α → ℕ) (heavy : ℕ → Bool) (xs : List α) (closed : List (List α))
    (current : List α) : Prop :=
  ∀ ys, pack w heavy (xs ++ ys) = closed ++ packFrom w heavy current ys

theorem Running.start : Running w heavy ([] : List α) [] [] := fun _ => rfl

/-- An item that fits is taken into the open group. -/
theorem Running.keep (h : Running w heavy xs closed current)
    (hfits : current = [] ∨ heavy (weight w current + w x) = false) :
    Running w heavy (xs ++ [x]) closed (current ++ [x]) := by
  intro ys
  rw [List.append_assoc, h, List.singleton_append, packFrom, if_neg]
  obtain rfl | hfits := hfits
  · exact Bool.false_ne_true
  · rw [hfits, Bool.and_false]
    exact Bool.false_ne_true

/-- An item that does not fit closes the open group. -/
theorem Running.close (h : Running w heavy xs closed current) (hcurrent : current ≠ [])
    (hover : heavy (weight w current + w x) = true) :
    Running w heavy (xs ++ [x]) (closed ++ [current]) [x] := by
  intro ys
  have hopen : current.isEmpty = false := List.isEmpty_eq_false_iff.2 hcurrent
  rw [List.append_assoc, h, List.singleton_append, packFrom, if_pos (by rw [hopen, hover]; rfl),
    List.append_assoc]
  rfl

/-- At the end the open group is the last one. -/
theorem Running.pack_eq (h : Running w heavy xs closed current) (hcurrent : current ≠ []) :
    pack w heavy xs = closed ++ [current] := by
  have hopen : current.isEmpty = false := List.isEmpty_eq_false_iff.2 hcurrent
  have hend := h []
  rwa [List.append_nil, packFrom, if_neg (by rw [hopen]; exact Bool.false_ne_true)] at hend

end Packing

import Mathlib.Data.List.DropRight
import Mathlib.Order.Lattice

/-!
# Machinery/MonotoneStack — a stack that a push first pops down to smaller keys

What is left of a list pushed element by element are its survivors, the elements with a smaller key
than everything after them: `foldl_push`.
-/

namespace MonotoneStack

variable {α β : Type} [LinearOrder β] (key : α → β)

/-- Pop what has the key of `x` or a greater one, then push `x`. -/
def push (stack : List α) (x : α) : List α :=
  stack.rdropWhile (fun y => decide (key x ≤ key y)) ++ [x]

/-- **The survivors of a list**: the elements with a smaller key than all those after them. -/
def survivors : List α → List α
  | [] => []
  | x :: xs => if ∀ y ∈ xs, key x < key y then x :: survivors xs else survivors xs

variable {key} {xs ys : List α} {x : α}

theorem survivors_sublist : (survivors key xs).Sublist xs := by
  induction xs with
  | nil => exact List.Sublist.refl _
  | cons x xs ih =>
    rw [survivors]
    split
    · exact ih.cons_cons x
    · exact ih.cons x

/-- Survivors have growing keys. -/
theorem pairwise_survivors : (survivors key xs).Pairwise fun x y => key x < key y := by
  induction xs with
  | nil => exact List.Pairwise.nil
  | cons x xs ih =>
    rw [survivors]
    split
    · rename_i hx
      exact List.pairwise_cons.2 ⟨fun y hy => hx y (survivors_sublist.subset hy), ih⟩
    · exact ih

/-- One element more costs the survivors with its key or a greater one. -/
theorem survivors_concat :
    survivors key (xs ++ [x]) = (survivors key xs).filter (fun y => decide (key y < key x)) ++
      [x] := by
  induction xs with
  | nil => simp [survivors]
  | cons y xs ih =>
    have hsplit : (∀ z ∈ xs ++ [x], key y < key z) ↔ (∀ z ∈ xs, key y < key z) ∧ key y < key x := by
      rw [List.forall_mem_append, List.forall_mem_singleton]
    rw [List.cons_append, survivors, survivors, ih]
    by_cases hy : ∀ z ∈ xs, key y < key z
    · by_cases hx : key y < key x
      · rw [if_pos (hsplit.2 ⟨hy, hx⟩), if_pos hy,
          List.filter_cons_of_pos (by rwa [decide_eq_true_eq])]
        rfl
      · rw [if_neg (fun h => hx (hsplit.1 h).2), if_pos hy,
          List.filter_cons_of_neg (by rwa [decide_eq_true_eq])]
    · rw [if_neg (fun h => hy (hsplit.1 h).1), if_neg hy]

/-- From growing keys, popping at the end takes out the great ones wherever they are. -/
theorem rdropWhile_eq_filter {stack : List α} (h : stack.Pairwise fun x y => key x < key y)
    (k : β) :
    stack.rdropWhile (fun y => decide (k ≤ key y)) = stack.filter fun y => decide (key y < k) := by
  induction stack using List.reverseRecOn with
  | nil => rfl
  | append_singleton stack x ih =>
    rw [List.pairwise_append] at h
    obtain ⟨hstack, -, hlast⟩ := h
    by_cases hx : k ≤ key x
    · rw [List.rdropWhile_concat_pos _ _ _ (by rwa [decide_eq_true_eq]), ih hstack,
        List.filter_append,
        List.filter_singleton, decide_eq_false hx.not_gt, cond_false, List.append_nil]
    · have hall : ∀ y ∈ stack ++ [x], decide (key y < k) = true := fun y hy => by
        rw [not_le] at hx
        obtain hy | hy := List.mem_append.1 hy
        · exact decide_eq_true ((hlast y hy x (List.mem_singleton_self x)).trans hx)
        · rw [List.mem_singleton.1 hy]
          exact decide_eq_true hx
      rw [List.rdropWhile_concat_neg _ _ _ (by simpa using hx), List.filter_eq_self.2 hall]

/-- **Pushed one by one, a list leaves its survivors.** -/
theorem foldl_push (xs : List α) : xs.foldl (push key) [] = survivors key xs := by
  induction xs using List.reverseRecOn with
  | nil => rfl
  | append_singleton xs x ih =>
    rw [List.foldl_concat, ih, push, rdropWhile_eq_filter pairwise_survivors, survivors_concat]

theorem survivors_map {γ : Type} (f : γ → α) (zs : List γ) :
    survivors key (zs.map f) = (survivors (key ∘ f) zs).map f := by
  induction zs with
  | nil => rfl
  | cons z zs ih =>
    have hmap : (∀ y ∈ zs.map f, key (f z) < key y) ↔ ∀ y ∈ zs, key (f z) < key (f y) :=
      List.forall_mem_map
    rw [List.map_cons, survivors, survivors, ih]
    by_cases hz : ∀ y ∈ zs, (key ∘ f) z < (key ∘ f) y
    · rw [if_pos (hmap.2 hz), if_pos hz]
      rfl
    · rw [if_neg (fun h => hz (hmap.1 h)), if_neg hz]

/-- An element survives what has greater keys. -/
theorem mem_survivors (h : ∀ y ∈ ys, key x < key y) : x ∈ survivors key (xs ++ x :: ys) := by
  induction xs with
  | nil =>
    rw [List.nil_append, survivors, if_pos h]
    exact List.mem_cons_self
  | cons y xs ih =>
    rw [List.cons_append, survivors]
    split
    · exact List.mem_cons_of_mem _ ih
    · exact ih

/-- The last element survives. -/
theorem survivors_eq_nil : survivors key xs = [] ↔ xs = [] := by
  constructor
  · intro h
    obtain rfl | ⟨xs, x, rfl⟩ := xs.eq_nil_or_concat'
    · rfl
    · rw [survivors_concat] at h
      simp at h
  · rintro rfl
    rfl

end MonotoneStack

import Mathlib.Data.List.Pairwise
import Mathlib.Data.List.Basic

/-!
# Machinery/Table — tables as lists of rows

The four writes a table sees: `updateMany … where`, `deleteMany … where`, `createMany` with `ON
CONFLICT DO NOTHING`, and a list walked in slices of fixed length, which is how long writes are
batched.  A condition on rows picks a part of a table; what reads or writes within the part does to
it what it does to the table, and what writes outside leaves it alone.
-/

namespace Table

variable {ρ κ : Type*}

/-- `UPDATE … SET f WHERE p`. -/
def updateMany (p : ρ → Bool) (f : ρ → ρ) (t : List ρ) : List ρ :=
  t.map fun r => if p r then f r else r

/-- `DELETE … WHERE p`. -/
def deleteMany (p : ρ → Bool) (t : List ρ) : List ρ := t.filter fun r => !p r

/-- `INSERT … ON CONFLICT DO NOTHING`: each row in turn, skipped when it conflicts with one already
there. -/
def createMany (conflict : ρ → ρ → Bool) (t rows : List ρ) : List ρ :=
  rows.foldl (fun t r => if t.any (conflict r) then t else t ++ [r]) t

/-! ## Updates -/

@[simp] theorem length_updateMany (p : ρ → Bool) (f : ρ → ρ) (t : List ρ) :
    (updateMany p f t).length = t.length := by simp [updateMany]

theorem mem_updateMany {p : ρ → Bool} {f : ρ → ρ} {t : List ρ} {r : ρ} :
    r ∈ updateMany p f t ↔ ∃ r₀ ∈ t, (if p r₀ then f r₀ else r₀) = r := by
  simp [updateMany]

/-- An update of other columns leaves a column as it is. -/
theorem map_updateMany {p : ρ → Bool} {f : ρ → ρ} {g : ρ → κ} (hf : ∀ r, g (f r) = g r)
    (t : List ρ) : (updateMany p f t).map g = t.map g := by
  rw [updateMany, List.map_map]
  refine List.map_congr_left fun r _ => ?_
  by_cases h : p r <;> simp [h, hf]

/-- What an update leaves of a row it may or may not have hit. -/
theorem mem_updateMany_of_mem {p : ρ → Bool} {f : ρ → ρ} {t : List ρ} {r : ρ} (hr : r ∈ t) :
    (if p r then f r else r) ∈ updateMany p f t := List.mem_map_of_mem hr

/-! ## Inserts that skip conflicts -/

theorem createMany_cons (conflict : ρ → ρ → Bool) (t : List ρ) (r : ρ) (rows : List ρ) :
    createMany conflict t (r :: rows)
      = createMany conflict (if t.any (conflict r) then t else t ++ [r]) rows := rfl

/-- **Rows already there stay, in place.** -/
theorem prefix_createMany (conflict : ρ → ρ → Bool) (t rows : List ρ) :
    t <+: createMany conflict t rows := by
  induction rows generalizing t with
  | nil => exact List.prefix_rfl
  | cons r rows ih =>
    rw [createMany_cons]
    split
    · exact ih t
    · exact (List.prefix_append t [r]).trans (ih _)

/-- What is added is a part of what was offered. -/
theorem exists_createMany_eq (conflict : ρ → ρ → Bool) (t rows : List ρ) :
    ∃ added, createMany conflict t rows = t ++ added ∧ added.Sublist rows := by
  induction rows generalizing t with
  | nil => exact ⟨[], (List.append_nil t).symm, List.Sublist.refl _⟩
  | cons r rows ih =>
    rw [createMany_cons]
    split
    · obtain ⟨added, heq, hsub⟩ := ih t
      exact ⟨added, heq, hsub.cons r⟩
    · obtain ⟨added, heq, hsub⟩ := ih (t ++ [r])
      exact ⟨r :: added, by rw [heq, List.append_assoc]; rfl, hsub.cons_cons r⟩

/-- **Rows that all conflict with rows already there add nothing.** -/
theorem createMany_eq_self {conflict : ρ → ρ → Bool} {t rows : List ρ}
    (h : ∀ r ∈ rows, t.any (conflict r) = true) : createMany conflict t rows = t := by
  induction rows with
  | nil => rfl
  | cons r rows ih =>
    obtain ⟨hr, hrows⟩ := List.forall_mem_cons.mp h
    rw [createMany_cons, if_pos hr, ih hrows]

/-- Whatever is there afterwards was there before or was inserted. -/
theorem mem_of_mem_createMany {conflict : ρ → ρ → Bool} {t rows : List ρ} {r : ρ}
    (h : r ∈ createMany conflict t rows) : r ∈ t ∨ r ∈ rows := by
  induction rows generalizing t with
  | nil => exact .inl h
  | cons r' rows ih =>
    rw [createMany_cons] at h
    rcases ih h with h | h
    · split at h
      · exact .inl h
      · rcases List.mem_append.mp h with h | h
        · exact .inl h
        · exact .inr (by simp [List.mem_singleton.mp h])
    · exact .inr (List.mem_cons_of_mem _ h)

/-- **Every row offered is there afterwards, itself or through one it conflicts with.** -/
theorem exists_mem_createMany {conflict : ρ → ρ → Bool} {t rows : List ρ} {r : ρ} (hr : r ∈ rows) :
    ∃ r' ∈ createMany conflict t rows, r' = r ∨ conflict r r' := by
  induction rows generalizing t with
  | nil => cases hr
  | cons r₀ rows ih =>
    rw [createMany_cons]
    rcases List.mem_cons.mp hr with rfl | hr
    · split
      case isTrue h =>
        obtain ⟨r', hr', hc⟩ := List.any_eq_true.mp h
        exact ⟨r', (prefix_createMany _ _ _).subset hr', .inr hc⟩
      case isFalse =>
        exact ⟨r, (prefix_createMany _ _ _).subset (by simp), .inl rfl⟩
    · exact ih hr

/-- **No two rows conflict afterwards if none did before.** -/
theorem pairwise_createMany {conflict : ρ → ρ → Bool}
    (hsymm : ∀ r r', conflict r r' = true → conflict r' r = true) {t : List ρ} (rows : List ρ)
    (ht : t.Pairwise fun r r' => conflict r r' = false) :
    (createMany conflict t rows).Pairwise fun r r' => conflict r r' = false := by
  induction rows generalizing t with
  | nil => exact ht
  | cons r rows ih =>
    rw [createMany_cons]
    split
    · exact ih ht
    case isFalse h =>
      refine ih (List.pairwise_append.mpr ⟨ht, by simp, fun a ha b hb => ?_⟩)
      obtain rfl := List.mem_singleton.mp hb
      by_contra hc
      exact h (List.any_eq_true.mpr ⟨a, ha, hsymm _ _ (by simpa using hc)⟩)

/-! ## The part of a table -/

section Part

variable {p q : ρ → Bool} {f : ρ → ρ}

theorem find?_part (h : ∀ r, p r = true → q r = true) (t : List ρ) :
    (t.filter q).find? p = t.find? p := by
  rw [List.find?_filter]
  congr 1
  ext r
  cases hp : p r with
  | false => simp
  | true => simp [h r hp]

theorem filter_part (h : ∀ r, p r = true → q r = true) (t : List ρ) :
    (t.filter q).filter p = t.filter p := by
  rw [List.filter_filter]
  refine List.filter_congr fun r _ => ?_
  cases hp : p r with
  | false => rfl
  | true => rw [h r hp, Bool.and_self]

theorem any_part (h : ∀ r, p r = true → q r = true) (t : List ρ) :
    (t.filter q).any p = t.any p := by
  rw [List.any_filter]
  congr 1
  ext r
  cases hp : p r with
  | false => rw [Bool.and_false]
  | true => rw [h r hp, Bool.and_self]

theorem part_part (t : List ρ) : (t.filter q).filter q = t.filter q := filter_part (fun _ h => h) t

theorem countP_part (h : ∀ r, p r = true → q r = true) (t : List ρ) :
    (t.filter q).countP p = t.countP p := by
  rw [List.countP_eq_length_filter, List.countP_eq_length_filter, filter_part h]

theorem part_updateMany (hf : ∀ r, q (f r) = q r) (t : List ρ) :
    (updateMany p f t).filter q = updateMany p f (t.filter q) := by
  rw [updateMany, updateMany, List.filter_map]
  congr 1
  refine List.filter_congr fun r _ => ?_
  by_cases hp : p r <;> simp [hp, hf]

/-- What changes no row of the part and moves none into it leaves the part alone. -/
theorem part_map_of_outside (h : ∀ r, q r = true → f r = r) (hf : ∀ r, q (f r) = q r) (t : List ρ) :
    (t.map f).filter q = t.filter q := by
  have hq : t.filter (q ∘ f) = t.filter q := List.filter_congr fun r _ => hf r
  rw [List.filter_map, hq]
  exact (List.map_congr_left fun r hr => h r (List.mem_filter.mp hr).2).trans (List.map_id _)

/-- **An update of other rows leaves the part alone.** -/
theorem part_updateMany_of_outside (h : ∀ r, p r = true → q r = false) (hf : ∀ r, q (f r) = q r)
    (t : List ρ) : (updateMany p f t).filter q = t.filter q := by
  refine part_map_of_outside (fun r hr => if_neg fun hp => ?_) (fun r => ?_) t
  · exact Bool.false_ne_true ((h r hp).symm.trans hr)
  · by_cases hp : p r <;> simp [hp, hf]

theorem part_deleteMany (t : List ρ) :
    (deleteMany p t).filter q = deleteMany p (t.filter q) := by
  rw [deleteMany, deleteMany, List.filter_filter, List.filter_filter]
  exact List.filter_congr fun r _ => Bool.and_comm _ _

/-- **A deletion of other rows leaves the part alone.** -/
theorem part_deleteMany_of_outside {t : List ρ} (h : ∀ r, p r = true → q r = false) :
    (deleteMany p t).filter q = t.filter q := by
  rw [part_deleteMany, deleteMany, List.filter_eq_self]
  intro r hr
  have hq := (List.mem_filter.mp hr).2
  cases hp : p r with
  | false => rfl
  | true => exact absurd ((h r hp).symm.trans hq) Bool.false_ne_true

/-- **An insert of other rows leaves the part alone.** -/
theorem part_createMany_of_outside {conflict : ρ → ρ → Bool} {rows : List ρ}
    (h : ∀ r ∈ rows, q r = false) (t : List ρ) :
    (createMany conflict t rows).filter q = t.filter q := by
  induction rows generalizing t with
  | nil => rfl
  | cons r rows ih =>
    obtain ⟨hr, hrows⟩ := List.forall_mem_cons.mp h
    rw [createMany_cons, ih hrows]
    split
    · rfl
    · rw [List.filter_append, List.filter_singleton, hr]
      exact List.append_nil _

end Part

/-! ## Slices -/

/-- The slices of length `n` of a list, with `fuel` turns of the loop. -/
def slicesAux (n : ℕ) : ℕ → List ρ → List (List ρ)
  | 0, _ => []
  | _, [] => []
  | fuel + 1, x :: xs => (x :: xs).take n :: slicesAux n fuel ((x :: xs).drop n)

/-- `for (let i = 0; i < xs.length; i += n) … xs.slice(i, i + n)`. -/
def slices (n : ℕ) (xs : List ρ) : List (List ρ) := slicesAux n xs.length xs

theorem flatten_slicesAux {n : ℕ} (hn : 0 < n) (fuel : ℕ) (xs : List ρ) (h : xs.length ≤ fuel) :
    (slicesAux n fuel xs).flatten = xs := by
  induction fuel generalizing xs with
  | zero => simpa [slicesAux] using (List.eq_nil_of_length_eq_zero (by omega)).symm
  | succ fuel ih =>
    cases xs with
    | nil => rfl
    | cons x xs =>
      have hlen : ((x :: xs).drop n).length ≤ fuel := by
        simp only [List.length_drop, List.length_cons] at h ⊢; omega
      rw [slicesAux, List.flatten_cons, ih _ hlen, List.take_append_drop]

/-- **The slices of a list, in order, are the list.** -/
theorem flatten_slices {n : ℕ} (hn : 0 < n) (xs : List ρ) : (slices n xs).flatten = xs :=
  flatten_slicesAux hn _ xs (Nat.le_refl _)

theorem length_le_of_mem_slicesAux {n fuel : ℕ} {xs part : List ρ}
    (h : part ∈ slicesAux n fuel xs) : part.length ≤ n := by
  induction fuel generalizing xs with
  | zero => cases h
  | succ fuel ih =>
    cases xs with
    | nil => cases h
    | cons x xs =>
      rcases List.mem_cons.mp h with rfl | h
      · exact List.length_take_le _ _
      · exact ih h

/-- No slice is longer than asked for. -/
theorem length_le_of_mem_slices {n : ℕ} {xs part : List ρ} (h : part ∈ slices n xs) :
    part.length ≤ n :=
  length_le_of_mem_slicesAux h

/-- Inserting slice by slice is inserting the list. -/
theorem foldl_createMany (conflict : ρ → ρ → Bool) (t : List ρ) (rss : List (List ρ)) :
    rss.foldl (createMany conflict) t = createMany conflict t rss.flatten := by
  rw [createMany, List.foldl_flatten]
  rfl

end Table

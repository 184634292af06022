import Mathlib.Data.List.Basic

/-!
# Machinery/Matching — a pattern, matched from left to right

A pattern is a function: `m s` is the match at the front of `s`, as what it gives and its length.
`scan` collects the matches of a text, `replaceAll` puts each in the place of what it matched (both
are a `walk`), `firstIndex` looks for the first place a test passes.  `Clear q a` says that `q`
holds nowhere in `a`, whatever follows: the three pass over such a text (`scan_clear`,
`replaceAll_clear`, `firstIndex_clear`).
-/

namespace Matching

variable {α β : Type*}

/-- The matches of a pattern; `skip` units of a match are still to be passed over. -/
def scan (m : List α → Option (β × ℕ)) : (skip : ℕ) → List α → List β
  | _, [] => []
  | skip + 1, _ :: s => scan m skip s
  | 0, c :: s =>
    match m (c :: s) with
    | some (b, n) => b :: scan m (n - 1) s
    | none => scan m 0 s

/-- A text with what each match gives in its place. -/
def replaceAll (m : List α → Option (List α × ℕ)) : (skip : ℕ) → List α → List α
  | _, [] => []
  | skip + 1, _ :: s => replaceAll m skip s
  | 0, c :: s =>
    match m (c :: s) with
    | some (t, n) => t ++ replaceAll m (n - 1) s
    | none => c :: replaceAll m 0 s

/-- The first place where a test passes. -/
def firstIndex (q : List α → Bool) : List α → Option ℕ
  | [] => none
  | c :: s => if q (c :: s) then some 0 else (firstIndex q s).map (· + 1)

/-! ## Texts without matches -/

/-- The property holds nowhere in a text, whatever follows it. -/
def Clear (q : List α → Prop) : List α → Prop
  | [] => True
  | c :: a => (∀ s, ¬q (c :: (a ++ s))) ∧ Clear q a

variable {q : List α → Prop} {a b s : List α} {c d : α}

theorem Clear.append (ha : Clear q a) (hb : Clear q b) : Clear q (a ++ b) := by
  induction a with
  | nil => exact hb
  | cons c a ih =>
    refine ⟨fun s => ?_, ih ha.2⟩
    have hnot := ha.1 (b ++ s)
    rwa [← List.append_assoc] at hnot

/-- What begins with a unit is nowhere in a text without it. -/
theorem clear_of_notMem (hq : ∀ s, q s → s.head? = some d) (hd : d ∉ a) : Clear q a := by
  induction a with
  | nil => trivial
  | cons c a ih =>
    rw [List.mem_cons, not_or] at hd
    refine ⟨fun s hs => hd.1 ?_, ih hd.2⟩
    exact (Option.some.inj (hq _ hs)).symm

/-- A text that begins with such a unit, and has no other. -/
theorem clear_cons (hq : ∀ s, q s → s.head? = some d) (hc : ∀ s, ¬q (c :: (a ++ s))) (hd : d ∉ a) :
    Clear q (c :: a) := ⟨hc, clear_of_notMem hq hd⟩

/-! ## Matches of a text -/

section

variable {γ : Type*} (m : List α → Option (β × ℕ)) (hit : β → γ → γ) (miss : α → γ → γ) (z : γ)

/-- The walk both take: `hit` at a match, `miss` at a unit where none begins. -/
def walk : (skip : ℕ) → List α → γ
  | _, [] => z
  | skip + 1, _ :: s => walk skip s
  | 0, c :: s =>
    match m (c :: s) with
    | some (b, n) => hit b (walk (n - 1) s)
    | none => miss c (walk 0 s)

variable {m hit miss z}

theorem walk_length_append (a s : List α) :
    walk m hit miss z a.length (a ++ s) = walk m hit miss z 0 s := by
  induction a with
  | nil => rfl
  | cons c a ih => exact ih

/-- Texts without matches are missed, unit by unit. -/
theorem walk_clear (ha : Clear (fun s => (m s).isSome = true) a) (s : List α) :
    walk m hit miss z 0 (a ++ s) = a.foldr miss (walk m hit miss z 0 s) := by
  induction a with
  | nil => rfl
  | cons c a ih =>
    have hnone : m (c :: (a ++ s)) = none := Option.not_isSome_iff_eq_none.mp (ha.1 s)
    rw [List.cons_append, walk, hnone]
    exact congrArg _ (ih ha.2)

/-- A match at the front. -/
theorem walk_match {x : β} (hm : m (c :: (a ++ s)) = some (x, a.length + 1)) :
    walk m hit miss z 0 (c :: (a ++ s)) = hit x (walk m hit miss z 0 s) := by
  rw [walk, hm]
  exact congrArg _ (walk_length_append a s)

end

section

variable {m : List α → Option (β × ℕ)} {x : β}

theorem scan_eq_walk (m : List α → Option (β × ℕ)) (skip : ℕ) (s : List α) :
    scan m skip s = walk m List.cons (fun _ found => found) [] skip s := by
  induction s generalizing skip with
  | nil => cases skip <;> rfl
  | cons c s ih =>
    cases skip with
    | succ skip => exact ih skip
    | zero =>
      rw [scan, walk]
      cases m (c :: s) with
      | none => exact ih 0
      | some found => exact congrArg _ (ih _)

/-- Texts without matches are passed over. -/
theorem scan_clear (ha : Clear (fun s => (m s).isSome = true) a) (s : List α) :
    scan m 0 (a ++ s) = scan m 0 s := by
  rw [scan_eq_walk, scan_eq_walk, walk_clear ha]
  exact List.foldr_fixed a

/-- A match at the front. -/
theorem scan_match (hm : m (c :: (a ++ s)) = some (x, a.length + 1)) :
    scan m 0 (c :: (a ++ s)) = x :: scan m 0 s := by
  rw [scan_eq_walk, scan_eq_walk, walk_match hm]

end

section

variable {m : List α → Option (List α × ℕ)} {t : List α}

theorem replaceAll_eq_walk (m : List α → Option (List α × ℕ)) (skip : ℕ) (s : List α) :
    replaceAll m skip s = walk m (· ++ ·) List.cons [] skip s := by
  induction s generalizing skip with
  | nil => cases skip <;> rfl
  | cons c s ih =>
    cases skip with
    | succ skip => exact ih skip
    | zero =>
      rw [replaceAll, walk]
      cases m (c :: s) with
      | none => exact congrArg _ (ih 0)
      | some found => exact congrArg _ (ih _)

/-- Texts without matches stay. -/
theorem replaceAll_clear (ha : Clear (fun s => (m s).isSome = true) a) (s : List α) :
    replaceAll m 0 (a ++ s) = a ++ replaceAll m 0 s := by
  rw [replaceAll_eq_walk, replaceAll_eq_walk, walk_clear ha, List.foldr_cons_eq_append']

/-- A match at the front is replaced. -/
theorem replaceAll_match (hm : m (c :: (a ++ s)) = some (t, a.length + 1)) :
    replaceAll m 0 (c :: (a ++ s)) = t ++ replaceAll m 0 s := by
  rw [replaceAll_eq_walk, replaceAll_eq_walk, walk_match hm]

theorem replaceAll_none (hm : m (c :: s) = none) :
    replaceAll m 0 (c :: s) = c :: replaceAll m 0 s := by
  rw [replaceAll, hm]

end

/-- The first place is behind the texts where the test fails. -/
theorem firstIndex_clear {q : List α → Bool} (ha : Clear (fun s => q s = true) a) (hs : q s = true)
    (hne : s ≠ []) : firstIndex q (a ++ s) = some a.length := by
  induction a with
  | nil =>
    obtain ⟨c, s, rfl⟩ := List.exists_cons_of_ne_nil hne
    exact if_pos hs
  | cons c a ih =>
    rw [List.cons_append, firstIndex, if_neg (ha.1 s), ih ha.2]
    rfl

end Matching

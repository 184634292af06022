import Mathlib.Data.List.Forall2

/-!
# Machinery/Avoids — texts without forbidden words

A text avoids some words when none of them occurs in it.  A unit that is part of no word separates a
text: what the two sides avoid, the whole does.

* `avoids_append_cons` — such a separator.
* `avoids_head_append` — a piece the words cannot begin in.
* `Avoids.garbled` — a text in which units were replaced by one that is in no word.
-/

namespace Words

variable {α : Type} {words : List (List α)} {s t a b : List α} {d : α}

/-- No word occurs in the text. -/
def Avoids (words : List (List α)) (text : List α) : Prop := ∀ w ∈ words, ¬ w <:+: text

/-- A unit of no word. -/
def Outside (words : List (List α)) (d : α) : Prop := ∀ w ∈ words, d ∉ w

theorem Avoids.of_part (h : Avoids words s) (hts : t <:+: s) : Avoids words t :=
  fun w hw hwt => h w hw (hwt.trans hts)

/-! ## Separators -/

theorem part_append_cons_iff {w : List α} (hd : d ∉ w) :
    w <:+: a ++ d :: b ↔ w <:+: a ∨ w <:+: b := by
  constructor
  · intro h
    obtain h | h | ⟨u, v, -, hv, rfl, -, hprefix⟩ := List.infix_append_iff_ne_nil.1 h
    · exact .inl h
    · obtain hprefix | h := List.infix_cons_iff.1 h
      · obtain rfl | ⟨v, rfl, -⟩ := List.prefix_cons_iff.1 hprefix
        · exact .inr List.nil_infix
        · exact absurd List.mem_cons_self hd
      · exact .inr h
    · obtain rfl | ⟨v', rfl, -⟩ := List.prefix_cons_iff.1 hprefix
      · exact absurd rfl hv
      · exact absurd (List.mem_append_right u List.mem_cons_self) hd
  · rintro (h | h)
    · exact List.infix_append_of_infix_left h
    · exact List.infix_append_of_infix_right (List.infix_cons h)

/-- **A separator**: a text around a unit of no word avoids what its two sides avoid. -/
theorem avoids_append_cons (hd : Outside words d) :
    Avoids words (a ++ d :: b) ↔ Avoids words a ∧ Avoids words b := by
  rw [Avoids, Avoids, Avoids, ← forall₂_and]
  refine forall₂_congr fun w hw => ?_
  rw [part_append_cons_iff (hd w hw), not_or]

theorem avoids_cons (hd : Outside words d) : Avoids words (d :: b) ↔ Avoids words b := by
  rw [← List.nil_append (d :: b), avoids_append_cons hd]
  exact ⟨And.right, fun h => ⟨h.of_part List.nil_infix, h⟩⟩

/-- Units of no word at the start of a text. -/
theorem avoids_outside_append {sep : List α} (hsep : ∀ d ∈ sep, Outside words d) :
    Avoids words (sep ++ b) ↔ Avoids words b := by
  induction sep with
  | nil => rw [List.nil_append]
  | cons d sep ih =>
    rw [List.cons_append, avoids_cons (hsep d List.mem_cons_self),
      ih fun d' hd' => hsep d' (List.mem_cons_of_mem d hd')]

/-- Units of no word at the end of a text. -/
theorem avoids_append_outside {sep : List α} (hsep : ∀ d ∈ sep, Outside words d) :
    Avoids words (a ++ sep) ↔ Avoids words a := by
  rcases sep with _ | ⟨d, sep⟩
  · rw [List.append_nil]
  · rw [avoids_append_cons (hsep d List.mem_cons_self), ← List.append_nil sep,
      avoids_outside_append fun d' hd' => hsep d' (List.mem_cons_of_mem d hd')]
    exact ⟨And.left, fun h => ⟨h, h.of_part List.nil_infix⟩⟩

/-- What stands between two texts keeps them apart. -/
def Separates (words : List (List α)) (sep : List α) : Prop :=
  ∀ a b, Avoids words (a ++ (sep ++ b)) ↔ Avoids words a ∧ Avoids words b

/-- **Texts that are kept apart** avoid what each of them does. -/
theorem Separates.avoids_intercalate {sep : List α} (hsep : Separates words sep)
    (hnil : Avoids words []) {ss : List (List α)} :
    Avoids words (sep.intercalate ss) ↔ ∀ s ∈ ss, Avoids words s := by
  induction ss with
  | nil => exact ⟨fun _ => nofun, fun _ => hnil⟩
  | cons s ss ih =>
    rcases ss with _ | ⟨s', ss⟩
    · rw [List.intercalate_singleton, List.forall_mem_singleton]
    · rw [List.intercalate_cons_cons, List.append_assoc, hsep, ih, ← List.forall_mem_cons]

/-! ## Words that begin alike -/

section

variable {x y : α}

/-- No word begins in a text without its first unit. -/
theorem part_append_of_head_notMem {w m : List α} (hw : ∃ v, w = x :: v) (hm : x ∉ m) :
    w <:+: m ++ b ↔ w <:+: b := by
  refine ⟨fun h => ?_, List.infix_append_of_infix_right⟩
  induction m with
  | nil => exact h
  | cons c m ih =>
    obtain ⟨v, rfl⟩ := hw
    rw [List.mem_cons, not_or] at hm
    obtain hprefix | h := List.infix_cons_iff.1 h
    · exact absurd (List.cons_prefix_cons.1 hprefix).1 hm.1
    · exact ih hm.2 h

/-- No word begins in a text without the second unit of the words, unless its last unit is their
first. -/
theorem part_append_iff {w m : List α} (hw : ∃ v, w = x :: y :: v) (hm : y ∉ m)
    (hlast : m.getLast? ≠ some x) : w <:+: m ++ b ↔ w <:+: b := by
  refine ⟨fun h => ?_, List.infix_append_of_infix_right⟩
  induction m with
  | nil => exact h
  | cons c m ih =>
    obtain ⟨v, rfl⟩ := hw
    obtain hprefix | h := List.infix_cons_iff.1 h
    · -- the word begins at `c`, so its second unit is the one after it
      exfalso
      rw [List.cons_prefix_cons] at hprefix
      obtain ⟨rfl, hsecond⟩ := hprefix
      rcases m with _ | ⟨c', m⟩
      · exact hlast rfl
      · replace hsecond := List.cons_prefix_cons.1 hsecond
        exact hm (List.mem_cons_of_mem x (hsecond.1 ▸ List.mem_cons_self))
    · refine ih (fun hy => hm (List.mem_cons_of_mem c hy)) (fun hx => hlast ?_) h
      rcases m with _ | ⟨c', m⟩
      · cases hx
      · rwa [List.getLast?_cons_cons]

/-- **A piece the words cannot begin in.** -/
theorem avoids_head_append {m : List α} (hwords : ∀ w ∈ words, ∃ v, w = x :: y :: v) (hm : y ∉ m)
    (hlast : m.getLast? ≠ some x) : Avoids words (m ++ b) ↔ Avoids words b := by
  refine forall₂_congr fun w hw => ?_
  rw [part_append_iff (hwords w hw) hm hlast]

/-- A text without a unit that all words have. -/
theorem avoids_of_notMem {m : List α} (hwords : ∀ w ∈ words, ∃ v, w = x :: y :: v) (hm : y ∉ m) :
    Avoids words m := by
  intro w hw h
  obtain ⟨v, rfl⟩ := hwords w hw
  exact hm (h.subset (List.mem_cons_of_mem x List.mem_cons_self))

/-- A unit of no word, and a piece the words cannot begin in. -/
theorem separates_cons {m : List α} (hd : Outside words d)
    (hwords : ∀ w ∈ words, ∃ v, w = x :: y :: v) (hm : y ∉ m) (hlast : m.getLast? ≠ some x) :
    Separates words (d :: m) := fun a b => by
  rw [List.cons_append, avoids_append_cons hd, avoids_head_append hwords hm hlast]

end

/-! ## Replaced units -/

/-- Some units of a text replaced by `r`. -/
def Garbled (r : α) : List α → List α → Prop := List.Forall₂ fun c d => d = c ∨ d = r

theorem Garbled.refl {r : α} (s : List α) : Garbled r s s := List.forall₂_same.2 fun _ _ => .inl rfl

/-- A text without replaced units is as it was. -/
theorem Garbled.eq_of_notMem {r : α} (h : Garbled r s t) (hr : r ∉ t) : s = t := by
  induction h with
  | nil => rfl
  | @cons c d s t hcd _ ih =>
    obtain rfl | rfl := hcd
    · rw [ih fun hmem => hr (List.mem_cons_of_mem d hmem)]
    · exact absurd List.mem_cons_self hr

/-- **Replacing units makes no word** of a text without one. -/
theorem Avoids.garbled {r : α} (h : Avoids words s) (hr : Outside words r) (hst : Garbled r s t) :
    Avoids words t := by
  rintro w hw ⟨u, v, rfl⟩
  have hhead := List.forall₂_take_append s (u ++ w) v hst
  have hword := List.forall₂_drop_append _ u w hhead
  refine h w hw ?_
  rw [← Garbled.eq_of_notMem hword (hr w hw)]
  exact (List.drop_suffix _ _).isInfix.trans (List.take_prefix _ _).isInfix

end Words

import Mathlib.Data.List.SplitOn
import SupportAgent.Machinery.Js

/-!
# Machinery/Visible — the characters of a text that are not white space

Trimming a text, joining texts with white space and splitting one at white space keep the visible
characters, in their order.
-/

namespace JsString

/-- The characters that are not in the class `\s`. -/
def visible (s : JsString) : JsString := s.filter fun c => !isSpace c

variable {s t sep : JsString}

@[simp] theorem visible_nil : visible [] = [] := rfl

@[simp] theorem visible_append (s t : JsString) : visible (s ++ t) = visible s ++ visible t :=
  List.filter_append s t

theorem visible_cons (c : UInt16) (s : JsString) : visible (c :: s) = visible [c] ++ visible s :=
  visible_append [c] s

theorem visible_cons_of_space {c : UInt16} (h : isSpace c = true) :
    visible (c :: s) = visible s := by
  rw [visible, List.filter_cons_of_neg (by simp [h]), visible]

/-- **White space is what is not visible.** -/
theorem visible_eq_nil_iff : visible s = [] ↔ ∀ c ∈ s, isSpace c = true := by
  simp [visible, List.filter_eq_nil_iff]

theorem visible_eq_nil_iff_trim : visible s = [] ↔ trim s = [] := by
  rw [visible_eq_nil_iff, trim_eq_nil_iff]

/-- Dropping white space at the front. -/
theorem visible_dropWhile (s : JsString) : visible (s.dropWhile isSpace) = visible s := by
  have hblank : visible (s.takeWhile isSpace) = [] :=
    visible_eq_nil_iff.2 fun _ hc => List.mem_takeWhile_imp hc
  calc visible (s.dropWhile isSpace)
      = visible (s.takeWhile isSpace) ++ visible (s.dropWhile isSpace) := by
        rw [hblank, List.nil_append]
    _ = visible s := by rw [← visible_append, List.takeWhile_append_dropWhile]

theorem visible_reverse (s : JsString) : visible s.reverse = (visible s).reverse :=
  List.filter_reverse

/-- **Trimming keeps what is visible.** -/
theorem visible_trim (s : JsString) : visible (trim s) = visible s := by
  rw [trim, List.rdropWhile, visible_reverse, visible_dropWhile, visible_reverse,
    List.reverse_reverse, visible_dropWhile]

/-- **A text is its trimmed text**, between white space. -/
theorem exists_eq_trim (s : JsString) :
    ∃ gap trail, s = gap ++ (trim s ++ trail) ∧ visible gap = [] ∧ visible trail = [] := by
  refine ⟨s.takeWhile isSpace, (s.dropWhile isSpace).rtakeWhile isSpace, ?_, ?_, ?_⟩
  · rw [trim, List.rdropWhile_append_rtakeWhile, List.takeWhile_append_dropWhile]
  · exact visible_eq_nil_iff.2 fun _ hc => List.mem_takeWhile_imp hc
  · exact visible_eq_nil_iff.2 fun _ hc => List.mem_rtakeWhile_imp hc

/-- What begins and ends visibly is trimmed. -/
theorem trim_eq_self (hhead : ∀ c ∈ s.head?, isSpace c = false)
    (hlast : ∀ c ∈ s.getLast?, isSpace c = false) : trim s = s := by
  have hdrop : s.dropWhile isSpace = s := by
    rcases s with _ | ⟨c, s⟩
    · rfl
    · exact List.dropWhile_cons_of_neg (by simp [hhead c rfl])
  rw [trim, hdrop, List.rdropWhile_eq_self_iff]
  intro hne
  rw [hlast _ (List.getLast?_eq_some_getLast hne)]
  exact Bool.false_ne_true

/-- A trimmed text begins visibly. -/
theorem isSpace_of_mem_head?_trim {c : UInt16} (hc : c ∈ (trim s).head?) : isSpace c = false := by
  obtain ⟨t, ht⟩ := List.rdropWhile_prefix isSpace (s.dropWhile isSpace)
  have hhead : (s.dropWhile isSpace).head? = some c := by
    rw [← ht, List.head?_append, ← trim, Option.mem_def.1 hc]
    rfl
  have hvisible := List.head?_dropWhile_not isSpace s
  rwa [hhead] at hvisible

/-- A trimmed text ends visibly. -/
theorem isSpace_of_mem_getLast?_trim {c : UInt16} (hc : c ∈ (trim s).getLast?) :
    isSpace c = false := by
  have hne : trim s ≠ [] := fun hnil => by
    rw [hnil] at hc
    cases hc
  rw [List.getLast?_eq_some_getLast hne] at hc
  obtain rfl := Option.some.inj hc
  exact Bool.eq_false_of_not_eq_true (List.rdropWhile_last_not _ _ hne)

theorem trim_trim (s : JsString) : trim (trim s) = trim s :=
  trim_eq_self (fun _ => isSpace_of_mem_head?_trim) fun _ => isSpace_of_mem_getLast?_trim

/-- **A trimmed text is what trimming finds** between white space. -/
theorem trim_between {gap trail : JsString} (hgap : visible gap = []) (htrail : visible trail = [])
    (htrim : trim s = s) (hne : s ≠ []) : trim (gap ++ (s ++ trail)) = s := by
  have hdrop : s.dropWhile isSpace = s := by
    refine (List.dropWhile_sublist isSpace).eq_of_length_le ?_
    calc s.length = (trim s).length := by rw [htrim]
      _ ≤ (s.dropWhile isSpace).length := (List.rdropWhile_prefix isSpace _).length_le
  have hhead : (s ++ trail).dropWhile isSpace = s ++ trail := by
    rcases s with _ | ⟨c, s⟩
    · exact absurd rfl hne
    · refine List.dropWhile_cons_of_neg fun hspace => ?_
      rw [List.dropWhile_cons_of_pos hspace] at hdrop
      have hlength := congrArg List.length hdrop
      have hle := (List.dropWhile_sublist isSpace (l := s)).length_le
      rw [List.length_cons] at hlength
      omega
  have hrdrop : s.rdropWhile isSpace = s := by rwa [trim, hdrop] at htrim
  rw [trim, List.dropWhile_append_of_pos (visible_eq_nil_iff.1 hgap), hhead, List.rdropWhile,
    List.reverse_append, List.dropWhile_append_of_pos fun c hc =>
      visible_eq_nil_iff.1 htrail c (List.mem_reverse.1 hc)]
  exact hrdrop

/-- **Texts joined with white space** show what they show each. -/
theorem visible_join (hsep : visible sep = []) (ss : List JsString) :
    visible (join sep ss) = ss.flatMap visible := by
  induction ss with
  | nil => rfl
  | cons s ss ih =>
    rcases ss with _ | ⟨s', ss⟩
    · rw [join, List.intercalate_singleton, List.flatMap_singleton]
    · rw [join, List.intercalate_cons_cons, ← join, visible_append, visible_append, ih, hsep,
        List.append_nil]
      rfl

/-- **A text split at a white character** shows what its pieces show. -/
theorem visible_splitOn {c : UInt16} (hc : isSpace c = true) (s : JsString) :
    (s.splitOn c).flatMap visible = visible s := by
  have hsep : visible [c] = [] := visible_eq_nil_iff.2 (by simp [hc])
  rw [← visible_join hsep, join, List.intercalate_splitOn]

end JsString

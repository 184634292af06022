import SupportAgent.Ingestion.Chunking.Chunker
import SupportAgent.Machinery.Ranges

/-!
# Ingestion/Chunking/Sentences — the sentences of a block leave nothing out

The regular expression finds the ends of sentences; a sentence runs from one end to the next, and
what follows the last end is one more.  Each match holds a terminator, so no stretch between two
ends is blank and dropped, and a text without white space at its end leaves no blank remainder:
`consecutive_sentences`.
-/

namespace Ingestion

open JsString Ranges

/-! ## The ends of the sentences -/

theorem isSpace_of_isTerminator {c : UInt16} (h : isTerminator c = true) : isSpace c = false := by
  rw [isTerminator, Bool.or_eq_true, Bool.or_eq_true, beq_iff_eq, beq_iff_eq, beq_iff_eq] at h
  obtain (rfl | rfl) | rfl := h <;> rfl

/-- A match is not empty, lies in the text, and begins with a terminator. -/
theorem sentenceEnd_eq_some {c : UInt16} {s : JsString} {n : ℕ}
    (h : sentenceEnd (c :: s) = some n) :
    0 < n ∧ n ≤ (c :: s).length ∧ isTerminator c = true := by
  have hterminator : isTerminator c = true := by
    by_contra hc
    rw [Bool.not_eq_true] at hc
    rw [sentenceEnd,
      List.takeWhile_cons_of_neg (by rw [hc]; exact Bool.false_ne_true), if_pos rfl] at h
    cases h
  have hsplit :=
    congrArg List.length (List.takeWhile_append_dropWhile (p := isTerminator) (l := c :: s))
  have hspaces := (List.takeWhile_sublist isSpace (l := (c :: s).dropWhile isTerminator)).length_le
  have hpos : 0 < ((c :: s).takeWhile isTerminator).length := by
    rw [List.takeWhile_cons_of_pos hterminator]
    exact Nat.succ_pos _
  rw [List.length_append] at hsplit
  simp only [sentenceEnd] at h
  split at h
  · cases h
  · split at h
    · obtain rfl := Option.some.inj h
      exact ⟨by omega, by omega, hterminator⟩
    · cases h

/-- Ends in a text, each with a terminator between it and the end before. -/
def EndsFrom (text : JsString) : (last : ℕ) → List ℕ → Prop
  | _, [] => True
  | last, e :: ends =>
    (∃ i c, last ≤ i ∧ i < e ∧ text[i]? = some c ∧ isTerminator c = true) ∧ e ≤ text.length ∧
      EndsFrom text e ends

theorem endsFrom_sentenceEnds {text : JsString} {fuel pos last : ℕ} (hlast : last ≤ pos)
    {s : JsString} (hs : text.drop pos = s) : EndsFrom text last (sentenceEnds fuel pos s) := by
  induction fuel generalizing pos last s with
  | zero => exact trivial
  | succ fuel ih =>
    cases s with
    | nil => exact trivial
    | cons c s =>
      have hlength : text.length - pos = (c :: s).length := by rw [← List.length_drop, hs]
      have htail : text.drop (pos + 1) = s := by
        rw [← List.drop_drop, hs]
        rfl
      rw [sentenceEnds]
      split
      · rename_i n hn
        obtain ⟨hpos, hle, hterminator⟩ := sentenceEnd_eq_some hn
        refine ⟨⟨pos, c, hlast, by omega, ?_, hterminator⟩, by omega, ih le_rfl ?_⟩
        · rw [← List.head?_drop, hs]
          rfl
        · rw [← List.drop_drop, hs]
      · exact ih (hlast.trans (Nat.le_succ _)) htail

/-- A stretch with a terminator in it is not blank. -/
theorem trim_slice_ne_nil {text : JsString} {a b i : ℕ} {c : UInt16} (ha : a ≤ i) (hb : i < b)
    (hc : text[i]? = some c) (hspace : isSpace c = false) : trim (slice text a b) ≠ [] := by
  rw [ne_eq, trim_eq_nil_iff]
  intro hblank
  have hmem : c ∈ slice text a b := by
    refine List.mem_of_getElem? (i := i - a) ?_
    rw [slice, List.getElem?_drop, List.getElem?_take, if_pos (by omega), ← hc]
    congr 1
    omega
  have := hblank c hmem
  rw [hspace] at this
  cases this

/-! ## The sentences -/

theorem consecutive_sentencesFrom {text : JsString} {last : ℕ} {ends : List ℕ}
    (hlast : last ≤ text.length) (hends : EndsFrom text last ends)
    (hend : ∀ c ∈ text.getLast?, isSpace c = false) :
    Consecutive last (sentencesFrom text last ends) text.length := by
  induction ends generalizing last with
  | nil =>
    rw [sentencesFrom]
    rcases hlast.lt_or_eq with hlt | rfl
    · have hne : text ≠ [] := List.ne_nil_of_length_pos (by omega)
      have hremainder : trim (slice text last text.length) ≠ [] := by
        refine trim_slice_ne_nil (i := text.length - 1) (c := text.getLast hne)
          (by omega) (by omega)
          ?_ (hend _ (List.getLast?_eq_some_getLast hne))
        rw [← List.getLast?_eq_getElem?, List.getLast?_eq_some_getLast hne]
      rw [if_pos (by simp [hlt, hremainder])]
      exact ⟨rfl, hlt, rfl⟩
    · rw [if_neg (by simp)]
      rfl
  | cons e ends ih =>
    obtain ⟨⟨i, c, hi, hie, hc, hterminator⟩, he, hends⟩ := hends
    rw [sentencesFrom, if_pos (trim_slice_ne_nil hi hie hc (isSpace_of_isTerminator hterminator))]
    exact ⟨rfl, hi.trans_lt hie, ih he hends⟩

/-- **The sentences of a text follow one another from its start to its end.** -/
theorem consecutive_sentences {text : JsString} (hend : ∀ c ∈ text.getLast?, isSpace c = false) :
    Consecutive 0 (sentences text) text.length :=
  consecutive_sentencesFrom (Nat.zero_le _) (endsFrom_sentenceEnds le_rfl rfl) hend

end Ingestion

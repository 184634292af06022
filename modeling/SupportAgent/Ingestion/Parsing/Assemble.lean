import Mathlib.Data.List.Chain
import SupportAgent.Machinery.Js

/-!
# Ingestion/Parsing/Assemble — one text out of parsed blocks, and the anchors into it

A format parser emits `RawBlock`s; `assemble` trims them, drops the blank ones and joins the rest
with a blank line, writing down where each begins and ends.  `Anchored` is what citations later rest
on: every block's offsets cut that block back out of the text, and consecutive blocks are exactly
one blank line apart.
-/

namespace Ingestion

open JsString

/-- A structural segment emitted by a format parser (pre char-offset). -/
structure RawBlock where
  text : JsString
  page : ℕ
  heading : Bool := false
  level : Option ℕ := none
  deriving DecidableEq

/-- A block with its char offsets into the assembled normalized text. -/
structure AnchoredBlock extends RawBlock where
  charStart : ℕ
  charEnd : ℕ
  deriving DecidableEq

/-- Raw output of a per-format parser, before assembly. -/
structure FormatParseResult where
  blocks : List RawBlock
  pageCount : ℕ
  warnings : List JsString

/-- Normalized, structured document ready for chunking. -/
structure ParsedDocument where
  text : JsString
  pageCount : ℕ
  warnings : List JsString
  blocks : List AnchoredBlock

/-- The blank line between two blocks. -/
def blankLine : JsString := js "\n\n"

/-- One turn of the loop of `assemble`: the text so far and the blocks anchored in it. -/
def assembleBlock (acc : JsString × List AnchoredBlock) (block : RawBlock) :
    JsString × List AnchoredBlock :=
  let trimmed := trim block.text
  if trimmed = [] then acc
  else
    let text := if acc.1 = [] then acc.1 else acc.1 ++ blankLine
    let charStart := text.length
    let text := text ++ trimmed
    (text, acc.2 ++ [{ block with text := trimmed, charStart, charEnd := text.length }])

/-- Concatenate parsed blocks into one normalized text and record each block's char offsets. -/
def assemble (result : FormatParseResult) : ParsedDocument :=
  let (text, blocks) := result.blocks.foldl assembleBlock ([], [])
  { text, pageCount := result.pageCount, warnings := result.warnings, blocks }

/-! ## Offsets cut the blocks back out -/

/-- A block that is exactly its stretch of `text`, and not an empty one. -/
structure AnchoredBlock.AnchoredIn (b : AnchoredBlock) (text : JsString) : Prop where
  lt : b.charStart < b.charEnd
  le : b.charEnd ≤ text.length
  slice : slice text b.charStart b.charEnd = b.text

/-- `b'` follows `b` in `text` after one blank line. -/
structure FollowsIn (text : JsString) (b b' : AnchoredBlock) : Prop where
  start : b'.charStart = b.charEnd + 2
  slice : slice text b.charEnd b'.charStart = blankLine

/-- **Blocks laid out in a text**: each anchored in it, each one blank line after the last. -/
structure Anchored (text : JsString) (blocks : List AnchoredBlock) : Prop where
  anchored : ∀ b ∈ blocks, b.AnchoredIn text
  follows : blocks.IsChain (FollowsIn text)

theorem AnchoredBlock.AnchoredIn.append {b : AnchoredBlock} {text : JsString}
    (h : b.AnchoredIn text) (more : JsString) : b.AnchoredIn (text ++ more) :=
  ⟨h.lt, h.le.trans (by simp), by rw [slice_append_left h.le, h.slice]⟩

theorem FollowsIn.append {b b' : AnchoredBlock} {text : JsString} (h : FollowsIn text b b')
    (hb : b'.charStart ≤ text.length) (more : JsString) : FollowsIn (text ++ more) b b' :=
  ⟨h.start, by rw [slice_append_left hb, h.slice]⟩

/-- Text added at the end disturbs no anchor. -/
theorem Anchored.append {text : JsString} {blocks : List AnchoredBlock} (h : Anchored text blocks)
    (more : JsString) : Anchored (text ++ more) blocks := by
  refine ⟨fun b hb => (h.anchored b hb).append more, ?_⟩
  refine List.IsChain.imp_of_mem_imp (fun b b' _ hb' hf => ?_) h.follows
  have hb' := h.anchored b' hb'
  exact hf.append (hb'.lt.le.trans hb'.le) more

/-- A stretch of the layout is laid out too. -/
theorem Anchored.stretch {text : JsString} {blocks blocks' : List AnchoredBlock}
    (h : Anchored text blocks) (hb : blocks' <:+: blocks) : Anchored text blocks' :=
  ⟨fun b hb' => h.anchored b (hb.subset hb'), List.IsChain.infix h.follows hb⟩

/-- **Consecutive blocks, joined by blank lines, are one stretch of the text.** -/
theorem Anchored.slice_join {text : JsString} (b : AnchoredBlock) (rest : List AnchoredBlock)
    (h : Anchored text (b :: rest)) :
    slice text b.charStart ((b :: rest).getLast (by simp)).charEnd
      = join blankLine ((b :: rest).map (·.text)) := by
  induction rest generalizing b with
  | nil => simpa [join, List.intercalate] using (h.anchored b (by simp)).slice
  | cons b' rest ih =>
    have hb := h.anchored b (by simp)
    have hb' := h.anchored b' (by simp)
    have hf : FollowsIn text b b' := (List.isChain_cons_cons.mp h.follows).1
    have htail := ih b' (h.stretch (List.suffix_cons b (b' :: rest)).isInfix)
    have hle : b'.charStart ≤ ((b' :: rest).getLast (by simp)).charEnd := by
      by_contra hlt
      have hnil : slice text b'.charStart ((b' :: rest).getLast (by simp)).charEnd = [] := by
        rw [slice, List.drop_eq_nil_iff, List.length_take]; omega
      have hne : b'.text ≠ [] := by
        rw [← hb'.slice, ← List.length_pos_iff, length_slice hb'.le]
        have := hb'.lt
        omega
      rw [htail] at hnil
      cases rest <;> simp_all [join, List.intercalate]
    have hstart : b.charEnd ≤ b'.charStart := by have := hf.start; omega
    rw [List.getLast_cons (by simp), ← slice_append_slice text hb.lt.le (hstart.trans hle),
      ← slice_append_slice text hstart hle, hb.slice, hf.slice, htail]
    simp [join, List.intercalate]

/-! ## `assemble` lays its blocks out -/

/-- What the loop of `assemble` keeps: the blocks so far are laid out and end where the text
does. -/
structure Assembled (acc : JsString × List AnchoredBlock) : Prop where
  anchored : Anchored acc.1 acc.2
  ends : ∀ b ∈ acc.2.getLast?, b.charEnd = acc.1.length
  empty : acc.1 = [] ↔ acc.2 = []

theorem Assembled.step {acc : JsString × List AnchoredBlock} (h : Assembled acc)
    (block : RawBlock) : Assembled (assembleBlock acc block) := by
  obtain ⟨text, blocks⟩ := acc
  rw [assembleBlock]
  split
  · exact h
  case isFalse hne =>
    set glue := if text = [] then text else text ++ blankLine with hglue
    set new : AnchoredBlock := { block with
      text := trim block.text, charStart := glue.length,
      charEnd := (glue ++ trim block.text).length } with hnew
    have hpos : 0 < (trim block.text).length := List.length_pos_iff.mpr hne
    have hin : new.AnchoredIn (glue ++ trim block.text) :=
      ⟨by simp [hnew, hpos], le_rfl, slice_append_right _ _⟩
    have hold : Anchored (glue ++ trim block.text) blocks := by
      by_cases htext : text = []
      · have hb : blocks = [] := h.empty.mp htext
        subst hb
        exact ⟨by simp, List.isChain_nil⟩
      · rw [hglue, if_neg htext, List.append_assoc]
        exact h.anchored.append _
    refine ⟨⟨fun b hb => ?_, ?_⟩, ?_, ?_⟩
    · rcases List.mem_append.mp hb with hb | hb
      · exact hold.anchored b hb
      · obtain rfl := List.mem_singleton.mp hb
        exact hin
    · refine List.isChain_append.mpr ⟨hold.follows, List.isChain_singleton _, ?_⟩
      intro last hlast b hb
      obtain rfl : new = b := by simpa [hnew] using hb
      have htext : text ≠ [] := fun h0 => by
        rw [h.empty.mp h0] at hlast; simp at hlast
      have hend : last.charEnd = text.length := h.ends last hlast
      have hg : glue = text ++ blankLine := if_neg htext
      have hbl : blankLine.length = 2 := by decide
      refine ⟨by simp [hnew, hg, hend, hbl], ?_⟩
      rw [hend, show new.charStart = (text ++ blankLine).length by simp [hnew, hg],
        slice_append_left (by simp [hg]), hg, slice_append_right]
    · intro b hb
      obtain rfl : new = b := by simpa [hnew] using hb
      rfl
    · simp [hne]

/-- **`assemble` lays its blocks out in the text it builds.** -/
theorem anchored_assemble (result : FormatParseResult) :
    Anchored (assemble result).text (assemble result).blocks := by
  have hloop : ∀ (blocks : List RawBlock) (acc : JsString × List AnchoredBlock), Assembled acc →
      Assembled (blocks.foldl assembleBlock acc) := by
    intro blocks
    induction blocks with
    | nil => exact fun _ h => h
    | cons b blocks ih => exact fun acc h => ih _ (h.step b)
  exact (hloop result.blocks ([], []) ⟨⟨by simp, List.isChain_nil⟩, by simp, by simp⟩).anchored

/-- The blocks of an assembled document are trimmed, and not blank. -/
theorem exists_trim_of_mem_assemble {result : FormatParseResult} {b : AnchoredBlock}
    (hb : b ∈ (assemble result).blocks) : ∃ s, trim s ≠ [] ∧ b.text = trim s := by
  have hloop : ∀ (blocks : List RawBlock) (acc : JsString × List AnchoredBlock),
      (∀ b ∈ acc.2, ∃ s, trim s ≠ [] ∧ b.text = trim s) →
      ∀ b ∈ (blocks.foldl assembleBlock acc).2, ∃ s, trim s ≠ [] ∧ b.text = trim s := by
    intro blocks
    induction blocks with
    | nil => exact fun _ h => h
    | cons raw blocks ih =>
      intro acc hacc
      refine ih _ fun b hb => ?_
      dsimp only [assembleBlock] at hb
      split at hb
      · exact hacc b hb
      case isFalse hne =>
        rcases List.mem_append.mp hb with hb | hb
        · exact hacc b hb
        · rw [List.mem_singleton.mp hb]
          exact ⟨raw.text, hne, rfl⟩
  exact hloop result.blocks ([], []) (by simp) b hb

/-- **What chunking relies on**: the blocks are laid out in the text, none is blank, and none ends
in white space. -/
structure ParsedDocument.WellFormed (parsed : ParsedDocument) : Prop where
  anchored : Anchored parsed.text parsed.blocks
  trim_ne_nil : ∀ b ∈ parsed.blocks, trim b.text ≠ []
  last : ∀ b ∈ parsed.blocks, ∀ c ∈ b.text.getLast?, isSpace c = false

theorem wellFormed_assemble (result : FormatParseResult) : (assemble result).WellFormed where
  anchored := anchored_assemble result
  trim_ne_nil b hb := by
    obtain ⟨s, hs, htext⟩ := exists_trim_of_mem_assemble hb
    rw [htext]
    exact trim_trim_ne_nil hs
  last b hb c hc := by
    obtain ⟨s, hs, htext⟩ := exists_trim_of_mem_assemble hb
    rw [htext, List.getLast?_eq_some_getLast hs] at hc
    obtain rfl := Option.some.inj hc
    exact Bool.eq_false_of_not_eq_true (List.rdropWhile_last_not _ _ hs)

theorem Anchored.pairwise {text : JsString} {blocks : List AnchoredBlock}
    (h : Anchored text blocks) : blocks.Pairwise fun b b' => b.charEnd < b'.charStart := by
  induction blocks with
  | nil => exact List.Pairwise.nil
  | cons b rest ih =>
    have hrest := ih (h.stretch (List.suffix_cons b rest).isInfix)
    refine List.pairwise_cons.2 ⟨fun b' hb' => ?_, hrest⟩
    obtain ⟨next, rest, rfl⟩ := List.exists_cons_of_ne_nil (List.ne_nil_of_mem hb')
    have hstart : next.charStart = b.charEnd + 2 := (List.isChain_cons_cons.1 h.follows).1.start
    obtain rfl | hb' := List.mem_cons.1 hb'
    · omega
    · have hlt := (h.anchored next (by simp)).lt
      have := (List.pairwise_cons.1 hrest).1 b' hb'
      omega

end Ingestion

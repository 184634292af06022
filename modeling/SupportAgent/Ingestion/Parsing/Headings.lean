import SupportAgent.Ingestion.Parsing.Lossless
import Mathlib.Data.List.Infix

/-!
# Ingestion/Parsing/Headings — when Markdown headings are read outside code fences

`parseMarkdown` keeps one flag, which every line that begins like a fence turns over.  A code fence
has a character and a length, and is open until a line of that character, at least as long
(`stepFence`).  A line that begins like a fence and neither opens nor closes one is stray: after an
even number of them the flag says whether a fence is open (`inFence_eq_iff`).  So headings are read
exactly outside code fences when an even number of stray lines comes before each
(`headings_exact_iff`).
-/

namespace Ingestion

open JsString

/-! ## Code fences -/

inductive FenceMark
  | backtick
  | tilde

def FenceMark.unit : FenceMark → UInt16
  | backtick => 0x60
  | tilde => 0x7E

/-- An open code fence. -/
structure Fence where
  mark : FenceMark
  length : ℕ
  three_le : 3 ≤ length

/-- The run of a mark a line begins with, behind its indentation. -/
def markRun (mark : FenceMark) (line : JsString) : JsString :=
  (line.dropWhile isSpace).takeWhile (· == mark.unit)

/-- The fence a line opens: a run of at least three backticks, with no backtick behind it, or of at
least three tildes. -/
def opening (line : JsString) : Option Fence :=
  if h : 3 ≤ (markRun .backtick line).length then
    if 0x60 ∈ (line.dropWhile isSpace).dropWhile (· == 0x60) then none else some ⟨.backtick, _, h⟩
  else if h : 3 ≤ (markRun .tilde line).length then some ⟨.tilde, _, h⟩ else none

/-- The line is only a run of the fence's mark, at least as long. -/
def Fence.closedBy (f : Fence) (line : JsString) : Bool :=
  (trim line).all (· == f.mark.unit) && decide (f.length ≤ (trim line).length)

/-- The fence open after a line. -/
def stepFence : Option Fence → JsString → Option Fence
  | none, line => opening line
  | some f, line => if f.closedBy line then none else some f

/-- The fence open after these lines. -/
def fenceAfter (lines : List JsString) : Option Fence := lines.foldl stepFence none

/-- A line that opens a fence or closes one. -/
def isFenceLine (fence : Option Fence) (line : JsString) : Bool :=
  (stepFence fence line).isSome != fence.isSome

/-- A line that begins like a fence and is none. -/
def isStray (fence : Option Fence) (line : JsString) : Bool :=
  isFence line && !isFenceLine fence line

/-- The number of stray lines. -/
def straysFrom : Option Fence → List JsString → ℕ
  | _, [] => 0
  | fence, line :: lines =>
    (if isStray fence line then 1 else 0) + straysFrom (stepFence fence line) lines

def strays (lines : List JsString) : ℕ := straysFrom none lines

/-! ## Lines that begin like a fence -/

theorem prefix_replicate_iff (c : UInt16) (n : ℕ) (s : JsString) :
    List.replicate n c <+: s ↔ n ≤ (s.takeWhile (· == c)).length := by
  induction s generalizing n with
  | nil =>
    rw [List.prefix_nil, List.replicate_eq_nil_iff]
    exact Nat.le_zero.symm
  | cons d s ih =>
    rcases n with _ | n
    · exact iff_of_true (List.nil_prefix) (Nat.zero_le _)
    · rw [List.replicate_succ, List.cons_prefix_cons, List.takeWhile_cons]
      split
      case isTrue h =>
        rw [ih, List.length_cons, Nat.succ_le_succ_iff]
        exact and_iff_right (beq_iff_eq.1 h).symm
      case isFalse h => exact iff_of_false (fun hc => h (beq_iff_eq.2 hc.1.symm)) (by simp)

theorem isFence_iff (line : JsString) : isFence line = true ↔
    3 ≤ (markRun .backtick line).length ∨ 3 ≤ (markRun .tilde line).length := by
  have hbacktick : js "```" = List.replicate 3 0x60 := rfl
  have htilde : js "~~~" = List.replicate 3 0x7E := rfl
  rw [isFence, hbacktick, htilde, Bool.or_eq_true, List.isPrefixOf_iff_prefix,
    List.isPrefixOf_iff_prefix, prefix_replicate_iff, prefix_replicate_iff]
  rfl

theorem isFence_of_mark {mark : FenceMark} {line : JsString} (h : 3 ≤ (markRun mark line).length) :
    isFence line = true := by
  rw [isFence_iff]
  cases mark with
  | backtick => exact .inl h
  | tilde => exact .inr h

theorem isFence_of_opening {line : JsString} (h : (opening line).isSome = true) :
    isFence line = true := by
  rw [opening] at h
  split at h
  case isTrue hrun => exact isFence_of_mark hrun
  case isFalse =>
    split at h
    case isTrue hrun => exact isFence_of_mark hrun
    case isFalse => cases h

/-- A line that closes a fence begins like one. -/
theorem Fence.isFence_of_closedBy {f : Fence} {line : JsString} (h : f.closedBy line = true) :
    isFence line = true := by
  obtain ⟨hall, hlength⟩ := Bool.and_eq_true_iff.1 h
  obtain ⟨gap, trail, hline, hgap, -⟩ := exists_eq_trim line
  have hne : trim line ≠ [] := fun hnil => by
    rw [hnil] at hlength
    exact absurd (of_decide_eq_true hlength) (by have := f.three_le; simp; omega)
  have hvisible : ((trim line ++ trail).dropWhile isSpace) = trim line ++ trail := by
    have hmark : isSpace f.mark.unit = false := by cases f.mark <;> rfl
    obtain ⟨c, rest, htrim⟩ := List.exists_cons_of_ne_nil hne
    rw [htrim] at hall ⊢
    obtain rfl : c = f.mark.unit := beq_iff_eq.1 (List.all_eq_true.1 hall c (by simp))
    exact List.dropWhile_cons_of_neg (by simp [hmark])
  have hrun : (trim line).length ≤ (markRun f.mark line).length := by
    rw [markRun]
    nth_rewrite 2 [hline]
    rw [List.dropWhile_append_of_pos (visible_eq_nil_iff.1 hgap), hvisible,
      List.takeWhile_append_of_pos (List.all_eq_true.1 hall), List.length_append]
    exact Nat.le_add_right _ _
  exact isFence_of_mark ((f.three_le.trans (of_decide_eq_true hlength)).trans hrun)

/-- **A fence line begins like one.** -/
theorem isFence_of_isFenceLine {fence : Option Fence} {line : JsString}
    (h : isFenceLine fence line = true) : isFence line = true := by
  rcases fence with _ | f
  · exact isFence_of_opening (by simpa [isFenceLine, stepFence] using h)
  · refine f.isFence_of_closedBy ?_
    by_contra hopen
    rw [isFenceLine, stepFence, if_neg hopen] at h
    cases h

/-! ## The flag -/

namespace MarkdownState

variable {st : MarkdownState} {line : JsString}

theorem inFence_addLine (st : MarkdownState) (line : JsString) :
    (st.addLine line).inFence = (isFence line != st.inFence) := by
  rw [addLine]
  cases isFence line with
  | true =>
    rw [if_pos rfl]
    cases st.inFence <;> rfl
  | false =>
    rw [if_neg Bool.false_ne_true, Bool.false_bne]
    split
    · rfl
    · split <;> rfl

/-- **After an even number of stray lines the flag is as right as it was**, after an odd number as
wrong. -/
theorem inFence_foldl_iff (lines : List JsString) (st : MarkdownState) (fence : Option Fence) :
    (lines.foldl addLine st).inFence = (lines.foldl stepFence fence).isSome ↔
      (st.inFence = fence.isSome ↔ Even (straysFrom fence lines)) := by
  induction lines generalizing st fence with
  | nil => exact (iff_true_right Even.zero).symm
  | cons line lines ih =>
    have hstep : (stepFence fence line).isSome = (isFenceLine fence line != fence.isSome) := by
      rw [isFenceLine]
      cases (stepFence fence line).isSome <;> cases fence.isSome <;> rfl
    rw [List.foldl_cons, List.foldl_cons, ih, inFence_addLine, hstep, straysFrom, isStray]
    by_cases hfence : isFenceLine fence line = true
    · rw [hfence, isFence_of_isFenceLine hfence]
      simp
    · rw [Bool.eq_false_of_not_eq_true hfence]
      rcases isFence line with _ | _
      · simp
      · have hone : (if (true && !false) = true then 1 else 0) = 1 := rfl
        rw [hone, Nat.even_add]
        cases st.inFence <;> cases fence.isSome <;> simp

end MarkdownState

/-! ## Headings -/

/-- **An ATX heading**: one to six `#` at the start of the line, white space, then text that begins
and ends visibly and has no line separator. -/
def AtxHeading (line : JsString) (level : ℕ) (text : JsString) : Prop :=
  (1 ≤ level ∧ level ≤ 6) ∧ text ≠ [] ∧ trim text = text ∧
  (∀ c ∈ text, isLineTerminator c = false) ∧
    ∃ gap trail, gap ≠ [] ∧ visible gap = [] ∧ visible trail = [] ∧
      line = List.replicate level 0x23 ++ (gap ++ (text ++ trail))

/-- **The heading the parser reads in a line** is the line's ATX heading. -/
theorem matchHeading_eq_some_iff {line text : JsString} {level : ℕ} :
    matchHeading line = some (level, text) ↔ AtxHeading line level text := by
  constructor
  · intro h
    rw [matchHeading] at h
    split at h
    case isFalse => cases h
    case isTrue hmatch =>
      obtain ⟨hone, hsix, hspace, hne, hline⟩ := hmatch
      obtain ⟨rfl, rfl⟩ := Prod.mk.inj (Option.some.inj h)
      obtain ⟨gap, trail, hrest, hgap, htrail⟩ := exists_eq_trim (line.dropWhile (· == 0x23))
      refine ⟨⟨hone, hsix⟩, hne,
        trim_trim _, by simpa using hline, gap, trail, ?_, hgap, htrail, ?_⟩
      · rintro rfl
        obtain ⟨c, rest, htrim⟩ := List.exists_cons_of_ne_nil hne
        have hhead : (line.dropWhile (· == 0x23)).head? = some c := by rw [hrest, htrim]; rfl
        have hblank : isSpace c = true := by simpa [hhead] using hspace
        have hvisible : isSpace c = false :=
          isSpace_of_mem_head?_trim (s := line.dropWhile (· == 0x23)) (by rw [htrim]; rfl)
        exact Bool.false_ne_true (hvisible.symm.trans hblank)
      · have hhashes : line.takeWhile (· == 0x23) =
            List.replicate (line.takeWhile (· == 0x23)).length 0x23 :=
          List.eq_replicate_of_mem fun c hc => beq_iff_eq.1 (List.mem_takeWhile_imp hc :)
        rw [← hhashes, ← hrest, List.takeWhile_append_dropWhile]
  · rintro ⟨⟨hone, hsix⟩, hne, htrim, hline, gap, trail, hgap, hgapBlank, htrailBlank, rfl⟩
    obtain ⟨c, gap, rfl⟩ := List.exists_cons_of_ne_nil hgap
    have hspace : isSpace c = true := visible_eq_nil_iff.1 hgapBlank c (by simp)
    have hhash : ¬(c == 0x23) = true := fun h => by
      rw [beq_iff_eq.1 h] at hspace
      cases hspace
    have hall : ∀ d ∈ List.replicate level (0x23 : UInt16), (d == 0x23) = true := fun d hd =>
      beq_iff_eq.2 (List.eq_of_mem_replicate hd)
    have htake : (List.replicate level 0x23 ++ (c :: gap ++ (text ++ trail))).takeWhile
        (· == 0x23) = List.replicate level 0x23 := by
      have hstop : (c :: gap ++ (text ++ trail)).takeWhile (· == 0x23) = [] :=
        List.takeWhile_cons_of_neg hhash
      rw [List.takeWhile_append_of_pos hall, hstop, List.append_nil]
    have hdrop : (List.replicate level 0x23 ++ (c :: gap ++ (text ++ trail))).dropWhile
        (· == 0x23) = c :: gap ++ (text ++ trail) := by
      rw [List.dropWhile_append_of_pos hall, List.cons_append]
      exact List.dropWhile_cons_of_neg hhash
    rw [matchHeading, htake, hdrop, trim_between hgapBlank htrailBlank htrim hne,
      List.length_replicate]
    exact if_pos ⟨hone, hsix, by simp [hspace], hne, by simpa using hline⟩

/-- A heading does not begin like a fence. -/
theorem AtxHeading.isFence_eq_false {line text : JsString} {level : ℕ}
    (h : AtxHeading line level text) : isFence line = false := by
  obtain ⟨⟨hone, -⟩, -, -, -, gap, trail, -, -, -, rfl⟩ := h
  obtain ⟨n, rfl⟩ := Nat.exists_eq_add_of_le' hone
  refine Bool.eq_false_of_not_eq_true fun hfence => ?_
  rcases (isFence_iff _).1 hfence with hrun | hrun
  · exact absurd hrun (by decide : ¬3 ≤ 0)
  · exact absurd hrun (by decide : ¬3 ≤ 0)

namespace MarkdownState

variable {st : MarkdownState} {line : JsString}

/-- The heading blocks a line adds. -/
def emittedHeadings (st : MarkdownState) (line : JsString) : List RawBlock :=
  (st.emitted line).filter (·.heading)

/-- What a turn and the paragraph it may end come to. -/
theorem exists_addLine_blocks (st : MarkdownState) (line : JsString) : ∃ paragraph : List RawBlock,
    (∀ b ∈ paragraph, b.heading = false) ∧ (st.addLine line).blocks =
      st.blocks ++ (paragraph ++ (st.headingOf line).toList.map fun h => headingBlock h.1 h.2) := by
  obtain ⟨paragraph, hflush, hplain, -⟩ := st.exists_flush_eq
  rcases st.addLine_cases line with ⟨level, text, hheading, hadd⟩ | ⟨hheading, -, hadd⟩ |
    ⟨hheading, hadd⟩
  · refine ⟨paragraph, hplain, ?_⟩
    rw [hadd, hflush, hheading]
    exact List.append_assoc _ _ _
  · refine ⟨paragraph, hplain, ?_⟩
    rw [hadd, hflush, hheading]
    exact congrArg _ (List.append_nil _).symm
  · refine ⟨[], by simp, ?_⟩
    rw [hadd, hheading]
    exact (List.append_nil _).symm

theorem filter_heading_paragraph {paragraph : List RawBlock}
    (h : ∀ b ∈ paragraph, b.heading = false) (headings : List (ℕ × JsString)) :
    (paragraph ++ headings.map fun h => headingBlock h.1 h.2).filter (·.heading) =
      headings.map fun h => headingBlock h.1 h.2 := by
  have hparagraph : paragraph.filter (·.heading) = [] :=
    List.filter_eq_nil_iff.2 fun b hb => by simp [h b hb]
  have hheadings : (headings.map fun h => headingBlock h.1 h.2).filter (·.heading) =
      headings.map fun h => headingBlock h.1 h.2 :=
    List.filter_eq_self.2 fun b hb => by obtain ⟨h, -, rfl⟩ := List.mem_map.1 hb; rfl
  rw [List.filter_append, hparagraph, hheadings, List.nil_append]

/-- **A line adds the heading it is read as**, and no other. -/
theorem emittedHeadings_eq (st : MarkdownState) (line : JsString) :
    st.emittedHeadings line = (st.headingOf line).toList.map fun h => headingBlock h.1 h.2 := by
  obtain ⟨paragraph, hplain, hblocks⟩ := st.exists_addLine_blocks line
  rw [emittedHeadings, emitted, hblocks, List.drop_left, filter_heading_paragraph hplain]

/-- The heading blocks of the lines, line by line. -/
def headings : MarkdownState → List JsString → List RawBlock
  | _, [] => []
  | st, line :: lines => st.emittedHeadings line ++ (st.addLine line).headings lines

/-- **The headings of the result are those of the lines**, in their order. -/
theorem filter_heading_foldl (lines : List JsString) (st : MarkdownState) :
    (lines.foldl addLine st).flush.blocks.filter (·.heading) =
      st.blocks.filter (·.heading) ++ st.headings lines := by
  induction lines generalizing st with
  | nil =>
    obtain ⟨paragraph, hflush, hplain, -⟩ := st.exists_flush_eq
    have hparagraph := filter_heading_paragraph hplain []
    rw [List.map_nil, List.append_nil] at hparagraph
    rw [List.foldl_nil, hflush, List.filter_append, hparagraph, headings]
  | cons line lines ih =>
    obtain ⟨paragraph, hplain, hblocks⟩ := st.exists_addLine_blocks line
    rw [List.foldl_cons, ih, hblocks, List.filter_append, filter_heading_paragraph hplain, headings,
      emittedHeadings_eq, List.append_assoc]

/-- The state after these lines. -/
def after (lines : List JsString) : MarkdownState := lines.foldl addLine {}

theorem inFence_after_iff (lines : List JsString) :
    (after lines).inFence = (fenceAfter lines).isSome ↔ Even (strays lines) :=
  (inFence_foldl_iff lines {} none).trans (iff_true_left rfl)

/-- The headings a line adds: its ATX heading, when the flag is down. -/
theorem mem_emittedHeadings {b : RawBlock} : b ∈ st.emittedHeadings line ↔
    ∃ level text, b = headingBlock level text ∧ AtxHeading line level text ∧
      st.inFence = false := by
  rw [emittedHeadings_eq, List.mem_map]
  constructor
  · rintro ⟨⟨level, text⟩, hmem, rfl⟩
    have hheading : st.headingOf line = some (level, text) := Option.mem_toList.1 hmem
    rw [headingOf] at hheading
    split at hheading
    case isTrue => cases hheading
    case isFalse hclosed =>
      refine ⟨level, text, rfl, matchHeading_eq_some_iff.1 hheading, ?_⟩
      exact Bool.eq_false_of_not_eq_true fun hin => hclosed (by rw [hin, Bool.or_true])
  · rintro ⟨level, text, rfl, hatx, hclosed⟩
    refine ⟨(level, text), Option.mem_toList.2 ?_, rfl⟩
    rw [headingOf, hatx.isFence_eq_false, hclosed, matchHeading_eq_some_iff.2 hatx]
    rfl

end MarkdownState

open MarkdownState in
/-- **Headings are read exactly outside code fences**: a line adds a heading block exactly when it
is an ATX heading that is in no fence and is no fence line, one block at most, and the blocks come
in the order of the lines. -/
structure HeadingsExact (lines : List JsString) (blocks : List RawBlock) : Prop where
  recognised : ∀ before line rest, lines = before ++ line :: rest → ∀ b,
    b ∈ (after before).emittedHeadings line ↔ ∃ level text, b = headingBlock level text ∧
      AtxHeading line level text ∧ fenceAfter before = none ∧
      isFenceLine (fenceAfter before) line = false
  single : ∀ before line rest, lines = before ++ line :: rest →
    ((after before).emittedHeadings line).length ≤ 1
  ordered : blocks.filter (·.heading) = headings {} lines

/-- Before every ATX heading comes an even number of stray lines. -/
def EvenlyStrayed (lines : List JsString) : Prop :=
  ∀ before line rest, lines = before ++ line :: rest → (∃ level text, AtxHeading line level text) →
    Even (strays before)

theorem headingsExact_iff_evenlyStrayed (lines : List JsString) :
    HeadingsExact lines (MarkdownState.after lines).flush.blocks ↔ EvenlyStrayed lines := by
  refine ⟨fun h before line rest hlines hheading => ?_, fun h => ⟨?_, ?_, ?_⟩⟩
  · obtain ⟨level, text, hatx⟩ := hheading
    have hmem := (h.recognised before line rest hlines (MarkdownState.headingBlock level text))
    rw [MarkdownState.mem_emittedHeadings] at hmem
    rw [← MarkdownState.inFence_after_iff]
    rcases hfence : fenceAfter before with _ | f
    · have hline : isFenceLine none line = false := Bool.eq_false_of_not_eq_true fun hline =>
        Bool.false_ne_true (hatx.isFence_eq_false.symm.trans (isFence_of_isFenceLine hline))
      obtain ⟨-, -, -, -, hclosed⟩ := hmem.2 ⟨level, text, rfl, hatx, hfence, hfence ▸ hline⟩
      exact hclosed
    · refine Bool.eq_true_of_not_eq_false fun hclosed => ?_
      obtain ⟨-, -, -, -, hnone, -⟩ := hmem.1 ⟨level, text, rfl, hatx, hclosed⟩
      rw [hfence] at hnone
      cases hnone
  · intro before line rest hlines b
    rw [MarkdownState.mem_emittedHeadings]
    refine exists_congr fun level => exists_congr fun text => and_congr_right fun _ =>
      and_congr_right fun hatx => ?_
    have hflag :=
      (MarkdownState.inFence_after_iff before).2 (h before line rest hlines ⟨level, text, hatx⟩)
    have hline : isFenceLine (fenceAfter before) line = false :=
      Bool.eq_false_of_not_eq_true fun hline =>
      Bool.false_ne_true (hatx.isFence_eq_false.symm.trans (isFence_of_isFenceLine hline))
    rw [hflag, Option.isSome_eq_false_iff, Option.isNone_iff_eq_none, and_iff_left hline]
  · intro before line rest _
    rw [MarkdownState.emittedHeadings_eq, List.length_map]
    exact Option.length_toList_le
  · exact MarkdownState.filter_heading_foldl lines {}

theorem parseMarkdown_eq {bytes : Bytes} {text : JsString} (h : decodeUtf8 bytes = .ok text) :
    parseMarkdown bytes = .ok (textResult (MarkdownState.after (linesOf text)).flush.blocks) := by
  rw [parseMarkdown, h]
  rfl

/-- **When headings are read exactly outside code fences**: when every ATX heading has an even
number of stray lines before it, lines that begin like a fence and neither open nor close one. -/
theorem headings_exact_iff {bytes : Bytes} {text : JsString} (h : decodeUtf8 bytes = .ok text) :
    (∃ result, parseMarkdown bytes = .ok result ∧ HeadingsExact (linesOf text) result.blocks) ↔
      EvenlyStrayed (linesOf text) := by
  rw [← headingsExact_iff_evenlyStrayed, parseMarkdown_eq h]
  refine ⟨?_, fun hexact => ⟨_, rfl, hexact⟩⟩
  rintro ⟨result, hresult, hexact⟩
  obtain rfl := Except.ok.inj hresult
  exact hexact

/-- A code block with a `#` in it, and a heading behind it. -/
def backtickFenced : JsString := js "```\n# x\n```\n# y"

/-- The line in the code block is no heading. -/
theorem headings_exact_iff_sample : ∃ result,
    parseMarkdown ("```\n# x\n```\n# y".toList.flatMap String.utf8EncodeChar) = .ok result ∧
      HeadingsExact (linesOf backtickFenced) result.blocks ∧
      result.blocks.filter (·.heading) = [MarkdownState.headingBlock 1 (js "y")] := by
  have hdecode : decodeUtf8 (("```\n# x\n```\n# y".toList).flatMap String.utf8EncodeChar) =
      .ok backtickFenced := decodeUtf8_encode (by decide)
  have hlines : linesOf backtickFenced = [js "```", js "# x", js "```", js "# y"] := by
    decide +kernel
  have hstrays : (linesOf backtickFenced).inits.all (Even <| strays ·) = true := by decide +kernel
  obtain ⟨result, hresult, hexact⟩ :=
    (headings_exact_iff hdecode).2 fun before line rest hsplit _ =>
    of_decide_eq_true (List.all_eq_true.1 hstrays before
      ((List.mem_inits _ _).2 (hsplit ▸ List.prefix_append _ _)))
  refine ⟨result, hresult, hexact, hexact.ordered.trans ?_⟩
  rw [hlines]
  rfl

/-- A code block fenced with tildes, with a line of backticks and a `#` in it. -/
def tildeFenced : JsString := js "~~~\n```\n# x\n~~~"

/-- **A comment in a code block becomes a heading** behind a line of the other fence character. -/
theorem not_headings_exact : ¬∀ (bytes : Bytes) (text : JsString), decodeUtf8 bytes = .ok text →
    ∃ result, parseMarkdown bytes = .ok result ∧ HeadingsExact (linesOf text) result.blocks := by
  intro hclaim
  have hdecode : decodeUtf8 (("~~~\n```\n# x\n~~~".toList).flatMap String.utf8EncodeChar) =
      .ok tildeFenced := decodeUtf8_encode (by decide)
  have hlines : linesOf tildeFenced = [js "~~~", js "```"] ++ js "# x" :: [js "~~~"] := by
    decide +kernel
  obtain ⟨result, hresult, hexact⟩ := hclaim _ _ hdecode
  rw [parseMarkdown_eq hdecode] at hresult
  obtain rfl := Except.ok.inj hresult
  have heven := (headingsExact_iff_evenlyStrayed _).1 hexact _ _ _ hlines
    ⟨1, js "x", matchHeading_eq_some_iff.1 rfl⟩
  have hone : strays [js "~~~", js "```"] = 1 := rfl
  rw [hone] at heven
  exact absurd heven (by decide)

end Ingestion

import SupportAgent.Ingestion.Parsing.Text
import SupportAgent.Machinery.Visible

/-!
# Ingestion/Parsing/Lossless — the text parsers keep every visible character

`parseTxt` and `parseMarkdown` move white space around and drop the `#` of headings, and nothing
else (`text_parsers_keep_text`).  A turn of the Markdown loop writes a heading, ends a paragraph or
adds to one (`addLine_cases`).
-/

namespace Ingestion

open JsString Utf8

/-! ## The pieces of a text -/

theorem visible_normalizeNewlines (s : JsString) : visible (normalizeNewlines s) = visible s := by
  have hcr : isSpace 0x0D = true := rfl
  have hlf : isSpace 0x0A = true := rfl
  fun_induction normalizeNewlines s with
  | case1 => rfl
  | case2 => rfl
  | case3 c hc => rfl
  | case4 s ih =>
    rw [visible_cons_of_space hlf, visible_cons_of_space hcr, visible_cons_of_space hlf, ih]
  | case5 d s hd ih => rw [visible_cons_of_space hlf, visible_cons_of_space hcr, ih]
  | case6 c d s hc ih => rw [visible_cons, ih, ← visible_cons]

theorem visible_collapseBlanks (blank : Bool) (s : JsString) :
    visible (collapseBlanks blank s) = visible s := by
  have hspace : isSpace 0x20 = true := rfl
  induction s generalizing blank with
  | nil => rfl
  | cons c s ih =>
    rw [collapseBlanks]
    split
    case isTrue hc =>
      have hblank : isSpace c = true := by rcases hc with rfl | rfl <;> rfl
      split
      · rw [ih, visible_cons_of_space hblank]
      · rw [visible_cons_of_space hspace, ih, visible_cons_of_space hblank]
    case isFalse => rw [visible_cons, ih, ← visible_cons]

theorem visible_newlines (n : ℕ) : visible (List.replicate n 0x0A) = [] :=
  visible_eq_nil_iff.2 fun c hc => by rw [List.eq_of_mem_replicate hc]; rfl

/-- Split at blank lines, a text shows what its pieces show. -/
theorem visible_splitBlankLinesFrom (piece : JsString) (n : ℕ) (s : JsString) :
    (splitBlankLinesFrom piece n s).flatMap visible = visible piece ++ visible s := by
  induction s generalizing piece n with
  | nil =>
    rw [splitBlankLinesFrom]
    split
    · rfl
    · rw [List.flatMap_singleton, visible_append, visible_newlines]
      rfl
  | cons c s ih =>
    rw [splitBlankLinesFrom]
    split
    case isTrue hc => rw [ih, hc, visible_cons_of_space rfl]
    case isFalse =>
      split
      · rw [List.flatMap_cons, ih, visible_cons c s]
      · rw [ih, visible_cons c s, visible_append, visible_append, visible_newlines, List.append_nil,
          List.append_assoc]

/-- Blocks that trim to nothing show nothing. -/
theorem visible_filter_trimmed (ps : List JsString) :
    ((ps.map fun p => trim (collapseBlanks false p)).filter (· ≠ [])).flatMap visible =
      ps.flatMap visible := by
  induction ps with
  | nil => rfl
  | cons p ps ih =>
    have hp : visible (trim (collapseBlanks false p)) = visible p := by
      rw [visible_trim, visible_collapseBlanks]
    rw [List.map_cons, List.filter_cons, List.flatMap_cons, ← hp]
    split
    case isTrue => rw [List.flatMap_cons, ih]
    case isFalse h =>
      have hnil : trim (collapseBlanks false p) = [] := by simpa using h
      rw [ih, hnil]
      rfl

/-! ## Assembling -/

/-- What blocks show. -/
def visibleBlocks (blocks : List RawBlock) : JsString := blocks.flatMap fun b => visible b.text

/-- **The assembled text shows what its blocks show.** -/
theorem visible_assemble (result : FormatParseResult) :
    visible (assemble result).text = visibleBlocks result.blocks := by
  have hblank : visible blankLine = [] := by decide
  have hloop : ∀ (blocks : List RawBlock) (acc : JsString × List AnchoredBlock),
      visible (blocks.foldl assembleBlock acc).1 = visible acc.1 ++ visibleBlocks blocks := by
    intro blocks
    induction blocks with
    | nil => exact fun acc => (List.append_nil _).symm
    | cons b blocks ih =>
      intro acc
      have hturn : visible (assembleBlock acc b).1 = visible acc.1 ++ visible b.text := by
        rw [assembleBlock, ← visible_trim b.text]
        split
        case isTrue h => rw [h, visible_nil, List.append_nil]
        case isFalse =>
          dsimp only
          split
          · rw [visible_append]
          · rw [visible_append, visible_append, hblank, List.append_nil]
      rw [List.foldl_cons, ih, hturn, visibleBlocks, visibleBlocks, List.flatMap_cons,
        List.append_assoc]
  exact hloop result.blocks ([], [])

/-! ## The turns of the Markdown loop -/

namespace MarkdownState

variable {st : MarkdownState} {line : JsString}

/-- The heading a line is read as. -/
def headingOf (st : MarkdownState) (line : JsString) : Option (ℕ × JsString) :=
  if isFence line || st.inFence then none else matchHeading line

/-- The block of a heading. -/
def headingBlock (level : ℕ) (text : JsString) : RawBlock where
  text := text
  page := 1
  heading := true
  level := some level

/-- Ending a paragraph adds at most its block, with what the buffer shows. -/
theorem exists_flush_eq (st : MarkdownState) : ∃ paragraph : List RawBlock,
    st.flush = { st with blocks := st.blocks ++ paragraph, buffer := [] } ∧
      (∀ b ∈ paragraph, b.heading = false) ∧
      visibleBlocks paragraph = st.buffer.flatMap visible := by
  have hspace : visible (js " ") = [] := by decide
  have hvisible : visible (trim (collapseBlanks false (join (js " ") st.buffer))) =
      st.buffer.flatMap visible := by
    rw [visible_trim, visible_collapseBlanks, visible_join hspace]
  rw [flush, ← hvisible]
  split
  case isTrue h =>
    refine ⟨[], by rw [List.append_nil], by simp, ?_⟩
    rw [h]
    rfl
  case isFalse => exact ⟨[_], rfl, by simp, List.flatMap_singleton ..⟩

/-- **What a turn does**: it writes a heading, or ends the paragraph at a blank line, or adds the
line to the paragraph. -/
theorem addLine_cases (st : MarkdownState) (line : JsString) :
    (∃ level text, st.headingOf line = some (level, text) ∧
      st.addLine line = { st.flush with blocks := st.flush.blocks ++ [headingBlock level text] }) ∨
    (st.headingOf line = none ∧ trim line = [] ∧ st.addLine line = st.flush) ∨
    st.headingOf line = none ∧ st.addLine line =
      { st with buffer := st.buffer ++ [trim line], inFence := isFence line != st.inFence } := by
  rw [headingOf, addLine]
  cases hfence : isFence line with
  | true =>
    refine .inr (.inr ⟨rfl, ?_⟩)
    rw [if_pos rfl]
    cases st.inFence <;> rfl
  | false =>
    have hsame : (false != st.inFence) = st.inFence := Bool.false_bne _
    rw [if_neg Bool.false_ne_true, Bool.false_or, hsame]
    rcases hheading : (if st.inFence then none else matchHeading line) with _ | ⟨level, text⟩
    · dsimp only
      split
      case isTrue h => exact .inr (.inl ⟨rfl, of_decide_eq_true (Bool.and_eq_true_iff.1 h).2, rfl⟩)
      case isFalse => exact .inr (.inr ⟨rfl, rfl⟩)
    · exact .inl ⟨level, text, rfl, rfl⟩

/-- What is read so far, blocks and paragraph, shows this. -/
def shown (st : MarkdownState) : JsString := visibleBlocks st.blocks ++ st.buffer.flatMap visible

theorem shown_flush (st : MarkdownState) : st.flush.shown = st.shown := by
  obtain ⟨paragraph, hflush, -, hvisible⟩ := st.exists_flush_eq
  rw [hflush, shown, shown, visibleBlocks, List.flatMap_append, ← visibleBlocks, ← visibleBlocks,
    hvisible, List.flatMap_nil, List.append_nil]

/-- The blocks a line adds. -/
def emitted (st : MarkdownState) (line : JsString) : List RawBlock :=
  (st.addLine line).blocks.drop st.blocks.length

/-- The line is emitted as a heading block. -/
def EmitsHeading (st : MarkdownState) (line : JsString) : Prop :=
  ∃ b ∈ st.emitted line, b.heading = true

instance : Decidable (st.EmitsHeading line) := inferInstanceAs (Decidable (∃ b ∈ _, _))

/-- **A heading block comes from a heading**, and from nothing else. -/
theorem emitsHeading_iff : st.EmitsHeading line ↔ (st.headingOf line).isSome = true := by
  obtain ⟨paragraph, hflush, hplain, -⟩ := st.exists_flush_eq
  have hnone : ¬∃ b ∈ paragraph, b.heading = true := fun ⟨b, hb, hheading⟩ =>
    Bool.false_ne_true ((hplain b hb).symm.trans hheading)
  rw [EmitsHeading, emitted]
  rcases st.addLine_cases line with ⟨level, text, hheading, hadd⟩ | ⟨hheading, -, hadd⟩ |
    ⟨hheading, hadd⟩
  · rw [hadd, hflush, hheading]
    dsimp only
    rw [List.append_assoc, List.drop_left]
    exact iff_of_true ⟨_, List.mem_append_right _ (List.mem_singleton.2 rfl), rfl⟩ rfl
  · rw [hadd, hflush, hheading, List.drop_left]
    exact iff_of_false hnone Bool.false_ne_true
  · rw [hadd, hheading, List.drop_length]
    exact iff_of_false (by simp) Bool.false_ne_true

end MarkdownState

/-- A heading's text is the line behind the run of `#`. -/
theorem visible_of_matchHeading {line text : JsString} {level : ℕ}
    (h : matchHeading line = some (level, text)) :
    visible text = visible (line.dropWhile (· == 0x23)) := by
  rw [matchHeading] at h
  split at h
  · obtain ⟨-, rfl⟩ := Prod.mk.inj (Option.some.inj h)
    exact visible_trim _
  · cases h

namespace MarkdownState

/-- The lines without the run of `#` of those emitted as heading blocks. -/
def unhashed : MarkdownState → List JsString → List JsString
  | _, [] => []
  | st, line :: lines =>
    (if st.EmitsHeading line then line.dropWhile (· == 0x23) else line) ::
      (st.addLine line).unhashed lines

/-- **A turn shows its line**, without the run of `#` of a heading. -/
theorem shown_addLine (st : MarkdownState) (line : JsString) : (st.addLine line).shown =
    st.shown ++ visible (if st.EmitsHeading line then line.dropWhile (· == 0x23) else line) := by
  have hplain : st.headingOf line = none → ¬st.EmitsHeading line := fun hnone h => by
    rw [emitsHeading_iff, hnone] at h
    cases h
  rcases st.addLine_cases line with ⟨level, text, hheading, hadd⟩ | ⟨hheading, hblank, hadd⟩ |
    ⟨hheading, hadd⟩
  · have htext : matchHeading line = some (level, text) := by
      rw [headingOf] at hheading
      split at hheading
      · cases hheading
      · exact hheading
    have hbuffer : st.flush.buffer = [] := rfl
    have hflushed : visibleBlocks st.flush.blocks = st.shown := by
      rw [← shown_flush, shown, hbuffer, List.flatMap_nil, List.append_nil]
    rw [if_pos (emitsHeading_iff.2 (hheading ▸ rfl)), ← visible_of_matchHeading htext,
      hadd, ← hflushed]
    rw [shown, visibleBlocks, List.flatMap_append, List.flatMap_singleton, hbuffer,
      List.flatMap_nil, List.append_nil]
    rfl
  · rw [if_neg (hplain hheading), hadd, shown_flush, visible_eq_nil_iff_trim.2 hblank,
      List.append_nil]
  · rw [if_neg (hplain hheading), hadd, shown, shown, List.flatMap_append, List.flatMap_singleton,
      visible_trim, List.append_assoc]

/-- **The whole loop** shows all its lines. -/
theorem shown_foldl_addLine (lines : List JsString) (st : MarkdownState) :
    (lines.foldl addLine st).shown = st.shown ++ (st.unhashed lines).flatMap visible := by
  induction lines generalizing st with
  | nil => exact (List.append_nil _).symm
  | cons line lines ih =>
    rw [List.foldl_cons, ih, shown_addLine, unhashed, List.flatMap_cons, List.append_assoc]

end MarkdownState

/-! ## The two parsers -/

/-- The lines of a text, however they end. -/
def linesOf (text : JsString) : List JsString := (normalizeNewlines text).splitOn 0x0A

/-- A byte order mark is white space. -/
theorem visible_textDecode {bytes : Bytes} {text : JsString} {cs : List Char}
    (htext : textDecode bytes = some text) (hcs : decode? bytes = some cs) :
    visible text = visible (cs.flatMap utf16) := by
  rw [textDecode, hcs] at htext
  obtain rfl := Option.some.inj htext
  dsimp only
  split
  case isFalse => rfl
  case isTrue hmark =>
    rcases cs with _ | ⟨c, cs⟩
    · rfl
    · obtain rfl := Option.some.inj hmark
      have hbom : visible (utf16 (Char.ofNat 0xFEFF)) = [] := by decide
      rw [List.flatMap_cons, visible_append, hbom, List.nil_append, List.tail_cons]

/-- **The text parsers keep every visible character**: of an accepted text, `parseTxt` shows all, in
order, and `parseMarkdown` all but the run of `#` of the lines it emits as headings.  The text
itself is what the bytes encode, up to a byte order mark. -/
theorem text_parsers_keep_text {bytes : Bytes} {text : JsString} (h : decodeUtf8 bytes = .ok text) :
    (∃ result, parseTxt bytes = .ok result ∧ visible (assemble result).text = visible text) ∧
    (∃ result, parseMarkdown bytes = .ok result ∧ visible (assemble result).text =
      (MarkdownState.unhashed {} (linesOf text)).flatMap visible) ∧
    (linesOf text).flatMap visible = visible text ∧
    ∀ cs, decode? bytes = some cs → visible text = visible (cs.flatMap utf16) := by
  refine ⟨⟨_, by rw [parseTxt, h]; rfl, ?_⟩, ⟨_, by rw [parseMarkdown, h]; rfl, ?_⟩,
    ?_, fun cs hcs => ?_⟩
  · rw [visible_assemble, visibleBlocks, textResult, List.flatMap_map]
    exact (visible_filter_trimmed _).trans
      ((visible_splitBlankLinesFrom [] 0 _).trans (visible_normalizeNewlines text))
  · have hloop := MarkdownState.shown_foldl_addLine (linesOf text) {}
    rw [visible_assemble, textResult]
    rw [← MarkdownState.shown_flush, MarkdownState.shown] at hloop
    have hbuffer : ((linesOf text).foldl MarkdownState.addLine {}).flush.buffer = [] := rfl
    rw [hbuffer, List.flatMap_nil, List.append_nil] at hloop
    exact hloop
  · rw [linesOf, visible_splitOn rfl, visible_normalizeNewlines]
  · refine visible_textDecode ?_ hcs
    rw [decodeUtf8] at h
    split at h
    · rename_i htext
      rw [htext]
      exact congrArg some (Except.ok.inj h)
    · cases h

/-- A string without a byte order mark is decoded to itself. -/
theorem decodeUtf8_encode {s : String} (h : s.toList.head? ≠ some (Char.ofNat 0xFEFF)) :
    decodeUtf8 (s.toList.flatMap String.utf8EncodeChar) = .ok (js s) := by
  rw [decodeUtf8, textDecode, decode?_encode, Option.map_some, if_neg h]
  rfl

/-- The bytes of a Markdown file. -/
def sampleMarkdown : Bytes := "# Hi\n#no".toList.flatMap String.utf8EncodeChar

theorem decodeUtf8_sampleMarkdown : decodeUtf8 sampleMarkdown = .ok (js "# Hi\n#no") :=
  decodeUtf8_encode (by decide)

/-- Of a heading and a line that is none, the run of `#` of the first is dropped. -/
theorem text_parsers_keep_text_sample :
    (∃ result, parseTxt sampleMarkdown = .ok result ∧
      visible (assemble result).text = js "#Hi#no") ∧
    ∃ result, parseMarkdown sampleMarkdown = .ok result ∧
      visible (assemble result).text = js "Hi#no" := by
  obtain ⟨⟨txt, htxt, hshown⟩, ⟨markdown, hmarkdown, hkept⟩, -⟩ :=
    text_parsers_keep_text decodeUtf8_sampleMarkdown
  refine ⟨⟨txt, htxt, hshown.trans (by decide)⟩, markdown, hmarkdown, hkept.trans ?_⟩
  decide +kernel

end Ingestion

import SupportAgent.Ingestion.Parsing.Parse
import SupportAgent.Machinery.Utf8

/-!
# Ingestion/Parsing/Text — the sniffer, and the parsers of plain text and Markdown

`looksLikeText` decodes the first 8192 bytes of a file, `decodeUtf8` all of them.  The two agree on
a file unless a character lies across the end of the sample, or a NUL byte comes after it.
-/

namespace Ingestion

open JsString Utf8

/-! ## Decoding -/

/-- `new TextDecoder('utf-8', { fatal: true }).decode(bytes)`, where it does not throw; a byte order
mark at the start is dropped. -/
def textDecode (bytes : Bytes) : Option JsString :=
  (decode? bytes).map fun cs => (if cs.head? = some (Char.ofNat 0xFEFF) then cs.tail
    else cs).flatMap utf16

/-- Decode the full buffer as UTF-8, throwing on any invalid byte. -/
def decodeUtf8 (bytes : Bytes) : Except JsError JsString :=
  match textDecode bytes with
  | some text => return text
  | none => throw (.new (js "content is not valid UTF-8 text"))

/-- True if the bytes look like UTF-8 text (no NUL byte, decodes cleanly). -/
def looksLikeText (bytes : Bytes) : Bool :=
  let sample := bytes.take 8192
  if sample.contains 0 then false else (textDecode sample).isSome

/-- Magic-byte check that the content matches the declared type. -/
def contentMatchesType (sourceType : SourceType) (bytes : Bytes) : Bool :=
  match sourceType with
  | .PDF => bytes.take 5 == [0x25, 0x50, 0x44, 0x46, 0x2D]
  | .DOCX => bytes[0]? == some 0x50 && bytes[1]? == some 0x4B &&
      (bytes[2]? == some 0x03 || bytes[2]? == some 0x05 || bytes[2]? == some 0x07)
  | .MD => looksLikeText bytes
  | .TXT => looksLikeText bytes

/-! ## Lines -/

/-- `text.replace(/\r\n?/g, '\n')`. -/
def normalizeNewlines : JsString → JsString
  | [] => []
  | [c] => if c = 0x0D then [0x0A] else [c]
  | c :: d :: s =>
    if c = 0x0D then
      if d = 0x0A then 0x0A :: normalizeNewlines s else 0x0A :: normalizeNewlines (d :: s)
    else c :: normalizeNewlines (d :: s)

/-- `text.split(/\n{2,}/)`, from inside a piece and a run of line feeds after it. -/
def splitBlankLinesFrom (piece : JsString) (newlines : ℕ) : JsString → List JsString
  | [] => if 2 ≤ newlines then [piece, []] else [piece ++ List.replicate newlines 0x0A]
  | c :: s =>
    if c = 0x0A then splitBlankLinesFrom piece (newlines + 1) s
    else if 2 ≤ newlines then piece :: splitBlankLinesFrom [c] 0 s
    else splitBlankLinesFrom (piece ++ List.replicate newlines 0x0A ++ [c]) 0 s

/-- `p.replace(/[ \t]+/g, ' ')`; `blank` is whether the character before was replaced. -/
def collapseBlanks (blank : Bool) : JsString → JsString
  | [] => []
  | c :: s =>
    if c = 0x20 ∨ c = 0x09 then
      if blank then collapseBlanks true s else 0x20 :: collapseBlanks true s
    else c :: collapseBlanks false s

/-! ## Plain text -/

/-- What a parser returns: one page, and a warning when it found nothing. -/
def textResult (blocks : List RawBlock) : FormatParseResult where
  blocks := blocks
  pageCount := 1
  warnings := if blocks = [] then [js "no text content"] else []

/-- Plain text: one page, paragraphs split on blank lines, whitespace collapsed. -/
def parseTxt (bytes : Bytes) : Except JsError FormatParseResult := do
  let text := normalizeNewlines (← decodeUtf8 bytes)
  let paragraphs := (splitBlankLinesFrom [] 0 text).map fun p => trim (collapseBlanks false p)
  return textResult ((paragraphs.filter (· ≠ [])).map fun text => { text, page := 1 })

/-! ## Markdown -/

/-- The variables of `parseMarkdown`. -/
structure MarkdownState where
  blocks : List RawBlock := []
  buffer : List JsString := []
  inFence : Bool := false

def MarkdownState.flush (st : MarkdownState) : MarkdownState :=
  let text := trim (collapseBlanks false (join (js " ") st.buffer))
  { st with
    blocks := if text = [] then st.blocks else st.blocks ++ [{ text, page := 1 }]
    buffer := [] }

/-- `/^\s*(```|~~~)/.test(line)`. -/
def isFence (line : JsString) : Bool :=
  let rest := line.dropWhile isSpace
  (js "```").isPrefixOf rest || (js "~~~").isPrefixOf rest

/-- The groups of `/^(#{1,6})\s+(.*\S)\s*$/` in a line: the level and the text of a heading. -/
def matchHeading (line : JsString) : Option (ℕ × JsString) :=
  let hashes := line.takeWhile (· == 0x23)
  let rest := line.dropWhile (· == 0x23)
  let text := trim rest
  if 1 ≤ hashes.length ∧ hashes.length ≤ 6 ∧ rest.head?.any isSpace ∧ text ≠ [] ∧
      text.all (fun c => !isLineTerminator c) then
    some (hashes.length, text)
  else none

/-- One turn of the loop over the lines. -/
def MarkdownState.addLine (st : MarkdownState) (line : JsString) : MarkdownState :=
  if isFence line then { st with inFence := !st.inFence, buffer := st.buffer ++ [trim line] }
  else
    match if st.inFence then none else matchHeading line with
    | some (level, text) =>
      let st := st.flush
      { st with blocks := st.blocks ++ [{ text, page := 1, heading := true, level := some level }] }
    | none =>
      if !st.inFence && trim line = [] then st.flush
      else { st with buffer := st.buffer ++ [trim line] }

/-- Markdown: one page, ATX headings and paragraphs. -/
def parseMarkdown (bytes : Bytes) : Except JsError FormatParseResult := do
  let lines := (normalizeNewlines (← decodeUtf8 bytes)).splitOn 0x0A
  return textResult (lines.foldl MarkdownState.addLine {}).flush.blocks

/-- The formats, over parsers for the two binary ones. -/
def formatsOf (parseDocx parsePdf : Bytes → Except JsError FormatParseResult) : Formats where
  contentMatchesType := contentMatchesType
  parseTxt := parseTxt
  parseMarkdown := parseMarkdown
  parseDocx := parseDocx
  parsePdf := parsePdf

/-! ## Acceptance -/

theorem isSome_textDecode {bytes : Bytes} : (textDecode bytes).isSome = true ↔ Valid bytes := by
  rw [textDecode, Option.isSome_map, isSome_decode?]

/-- The sniffer reads a sample. -/
theorem looksLikeText_iff {bytes : Bytes} :
    looksLikeText bytes = true ↔ 0 ∉ bytes.take 8192 ∧ Valid (bytes.take 8192) := by
  rw [looksLikeText]
  by_cases hnul : 0 ∈ bytes.take 8192
  · rw [if_pos (List.contains_iff_mem.2 hnul)]
    exact iff_of_false Bool.false_ne_true fun h => h.1 hnul
  · rw [if_neg (fun h => hnul (List.contains_iff_mem.1 h)), isSome_textDecode, and_iff_right hnul]

theorem exists_decodeUtf8 {bytes : Bytes} (h : Valid bytes) :
    ∃ text, decodeUtf8 bytes = .ok text := by
  obtain ⟨text, htext⟩ := Option.isSome_iff_exists.1 (isSome_textDecode.2 h)
  exact ⟨text, by rw [decodeUtf8, htext]; rfl⟩

theorem decodeUtf8_of_not_valid {bytes : Bytes} (h : ¬ Valid bytes) :
    decodeUtf8 bytes = .error (.new (js "content is not valid UTF-8 text")) := by
  have hnone : textDecode bytes = none := by
    rwa [← isSome_textDecode, Bool.not_eq_true, Option.isSome_eq_false_iff,
      Option.isNone_iff_eq_none] at h
  rw [decodeUtf8, hnone]
  rfl

/-- The errors `parseDocument` rejects a text with. -/
def Rejects (formats : Formats) (sourceType : SourceType) (bytes : Bytes) : Prop :=
  parseDocument formats bytes sourceType =
      .error (.new (js "content does not match declared type: " ++ sourceType.name)) ∨
    parseDocument formats bytes sourceType = .error (.new (js "content is not valid UTF-8 text"))

/-- **Text acceptance is exact** on a file: it is accepted when it is UTF-8 without a NUL byte, and
rejected with a parse error otherwise. -/
def AcceptedExactly (formats : Formats) (sourceType : SourceType) (bytes : Bytes) : Prop :=
  (Valid bytes ∧ 0 ∉ bytes → ∃ parsed, parseDocument formats bytes sourceType = .ok parsed) ∧
    (¬ (Valid bytes ∧ 0 ∉ bytes) → Rejects formats sourceType bytes)

section

variable (parseDocx parsePdf : Bytes → Except JsError FormatParseResult) {bytes : Bytes}
  {sourceType : SourceType}

/-- What a text parser makes of the decoded text. -/
theorem exists_parse_text (hst : sourceType = .TXT ∨ sourceType = .MD) :
    ∃ f : JsString → FormatParseResult, ∀ bytes,
      parseDocument (formatsOf parseDocx parsePdf) bytes sourceType =
        if !looksLikeText bytes then
          throw (.new (js "content does not match declared type: " ++ sourceType.name))
        else assemble <$> f <$> decodeUtf8 bytes := by
  rcases hst with rfl | rfl
  · refine ⟨fun text => textResult
      ((((splitBlankLinesFrom [] 0 (normalizeNewlines text)).map fun p =>
        trim (collapseBlanks false p)).filter (· ≠ [])).map fun text => { text, page := 1 }),
      fun bytes => ?_⟩
    change (if !looksLikeText bytes then _ else assemble <$> parseTxt bytes) = _
    rw [parseTxt]
    rcases decodeUtf8 bytes with e | text
    · rfl
    · rfl
  · refine ⟨fun text => textResult
      (((normalizeNewlines text).splitOn 0x0A).foldl MarkdownState.addLine {}).flush.blocks,
      fun bytes => ?_⟩
    change (if !looksLikeText bytes then _ else assemble <$> parseMarkdown bytes) = _
    rw [parseMarkdown]
    rcases decodeUtf8 bytes with e | text
    · rfl
    · rfl

/-- **What the sniffer lets through is accepted when it decodes**, and nothing else is. -/
theorem text_outcome (hst : sourceType = .TXT ∨ sourceType = .MD) (bytes : Bytes) :
    (looksLikeText bytes = true ∧ Valid bytes →
      ∃ parsed, parseDocument (formatsOf parseDocx parsePdf) bytes sourceType = .ok parsed) ∧
    (¬ (looksLikeText bytes = true ∧ Valid bytes) →
      Rejects (formatsOf parseDocx parsePdf) sourceType bytes) := by
  obtain ⟨f, hparse⟩ := exists_parse_text parseDocx parsePdf hst
  refine ⟨fun ⟨hsniff, hvalid⟩ => ?_, fun h => ?_⟩
  · obtain ⟨text, htext⟩ := exists_decodeUtf8 hvalid
    exact ⟨assemble (f text), by rw [hparse, hsniff, htext]; rfl⟩
  · rw [Rejects, hparse]
    by_cases hsniff : looksLikeText bytes = true
    · rw [hsniff, decodeUtf8_of_not_valid fun hvalid => h ⟨hsniff, hvalid⟩]
      exact .inr rfl
    · rw [Bool.eq_false_of_not_eq_true hsniff]
      exact .inl rfl

/-- An outcome is not both. -/
theorem not_rejects_of_ok {formats : Formats} {parsed : ParsedDocument}
    (h : parseDocument formats bytes sourceType = .ok parsed) :
    ¬ Rejects formats sourceType bytes := by
  rintro (hr | hr)
  · rw [h] at hr
    cases hr
  · rw [h] at hr
    cases hr

/-- Ruling out one thing or another beside `early` is the same when they go together. -/
theorem same_iff {early late across : Prop} :
    (¬ (early ∨ late) ↔ ¬ early ∧ ¬ across) ↔ early ∨ (late ↔ across) := by
  tauto

/-- **When acceptance is exact** for a format: when the sniffer and the decoder ask the same of a
file. -/
theorem acceptedExactly_iff (hst : sourceType = .TXT ∨ sourceType = .MD) (bytes : Bytes) :
    AcceptedExactly (formatsOf parseDocx parsePdf) sourceType bytes ↔
      ¬ Valid bytes ∨ 0 ∈ bytes.take 8192 ∨ (0 ∈ bytes.drop 8192 ↔ Straddles bytes 8192) := by
  obtain ⟨haccepted, hrejected⟩ := text_outcome parseDocx parsePdf hst bytes
  have hnul : 0 ∈ bytes ↔ 0 ∈ bytes.take 8192 ∨ 0 ∈ bytes.drop 8192 := by
    rw [← List.mem_append, List.take_append_drop]
  have hexact : AcceptedExactly (formatsOf parseDocx parsePdf) sourceType bytes ↔
      (Valid bytes ∧ 0 ∉ bytes ↔ looksLikeText bytes = true ∧ Valid bytes) := by
    refine ⟨fun ⟨hok, hno⟩ => ⟨fun htext => ?_, fun hsniffed => ?_⟩,
    fun h => ⟨fun htext => ?_, fun htext => ?_⟩⟩
    · obtain ⟨parsed, hparsed⟩ := hok htext
      by_contra hsniffed
      exact not_rejects_of_ok hparsed (hrejected hsniffed)
    · obtain ⟨parsed, hparsed⟩ := haccepted hsniffed
      by_contra htext
      exact not_rejects_of_ok hparsed (hno htext)
    · exact haccepted (h.1 htext)
    · exact hrejected fun hsniffed => htext (h.2 hsniffed)
  rw [hexact, looksLikeText_iff, hnul]
  by_cases hvalid : Valid bytes
  · rw [valid_take hvalid, and_iff_right hvalid, and_iff_left hvalid,
      or_iff_right (not_not_intro hvalid)]
    exact same_iff
  · exact iff_of_true (iff_of_false (fun h => hvalid h.1) fun h => hvalid h.2) (.inl hvalid)

end

/-- **When text acceptance is exact**: on malformed input, on input with a NUL byte in its first
8192 bytes, and where a character lies across byte 8192 exactly when a NUL byte follows. -/
theorem text_acceptance_iff (parseDocx parsePdf : Bytes → Except JsError FormatParseResult)
    (bytes : Bytes) :
    (AcceptedExactly (formatsOf parseDocx parsePdf) .TXT bytes ↔
      ¬ Valid bytes ∨ 0 ∈ bytes.take 8192 ∨ (0 ∈ bytes.drop 8192 ↔ Straddles bytes 8192)) ∧
    (AcceptedExactly (formatsOf parseDocx parsePdf) .MD bytes ↔
      ¬ Valid bytes ∨ 0 ∈ bytes.take 8192 ∨ (0 ∈ bytes.drop 8192 ↔ Straddles bytes 8192)) :=
  ⟨acceptedExactly_iff parseDocx parsePdf (.inl rfl) bytes,
    acceptedExactly_iff parseDocx parsePdf (.inr rfl) bytes⟩

/-- A text of 8191 letters and an accented one. -/
def straddlingText : Bytes := (List.replicate 8191 'a' ++ ['é']).flatMap String.utf8EncodeChar

/-- **A good file is rejected** when a character lies across the end of the sample. -/
theorem not_text_acceptance : ¬ ∀ (parseDocx parsePdf : Bytes → Except JsError FormatParseResult)
    (bytes : Bytes), AcceptedExactly (formatsOf parseDocx parsePdf) .TXT bytes ∧
      AcceptedExactly (formatsOf parseDocx parsePdf) .MD bytes := by
  intro hclaim
  have ha : String.utf8EncodeChar 'a' = [0x61] := by decide
  have he : ['é'].flatMap String.utf8EncodeChar = [0xC3, 0xA9] := by decide
  have hbytes : straddlingText = List.replicate 8191 0x61 ++ [0xC3, 0xA9] := by
    rw [straddlingText, List.flatMap_append, List.flatMap_replicate, ha, he,
      List.flatten_replicate_singleton]
  have hbyte : straddlingText[8192]? = some 0xA9 := by
    rw [hbytes, List.getElem?_append_right
      (by rw [List.length_replicate]; omega), List.length_replicate]
    rfl
  have hnul : 0 ∉ straddlingText := by
    rw [hbytes]
    intro h
    obtain h | h := List.mem_append.1 h
    · exact absurd (List.eq_of_mem_replicate h) (by decide)
    · exact absurd h (by decide)
  obtain h | h | h := (acceptedExactly_iff (fun _ => .error (.new [])) (fun _ => .error (.new []))
    (.inl rfl) straddlingText).1 (hclaim _ _ _).1
  · exact h (valid_encode _)
  · exact hnul (List.mem_of_mem_take h)
  · exact hnul (List.mem_of_mem_drop (h.2 ⟨0xA9, hbyte, by decide⟩))

end Ingestion

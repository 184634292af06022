import SupportAgent.Ingestion.Parsing.Assemble

/-!
# Ingestion/Parsing/Parse — from the bytes of a file to a parsed document

`parseDocument` checks the bytes against the declared type, hands them to that type's parser and
assembles its blocks.  The format parsers (`Formats`) are a parameter: two of them are libraries.
-/

namespace Ingestion

abbrev Bytes : Type := List UInt8

inductive SourceType
  | PDF
  | DOCX
  | MD
  | TXT
  deriving DecidableEq, Repr

/-- `String(sourceType)`. -/
def SourceType.name : SourceType → JsString
  | PDF => js "PDF"
  | DOCX => js "DOCX"
  | MD => js "MD"
  | TXT => js "TXT"

/-- The content sniffer and the per-format parsers. -/
structure Formats where
  contentMatchesType : SourceType → Bytes → Bool
  parseTxt : Bytes → Except JsError FormatParseResult
  parseMarkdown : Bytes → Except JsError FormatParseResult
  parseDocx : Bytes → Except JsError FormatParseResult
  parsePdf : Bytes → Except JsError FormatParseResult

/-- Parse raw document bytes into normalized, structured text. -/
def parseDocument (formats : Formats) (bytes : Bytes) (sourceType : SourceType) :
    Except JsError ParsedDocument :=
  if !formats.contentMatchesType sourceType bytes then
    throw (.new (js "content does not match declared type: " ++ sourceType.name))
  else
    match sourceType with
    | .TXT => assemble <$> formats.parseTxt bytes
    | .MD => assemble <$> formats.parseMarkdown bytes
    | .DOCX => assemble <$> formats.parseDocx bytes
    | .PDF => assemble <$> formats.parsePdf bytes

/-- **What `parseDocument` returns is an assembled document.** -/
theorem exists_assemble_of_parseDocument {formats : Formats} {bytes : Bytes} {st : SourceType}
    {parsed : ParsedDocument} (h : parseDocument formats bytes st = .ok parsed) :
    ∃ result, assemble result = parsed := by
  have hmap : ∀ r : Except JsError FormatParseResult, assemble <$> r = .ok parsed →
      ∃ result, assemble result = parsed := by
    rintro (e | result) hr
    · cases hr
    · exact ⟨result, Except.ok.inj hr⟩
  unfold parseDocument at h
  split at h
  · cases h
  · split at h <;> exact hmap _ h

end Ingestion

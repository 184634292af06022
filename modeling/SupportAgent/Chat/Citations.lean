import SupportAgent.Chat.PromptAssembly

/-!
# Chat/Citations — the citations of an answer

An answer cites a source by its number in brackets.  A citation takes its fields from the source,
and its snippet from the beginning of the source's content.
-/

open Ingestion JsString

/-- A citation on the final stream event. -/
structure Citation where
  marker : ℕ
  documentId : Uuid
  title : JsString
  page : Option ℕ
  sectionText : Option JsString
  charStart : Option ℕ
  charEnd : Option ℕ
  snippet : JsString

def SNIPPET_MAX : ℕ := 300

/-- `Number(digits)`. -/
def digitsValue (digits : JsString) : ℕ :=
  digits.foldl (fun n c => 10 * n + (c.toNat - 0x30)) 0

/-- What `\d+\]` reads at the start of a text. -/
def markerAt (s : JsString) : Option ℕ :=
  let digits := s.takeWhile isDigit
  if digits ≠ [] ∧ (s.dropWhile isDigit).head? = some 0x5D then some (digitsValue digits) else none

/-- The distinct source numbers the answer text cited: the matches of `/\[(\d+)\]/g`. -/
def citedMarkers : JsString → List ℕ
  | [] => []
  | c :: s => (if c = 0x5B then (markerAt s).toList else []) ++ citedMarkers s

/-- A source as a citation. -/
def AssembledSource.citation (s : AssembledSource) : Citation where
  marker := s.marker
  documentId := s.documentId
  title := s.title
  page := s.page
  sectionText := s.sectionText
  charStart := s.charStart
  charEnd := s.charEnd
  snippet := slice s.content 0 SNIPPET_MAX

/-- Map an answer's citation markers to the assembled sources they reference. -/
def buildCitations (answer : JsString) (sources : List AssembledSource) : List Citation :=
  let cited := citedMarkers answer
  (sources.filter fun s => s.marker ∈ cited).map (·.citation)

/-- A citation is one of the sources'. -/
theorem exists_of_mem_buildCitations {answer : JsString} {sources : List AssembledSource}
    {citation : Citation} (h : citation ∈ buildCitations answer sources) :
    ∃ source ∈ sources, source.marker ∈ citedMarkers answer ∧ citation = source.citation := by
  obtain ⟨source, hsource, rfl⟩ := List.mem_map.mp h
  obtain ⟨hmem, hmarker⟩ := List.mem_filter.mp hsource
  exact ⟨source, hmem, by simpa using hmarker, rfl⟩

import SupportAgent.Chat.Citations
import SupportAgent.Chat.Selection
import SupportAgent.Ingestion.Chunking.Carry
import SupportAgent.Store.Effects

/-!
# Chat/Snippets — the snippet of a citation, and the text its offsets point to

A citation's offsets name the body of its chunk, but its snippet is cut from the chunk's content,
which puts the section header and the previous chunk's tail in front of that body.

* `Cited` — a chunk on its way from a document to a citation.
* `cited_snippet_iff` — when the snippet is nevertheless text of the cited range, told from the
  blocks of the document and the hits of the question.
-/

open Ingestion JsString

/-- What a snippet shows beyond the generated header. -/
def Citation.shown (c : Citation) : JsString :=
  c.snippet.drop (contextHeader c.sectionText).length

/-- **The snippet comes from the cited range** of a text. -/
def Citation.FromRange (text : JsString) (c : Citation) : Prop :=
  ∃ start stop, c.charStart = some start ∧ c.charEnd = some stop ∧ c.shown <+: slice text start stop

section

variable {P : Platform} {w w' : World} {d : Decision}

/-- A hit is a row of the scan, as stored. -/
theorem row_of_mem_scanChunks {tenantId assistantId : Uuid} {query : Embedding} {k : ℕ}
    {checked : Option JsString} {hits : List ChunkHit}
    (h : w.exec P (.scanChunks tenantId assistantId query k checked) d = some (.ok hits, w'))
    {hit : ChunkHit} (hhit : hit ∈ hits) : ∃ row ∈ w.chunks, hit.id = row.id ∧
      hit.content = row.content ∧ hit.sectionText = row.sectionText ∧
      hit.charStart = row.charStart ∧ hit.charEnd = row.charEnd := by
  obtain ⟨hv, -⟩ := Prod.mk.inj (Option.some.inj h)
  obtain rfl := Except.ok.inj hv
  obtain ⟨r, hr, rfl⟩ := List.mem_map.mp hhit
  have hmem := List.mem_mergeSort.mp (List.mem_of_mem_take hr)
  obtain ⟨row, hrow, hsome⟩ := List.mem_filterMap.mp hmem
  refine ⟨row, hrow, ?_⟩
  split at hsome
  · split at hsome
    · obtain rfl := Option.some.inj hsome
      exact ⟨rfl, rfl, rfl, rfl, rfl⟩
    · cases hsome
  · cases hsome

end

/-! ## A text in front of another -/

/-- A cut as a prefix, position by position. -/
theorem take_prefix_iff {α : Type} {s t : List α} {n : ℕ} (hn : n ≤ s.length) :
    s.take n <+: t ↔ ∀ i < n, t[i]? = s[i]? := by
  have hlength : (s.take n).length = n := List.length_take_of_le hn
  rw [List.prefix_iff_getElem?]
  constructor
  · intro h i hi
    rw [h i (hlength.symm ▸ hi), List.getElem_take, List.getElem?_eq_getElem]
  · intro h i hi
    rw [h i (hlength ▸ hi), List.getElem_take, List.getElem?_eq_getElem]

/-- The first `n` elements of `t` are `q` over and over again. -/
def Repeats {α : Type} (q t : List α) (n : ℕ) : Prop :=
  n ≤ t.length ∧ q.take n <+: t ∧ ∀ i, i + q.length < n → t[i + q.length]? = t[i]?

/-- A cut of `q ++ t` begins `t` exactly when `t` begins with `q` and goes on repeating it. -/
theorem take_append_prefix_iff {α : Type} {q t : List α} (hq : q ≠ []) (n : ℕ) :
    (q ++ t).take n <+: t ↔ Repeats q t n := by
  have hpos := List.length_pos_iff.mpr hq
  constructor
  · intro h
    have hn : n ≤ t.length := by
      have := h.length_le
      rw [List.length_take, List.length_append] at this
      omega
    have hget := (take_prefix_iff (by rw [List.length_append]; omega)).mp h
    refine ⟨hn, ?_, fun i hi => ?_⟩
    · rw [List.take_append] at h
      exact (List.prefix_append _ _).trans h
    · rw [hget _ hi, List.getElem?_append_right (by omega), Nat.add_sub_cancel]
  · rintro ⟨hn, hbegins, hrepeats⟩
    refine (take_prefix_iff (by rw [List.length_append]; omega)).mpr fun i hi => ?_
    rcases Nat.lt_or_ge i q.length with hlt | hge
    · have hi' : i < (q.take n).length := by rw [List.length_take]; omega
      rw [List.prefix_iff_getElem?.mp hbegins i hi', List.getElem_take,
        List.getElem?_append_left hlt, List.getElem?_eq_getElem hlt]
    · have := hrepeats (i - q.length) (by omega)
      rw [Nat.sub_add_cancel hge] at this
      rw [this, List.getElem?_append_right hge]

/-! ## From a chunk to its citation -/

/-- How much of the content of its hit the snippet of source `marker` shows. -/
def snippetLength (tok : Tokenizer) (options : AssembleOptions) (hits : List ChunkHit)
    (marker : ℕ) : ℕ :=
  match (promptOrder hits)[marker - 1]? with
  | some hit => min SNIPPET_MAX (hit.shownContent tok options (marker - 1)).length
  | none => 0

/-- What the prompt shows of a content is a beginning of it. -/
theorem shownContent_prefix {tok : Tokenizer} {options : AssembleOptions} {hit : ChunkHit}
    (htok : tok.Truncates hit.content) (i : ℕ) :
    hit.shownContent tok options i <+: hit.content := by
  rw [ChunkHit.shownContent]
  split
  · rw [ChunkHit.firstCut]
    generalize (options.tokenBudget.sub _).max (.ofNat 1) = n
    cases hcut : tok.truncateToTokens hit.content n with
    | ok cut => exact htok n cut hcut
    | error e => exact List.nil_prefix
  · exact List.prefix_rfl

/-- **A chunk on its way to a citation**: parsed, chunked, stored, found by the scan, promoted to a
source and cited. -/
structure Cited (P : Platform) where
  bytes : Bytes
  sourceType : SourceType
  parsed : ParsedDocument
  isParsed : parseDocument P.formats bytes sourceType = .ok parsed
  options : ChunkOptions
  chunks : List ChunkDraft
  isChunked : chunkDocument P.tokenizer options parsed = .ok chunks
  chunk : ChunkDraft
  chunk_mem : chunk ∈ chunks
  world : World
  ids_nodup : (world.chunks.map (·.id)).Nodup
  row : Chunk
  row_mem : row ∈ world.chunks
  job : IngestJobData
  isStored : row.bare = chunkRow P job.documentId job.tenantId job.assistantId row.id chunk
  query : Embedding
  topK : ℕ
  checked : Option JsString
  hits : List ChunkHit
  isRetrieved : world.exec P (.scanChunks job.tenantId job.assistantId query topK checked) {} =
    some (.ok hits, world)
  assembleOptions : AssembleOptions
  context : AssembledContext
  isAssembled : assembleContext P.tokenizer assembleOptions hits = .ok context
  source : AssembledSource
  source_mem : source ∈ context.sources
  source_row : source.chunkId = row.id
  answer : JsString
  citation : Citation
  citation_mem : citation ∈ buildCitations answer context.sources
  citation_source : citation.marker = source.marker

namespace Cited

variable {P : Platform} (r : Cited P)

theorem citation_eq : r.citation = r.source.citation := by
  obtain ⟨source, hsource, -, heq⟩ := exists_of_mem_buildCitations r.citation_mem
  have hmarker : source.marker = r.source.marker := by
    rw [← r.citation_source, heq]
    rfl
  rw [heq, eq_of_marker_eq r.isAssembled hsource r.source_mem hmarker]

/-- The source is a hit of the chunk's row, with what the prompt shows of its content. -/
theorem exists_hit : ∃ hit, (promptOrder r.hits)[r.citation.marker - 1]? = some hit ∧
    r.source = hit.source r.source.marker
      (hit.shownContent P.tokenizer r.assembleOptions (r.citation.marker - 1)) ∧
    hit.content = r.chunk.content ∧ hit.sectionText = r.chunk.sectionText ∧
    hit.charStart = some r.chunk.charStart ∧ hit.charEnd = some r.chunk.charEnd := by
  obtain ⟨hit, hhit, hsame⟩ := source_assembleContext r.isAssembled r.source_mem
  rw [← r.citation_source] at hhit hsame
  have hmem : hit ∈ r.hits := List.mem_mergeSort.1 (List.mem_of_getElem? hhit)
  obtain ⟨row, hrow, hitId, hitContent, hitSection, hitStart, hitEnd⟩ :=
    row_of_mem_scanChunks r.isRetrieved hmem
  have hid : r.source.chunkId = hit.id := by rw [hsame]; rfl
  obtain rfl : row = r.row := List.inj_on_of_nodup_map r.ids_nodup hrow r.row_mem
    (hitId.symm.trans (hid.symm.trans r.source_row))
  refine ⟨hit, hhit, r.citation_source ▸ hsame, ?_, ?_, ?_, ?_⟩
  · rw [hitContent]
    exact (congrArg Chunk.content r.isStored :)
  · rw [hitSection]
    exact (congrArg Chunk.sectionText r.isStored :)
  · rw [hitStart]
    exact (congrArg Chunk.charStart r.isStored :)
  · rw [hitEnd]
    exact (congrArg Chunk.charEnd r.isStored :)

/-- The document's text, as its offsets cut it. -/
theorem wellFormed : r.parsed.WellFormed := by
  obtain ⟨result, hparsed⟩ := exists_assemble_of_parseDocument r.isParsed
  exact hparsed ▸ wellFormed_assemble result

/-- The body of the chunk is the text of its range. -/
theorem slice_eq : slice r.parsed.text r.chunk.charStart r.chunk.charEnd = r.chunk.text :=
  (cutFrom_chunkDocument r.wellFormed.anchored r.wellFormed.trim_ne_nil r.isChunked _
    r.chunk_mem).slice

/-- **What a citation shows** beyond the header is a stretch of overlap and body. -/
theorem shown_eq (htok : P.tokenizer.Truncates r.row.content) : r.citation.shown =
    (carried P.tokenizer r.options r.parsed.blocks r.chunk.charStart ++ r.chunk.text).take
      (snippetLength P.tokenizer r.assembleOptions r.hits r.citation.marker -
        (headerAt r.parsed.blocks r.chunk.charStart).length) := by
  obtain ⟨hit, hhit, hsource, hcontent, hsection, -, -⟩ := r.exists_hit
  obtain ⟨turns, hchunked⟩ := exists_chunked r.wellFormed r.isChunked
  obtain ⟨hheader, hparts⟩ := hchunked.content_eq r.chunk_mem
  have hrow : r.row.content = r.chunk.content := (congrArg Chunk.content r.isStored :)
  have hbegins : hit.shownContent P.tokenizer r.assembleOptions (r.citation.marker - 1) <+:
      hit.content := shownContent_prefix (by rw [hcontent, ← hrow]; exact htok) _
  have hsnippet : r.citation.snippet =
      (hit.shownContent P.tokenizer r.assembleOptions (r.citation.marker - 1)).take
        SNIPPET_MAX := by
    have hcontent' := congrArg AssembledSource.content hsource
    rw [congrArg Citation.snippet r.citation_eq]
    exact (slice_zero _ _).trans (congrArg (List.take SNIPPET_MAX) hcontent')
  have hcited : contextHeader r.citation.sectionText =
      headerAt r.parsed.blocks r.chunk.charStart := by
    rw [← hheader, ← hsection, congrArg Citation.sectionText r.citation_eq]
    exact congrArg (fun s : AssembledSource => contextHeader s.sectionText) hsource
  rw [Citation.shown, hcited, hsnippet, snippetLength, hhit]
  dsimp only
  rw [List.prefix_iff_eq_take.mp hbegins, List.take_take, List.length_take_of_le hbegins.length_le,
    hcontent, hparts, List.drop_take, List.append_assoc, List.drop_left]

end Cited

/-- **When a citation's snippet is text of its range**: exactly when nothing is carried over in
front of the cited text, or the cited text itself repeats what is carried through all that is
shown. -/
theorem cited_snippet_iff {P : Platform} (r : Cited P)
    (htok : P.tokenizer.Truncates r.row.content) :
    r.citation.FromRange r.parsed.text ↔
      let overlap := carried P.tokenizer r.options r.parsed.blocks r.chunk.charStart
      overlap = [] ∨ Repeats overlap (slice r.parsed.text r.chunk.charStart r.chunk.charEnd)
        (snippetLength P.tokenizer r.assembleOptions r.hits r.citation.marker -
          (headerAt r.parsed.blocks r.chunk.charStart).length) := by
  obtain ⟨hit, -, hsource, -, -, hstart, hend⟩ := r.exists_hit
  have hcitedStart : r.citation.charStart = some r.chunk.charStart := by
    rw [congrArg Citation.charStart r.citation_eq, ← hstart]
    exact congrArg AssembledSource.charStart hsource
  have hcitedEnd : r.citation.charEnd = some r.chunk.charEnd := by
    rw [congrArg Citation.charEnd r.citation_eq, ← hend]
    exact congrArg AssembledSource.charEnd hsource
  have hrange : r.citation.FromRange r.parsed.text ↔
      r.citation.shown <+: slice r.parsed.text r.chunk.charStart r.chunk.charEnd := by
    rw [Citation.FromRange, hcitedStart, hcitedEnd]
    constructor
    · rintro ⟨start, stop, hs, he, hfrom⟩
      obtain rfl := Option.some.inj hs
      obtain rfl := Option.some.inj he
      exact hfrom
    · exact fun hfrom => ⟨_, _, rfl, rfl, hfrom⟩
  dsimp only
  rw [hrange, r.shown_eq htok, r.slice_eq]
  by_cases hnone : carried P.tokenizer r.options r.parsed.blocks r.chunk.charStart = []
  · rw [hnone, List.nil_append]
    exact iff_of_true (List.take_prefix _ _) (.inl rfl)
  · rw [take_append_prefix_iff hnone, or_iff_right hnone]

/-! ## A document of two chunks -/

/-- The text `A. B.`, cut into two parts with one token of overlap. -/
def sampleParsed : ParsedDocument where
  text := js "A. B."
  pageCount := 1
  warnings := []
  blocks := [{ text := js "A. B.", page := 1, charStart := 0, charEnd := 5 }]

def sampleDraft (second : Bool) : ChunkDraft :=
  if second then
    { content := js " \n\nB.", text := js "B.", page := 1, sectionText := none, charStart := 3,
      charEnd := 5, tokenCount := 5 }
  else
    { content := js "A. ", text := js "A. ", page := 1, sectionText := none, charStart := 0,
      charEnd := 3, tokenCount := 3 }

def sampleRow (second embedded : Bool) : Chunk :=
  { chunkRow samplePlatform 10 7 1 (if second then 21 else 20) (sampleDraft second) with
    embedding := if embedded then some ⟨js "m", []⟩ else none }

/-- Both parts stored, the embedding of one of them written. -/
def sampleStored (second : Bool) : World where
  assistants := [sampleAssistant]
  documents := [{
    id := 10, tenantId := 7, assistantId := 1, title := js "T", sourceType := .TXT
    storageKey := ⟨7, 10⟩, pageCount := some 1, status := .EMBEDDING, error := none, warnings := []
    createdAt := 0, updatedAt := 0 }]
  chunks := [sampleRow false !second, sampleRow true second]

def sampleHit (second : Bool) : ChunkHit :=
  let row := sampleRow second true
  { id := row.id, content := row.content, documentId := 10, title := js "T", page := some 1
    sectionText := none, charStart := row.charStart, charEnd := row.charEnd, score := .finite 1
    scored := ⟨js "m", []⟩ }

def sampleSource (second : Bool) : AssembledSource :=
  (sampleHit second).source 1 (sampleHit second).content

def sampleContext (second : Bool) : AssembledContext :=
  let text := entryText ⟨1, js "T", some 1, none⟩ (sampleSource second).content
  { sources := [sampleSource second], text, totalTokens := text.length }

/-- One of the two parts, cited. -/
def sampleCited (second : Bool) : Cited samplePlatform where
  bytes := [65, 46, 32, 66, 46]
  sourceType := .TXT
  parsed := sampleParsed
  isParsed := rfl
  options := ⟨.ofNat 2, .ofNat 1⟩
  chunks := [sampleDraft false, sampleDraft true]
  isChunked := by decide +kernel
  chunk := sampleDraft second
  chunk_mem := by cases second <;> simp
  world := sampleStored second
  ids_nodup := by cases second <;> decide
  row := sampleRow second true
  row_mem := by cases second <;> simp [sampleStored]
  job := ⟨10, 7, 1⟩
  isStored := by cases second <;> rfl
  query := ⟨js "m", []⟩
  topK := 5
  checked := none
  hits := [sampleHit second]
  isRetrieved := by
    have h : ((((sampleStored second).scanRows samplePlatform 7 1 []).mergeSort
        fun r r' => r.1.orderLe r'.1).take 5).map (·.2) = [sampleHit second] := by
      cases second <;> decide +kernel
    exact congrArg (fun hits => some (Except.ok hits, sampleStored second)) h
  assembleOptions := DEFAULT_ASSEMBLE_OPTIONS
  context := sampleContext second
  isAssembled := by cases second <;> decide +kernel
  source := sampleSource second
  source_mem := List.mem_singleton.mpr rfl
  source_row := rfl
  answer := js "[1]"
  citation := (sampleSource second).citation
  citation_mem := by
    have h : buildCitations (js "[1]")
        [sampleSource second] = [(sampleSource second).citation] := by
      cases second <;> rfl
    exact h ▸ List.mem_singleton.mpr rfl
  citation_source := rfl

theorem truncates_samplePlatform (text : JsString) : samplePlatform.tokenizer.Truncates text :=
  Tiktoken.truncates (sampleEncoder_spells text)

/-- The first part of an oversized block carries nothing. -/
theorem cited_snippet_iff_firstChunk :
    samplePlatform.tokenizer.Truncates (sampleCited false).row.content ∧
      (sampleCited false).citation.FromRange (sampleCited false).parsed.text := by
  refine ⟨truncates_samplePlatform _,
    (cited_snippet_iff (sampleCited false) (truncates_samplePlatform _)).2 (.inl ?_)⟩
  have hblocks : sampleParsed.blocks =
      [] ++ { text := js "A. B.", page := 1, charStart := 0, charEnd := 5 } :: [] := rfl
  exact carried_first hblocks (List.forall_mem_nil _) (by decide) (.inl (by decide +kernel))

/-- **The second part is cited with the end of the first in front.** -/
theorem not_cited_snippet : ¬ ∀ (P : Platform) (r : Cited P), P.tokenizer.Truncates r.row.content →
    r.citation.FromRange r.parsed.text := by
  intro hclaim
  obtain ⟨start, stop, hs, he, hfrom⟩ := hclaim samplePlatform (sampleCited true)
    (truncates_samplePlatform _)
  obtain rfl := Option.some.inj hs
  obtain rfl := Option.some.inj he
  exact absurd hfrom (by decide +kernel)

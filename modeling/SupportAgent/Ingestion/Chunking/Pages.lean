import SupportAgent.Ingestion.Chunking.Coverage
import SupportAgent.Ingestion.Parsing.Pdf

/-!
# Ingestion/Chunking/Pages — from the pages of a PDF to its chunks

The visible characters of the scanned pages arrive in the chunks, each once and in their order, and
a chunk names the page it begins on.

* `visible_slice_of_ordered` — ranges that leave out white space only show what the text shows.
* `pdf_chunks` — the pages and the chunks of a PDF.
-/

namespace Ingestion

open JsString Ranges

/-! ## What ranges show -/

/-- A range with white space only shows nothing. -/
theorem visible_slice_eq_nil {text : JsString} {a b : ℕ}
    (h : ∀ i c, a ≤ i → i < b → text[i]? = some c → isSpace c = true) :
    visible (slice text a b) = [] := by
  refine visible_eq_nil_iff.2 fun c hc => ?_
  obtain ⟨i, hi⟩ := List.mem_iff_getElem?.1 hc
  rw [slice, List.getElem?_drop, List.getElem?_take] at hi
  split at hi
  case isTrue hlt => exact h (a + i) c (Nat.le_add_right _ _) hlt hi
  case isFalse => cases hi

/-- **Ordered ranges that leave out white space only** show what the text between the ends shows. -/
theorem visible_slice_of_ordered {α : Type} {lo hi : α → ℕ} {l : List α} {text : JsString} {a b : ℕ}
    (h : Ordered lo hi l) (hin : ∀ x ∈ l, a ≤ lo x ∧ hi x ≤ b)
    (hcover : ∀ i c, a ≤ i → i < b → text[i]? = some c → isSpace c = false →
      ∃ x ∈ l, lo x ≤ i ∧ i < hi x) :
    visible (slice text a b) = l.flatMap fun x => visible (slice text (lo x) (hi x)) := by
  induction l generalizing a with
  | nil =>
    refine visible_slice_eq_nil fun i c hfrom hto hi => ?_
    by_contra hvisible
    obtain ⟨x, hx, -⟩ := hcover i c hfrom hto hi (Bool.eq_false_of_not_eq_true hvisible)
    cases hx
  | cons x l ih =>
    obtain ⟨hx, hl⟩ := List.forall_mem_cons.1 hin
    obtain ⟨hbefore, hpairwise⟩ := List.pairwise_cons.1 h.pairwise
    have hlt := h.lt x List.mem_cons_self
    -- in front of the first range nothing is visible
    have hgap : visible (slice text a (lo x)) = [] := by
      refine visible_slice_eq_nil fun i c hfrom hto hi => ?_
      by_contra hvisible
      obtain ⟨y, hy, hstart, -⟩ :=
        hcover i c hfrom (by omega) hi (Bool.eq_false_of_not_eq_true hvisible)
      obtain rfl | hy := List.mem_cons.1 hy
      · omega
      · have := hbefore y hy
        omega
    have hrest : visible (slice text (hi x) b) = l.flatMap fun x =>
        visible (slice text (lo x) (hi x)) := by
      refine ih ⟨fun y hy => h.lt y (List.mem_cons_of_mem _ hy), hpairwise⟩
        (fun y hy => ⟨hbefore y hy, (hl y hy).2⟩) fun i c hfrom hto hi hc => ?_
      obtain ⟨y, hy, hstart, hstop⟩ := hcover i c (by omega) hto hi hc
      obtain rfl | hy := List.mem_cons.1 hy
      · omega
      · exact ⟨y, hy, hstart, hstop⟩
    rw [← slice_append_slice text hx.1 (hlt.le.trans hx.2), ← slice_append_slice text hlt.le hx.2,
      visible_append, visible_append, hgap, hrest]
    rfl

/-! ## What the blocks of a document hold -/

/-- **Between the blocks is white space only.** -/
theorem exists_holds_of_visible {result : FormatParseResult} {i : ℕ} {c : UInt16}
    (hi : (assemble result).text[i]? = some c) (hc : isSpace c = false) :
    ∃ b ∈ (assemble result).blocks, b.Holds i := by
  have hblank : ∀ c ∈ blankLine, isSpace c = true := visible_eq_nil_iff.1 (by decide)
  have hturn : ∀ (raw : RawBlock) (acc : JsString × List AnchoredBlock),
      (∀ i c, acc.1[i]? = some c → isSpace c = false → ∃ b ∈ acc.2, b.Holds i) →
      ∀ i c, (assembleBlock acc raw).1[i]? = some c → isSpace c = false →
        ∃ b ∈ (assembleBlock acc raw).2, b.Holds i := by
    intro raw acc hacc i c hi hc
    unfold assembleBlock at hi ⊢
    dsimp only at hi ⊢
    split at hi
    case isTrue htrim =>
      rw [if_pos htrim]
      exact hacc i c hi hc
    case isFalse htrim =>
      rw [if_neg htrim]
      generalize hglue : (if acc.1 = [] then acc.1 else acc.1 ++ blankLine) = glue at hi ⊢
      obtain hlt | hge := Nat.lt_or_ge i glue.length
      · rw [List.getElem?_append_left hlt] at hi
        have hold : acc.1[i]? = some c := by
          split at hglue
          · exact hglue ▸ hi
          · rw [← hglue] at hi
            obtain hlt | hge := Nat.lt_or_ge i acc.1.length
            · rwa [List.getElem?_append_left hlt] at hi
            · rw [List.getElem?_append_right hge] at hi
              rw [hblank c (List.mem_of_getElem? hi)] at hc
              cases hc
        obtain ⟨b, hb, hholds⟩ := hacc i c hold hc
        exact ⟨b, List.mem_append_left _ hb, hholds⟩
      · refine ⟨_, List.mem_append_right _ (List.mem_singleton_self _), hge, ?_⟩
        exact (List.getElem?_eq_some_iff.1 hi).1
  have hloop : ∀ (blocks : List RawBlock) (acc : JsString × List AnchoredBlock),
      (∀ i c, acc.1[i]? = some c → isSpace c = false → ∃ b ∈ acc.2, b.Holds i) →
      ∀ i c, (blocks.foldl assembleBlock acc).1[i]? = some c → isSpace c = false →
        ∃ b ∈ (blocks.foldl assembleBlock acc).2, b.Holds i := by
    intro blocks
    induction blocks with
    | nil => exact fun _ h => h
    | cons raw blocks ih => exact fun acc hacc => ih _ (hturn raw acc hacc)
  exact hloop result.blocks ([], []) (fun i c hi => by cases hi) i c hi hc

/-- The blocks of an assembled document, without their offsets. -/
theorem map_toRawBlock_assemble (result : FormatParseResult) :
    (assemble result).blocks.map (·.toRawBlock) =
      (result.blocks.map fun b => { b with text := trim b.text }).filter (·.text ≠ []) := by
  have hloop : ∀ (blocks : List RawBlock) (acc : JsString × List AnchoredBlock),
      (blocks.foldl assembleBlock acc).2.map (·.toRawBlock) = acc.2.map (·.toRawBlock) ++
        (blocks.map fun b => { b with text := trim b.text }).filter (·.text ≠ []) := by
    intro blocks
    induction blocks with
    | nil => exact fun acc => (List.append_nil _).symm
    | cons b blocks ih =>
      intro acc
      rw [List.foldl_cons, ih, List.map_cons, assembleBlock]
      dsimp only
      split
      case isTrue htrim => rw [List.filter_cons_of_neg (by simpa using htrim)]
      case isFalse htrim =>
        rw [List.filter_cons_of_pos (by simpa using htrim), List.map_append, List.append_assoc]
        rfl
  exact hloop result.blocks ([], [])

section

variable {tok : Tokenizer} {options : ChunkOptions} {parsed : ParsedDocument}
  {result : FormatParseResult} {chunks us vs : List ChunkDraft} {c : ChunkDraft}

/-- Where a chunk lies, and the block it begins in. -/
theorem Chunked.anchored_chunk {turns : List Turn} (h : Chunked tok options parsed chunks turns)
    (hc : c ∈ chunks) : c.charStart < c.charEnd ∧ c.charEnd ≤ parsed.text.length ∧
      ∃ b ∈ parsed.blocks, b.Holds c.charStart ∧ c.page = b.page := by
  obtain ⟨xs, ys, hsplit⟩ := List.append_of_mem hc
  obtain ⟨before, s, us, vs, after, rfl, -, -⟩ := h.exists_turn hsplit
  obtain ⟨hlt, ⟨b, hb, hholds, hpage⟩, b', hb', -, hend⟩ :=
    h.range (List.mem_append_right us List.mem_cons_self)
  have hmem : ∀ b ∈ s.blocks, b ∈ parsed.blocks := fun b hb => by
    rw [h.blocks_eq]
    exact List.mem_append_right _ (List.mem_append_left _ hb)
  exact ⟨hlt, hend.trans (h.wellFormed.anchored.anchored b' (hmem b' hb')).le, b, hmem b hb, hholds,
    hpage⟩

/-- **The chunks of a document without headings**, up to some place between them, show what the text
up to there shows. -/
theorem visible_take_of_chunks {stop : ℕ}
    (hbody : ∀ b ∈ (assemble result).blocks, b.heading = false)
    (h : chunkDocument tok options (assemble result) = .ok (us ++ vs))
    (hus : ∀ c ∈ us, c.charEnd ≤ stop) (hvs : ∀ c ∈ vs, stop ≤ c.charStart) :
    us.flatMap (fun c => visible c.text) = visible ((assemble result).text.take stop) := by
  have hd : (assemble result).WellFormed := wellFormed_assemble result
  obtain ⟨turns, hchunked⟩ := exists_chunked hd h
  have hcut := cutFrom_chunkDocument hd.anchored hd.trim_ne_nil h
  have hordered : Ordered (fun c : ChunkDraft => c.charStart) (fun c => c.charEnd) us :=
    ⟨fun c hc => (hchunked.anchored_chunk (List.mem_append_left _ hc)).1,
      (List.pairwise_append.1 hchunked.pairwise_chunks).1⟩
  have hslice := visible_slice_of_ordered (a := 0) (b := stop) hordered
    (fun c hc => ⟨Nat.zero_le _, hus c hc⟩) fun i u _ hto hi hu => by
      obtain ⟨b, hb, hholds⟩ := exists_holds_of_visible hi hu
      obtain ⟨c, hc, hstart, hstop⟩ := hchunked.exists_chunk_holds hb (hbody b hb) hholds
      obtain hc | hc := List.mem_append.1 hc
      · exact ⟨c, hc, hstart, hstop⟩
      · have := hvs c hc
        omega
  rw [← slice_zero, hslice]
  refine List.flatMap_congr fun c hc => ?_
  rw [(hcut c (List.mem_append_left _ hc)).slice]

/-- **The blocks before a place in a block** show what the text before the block shows. -/
theorem visible_take_of_blocks {bs bs' : List AnchoredBlock} {b : AnchoredBlock}
    (h : (assemble result).blocks = bs ++ b :: bs') :
    bs.flatMap (fun b => visible b.text) = visible ((assemble result).text.take b.charStart) := by
  have hd : (assemble result).WellFormed := wellFormed_assemble result
  have hin := hd.anchored.inOrder
  rw [h] at hin
  have hpairwise := hin.pairwise
  rw [List.pairwise_append, List.pairwise_cons] at hpairwise
  obtain ⟨-, ⟨hafter, -⟩, hbefore⟩ := hpairwise
  have hslice := visible_slice_of_ordered (a := 0) (b := b.charStart)
    (Ordered.stretch hin (List.prefix_append bs _).isInfix)
    (fun b' hb' => ⟨Nat.zero_le _, hbefore b' hb' b List.mem_cons_self⟩) fun i u _ hto hi hu => by
      obtain ⟨b', hb', hstart, hstop⟩ := exists_holds_of_visible hi hu
      rw [h] at hb'
      obtain hb' | hb' := List.mem_append.1 hb'
      · exact ⟨b', hb', hstart, hstop⟩
      obtain rfl | hb' := List.mem_cons.1 hb'
      · omega
      · have := hafter b' hb'
        have := hin.lt b (by simp)
        omega
  rw [← slice_zero, hslice]
  refine List.flatMap_congr fun b' hb' => ?_
  rw [(hd.anchored.anchored b' (by rw [h]; exact List.mem_append_left _ hb')).slice]

/-- A block shows what stands before a place in it, and from there on something more. -/
theorem visible_block_split {b : AnchoredBlock} (hb : b ∈ (assemble result).blocks) {i : ℕ}
    (hi : b.Holds i) : visible b.text =
      visible (slice (assemble result).text b.charStart i) ++
        visible (slice (assemble result).text i b.charEnd) ∧
      visible (slice (assemble result).text i b.charEnd) ≠ [] := by
  have hd : (assemble result).WellFormed := wellFormed_assemble result
  have hanchored := hd.anchored.anchored b hb
  have hsplit := slice_append_slice (assemble result).text hi.1 hi.2.le
  rw [hanchored.slice] at hsplit
  refine ⟨by rw [← hsplit, visible_append], fun hnil => ?_⟩
  have hne : slice (assemble result).text i b.charEnd ≠ [] := by
    rw [← List.length_pos_iff, length_slice hanchored.le]
    have := hi.2
    omega
  have hlast := hd.last b hb _ (by rw [← hsplit, List.getLast?_append_of_ne_nil _ hne,
    List.getLast?_eq_some_getLast hne]; rfl)
  rw [visible_eq_nil_iff.1 hnil _ (List.getLast_mem hne)] at hlast
  cases hlast

end

/-! ## Pages -/

/-- What these pages show. -/
def PdfDocument.shows (doc : PdfDocument) (pages : List ℕ) : JsString :=
  pages.flatMap fun page => visibleItems (doc.items page)

theorem visible_block (doc : PdfDocument) (page : ℕ) :
    (doc.block page).elim [] (fun b => visible b.text) = visibleItems (doc.items page) := by
  rw [PdfDocument.block]
  split
  case isTrue h =>
    rw [← visible_pageText, h]
    rfl
  case isFalse => exact visible_pageText _

theorem visible_filterMap_block {doc : PdfDocument} (pages : List ℕ) :
    (pages.filterMap doc.block).flatMap (fun b => visible b.text) = doc.shows pages := by
  induction pages with
  | nil => rfl
  | cons page pages ih =>
    have hpage := visible_block doc page
    rw [List.filterMap_cons, PdfDocument.shows, List.flatMap_cons, ← hpage,
      ← PdfDocument.shows, ← ih]
    cases doc.block page <;> rfl

/-- The blocks of the pages, in the assembled document. -/
theorem map_toRawBlock_pages {doc : PdfDocument} {result : FormatParseResult} {pages : List ℕ}
    (h : result.blocks = pages.filterMap doc.block) :
    (assemble result).blocks.map (·.toRawBlock) = pages.filterMap doc.block := by
  have htrimmed : ∀ b ∈ pages.filterMap doc.block, trim b.text = b.text ∧ b.text ≠ [] := by
    intro b hb
    obtain ⟨page, -, hpage⟩ := List.mem_filterMap.1 hb
    rw [PdfDocument.block] at hpage
    split at hpage
    case isTrue => cases hpage
    case isFalse hne =>
      obtain rfl := Option.some.inj hpage
      exact ⟨trim_trim _, hne⟩
  rw [map_toRawBlock_assemble, h]
  have hmap : (pages.filterMap doc.block).map (fun b => { b with text := trim b.text }) =
      pages.filterMap doc.block :=
    (List.map_congr_left fun b hb => by rw [(htrimmed b hb).1]; rfl).trans (List.map_id _)
  rw [hmap, List.filter_eq_self]
  exact fun b hb => decide_eq_true (htrimmed b hb).2

/-- **Where a block of the pages stands**: the blocks before it are those of the pages before its
own. -/
theorem pages_of_block {doc : PdfDocument} {n : ℕ} {bs bs' : List RawBlock} {b : RawBlock}
    (h : (List.range' 1 n).filterMap doc.block = bs ++ b :: bs') : 1 ≤ b.page ∧ b.page ≤ n ∧
      visible b.text = visibleItems (doc.items b.page) ∧
      bs.flatMap (fun b => visible b.text) = doc.shows (List.range' 1 (b.page - 1)) := by
  obtain ⟨l₁, l₂, hl, hbs, hrest⟩ := List.filterMap_eq_append_iff.1 h
  obtain ⟨skipped, page, l₃, rfl, hskipped, hblock, -⟩ := List.filterMap_eq_cons_iff.1 hrest
  have hpage : b.page = page ∧ visible b.text = visibleItems (doc.items page) := by
    have hshown := visible_block doc page
    rw [hblock] at hshown
    refine ⟨?_, hshown⟩
    rw [PdfDocument.block] at hblock
    split at hblock
    case isTrue => cases hblock
    case isFalse =>
      obtain rfl := Option.some.inj hblock
      rfl
  obtain ⟨rfl, hshown⟩ := hpage
  -- the pages before it
  have hbefore : l₁ ++ skipped = List.range' 1 (b.page - 1) ∧ 1 ≤ b.page ∧ b.page ≤ n := by
    rw [← List.append_assoc, List.range'_eq_append_iff] at hl
    obtain ⟨k, hk, hfront, hback⟩ := hl
    obtain ⟨hfirst, hpos, -⟩ := List.range'_eq_cons_iff.1 hback.symm
    refine ⟨?_, by omega, by omega⟩
    rw [hfront]
    congr 1
    omega
  refine ⟨hbefore.2.1, hbefore.2.2, hshown, ?_⟩
  have hnone : skipped.filterMap doc.block = [] := List.filterMap_eq_nil_iff.2 hskipped
  rw [← hbefore.1, ← visible_filterMap_block, List.filterMap_append, hnone, List.append_nil, hbs]

theorem heading_block {doc : PdfDocument} {page : ℕ} {b : RawBlock} (h : doc.block page = some b) :
    b.heading = false := by
  rw [PdfDocument.block] at h
  split at h
  case isTrue => cases h
  case isFalse =>
    obtain rfl := Option.some.inj h
    rfl

/-- A PDF that is accepted has been read by `parsePdf`. -/
theorem parsePdf_of_parseDocument {formats : Formats} {bytes : Bytes} {parsed : ParsedDocument}
    (h : parseDocument formats bytes .PDF = .ok parsed) :
    ∃ result, formats.parsePdf bytes = .ok result ∧ assemble result = parsed := by
  rw [parseDocument] at h
  split at h
  case isTrue => cases h
  case isFalse =>
    cases hresult : formats.parsePdf bytes with
    | error e =>
      rw [hresult] at h
      cases h
    | ok result =>
      rw [hresult] at h
      exact ⟨result, rfl, Except.ok.inj h⟩

/-- **From the pages of a PDF to its chunks.**  Whatever the library finds in the file, the visible
characters of the pages up to `MAX_PAGES` are those of the chunks, each once and in order; the first
one of a chunk is on the page the chunk names.  The document tells how many pages there are, and
warns of the pages that were left out and of each page with little text. -/
theorem pdf_chunks {getDocument : Bytes → Except JsError PdfDocument}
    {parseDocx : Bytes → Except JsError FormatParseResult} {tok : Tokenizer}
    {options : ChunkOptions} {bytes : Bytes} {parsed : ParsedDocument} {chunks : List ChunkDraft}
    (hparse : parseDocument (formatsOf parseDocx (parsePdf getDocument)) bytes .PDF = .ok parsed)
    (hchunks : chunkDocument tok options parsed = .ok chunks) :
    ∃ doc, getDocument bytes = .ok doc ∧ parsed.pageCount = doc.numPages ∧
      parsed.warnings = doc.warnings ∧
      chunks.flatMap (fun c => visible c.text) = doc.shows (List.range' 1 doc.pagesToScan) ∧
      ∀ us c vs, chunks = us ++ c :: vs → 1 ≤ c.page ∧ c.page ≤ doc.pagesToScan ∧
        ∃ seen more, more ≠ [] ∧ visibleItems (doc.items c.page) = seen ++ more ∧
          us.flatMap (fun c => visible c.text) =
            doc.shows (List.range' 1 (c.page - 1)) ++ seen := by
  obtain ⟨result, hresult, rfl⟩ := parsePdf_of_parseDocument hparse
  obtain ⟨doc, hdoc, -, hpages⟩ := parsePdf_ok hresult
  have hblocks : result.blocks = (List.range' 1 doc.pagesToScan).filterMap doc.block := by
    rw [hpages]
  have hraw := map_toRawBlock_pages hblocks
  have hbody : ∀ b ∈ (assemble result).blocks, b.heading = false := by
    intro b hb
    have hmem : b.toRawBlock ∈ (List.range' 1 doc.pagesToScan).filterMap doc.block :=
      hraw ▸ List.mem_map_of_mem hb
    obtain ⟨page, -, hpage⟩ := List.mem_filterMap.1 hmem
    exact heading_block hpage
  have hd : (assemble result).WellFormed := wellFormed_assemble result
  obtain ⟨turns, hchunked⟩ := exists_chunked hd hchunks
  refine ⟨doc, hdoc, by rw [hpages]; rfl, by rw [hpages]; rfl, ?_, ?_⟩
  · have hall := visible_take_of_chunks hbody ((List.append_nil chunks).symm ▸ hchunks)
      (fun c hc => (hchunked.anchored_chunk hc).2.1) fun c hc => absurd hc List.not_mem_nil
    rw [hall, List.take_length, visible_assemble, visibleBlocks, hpages, visible_filterMap_block]
  · rintro us c vs rfl
    have hc : c ∈ us ++ c :: vs := List.mem_append_right _ List.mem_cons_self
    obtain ⟨hlt, -, b, hb, hholds, hpage⟩ := hchunked.anchored_chunk hc
    obtain ⟨bs, bs', hsplit⟩ := List.append_of_mem hb
    have hrawsplit := hraw
    rw [hsplit, List.map_append, List.map_cons] at hrawsplit
    obtain ⟨hlow, hhigh, hshown, hbefore⟩ := pages_of_block hrawsplit.symm
    obtain ⟨hparts, hmore⟩ := visible_block_split hb hholds
    refine ⟨hpage ▸ hlow, hpage ▸ hhigh,
      visible (slice (assemble result).text b.charStart c.charStart),
      _, hmore, ?_, ?_⟩
    · rw [← hparts, hpage]
      exact hshown.symm
    · have hpairwise := hchunked.pairwise_chunks
      rw [List.pairwise_append, List.pairwise_cons] at hpairwise
      obtain ⟨-, ⟨hafter, -⟩, hfront⟩ := hpairwise
      have hchunksBefore := visible_take_of_chunks hbody hchunks
        (fun c' hc' => hfront c' hc' c List.mem_cons_self)
        fun c' hc' => by
          obtain rfl | hc' := List.mem_cons.1 hc'
          · exact le_rfl
          · exact hlt.le.trans (hafter c' hc')
      have hblocksBefore := visible_take_of_blocks hsplit
      rw [hchunksBefore, ← slice_zero, ← slice_append_slice _ (Nat.zero_le _) hholds.1,
        visible_append, slice_zero, ← hblocksBefore, hpage, ← hbefore, List.flatMap_map]

deriving instance DecidableEq for ParsedDocument

/-- Two pages of a PDF, the first one without text, and a word cut into two items. -/
def samplePdf : PdfDocument where
  numPages := 2
  getPage page := .ok (if page = 2 then [⟨some (some (js "Re")), false⟩, ⟨none, false⟩,
    ⟨some (some (js "funds  take")), false⟩, ⟨some none, true⟩,
    ⟨some (some (js "30 days.")), false⟩]
    else [])

def samplePdfBytes : Bytes := "%PDF-1.7".toList.flatMap String.utf8EncodeChar

/-- Its one chunk. -/
def samplePdfChunks : List ChunkDraft :=
  [{ content := js "Refunds take\n30 days.", text := js "Refunds take\n30 days.", page := 2,
     sectionText := none, charStart := 0, charEnd := 21, tokenCount := 21 }]

theorem pdf_chunks_sample : ∃ doc : PdfDocument, doc.numPages = 2 ∧
    samplePdfChunks.flatMap (fun c => visible c.text) = doc.shows [1, 2] := by
  have hparse : parseDocument (formatsOf (fun _ => .error (.new []))
      (parsePdf fun _ => .ok samplePdf))
      samplePdfBytes .PDF = .ok (assemble ⟨[{ text := js "Refunds take\n30 days.", page := 2 }], 2,
        [lowTextWarning 1]⟩) := by decide +kernel
  have hchunks : chunkDocument sampleEncoder.tokenizer sampleOptions (assemble
      ⟨[{ text := js "Refunds take\n30 days.", page := 2 }], 2, [lowTextWarning 1]⟩) =
        .ok samplePdfChunks := by decide +kernel
  obtain ⟨doc, hdoc, -, -, hshown, -⟩ := pdf_chunks hparse hchunks
  obtain rfl := Except.ok.inj hdoc
  exact ⟨samplePdf, rfl, hshown⟩

end Ingestion

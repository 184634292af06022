import SupportAgent.Ingestion.Parsing.Lossless

/-!
# Ingestion/Parsing/Pdf — the text of a PDF, page by page

`parsePdf` scans the pages in order, up to `MAX_PAGES` of them: it concatenates the items of a page
into lines, tidies each line and makes one block of them, or none of a page without text.

* `parsePdf_ok` — what is returned, page by page.
* `visible_pageText` — a page's block shows what its items show.
-/

namespace Ingestion

open JsString

/-! ## The document -/

/-- An item of a page: the text of a `PdfTextItem`, which may be undefined, or an object without
`str`. -/
structure PdfItem where
  str : Option (Option JsString)
  hasEOL : Bool := false

/-- A document of the library: `getPage`, and what `getTextContent` gives of the page. -/
structure PdfDocument where
  numPages : ℕ
  getPage : ℕ → Except JsError (List PdfItem)

def LOW_TEXT_MIN_CHARS : ℕ := 10

def MAX_PAGES : ℕ := 2000

/-! ## A page -/

/-- One turn of the loop over the items: the lines so far and the open one. -/
def addItem (acc : List JsString × JsString) (item : PdfItem) : List JsString × JsString :=
  match item.str with
  | none => acc
  | some str =>
    let line := acc.2 ++ str.getD []
    if item.hasEOL then (acc.1 ++ [line], []) else (acc.1, line)

/-- The lines of a page. -/
def pageLines (items : List PdfItem) : List JsString :=
  let (lines, line) := items.foldl addItem ([], [])
  if line ≠ [] then lines ++ [line] else lines

/-- The text of a page. -/
def pageText (items : List PdfItem) : JsString :=
  trim (join (js "\n")
    (((pageLines items).map fun l => trim (collapseBlanks false l)).filter (· ≠ [])))

/-! ## The pages -/

structure PdfState where
  blocks : List RawBlock := []
  warnings : List JsString := []
  lowTextPages : ℕ := 0

def lowTextWarning (page : ℕ) : JsString :=
  js "page " ++ js (toString page) ++ js ": low text (possibly scanned)"

/-- What a page adds. -/
def PdfState.addPage (st : PdfState) (page : ℕ) (items : List PdfItem) : PdfState :=
  let text := pageText items
  let st :=
    if text.length < LOW_TEXT_MIN_CHARS then
      { st with lowTextPages := st.lowTextPages + 1, warnings := st.warnings ++
        [lowTextWarning page] }
    else st
  -- nothing to add for an empty page
  if text = [] then st else { st with blocks := st.blocks ++ [{ text, page }] }

/-- One turn of the loop over the pages. -/
def PdfState.scanPage (doc : PdfDocument) (st : PdfState) (page : ℕ) : Except JsError PdfState := do
  let items ← doc.getPage page
  return st.addPage page items

def PdfDocument.pagesToScan (doc : PdfDocument) : ℕ := min doc.numPages MAX_PAGES

/-- The warning about the pages that are left out. -/
def PdfDocument.truncationWarning (doc : PdfDocument) : List JsString :=
  if doc.numPages > MAX_PAGES then
    [js "document has " ++ js (toString doc.numPages) ++ js " pages; only the first " ++
      js (toString MAX_PAGES) ++ js " were parsed"]
  else []

/-- `parsePdf`, given `getDocument`. -/
def parsePdf (getDocument : Bytes → Except JsError PdfDocument) (bytes : Bytes) :
    Except JsError FormatParseResult := do
  let doc ← getDocument bytes
  let st ← (List.range' 1 doc.pagesToScan).foldlM (PdfState.scanPage doc)
    { warnings := doc.truncationWarning }
  let warnings :=
    if doc.pagesToScan > 0 ∧ st.lowTextPages = doc.pagesToScan then
      st.warnings ++ [js "all pages are low-text — document may be scanned/image-only"]
    else st.warnings
  return { blocks := st.blocks, pageCount := doc.numPages, warnings }

/-! ## What a page shows -/

/-- What the items of a page show. -/
def visibleItems (items : List PdfItem) : JsString :=
  items.flatMap fun item => visible (item.str.join.getD [])

/-- The items go into the lines. -/
theorem visible_foldl_addItem (items : List PdfItem) (acc : List JsString × JsString) :
    (items.foldl addItem acc).1.flatMap visible ++ visible (items.foldl addItem acc).2 =
      acc.1.flatMap visible ++ visible acc.2 ++ visibleItems items := by
  induction items generalizing acc with
  | nil => exact (List.append_nil _).symm
  | cons item items ih =>
    have hturn : (addItem acc item).1.flatMap visible ++ visible (addItem acc item).2 =
        acc.1.flatMap visible ++ visible acc.2 ++ visible (item.str.join.getD []) := by
      rw [addItem]
      split
      case h_1 hstr => rw [hstr]; exact (List.append_nil _).symm
      case h_2 str hstr =>
        rw [hstr, Option.join_some]
        dsimp only
        split
        · rw [List.flatMap_append, List.flatMap_singleton, visible_append, visible_nil,
            List.append_nil,
            List.append_assoc]
        · rw [visible_append, List.append_assoc]
    rw [List.foldl_cons, ih, hturn, visibleItems, visibleItems, List.flatMap_cons,
      List.append_assoc]

/-- **The lines show what the items show.** -/
theorem visible_pageLines (items : List PdfItem) :
    (pageLines items).flatMap visible = visibleItems items := by
  have hloop := visible_foldl_addItem items ([], [])
  rw [pageLines]
  dsimp only
  split
  · rw [List.flatMap_append, List.flatMap_singleton]
    exact hloop
  case isFalse hline =>
    rw [not_not.1 hline, visible_nil, List.append_nil] at hloop
    exact hloop

/-- **The text of a page shows what its items show.** -/
theorem visible_pageText (items : List PdfItem) :
    visible (pageText items) = visibleItems items := by
  rw [pageText, visible_trim, visible_join (by decide), visible_filter_trimmed, visible_pageLines]

/-! ## What is returned -/

/-- The items of a page, of one that can be read. -/
def PdfDocument.items (doc : PdfDocument) (page : ℕ) : List PdfItem :=
  (doc.getPage page).toOption.getD []

/-- The block of a page with text. -/
def PdfDocument.block (doc : PdfDocument) (page : ℕ) : Option RawBlock :=
  if pageText (doc.items page) = [] then none else some { text := pageText (doc.items page), page }

/-- A page with little text. -/
def PdfDocument.isLowText (doc : PdfDocument) (page : ℕ) : Bool :=
  (pageText (doc.items page)).length < LOW_TEXT_MIN_CHARS

/-- The warnings about a document: pages left out, pages with little text, and no other pages. -/
def PdfDocument.warnings (doc : PdfDocument) : List JsString :=
  doc.truncationWarning ++
    ((List.range' 1 doc.pagesToScan).filter doc.isLowText).map lowTextWarning ++
    if doc.pagesToScan > 0 ∧ (List.range' 1 doc.pagesToScan).all doc.isLowText then
      [js "all pages are low-text — document may be scanned/image-only"]
    else []

variable {doc : PdfDocument}

theorem addPage_eq (st : PdfState) (page : ℕ) : st.addPage page (doc.items page) = {
    blocks := st.blocks ++ (doc.block page).toList
    warnings := st.warnings ++ if doc.isLowText page then [lowTextWarning page] else []
    lowTextPages := st.lowTextPages + if doc.isLowText page then 1 else 0 } := by
  rw [PdfState.addPage, PdfDocument.block, PdfDocument.isLowText]
  by_cases hlow : (pageText (doc.items page)).length < LOW_TEXT_MIN_CHARS
  · rw [if_pos hlow, decide_eq_true hlow, if_pos rfl, if_pos rfl]
    split_ifs <;> simp
  · rw [if_neg hlow, decide_eq_false hlow, if_neg Bool.false_ne_true, if_neg Bool.false_ne_true]
    split_ifs <;> simp

/-- **A scan of pages**, all of which can be read. -/
theorem foldlM_scanPage {pages : List ℕ} {st st' : PdfState}
    (h : pages.foldlM (PdfState.scanPage doc) st = .ok st') :
    (∀ page ∈ pages, doc.getPage page = .ok (doc.items page)) ∧ st' = {
      blocks := st.blocks ++ pages.filterMap doc.block
      warnings := st.warnings ++ (pages.filter doc.isLowText).map lowTextWarning
      lowTextPages := st.lowTextPages + pages.countP doc.isLowText } := by
  induction pages generalizing st with
  | nil =>
    obtain rfl := Except.ok.inj h
    refine ⟨fun page hpage => absurd hpage List.not_mem_nil, ?_⟩
    rw [List.filterMap_nil, List.filter_nil, List.map_nil, List.countP_nil, List.append_nil,
      List.append_nil, Nat.add_zero]
  | cons page pages ih =>
    rw [List.foldlM_cons] at h
    obtain ⟨st₁, hscan, hrest⟩ := Except.bind_eq_ok.1 h
    obtain ⟨items, hitems, hadd⟩ := Except.bind_eq_ok.1 hscan
    have hpage : doc.items page = items := by rw [PdfDocument.items, hitems]; rfl
    rw [← hpage] at hitems hadd
    obtain rfl := Except.ok.inj hadd
    obtain ⟨hread, rfl⟩ := ih hrest
    refine ⟨List.forall_mem_cons.2 ⟨hitems, hread⟩, ?_⟩
    rw [addPage_eq, List.filterMap_cons, List.filter_cons, List.countP_cons]
    cases doc.block page <;> cases doc.isLowText page <;> simp <;> omega

/-- **What `parsePdf` returns**: a block for each page with text, and a warning for each with
little. -/
theorem parsePdf_ok {getDocument : Bytes → Except JsError PdfDocument} {bytes : Bytes}
    {result : FormatParseResult} (h : parsePdf getDocument bytes = .ok result) :
    ∃ doc, getDocument bytes = .ok doc ∧
      (∀ page, 1 ≤ page → page ≤ doc.pagesToScan → doc.getPage page = .ok (doc.items page)) ∧
      result = {
        blocks := (List.range' 1 doc.pagesToScan).filterMap doc.block
        pageCount := doc.numPages
        warnings := doc.warnings } := by
  obtain ⟨doc, hdoc, h⟩ := Except.bind_eq_ok.1 h
  obtain ⟨st, hscan, h⟩ := Except.bind_eq_ok.1 h
  obtain ⟨hread, rfl⟩ := foldlM_scanPage hscan
  obtain rfl := Except.ok.inj h
  refine ⟨doc, hdoc, fun page hlow hhigh => hread page ?_, ?_⟩
  · rw [List.mem_range'_1]
    omega
  · have hall : 0 + (List.range' 1 doc.pagesToScan).countP doc.isLowText = doc.pagesToScan ↔
        (List.range' 1 doc.pagesToScan).all doc.isLowText = true := by
      rw [Nat.zero_add, List.all_eq_true, ← List.countP_eq_length, List.length_range']
    rw [List.nil_append, PdfDocument.warnings]
    by_cases hlow : doc.pagesToScan > 0 ∧ (List.range' 1 doc.pagesToScan).all doc.isLowText = true
    · rw [if_pos hlow, if_pos (hlow.imp_right hall.2)]
    · rw [if_neg hlow, if_neg (mt (And.imp_right hall.1) hlow), List.append_nil]

end Ingestion

import SupportAgent.Chat.Wire
import SupportAgent.Documents.Events
import Mathlib.Data.List.AList

/-!
# Admin/DocumentsPage — the documents page of the dashboard

A file that is added has a row, an upload in flight, and later an event stream of its document,
which the page keeps in a map under the key of the row.  Answers, events and clicks come in any
order; `DocumentsPage.step` takes them one at a time.  What is rendered (`PageState`) is set only
while the page is mounted.

* `Attended` — what holds whenever the page is rendered.
* `documents_page_attended` — no row is left waiting for nothing, no stream is open unregistered,
  and a stream the server has closed waits for nothing either.
-/

open Ingestion JsString

namespace Admin

/-! ## The state -/

structure File where
  name : JsString
  content : Bytes

structure UploadItem where
  key : JsString
  fileName : JsString
  file : File
  /-- `uploading`, `error` or a status from the stream. -/
  status : JsString
  error : Option JsString := none
  docId : Option JsString := none

structure DocumentView where
  id : JsString
  title : JsString
  status : JsString
  chunkCount : ℕ
  updatedAt : JsString

/-- An `EventSource`, with the key its listeners close over. -/
structure EventSource where
  key : JsString
  docId : JsString
  closed : Bool := false

/-- What the page renders. -/
structure PageState where
  assistantId : Option JsString := none
  loadError : Option JsString := none
  items : List UploadItem := []
  documents : List DocumentView := []
  docsLoaded : Bool := false
  docsError : Option JsString := none
  deletingId : Option JsString := none

/-- **The page**: its state, the streams it ever opened and the map of those it watches, and the
requests that are in flight. -/
structure DocumentsPage where
  shown : PageState := {}
  mounted : Bool := true
  counter : ℕ
  sources : List EventSource := []
  streams : AList fun _ : JsString => ℕ := ∅
  loading : Bool := true
  uploading : List UploadItem := []
  fetching : ℕ := 0
  deleting : List JsString := []

/-- An event of a stream; the data of a status event may be malformed. -/
inductive SourceEvent
  | status (data : Option (JsString × Option JsString))
  | done
  | timeout
  | error (data : Bool)

/-- The answer to an upload, its body read as an object. -/
inductive UploadAnswer
  | response (ok : Bool) (status : ℕ) (documentId error : Option JsString)
  | rejected

/-- What may happen next. -/
inductive PageMove
  | assistantLoaded (answer : Option (Option JsString))
  /-- Files are dropped or picked, each with the `Date.now()` its key is made of. -/
  | addFiles (files : List (File × ℕ))
  | retry (key : JsString)
  | uploaded (upload : ℕ) (answer : UploadAnswer)
  | heard (source : ℕ) (event : SourceEvent)
  | refresh
  | fetched (answer : Option (List DocumentView))
  /-- A deletion the user confirms. -/
  | delete (id : JsString)
  | deleted (request : ℕ) (answer : Option (Bool × ℕ))
  | unmount

/-- A status, as the API writes it. -/
def statusText : DocumentStatus → JsString
  | .QUEUED => js "QUEUED"
  | .UPLOADED => js "UPLOADED"
  | .PARSING => js "PARSING"
  | .EMBEDDING => js "EMBEDDING"
  | .READY => js "READY"
  | .FAILED => js "FAILED"

/-- The event a frame of the API reaches the page as; a comment is none. -/
def frameEvent : StatusFrame → Option SourceEvent
  | .status status _ _ _ error => some (.status (some (statusText status, error)))
  | .done => some .done
  | .error _ => some (.error true)
  | .timeout => some .timeout
  | .keepAlive => none

/-- `isTerminalStatus` of the dashboard. -/
def isTerminalStatus (status : JsString) : Bool := status == js "READY" || status == js "FAILED"

/-- The row offers its Retry button. -/
def UploadItem.retryShown (it : UploadItem) : Bool :=
  it.status == js "error" || it.status == js "FAILED"

/-- `nextKey`. -/
def nextKey (now counter : ℕ) : JsString :=
  js "u" ++ Json.decimal now ++ 0x2D :: Json.decimal counter

/-- The documents listed below the uploads. -/
def PageState.listDocs (s : PageState) : List DocumentView :=
  let inFlightDocIds := s.items.filterMap (·.docId)
  s.documents.filter fun d => !inFlightDocIds.contains d.id

namespace DocumentsPage

/-! ## The callbacks -/

/-- `setState`: nothing once the page is unmounted. -/
def setState (p : DocumentsPage) (f : PageState → PageState) : DocumentsPage :=
  if p.mounted then { p with shown := f p.shown } else p

def setItems (p : DocumentsPage) (f : List UploadItem → List UploadItem) : DocumentsPage :=
  p.setState fun s => { s with items := f s.items }

def patch (p : DocumentsPage) (key : JsString) (next : UploadItem → UploadItem) : DocumentsPage :=
  p.setItems (·.map fun it => if it.key = key then next it else it)

/-- `es.close()`. -/
def closeSource (p : DocumentsPage) (i : ℕ) : DocumentsPage :=
  { p with sources := p.sources.modify i fun es => { es with closed := true } }

/-- `close` of `watch`. -/
def close (p : DocumentsPage) (i : ℕ) (key : JsString) : DocumentsPage :=
  { p.closeSource i with streams := p.streams.erase key }

/-- `fetchDocuments`, up to its request. -/
def fetchDocuments (p : DocumentsPage) : DocumentsPage :=
  if p.shown.assistantId.isNone then p else { p with fetching := p.fetching + 1 }

/-- `watch`. -/
def watch (p : DocumentsPage) (key docId : JsString) : DocumentsPage :=
  let p := ((p.streams.lookup key).map p.closeSource).getD p
  { p with
    sources := p.sources ++ [{ key, docId }]
    streams := p.streams.insert key p.sources.length }

/-- The listeners `watch` adds to a stream. -/
def hear (p : DocumentsPage) (i : ℕ) (key : JsString) : SourceEvent → DocumentsPage
  | .status none => p
  | .status (some (status, error)) =>
    p.patch key fun it => { it with
      status
      error := if status = js "FAILED" then some (error.getD (js "Ingestion failed.")) else none }
  | .done => ((p.close i key).setItems (·.filter (·.key ≠ key))).fetchDocuments
  | .timeout =>
    (p.patch key fun it => { it with
      status := js "error"
      error := some (js "Timed out — the document may still be processing.") }).close i key
  | .error data =>
    (p.patch key fun it =>
      if isTerminalStatus it.status then it
      else { it with
        status := js "error"
        error := some (if data then js "The server reported a problem."
          else js "Lost connection to the server.") }).close i key

/-- `upload`, up to its request. -/
def upload (p : DocumentsPage) (item : UploadItem) : DocumentsPage :=
  if p.shown.assistantId.isNone then p
  else
    { p.patch item.key (fun it => { it with status := js "uploading", error := none }) with
      uploading := p.uploading ++ [item] }

/-- `upload`, from its answer on. -/
def uploaded (p : DocumentsPage) (item : UploadItem) : UploadAnswer → DocumentsPage
  | .response ok status documentId error =>
    if ok && documentId.getD [] ≠ [] then
      let docId := documentId.getD []
      (p.patch item.key fun it => { it with
        status := js "UPLOADED", docId := some docId }).watch item.key docId
    else p.patch item.key fun it => { it with
      status := js "error"
      error := some (error.getD (js "Upload failed (" ++ Json.decimal status ++ js ").")) }
  | .rejected => p.patch item.key fun it => { it with
      status := js "error", error := some (js "Cannot reach the server.") }

/-- The rows of files that are added. -/
def newItems (counter : ℕ) (files : List (File × ℕ)) : List UploadItem :=
  (files.zipIdx counter).map fun ((file, now), n) => {
    key := nextKey now n, fileName := file.name, file, status := js "uploading" }

def addFiles (p : DocumentsPage) (files : List (File × ℕ)) : DocumentsPage :=
  if p.shown.assistantId.isNone then p
  else
    let rows := newItems p.counter files
    rows.foldl upload
      ({ p with counter := p.counter + files.length }.setItems (rows ++ ·))

/-- The assistant is looked up, and its documents are fetched. -/
def assistantLoaded (p : DocumentsPage) : Option (Option JsString) → DocumentsPage
  | some (some (c :: id)) =>
    if p.mounted then
      (p.setState fun s => { s with assistantId := some (c :: id) }).fetchDocuments
    else p
  | some _ => p.setState fun s => { s with
      loadError := some (js "No assistant found for your account.") }
  | none => p.setState fun s => { s with
      loadError := some (js "Could not load your assistant. Try reloading.") }

/-- `fetchDocuments`, from its answer on. -/
def fetched (p : DocumentsPage) : Option (List DocumentView) → DocumentsPage
  | some documents =>
    p.setState fun s => { s with documents, docsError := none, docsLoaded := true }
  | none => p.setState fun s => { s with
      docsError := some (js "Could not load your documents."), docsLoaded := true }

/-- `deleteDoc`, from its answer on. -/
def deleted (p : DocumentsPage) (id : JsString) (answer : Option (Bool × ℕ)) : DocumentsPage :=
  p.setState fun s =>
    if answer.any fun (ok, status) => ok || status == 404 then
      { s with documents := s.documents.filter (·.id ≠ id), deletingId := none }
    else { s with docsError := some (js "Delete failed. Try again."), deletingId := none }

/-- **One move.**  A click needs the page rendered and its button there; a closed stream hears
nothing. -/
def step (p : DocumentsPage) : PageMove → Option DocumentsPage
  | .assistantLoaded answer =>
    if p.loading then some ({ p with loading := false }.assistantLoaded answer) else none
  | .addFiles files => if p.mounted then some (p.addFiles files) else none
  | .retry key =>
    match p.shown.items.find? fun it => it.key == key with
    | some it => if p.mounted && it.retryShown then some (p.upload it) else none
    | none => none
  | .uploaded n answer =>
    p.uploading[n]?.map fun item =>
      { p with uploading := p.uploading.eraseIdx n }.uploaded item answer
  | .heard i event =>
    match p.sources[i]? with
    | some es => if es.closed then none else some (p.hear i es.key event)
    | none => none
  | .refresh => if p.mounted then some p.fetchDocuments else none
  | .fetched answer =>
    if p.fetching = 0 then none else some ({ p with fetching := p.fetching - 1 }.fetched answer)
  | .delete id =>
    if p.mounted && p.shown.listDocs.any (·.id == id) && p.shown.deletingId ≠ some id then
      some { p.setState (fun s => { s with deletingId := some id }) with
        deleting := p.deleting ++ [id] }
    else none
  | .deleted n answer =>
    p.deleting[n]?.map fun id => { p with deleting := p.deleting.eraseIdx n }.deleted id answer
  | .unmount =>
    if p.mounted then
      let registered := p.streams.entries.map (·.2)
      some { p with
        mounted := false
        sources := p.sources.mapIdx fun i es => if i ∈ registered then { es with closed := true }
          else es }
    else none

/-! ## What holds of it -/

/-- A fresh page; the key counter outlives it. -/
def Initial (p : DocumentsPage) : Prop := ∃ counter, p = { counter }

/-- **The stream at `i` is open**, for the row of this key. -/
def Open (p : DocumentsPage) (i : ℕ) (key : JsString) : Prop :=
  ∃ es, p.sources[i]? = some es ∧ es.closed = false ∧ es.key = key

/-- **Something will happen to the row of this key**: an upload is in flight or a stream is open. -/
def Tended (p : DocumentsPage) (key : JsString) : Prop :=
  (∃ up ∈ p.uploading, up.key = key) ∨ ∃ i, p.Open i key

end DocumentsPage

/-- The row waits for nothing: it offers a Retry, or is ready. -/
def UploadItem.atRest (it : UploadItem) : Bool := it.retryShown || it.status == js "READY"

theorem UploadItem.atRest_of_terminal {it : UploadItem} (h : isTerminalStatus it.status = true) :
    it.atRest = true := by
  obtain hready | hfailed := Bool.or_eq_true_iff.1 h
  · exact Bool.or_eq_true_iff.2 (.inr hready)
  · exact Bool.or_eq_true_iff.2 (.inl (Bool.or_eq_true_iff.2 (.inr hfailed)))

namespace DocumentsPage

/-- **What holds whenever the page is rendered.** -/
structure Attended (p : DocumentsPage) : Prop where
  nodup : (p.shown.items.map (·.key)).Nodup
  /-- The map holds the open streams, and nothing else. -/
  registered : ∀ key i, p.streams.lookup key = some i ↔ p.Open i key
  /-- No row is left waiting for nothing. -/
  tended : ∀ it ∈ p.shown.items, it.atRest = true ∨ p.Tended it.key
  /-- A row is told about its own document. -/
  own : ∀ it ∈ p.shown.items, ∀ es ∈ p.sources, es.closed = false → es.key = it.key →
    it.docId = some es.docId
  /-- The Delete button of a document is disabled only while its request is in flight. -/
  deleting : ∀ id, p.shown.deletingId = some id → id ∈ p.deleting

/-! ## Keys -/

/-- A key drawn before the counter stood here. -/
def Issued (counter : ℕ) (key : JsString) : Prop := ∃ now n, key = nextKey now n ∧ n < counter

theorem Issued.mono {m n : ℕ} {key : JsString} (h : Issued m key) (hmn : m ≤ n) : Issued n key := by
  obtain ⟨now, k, hkey, hk⟩ := h
  exact ⟨now, k, hkey, hk.trans_le hmn⟩

theorem hyphen_notMem_decimal (n : ℕ) : (0x2D : UInt16) ∉ Json.decimal n := fun h =>
  absurd (Json.isDigit_of_mem_decimal h) (by decide)

/-- Two keys of one counter are the same draw. -/
theorem nextKey_inj {now now' n n' : ℕ} (h : nextKey now n = nextKey now' n') : n = n' := by
  rw [nextKey, nextKey, List.append_assoc, List.append_assoc] at h
  obtain ⟨-, -, hcounter⟩ := (List.append_cons_inj_of_notMem (hyphen_notMem_decimal now)
    (hyphen_notMem_decimal n)).1 (List.append_cancel_left h)
  rw [← Json.digitsValue_decimal n, hcounter, Json.digitsValue_decimal]

/-! ## The invariant -/

/-- A key some part of the page remembers. -/
def Uses (p : DocumentsPage) (key : JsString) : Prop :=
  (∃ it ∈ p.shown.items, it.key = key) ∨ (∃ up ∈ p.uploading, up.key = key) ∨
    ∃ es ∈ p.sources, es.key = key

/-- A row that is at rest or tended, and told about its own document. -/
def Content (p : DocumentsPage) (it : UploadItem) : Prop :=
  (it.atRest = true ∨ p.Tended it.key) ∧
    ∀ es ∈ p.sources, es.closed = false → es.key = it.key → it.docId = some es.docId

/-- **The invariant**, but for the rows a callback is about to see to. -/
structure Inv (busy : JsString → Prop) (p : DocumentsPage) : Prop where
  issued : ∀ key, p.Uses key → Issued p.counter key
  nodup : (p.shown.items.map (·.key)).Nodup
  held : ∀ key i, p.Open i key → p.streams.lookup key = some i
  /-- The map points at streams of its keys; unmounting leaves closed ones in it. -/
  live : ∀ key i, p.streams.lookup key = some i →
    ∃ es, p.sources[i]? = some es ∧ es.key = key ∧ (p.mounted = true → es.closed = false)
  rows : p.mounted = true → ∀ it ∈ p.shown.items, ¬ busy it.key → p.Content it
  deleting : p.mounted = true → ∀ id, p.shown.deletingId = some id → id ∈ p.deleting

section

variable {p : DocumentsPage} {busy : JsString → Prop} {key docId : JsString} {i : ℕ}

theorem Inv.initial (h : Initial p) : p.Inv fun _ => False := by
  obtain ⟨counter, rfl⟩ := h
  refine ⟨?_, List.nodup_nil, ?_, fun key i hheld => ?_, fun _ it hit => ?_, fun _ => nofun⟩
  · rintro key (⟨it, hit, -⟩ | ⟨up, hup, -⟩ | ⟨es, hes, -⟩)
    · exact absurd hit List.not_mem_nil
    · exact absurd hup List.not_mem_nil
    · exact absurd hes List.not_mem_nil
  · rintro key i ⟨es, hes, -⟩
    exact absurd hes (by simp)
  · rw [AList.lookup_empty] at hheld
    cases hheld
  · exact absurd hit List.not_mem_nil

/-- The callback begins. -/
theorem Inv.begin (h : p.Inv fun _ => False) (key : JsString) : p.Inv (· = key) :=
  { h with rows := fun hm it hit _ => h.rows hm it hit id }

/-- The callback has seen to the row of `key`. -/
theorem Inv.settle {busy' : JsString → Prop} (h : p.Inv busy)
    (hbusy : ∀ k, busy k → busy' k ∨ k = key)
    (hrow : p.mounted = true → ∀ it ∈ p.shown.items, it.key = key → p.Content it) :
    p.Inv busy' := by
  refine { h with rows := fun hm it hit hnot => ?_ }
  by_cases hkey : it.key = key
  · exact hrow hm it hit hkey
  · exact h.rows hm it hit fun hb => (hbusy _ hb).elim hnot hkey

/-! ### What is rendered changes -/

theorem setState_eq (f : PageState → PageState) :
    p.setState f = { p with shown := if p.mounted then f p.shown else p.shown } := by
  unfold setState
  split <;> rfl

section

variable {next : UploadItem → UploadItem}

theorem mounted_patch : (p.patch key next).mounted = p.mounted := by
  rw [patch, setItems, setState_eq]

theorem mounted_setItems {f : List UploadItem → List UploadItem} :
    (p.setItems f).mounted = p.mounted := by rw [setItems, setState_eq]

theorem counter_patch : (p.patch key next).counter = p.counter := by
  rw [patch, setItems, setState_eq]

theorem sources_patch : (p.patch key next).sources = p.sources := by
  rw [patch, setItems, setState_eq]

theorem uploading_patch : (p.patch key next).uploading = p.uploading := by
  rw [patch, setItems, setState_eq]

end

/-- What is set apart from the rows. -/
theorem Inv.setState (h : p.Inv busy) (f : PageState → PageState)
    (hitems : (f p.shown).items = p.shown.items)
    (hdeleting : p.mounted = true → ∀ id, (f p.shown).deletingId = some id → id ∈ p.deleting) :
    (p.setState f).Inv busy := by
  rw [setState_eq]
  by_cases hm : p.mounted = true
  · rw [if_pos hm]
    refine ⟨?_, ?_, h.held, h.live, ?_, hdeleting⟩
    · rintro key (⟨it, hit, hkey⟩ | hrest)
      · exact h.issued key (.inl ⟨it, hitems ▸ hit, hkey⟩)
      · exact h.issued key (.inr hrest)
    · exact hitems ▸ h.nodup
    · exact fun hm it hit hnot => h.rows hm it (hitems ▸ hit) hnot
  · rw [if_neg hm]
    exact h

/-- The rows change, each into one of its key, and only busy ones. -/
theorem Inv.setItems (h : p.Inv busy) (f : List UploadItem → List UploadItem)
    (hkeys : ((f p.shown.items).map (·.key)).Sublist (p.shown.items.map (·.key)))
    (hrows : ∀ it ∈ f p.shown.items, it ∈ p.shown.items ∨ busy it.key) :
    (p.setItems f).Inv busy := by
  rw [DocumentsPage.setItems, setState_eq]
  by_cases hm : p.mounted = true
  · rw [if_pos hm]
    refine ⟨?_, hkeys.nodup h.nodup, h.held, h.live, ?_, h.deleting⟩
    · rintro key (⟨it, hit, rfl⟩ | hrest)
      · obtain ⟨it', hit', hkey⟩ := List.mem_map.1 (hkeys.subset (List.mem_map_of_mem hit))
        exact h.issued _ (.inl ⟨it', hit', hkey⟩)
      · exact h.issued key (.inr hrest)
    · exact fun hm it hit hnot => h.rows hm it ((hrows it hit).resolve_right hnot) hnot
  · rw [if_neg hm]
    exact h

theorem Inv.patch (h : p.Inv busy) (key : JsString) (next : UploadItem → UploadItem)
    (hnext : ∀ it, (next it).key = it.key) (hkey : busy key) : (p.patch key next).Inv busy := by
  have hkeys : (p.shown.items.map fun it => if it.key = key then next it else it).map (·.key) =
      p.shown.items.map (·.key) := by
    rw [List.map_map]
    refine List.map_congr_left fun it _ => ?_
    dsimp only [Function.comp]
    split
    · exact hnext it
    · rfl
  refine h.setItems _ (hkeys ▸ List.Sublist.refl _) fun it hit => ?_
  obtain ⟨it', hit', rfl⟩ := List.mem_map.1 hit
  split
  case isTrue heq => exact .inr ((hnext it').symm ▸ heq ▸ hkey)
  case isFalse => exact .inl hit'

/-! ### Streams are opened and closed -/

/-- A stream that is open after one was closed is another one. -/
theorem getElem?_closeSource {j : ℕ} {es : EventSource} (hopen : es.closed = false) :
    (p.closeSource i).sources[j]? = some es ↔ j ≠ i ∧ p.sources[j]? = some es := by
  by_cases hji : j = i
  · subst hji
    refine ⟨fun hes => ?_, fun h => absurd rfl h.1⟩
    rw [closeSource, List.getElem?_modify_eq] at hes
    obtain ⟨es, -, rfl⟩ := Option.map_eq_some_iff.1 hes
    cases hopen
  · rw [closeSource, List.getElem?_modify_ne _ _ (Ne.symm hji)]
    exact ⟨fun h => ⟨hji, h⟩, And.right⟩

theorem open_closeSource {j : ℕ} {k : JsString} :
    (p.closeSource i).Open j k ↔ j ≠ i ∧ p.Open j k := by
  constructor
  · rintro ⟨es, hes, hopen, hkey⟩
    obtain ⟨hji, hes⟩ := (getElem?_closeSource hopen).1 hes
    exact ⟨hji, es, hes, hopen, hkey⟩
  · rintro ⟨hji, es, hes, hopen, hkey⟩
    exact ⟨es, (getElem?_closeSource hopen).2 ⟨hji, hes⟩, hopen, hkey⟩

/-- Closing changes no key. -/
theorem exists_of_mem_closeSource {es : EventSource} (hes : es ∈ (p.closeSource i).sources) :
    ∃ es' ∈ p.sources, es'.key = es.key := by
  obtain ⟨j, hj⟩ := List.mem_iff_getElem?.1 hes
  rw [closeSource, List.getElem?_modify] at hj
  obtain ⟨es', hes', rfl⟩ := Option.map_eq_some_iff.1 hj
  refine ⟨es', List.mem_of_getElem? hes', ?_⟩
  split <;> rfl

/-- A row of another key stays content when streams come and go. -/
theorem Content.of_sources {q : DocumentsPage} {it : UploadItem} (h : p.Content it)
    (huploading : ∀ up ∈ p.uploading, up.key = it.key → up ∈ q.uploading)
    (hopen : ∀ (j : ℕ) (es : EventSource), es.key = it.key → es.closed = false →
      (q.sources[j]? = some es ↔ p.sources[j]? = some es)) : q.Content it := by
  obtain ⟨htended, hown⟩ := h
  refine ⟨htended.imp_right (Or.imp ?_ ?_), fun es hes hes' hkey => ?_⟩
  · rintro ⟨up, hup, hkey⟩
    exact ⟨up, huploading up hup hkey, hkey⟩
  · rintro ⟨j, es, hes, hes', hkey⟩
    exact ⟨j, es, (hopen j es hkey hes').2 hes, hes', hkey⟩
  · obtain ⟨j, hj⟩ := List.mem_iff_getElem?.1 hes
    exact hown es (List.mem_of_getElem? ((hopen j es hkey hes').1 hj)) hes' hkey

/-- **A stream closes**, and the map forgets it. -/
theorem Inv.close (h : p.Inv busy) (hopen : p.Open i key) (hkey : busy key) :
    (p.close i key).Inv busy := by
  have hopen' : ∀ j k, (p.close i key).Open j k ↔ j ≠ i ∧ p.Open j k := fun j k => open_closeSource
  -- the closed stream was the only one of its key
  have honly : ∀ j k, p.Open j k → (j ≠ i ↔ k ≠ key) := by
    intro j k hj
    refine ⟨?_, ?_⟩
    · rintro hji rfl
      exact hji (Option.some.inj ((h.held _ _ hj).symm.trans (h.held _ _ hopen)))
    · rintro hne rfl
      obtain ⟨es, hes, -, hk⟩ := hj
      obtain ⟨es', hes', -, hk'⟩ := hopen
      obtain rfl := Option.some.inj (hes.symm.trans hes')
      exact hne (hk.symm.trans hk')
  refine ⟨?_, h.nodup, fun k j hj => ?_, fun k j hheld => ?_, fun hm it hit hnot => ?_, h.deleting⟩
  · rintro k (hitem | hup | ⟨es, hes, rfl⟩)
    · exact h.issued k (.inl hitem)
    · exact h.issued k (.inr (.inl hup))
    · obtain ⟨es', hes', hk⟩ := exists_of_mem_closeSource hes
      exact h.issued _ (.inr (.inr ⟨es', hes', hk⟩))
  · obtain ⟨hji, hj⟩ := (hopen' j k).1 hj
    exact (AList.lookup_erase_ne ((honly j k hj).1 hji)).trans (h.held k j hj)
  · have hne : k ≠ key := by
      rintro rfl
      rw [DocumentsPage.close, AList.lookup_erase] at hheld
      cases hheld
    rw [DocumentsPage.close, AList.lookup_erase_ne hne] at hheld
    obtain ⟨es, hes, rfl, hes'⟩ := h.live k j hheld
    have hji : j ≠ i := by
      rintro rfl
      obtain ⟨es', hj, -, rfl⟩ := hopen
      exact hne (congrArg EventSource.key (Option.some.inj (hes.symm.trans hj)))
    refine ⟨es, ?_, rfl, hes'⟩
    rw [DocumentsPage.close, closeSource, List.getElem?_modify_ne _ _ (Ne.symm hji)]
    exact hes
  · refine (h.rows hm it hit hnot).of_sources (fun up hup _ => hup) fun j es hk hes => ?_
    refine (getElem?_closeSource hes).trans (and_iff_right_of_imp fun hj => ?_)
    exact (honly j es.key ⟨es, hj, hes, rfl⟩).2 fun heq => hnot (hk ▸ heq ▸ hkey)

/-- The open streams once the one of a key was replaced. -/
theorem getElem?_watch {j : ℕ} {es : EventSource} (hopen : es.closed = false) :
    (p.watch key docId).sources[j]? = some es ↔
      (p.sources[j]? = some es ∧ p.streams.lookup key ≠ some j) ∨
        j = p.sources.length ∧ es = { key, docId } := by
  have hconcat : ∀ (l : List EventSource), (l ++ [({ key, docId } : EventSource)])[j]? = some es ↔
      l[j]? = some es ∨ j = l.length ∧ es = { key, docId } := by grind
  rw [watch]
  cases hold : p.streams.lookup key with
  | none =>
    refine (hconcat _).trans (or_congr_left ?_)
    exact ⟨fun h => ⟨h, nofun⟩, And.left⟩
  | some i =>
    refine (hconcat _).trans (or_congr ?_ ?_)
    · refine (getElem?_closeSource hopen).trans
        ⟨fun ⟨hji, hes⟩ => ⟨hes, ?_⟩, fun ⟨hes, hne⟩ => ⟨?_, hes⟩⟩
      · exact fun h => hji (Option.some.inj h).symm
      · exact fun h => hne (congrArg some h.symm)
    · rw [Option.map_some, Option.getD_some, closeSource, List.length_modify]

/-- Only the stream it opens is of its key. -/
theorem open_watch {j : ℕ} {k : JsString} (h : p.Inv busy) :
    (p.watch key docId).Open j k ↔ (p.Open j k ∧ k ≠ key) ∨ j = p.sources.length ∧ k = key := by
  constructor
  · rintro ⟨es, hes, hopen, rfl⟩
    obtain ⟨hes, hne⟩ | ⟨rfl, rfl⟩ := (getElem?_watch hopen).1 hes
    · exact .inl ⟨⟨es, hes, hopen, rfl⟩, fun hk => hne (hk ▸ h.held _ _ ⟨es, hes, hopen, rfl⟩)⟩
    · exact .inr ⟨rfl, rfl⟩
  · rintro (⟨⟨es, hes, hopen, rfl⟩, hne⟩ | ⟨rfl, rfl⟩)
    · refine ⟨es, (getElem?_watch hopen).2 (.inl ⟨hes, fun hheld => hne ?_⟩), hopen, rfl⟩
      obtain ⟨es', hes', hk, -⟩ := h.live _ _ hheld
      exact (congrArg EventSource.key (Option.some.inj (hes.symm.trans hes'))).trans hk
    · exact ⟨_, (getElem?_watch rfl).2 (.inr ⟨rfl, rfl⟩), rfl, rfl⟩

/-- Another key's stream is where it was. -/
theorem getElem?_watch_of_ne {j : ℕ} (h : p.Inv busy) {es : EventSource} (hopen : es.closed = false)
    (hne : es.key ≠ key) : (p.watch key docId).sources[j]? = some es ↔ p.sources[j]? = some es := by
  refine (getElem?_watch hopen).trans ⟨?_, fun hes => .inl ⟨hes, fun hheld => hne ?_⟩⟩
  · rintro (⟨hes, -⟩ | ⟨-, rfl⟩)
    · exact hes
    · exact absurd rfl hne
  · obtain ⟨es', hes', hk, -⟩ := h.live _ _ hheld
    exact (congrArg EventSource.key (Option.some.inj (hes.symm.trans hes'))).trans hk

theorem watch_shown (p : DocumentsPage) (key docId : JsString) :
    (p.watch key docId).shown = p.shown ∧ (p.watch key docId).mounted = p.mounted ∧
    (p.watch key docId).uploading = p.uploading ∧ (p.watch key docId).counter = p.counter ∧
      (p.watch key docId).deleting = p.deleting ∧
        (p.watch key docId).streams = p.streams.insert key p.sources.length := by
  rw [watch]
  cases p.streams.lookup key with
  | none => exact ⟨rfl, rfl, rfl, rfl, rfl, rfl⟩
  | some i =>
    refine ⟨rfl, rfl, rfl, rfl, rfl, ?_⟩
    rw [Option.map_some, Option.getD_some]
    dsimp only
    rw [closeSource, List.length_modify]

/-- A stream the map does not hold for the key stays as it was. -/
theorem getElem?_watch_kept {j : ℕ} {es : EventSource} (hes : p.sources[j]? = some es)
    (hne : p.streams.lookup key ≠ some j) : (p.watch key docId).sources[j]? = some es := by
  have hlt : j < p.sources.length := (List.getElem?_eq_some_iff.1 hes).1
  rw [watch]
  cases hold : p.streams.lookup key with
  | none => exact (List.getElem?_append_left hlt).trans hes
  | some i =>
    have hij : i ≠ j := fun h => hne (hold.trans (congrArg some h))
    refine (List.getElem?_append_left ?_).trans ((List.getElem?_modify_ne _ _ hij).trans hes)
    exact (List.length_modify _ _ _).symm ▸ hlt

theorem getElem?_watch_length :
    (p.watch key docId).sources[p.sources.length]? = some { key, docId } :=
  (getElem?_watch rfl).2 (.inr ⟨rfl, rfl⟩)

/-- The keys of the streams once another is opened. -/
theorem exists_of_mem_watch {es : EventSource} (hes : es ∈ (p.watch key docId).sources) :
    es.key = key ∨ ∃ es' ∈ p.sources, es'.key = es.key := by
  rw [watch] at hes
  obtain hes | hes := List.mem_append.1 hes
  · right
    cases hold : p.streams.lookup key with
    | none => exact ⟨es, by rwa [hold] at hes, rfl⟩
    | some i =>
      rw [hold] at hes
      exact exists_of_mem_closeSource hes
  · exact .inl (List.mem_singleton.1 hes ▸ rfl)

/-- **A stream is opened**, and the map holds it in the place of another. -/
theorem Inv.watch (h : p.Inv busy) (hkey : busy key) (hissued : Issued p.counter key) :
    (p.watch key docId).Inv busy := by
  obtain ⟨hshown, hmounted, huploading, hcounter, hdeleting, hstreams⟩ :=
    watch_shown p key docId
  refine ⟨?_, hshown ▸ h.nodup, fun k j hj => ?_, fun k j hheld => ?_, fun hm it hit hnot => ?_,
    hshown ▸ hdeleting ▸ hmounted ▸ h.deleting⟩
  · rw [hcounter]
    rintro k (⟨it, hit, hk⟩ | ⟨up, hup, hk⟩ | ⟨es, hes, rfl⟩)
    · exact h.issued k (.inl ⟨it, hshown ▸ hit, hk⟩)
    · exact h.issued k (.inr (.inl ⟨up, huploading ▸ hup, hk⟩))
    · obtain hk | ⟨es', hes', hk⟩ := exists_of_mem_watch hes
      · exact hk ▸ hissued
      · exact h.issued _ (.inr (.inr ⟨es', hes', hk⟩))
  · obtain ⟨hj, hne⟩ | ⟨rfl, rfl⟩ := (open_watch h).1 hj
    · rw [hstreams, AList.lookup_insert_ne hne]
      exact h.held k j hj
    · rw [hstreams, AList.lookup_insert]
  · rw [hmounted]
    rw [hstreams] at hheld
    by_cases hk : k = key
    · subst hk
      rw [AList.lookup_insert] at hheld
      obtain rfl := Option.some.inj hheld
      exact ⟨_, getElem?_watch_length, rfl, fun _ => rfl⟩
    · rw [AList.lookup_insert_ne hk] at hheld
      obtain ⟨es, hes, rfl, hopen⟩ := h.live k j hheld
      refine ⟨es, getElem?_watch_kept hes fun hold => hk ?_, rfl, hopen⟩
      obtain ⟨es', hes', hk', -⟩ := h.live _ _ hold
      exact (congrArg EventSource.key (Option.some.inj (hes.symm.trans hes'))).trans hk'
  · refine (h.rows (hmounted ▸ hm) it (hshown ▸ hit) hnot).of_sources
      (fun up hup _ => huploading.symm ▸ hup) fun j es hk hopen => ?_
    exact getElem?_watch_of_ne h hopen fun heq => hnot (hk ▸ heq ▸ hkey)

/-- A row is content with the stream of its document. -/
theorem content_watch {it : UploadItem} (h : p.Inv busy) (hit : it.docId = some docId)
    (hkey : it.key = key) : (p.watch key docId).Content it := by
  refine ⟨.inr (.inr ⟨_, _, getElem?_watch_length, rfl, hkey.symm⟩), fun es hes hopen hk => ?_⟩
  obtain ⟨j, hj⟩ := List.mem_iff_getElem?.1 hes
  obtain ⟨hes, hne⟩ | ⟨-, rfl⟩ := (getElem?_watch hopen).1 hj
  · exact absurd (h.held _ _ ⟨es, hes, hopen, hk.trans hkey⟩) hne
  · exact hit

/-! ### Requests are sent and answered -/

theorem Inv.fetchDocuments (h : p.Inv busy) : p.fetchDocuments.Inv busy := by
  unfold DocumentsPage.fetchDocuments
  split
  · exact h
  · exact { h with }

theorem Inv.send {item : UploadItem} (h : p.Inv busy) (hissued : Issued p.counter item.key) :
    Inv busy { p with uploading := p.uploading ++ [item] } := by
  refine ⟨?_, h.nodup, h.held, h.live, fun hm it hit hnot => ?_, h.deleting⟩
  · rintro k (hitem | ⟨up, hup, rfl⟩ | hes)
    · exact h.issued k (.inl hitem)
    · obtain hup | hup := List.mem_append.1 hup
      · exact h.issued _ (.inr (.inl ⟨up, hup, rfl⟩))
      · exact List.mem_singleton.1 hup ▸ hissued
    · exact h.issued k (.inr (.inr hes))
  · exact (h.rows hm it hit hnot).of_sources (fun up hup _ => List.mem_append_left _ hup)
      fun j es _ _ => Iff.rfl

/-- The rows once one was patched. -/
theorem mem_patch {next : UploadItem → UploadItem} {it : UploadItem}
    (hit : it ∈ (p.patch key next).shown.items) (hm : p.mounted = true) (hkey : it.key = key) :
    ∃ it' ∈ p.shown.items, it'.key = key ∧ it = next it' := by
  rw [DocumentsPage.patch, DocumentsPage.setItems, setState_eq, if_pos hm] at hit
  obtain ⟨it', hit', rfl⟩ := List.mem_map.1 hit
  split at hkey
  case isTrue heq => exact ⟨it', hit', heq, if_pos heq⟩
  case isFalse hne => exact absurd hkey hne

/-- An upload is sent, and its row waits for it. -/
theorem Inv.upload {item : UploadItem} {busy' : JsString → Prop} (h : p.Inv busy)
    (hbusy : ∀ k, busy k ↔ busy' k ∨ k = item.key)
    (hassistant : p.shown.assistantId.isNone = false) (hissued : Issued p.counter item.key)
    (hown : p.mounted = true → ∀ it ∈ p.shown.items, it.key = item.key →
      ∀ es ∈ p.sources, es.closed = false → es.key = it.key → it.docId = some es.docId) :
    (p.upload item).Inv busy' := by
  have hpatch := h.patch item.key (fun it => { it with status := js "uploading", error := none })
    (fun _ => rfl) ((hbusy _).2 (.inr rfl))
  rw [DocumentsPage.upload, hassistant, if_neg Bool.false_ne_true, ← uploading_patch]
  refine (hpatch.send (by rwa [counter_patch])).settle (fun k => (hbusy k).1)
    fun hm it hit hkey => ?_
  have hm' : p.mounted = true := mounted_patch ▸ hm
  obtain ⟨it', hit', hkey', rfl⟩ := mem_patch hit hm' hkey
  refine ⟨.inr (.inl ⟨item, List.mem_append_right _ (List.mem_singleton_self _), hkey.symm⟩), ?_⟩
  intro es hes hopen hk
  exact hown hm' it' hit' hkey' es (sources_patch ▸ hes) hopen hk

/-- A patched row waits for nothing any more. -/
theorem Inv.rest {next : UploadItem → UploadItem} (h : p.Inv (· = key))
    (hnext : ∀ it, (next it).key = it.key ∧ (next it).docId = it.docId ∧ (next it).atRest = true)
    (hown : p.mounted = true → ∀ it ∈ p.shown.items, it.key = key →
      ∀ es ∈ p.sources, es.closed = false → es.key = it.key → it.docId = some es.docId) :
    (p.patch key next).Inv fun _ => False := by
  refine (h.patch key next (fun it => (hnext it).1) rfl).settle (fun k => .inr)
    fun hm it hit hkey => ?_
  have hm' : p.mounted = true := mounted_patch ▸ hm
  obtain ⟨it', hit', hkey', rfl⟩ := mem_patch hit hm' hkey
  refine ⟨.inl (hnext it').2.2, fun es hes hopen hk => ?_⟩
  exact (hnext it').2.1.trans
    (hown hm' it' hit' hkey' es (sources_patch ▸ hes) hopen (hk.trans (hnext it').1))

/-- An upload is answered, and its row is seen to. -/
theorem Inv.answer {item : UploadItem} {n : ℕ} (h : p.Inv busy)
    (hitem : p.uploading[n]? = some item)
    (hkey : busy item.key) : Inv busy { p with uploading := p.uploading.eraseIdx n } := by
  refine ⟨?_, h.nodup, h.held, h.live, fun hm it hit hnot => ?_, h.deleting⟩
  · rintro k (hrow | ⟨up, hup, rfl⟩ | hes)
    · exact h.issued k (.inl hrow)
    · exact h.issued _ (.inr (.inl ⟨up, List.mem_of_mem_eraseIdx hup, rfl⟩))
    · exact h.issued k (.inr (.inr hes))
  · refine (h.rows hm it hit hnot).of_sources (fun up hup hk => ?_) fun j es _ _ => Iff.rfl
    obtain ⟨m, hup⟩ := List.mem_iff_getElem?.1 hup
    refine List.mem_eraseIdx_iff_getElem?.2 ⟨m, ?_, hup⟩
    rintro rfl
    obtain rfl := Option.some.inj (hup.symm.trans hitem)
    exact hnot (hk ▸ hkey)

theorem Inv.uploaded {item : UploadItem} (h : p.Inv (· = item.key))
    (hissued : Issued p.counter item.key)
    (hown : p.mounted = true → ∀ it ∈ p.shown.items, it.key = item.key →
      ∀ es ∈ p.sources, es.closed = false → es.key = it.key → it.docId = some es.docId)
    (answer : UploadAnswer) : (p.uploaded item answer).Inv fun _ => False := by
  rcases answer with ⟨ok, status, documentId, error⟩ | -
  · rw [DocumentsPage.uploaded]
    split
    · have hpatch := h.patch item.key
        (fun it => { it with status := js "UPLOADED", docId := some (documentId.getD []) })
        (fun _ => rfl) rfl
      refine (hpatch.watch rfl (by rwa [counter_patch])).settle (fun k => .inr)
        fun hm it hit hkey => ?_
      rw [(watch_shown _ _ _).2.1, mounted_patch] at hm
      rw [(watch_shown _ _ _).1] at hit
      obtain ⟨it', hit', hkey', rfl⟩ := mem_patch hit hm hkey
      exact content_watch hpatch rfl hkey
    · exact h.rest (fun it => ⟨rfl, rfl, rfl⟩) hown
  · exact h.rest (fun it => ⟨rfl, rfl, rfl⟩) hown

/-! ### A stream is heard -/

/-- A row is told about its own document, whatever is going on. -/
theorem Inv.own (h : p.Inv fun _ => False) (hm : p.mounted = true) :
    ∀ it ∈ p.shown.items, ∀ es ∈ p.sources, es.closed = false → es.key = it.key →
      it.docId = some es.docId := fun it hit => (h.rows hm it hit id).2

/-- Closed, the key has no stream. -/
theorem not_open_close (h : p.Inv busy) (hopen : p.Open i key) (j : ℕ) :
    ¬(p.close i key).Open j key := by
  intro hj
  obtain ⟨hji, hj⟩ := open_closeSource.1 hj
  exact hji (Option.some.inj ((h.held _ _ hj).symm.trans (h.held _ _ hopen)))

/-- The row of a key whose stream closed. -/
theorem closed_patch {next : UploadItem → UploadItem} (h : p.Inv (· = key)) (hm : p.mounted = true)
    (hopen : p.Open i key) (hnext : ∀ it, (next it).key = it.key ∧ (next it).atRest = true) :
    (∀ j, ¬((p.patch key next).close i key).Open j key) ∧
      ∀ it ∈ ((p.patch key next).close i key).shown.items, it.key = key → it.atRest = true := by
  have hpatch := h.patch key next (fun it => (hnext it).1) rfl
  refine ⟨not_open_close hpatch ?_, fun it hit hkey => ?_⟩
  · rw [Open, sources_patch]
    exact hopen
  · obtain ⟨it', -, -, rfl⟩ := mem_patch hit hm hkey
    exact (hnext it').2

theorem Inv.restClosed {next : UploadItem → UploadItem} (h : p.Inv (· = key)) (hopen : p.Open i key)
    (hnext : ∀ it, (next it).key = it.key ∧ (next it).atRest = true) :
    ((p.patch key next).close i key).Inv fun _ => False := by
  have hopen' : (p.patch key next).Open i key := by
    rw [Open, sources_patch]
    exact hopen
  refine ((h.patch key next (fun it => (hnext it).1) rfl).close hopen' rfl).settle (fun k => .inr)
    fun hm it hit hkey => ?_
  obtain ⟨hnone, hrest⟩ := closed_patch h (mounted_patch (p := p) ▸ hm) hopen hnext
  refine ⟨.inl (hrest it hit hkey), fun es hes hes' hk => ?_⟩
  obtain ⟨j, hj⟩ := List.mem_iff_getElem?.1 hes
  exact absurd ⟨es, hj, hes', hk.trans hkey⟩ (hnone j)

/-- What the error listener makes of a row. -/
theorem atRest_ite_terminal (it : UploadItem) (error : Option JsString) :
    (if isTerminalStatus it.status then it else { it with status := js "error", error }).key =
      it.key ∧
      (if isTerminalStatus it.status then it
        else { it with status := js "error", error }).atRest = true := by
  split
  case isTrue hterminal => exact ⟨rfl, UploadItem.atRest_of_terminal hterminal⟩
  case isFalse => exact ⟨rfl, rfl⟩

theorem Inv.hear (h : p.Inv fun _ => False) (hopen : p.Open i key) (event : SourceEvent) :
    (p.hear i key event).Inv fun _ => False := by
  have hbusy : p.Inv (· = key) := h.begin key
  rcases event with (_ | ⟨status, error⟩) | - | - | data
  · exact h
  · have hpatch := hbusy.patch key (fun it => { it with
      status
      error := if status = js "FAILED" then some (error.getD (js "Ingestion failed.")) else none })
      (fun _ => rfl) rfl
    refine hpatch.settle (fun k => .inr) fun hm it hit hkey => ?_
    have hm' : p.mounted = true := mounted_patch ▸ hm
    obtain ⟨it', hit', hkey', rfl⟩ := mem_patch hit hm' hkey
    refine ⟨.inr (.inr ⟨i, ?_⟩), fun es hes hes' hk => ?_⟩
    · rw [Open, sources_patch]
      exact hkey' ▸ hopen
    · exact h.own hm' it' hit' es (sources_patch ▸ hes) hes' hk
  · have hclose := (hbusy.close hopen rfl).setItems (·.filter (·.key ≠ key))
      (List.filter_sublist.map _) fun it hit => .inl (List.mem_filter.1 hit).1
    refine (hclose.settle (fun k => .inr) fun hm it hit hkey => ?_).fetchDocuments
    rw [DocumentsPage.setItems, setState_eq, if_pos (mounted_setItems ▸ hm)] at hit
    exact absurd hkey (of_decide_eq_true (List.mem_filter.1 hit).2)
  · exact hbusy.restClosed hopen fun it => ⟨rfl, rfl⟩
  · exact hbusy.restClosed hopen fun it => atRest_ite_terminal it _

/-! ### Files are added -/

theorem newItems_issued (counter : ℕ) {files : List (File × ℕ)} :
    ∀ it ∈ newItems counter files, ∃ now n, it.key = nextKey now n ∧ counter ≤ n ∧
      n < counter + files.length := by
  intro it hit
  obtain ⟨⟨⟨file, now⟩, n⟩, hn, rfl⟩ := List.mem_map.1 hit
  obtain ⟨hle, hlt, -⟩ := List.mem_zipIdx hn
  exact ⟨now, n, rfl, hle, hlt⟩

theorem newItems_nodup (counter : ℕ) {files : List (File × ℕ)} :
    ((newItems counter files).map (·.key)).Nodup := by
  induction files generalizing counter with
  | nil => exact List.nodup_nil
  | cons f files ih =>
    refine List.nodup_cons.2 ⟨fun hmem => ?_, ih (counter + 1)⟩
    obtain ⟨it, hit, hkey⟩ := List.mem_map.1 hmem
    obtain ⟨now, n, hn, hle, -⟩ := newItems_issued (counter + 1) it hit
    have hsame := nextKey_inj (hn.symm.trans hkey)
    omega

/-- New rows are put before the others. -/
theorem Inv.prepend {rows : List UploadItem} {counter : ℕ} (h : p.Inv fun _ => False)
    (hm : p.mounted = true) (hle : p.counter ≤ counter)
    (hissued : ∀ it ∈ rows, Issued counter it.key)
    (hfresh : ∀ it ∈ rows, ¬Issued p.counter it.key) (hnodup : (rows.map (·.key)).Nodup) :
    ({ p with counter }.setItems (rows ++ ·)).Inv (· ∈ rows.map UploadItem.key) := by
  rw [DocumentsPage.setItems, setState_eq, if_pos hm]
  refine ⟨?_, ?_, h.held, h.live, fun hm it hit hnot => ?_, h.deleting⟩
  · rintro k (⟨it, hit, rfl⟩ | hrest)
    · obtain hit | hit := List.mem_append.1 hit
      · exact hissued it hit
      · exact (h.issued _ (.inl ⟨it, hit, rfl⟩)).mono hle
    · exact (h.issued k (.inr hrest)).mono hle
  · dsimp only
    rw [List.map_append]
    refine hnodup.append h.nodup fun k hrow hitem => ?_
    obtain ⟨it, hit, rfl⟩ := List.mem_map.1 hrow
    obtain ⟨it', hit', hkey⟩ := List.mem_map.1 hitem
    exact hfresh it hit (h.issued _ (.inl ⟨it', hit', hkey⟩))
  · have hold : it ∈ p.shown.items :=
      (List.mem_append.1 hit).resolve_left fun hrow => hnot (List.mem_map_of_mem hrow)
    exact h.rows hm it hold id

theorem upload_eq (p : DocumentsPage) (item : UploadItem) : (p.upload item).sources = p.sources ∧
    (p.upload item).counter = p.counter ∧
      (p.upload item).shown.assistantId = p.shown.assistantId := by
  rw [DocumentsPage.upload]
  split
  · exact ⟨rfl, rfl, rfl⟩
  · rw [DocumentsPage.patch, DocumentsPage.setItems, setState_eq]
    refine ⟨rfl, rfl, ?_⟩
    dsimp only
    split <;> rfl

/-- The new rows are uploaded, one after the other. -/
theorem Inv.uploads {rows : List UploadItem} (h : p.Inv (· ∈ rows.map UploadItem.key))
    (hassistant : p.shown.assistantId.isNone = false)
    (hissued : ∀ it ∈ rows, Issued p.counter it.key)
    (hfresh : ∀ it ∈ rows, ∀ es ∈ p.sources, es.key ≠ it.key) :
    (rows.foldl DocumentsPage.upload p).Inv fun _ => False := by
  induction rows generalizing p with
  | nil => exact { h with rows := fun hm it hit _ => h.rows hm it hit List.not_mem_nil }
  | cons item rows ih =>
    obtain ⟨hsources, hcounter, hassistant'⟩ := upload_eq p item
    refine ih (p := p.upload item) ?_ (hassistant' ▸ hassistant) ?_ ?_
    · refine h.upload (fun k => ?_) hassistant (hissued item List.mem_cons_self) ?_
      · rw [List.map_cons, List.mem_cons, or_comm]
      · exact fun _ it _ hkey es hes _ hk => absurd (hk.trans hkey)
          (hfresh item List.mem_cons_self es hes)
    · rw [hcounter]
      exact fun it hit => hissued it (List.mem_cons_of_mem _ hit)
    · rw [hsources]
      exact fun it hit => hfresh it (List.mem_cons_of_mem _ hit)

theorem Inv.addFiles (h : p.Inv fun _ => False) (hm : p.mounted = true) (files : List (File × ℕ)) :
    (p.addFiles files).Inv fun _ => False := by
  rw [DocumentsPage.addFiles]
  split
  · exact h
  rename_i hassistant
  have hissued : ∀ it ∈ newItems p.counter files, Issued (p.counter + files.length) it.key := by
    intro it hit
    obtain ⟨now, n, hkey, -, hlt⟩ := newItems_issued p.counter it hit
    exact ⟨now, n, hkey, hlt⟩
  have hfresh : ∀ it ∈ newItems p.counter files, ¬Issued p.counter it.key := by
    rintro it hit ⟨now, n, hkey, hlt⟩
    obtain ⟨now', n', hkey', hle, -⟩ := newItems_issued p.counter it hit
    have hsame := nextKey_inj (hkey.symm.trans hkey')
    omega
  have hprepend := h.prepend hm (Nat.le_add_right _ _) hissued hfresh (newItems_nodup _)
  refine hprepend.uploads ?_ ?_ ?_
  all_goals rw [DocumentsPage.setItems, setState_eq, if_pos hm]
  · exact Bool.eq_false_of_not_eq_true hassistant
  · exact hissued
  · exact fun it hit es hes hk => hfresh it hit (h.issued _ (.inr (.inr ⟨es, hes, hk⟩)))

/-! ### The other callbacks -/

theorem Inv.assistantLoaded (h : p.Inv fun _ => False) (answer : Option (Option JsString)) :
    (p.assistantLoaded answer).Inv fun _ => False := by
  rcases answer with _ | _ | _ | ⟨c, id⟩
  all_goals dsimp only [DocumentsPage.assistantLoaded]
  · exact h.setState _ rfl h.deleting
  · exact h.setState _ rfl h.deleting
  · exact h.setState _ rfl h.deleting
  · split
    · exact (h.setState _ rfl h.deleting).fetchDocuments
    · exact h

theorem Inv.fetched (h : p.Inv fun _ => False) (answer : Option (List DocumentView)) :
    (p.fetched answer).Inv fun _ => False := by
  rcases answer with _ | documents
  all_goals rw [DocumentsPage.fetched]
  · exact h.setState _ rfl h.deleting
  · exact h.setState _ rfl h.deleting

/-- A retry needs its row there. -/
theorem Inv.retry {it : UploadItem} (h : p.Inv fun _ => False) (hit : it ∈ p.shown.items) :
    (p.upload it).Inv fun _ => False := by
  by_cases hassistant : p.shown.assistantId.isNone = true
  · rwa [DocumentsPage.upload, if_pos hassistant]
  · refine (h.begin it.key).upload
      (fun k => ⟨.inr, fun hk => hk.resolve_left id⟩) (Bool.eq_false_of_not_eq_true hassistant)
      (h.issued _ (.inl ⟨it, hit, rfl⟩)) fun hm it hit _ => h.own hm it hit

/-- A deletion is sent. -/
theorem Inv.delete (h : p.Inv fun _ => False) (id : JsString) :
    Inv (fun _ => False) { p.setState (fun s => { s with deletingId := some id }) with
      deleting := p.deleting ++ [id] } := by
  rw [setState_eq]
  by_cases hm : p.mounted = true
  · rw [if_pos hm]
    refine { h with deleting := fun _ id' hid => ?_ }
    exact Option.some.inj hid ▸ List.mem_append_right _ (List.mem_singleton_self _)
  · rw [if_neg hm]
    exact { h with deleting := fun hm' => absurd hm' hm }

/-- The answer to a deletion enables its button again, and every other. -/
theorem Inv.deleted {id : JsString} (h : p.Inv fun _ => False) (n : ℕ)
    (answer : Option (Bool × ℕ)) :
    ({ p with deleting := p.deleting.eraseIdx n }.deleted id answer).Inv fun _ => False := by
  rw [DocumentsPage.deleted, setState_eq]
  by_cases hm : p.mounted = true
  · rw [if_pos hm]
    split
    · exact { h with deleting := fun _ => nofun }
    · exact { h with deleting := fun _ => nofun }
  · rw [if_neg hm]
    exact { h with deleting := fun hm' => absurd hm' hm }

/-- **Unmounting closes every stream.** -/
theorem closed_of_unmount {q : DocumentsPage} (h : p.Inv busy) (hq : p.step .unmount = some q) :
    ∀ es ∈ q.sources, es.closed = true := by
  rw [step] at hq
  split at hq
  case isFalse => cases hq
  obtain rfl := Option.some.inj hq
  intro es hes
  obtain ⟨i, hi, rfl⟩ := List.mem_mapIdx.1 hes
  split
  case isTrue => rfl
  case isFalse hnot =>
    by_contra hopen
    refine hnot (List.mem_map.2 ⟨⟨_, i⟩,
      AList.mem_lookup_iff.1 (h.held (p.sources[i]).key i ?_), rfl⟩)
    exact ⟨_, List.getElem?_eq_getElem hi, Bool.eq_false_of_not_eq_true hopen, rfl⟩

theorem Inv.unmount {q : DocumentsPage} (h : p.Inv fun _ => False) (hq : p.step .unmount = some q) :
    q.Inv fun _ => False := by
  have hclosed := closed_of_unmount h hq
  rw [DocumentsPage.step] at hq
  split at hq
  case isFalse => cases hq
  obtain rfl := Option.some.inj hq
  refine ⟨?_, h.nodup, ?_, fun k i hheld => ?_, nofun, nofun⟩
  · rintro k (hitem | hup | ⟨es, hes, rfl⟩)
    · exact h.issued k (.inl hitem)
    · exact h.issued k (.inr (.inl hup))
    · obtain ⟨i, hi, rfl⟩ := List.mem_mapIdx.1 hes
      refine h.issued _ (.inr (.inr ⟨p.sources[i], List.getElem_mem hi, ?_⟩))
      split <;> rfl
  · rintro k i ⟨es, hes, hopen, -⟩
    rw [hclosed es (List.mem_of_getElem? hes)] at hopen
    cases hopen
  · obtain ⟨es, hes, rfl, -⟩ := h.live k i hheld
    dsimp only
    rw [List.getElem?_mapIdx, hes]
    refine ⟨_, rfl, ?_, nofun⟩
    split <;> rfl

/-! ### Every move -/

theorem Inv.step {q : DocumentsPage} {move : PageMove} (h : p.Inv fun _ => False)
    (hq : p.step move = some q) : q.Inv fun _ => False := by
  rcases move with answer | files | key | ⟨n, answer⟩ | ⟨i, event⟩ | - | answer | id |
    ⟨n, answer⟩ | -
  case unmount => exact h.unmount hq
  all_goals rw [DocumentsPage.step] at hq
  case uploaded =>
    obtain ⟨item, hitem, rfl⟩ := Option.map_eq_some_iff.1 hq
    have hissued := h.issued _ (.inr (.inl ⟨item, List.mem_of_getElem? hitem, rfl⟩))
    have hanswer := (h.begin item.key).answer hitem rfl
    exact hanswer.uploaded hissued (fun hm it hit _ => h.own hm it hit) answer
  case deleted =>
    obtain ⟨id, -, rfl⟩ := Option.map_eq_some_iff.1 hq
    exact h.deleted n answer
  case retry =>
    split at hq
    case h_2 => cases hq
    case h_1 it hfind =>
      obtain ⟨-, hq⟩ := Option.ite_none_right_eq_some.1 hq
      exact Option.some.inj hq ▸ h.retry (List.mem_of_find?_eq_some hfind)
  case heard =>
    split at hq
    case h_2 => cases hq
    case h_1 es hes =>
      obtain ⟨hopen, hq⟩ := Option.ite_none_left_eq_some.1 hq
      exact Option.some.inj hq ▸ h.hear ⟨es, hes, Bool.eq_false_of_not_eq_true hopen, rfl⟩ event
  case fetched =>
    obtain ⟨-, hq⟩ := Option.ite_none_left_eq_some.1 hq
    have hanswered : Inv (fun _ => False) { p with fetching := p.fetching - 1 } := { h with }
    exact Option.some.inj hq ▸ hanswered.fetched answer
  all_goals
    obtain ⟨hm, hq⟩ := Option.ite_none_right_eq_some.1 hq
    obtain rfl := Option.some.inj hq
  case assistantLoaded =>
    have hloaded : Inv (fun _ => False) { p with loading := false } := { h with }
    exact hloaded.assistantLoaded answer
  case addFiles => exact h.addFiles hm files
  case refresh => exact h.fetchDocuments
  case delete => exact h.delete id

/-! ## Every run -/

/-- **Every state a page reaches keeps the invariant.** -/
theorem inv_of_reachable (h : Run.Reachable step Run.anyMove Initial p) : p.Inv fun _ => False :=
  h.invariant (fun _ => Inv.initial) fun _ _ _ hp _ hq => hp.step hq

theorem Inv.attended (h : p.Inv fun _ => False) (hm : p.mounted = true) : p.Attended where
  nodup := h.nodup
  registered k i := by
    refine ⟨fun hheld => ?_, h.held k i⟩
    obtain ⟨es, hes, hkey, hopen⟩ := h.live k i hheld
    exact ⟨es, hes, hopen hm, hkey⟩
  tended it hit := (h.rows hm it hit id).1
  own := h.own hm
  deleting := h.deleting hm

/-- **A closing frame of the server closes the stream**, and leaves no row of it waiting. -/
theorem Inv.closing {frame : StatusFrame} {event : SourceEvent} (h : p.Inv fun _ => False)
    (hm : p.mounted = true) (hopen : p.Open i key) (hclosing : frame.closing = true)
    (hevent : frameEvent frame = some event) : (∀ j, ¬(p.hear i key event).Open j key) ∧
      ∀ it ∈ (p.hear i key event).shown.items, it.key = key → it.atRest = true := by
  have hbusy : p.Inv (· = key) := h.begin key
  rcases frame with _ | - | error | - | -
  case done =>
    obtain rfl := Option.some.inj hevent
    have hfetch : ∀ q : DocumentsPage, q.fetchDocuments.sources = q.sources ∧
        q.fetchDocuments.shown = q.shown := fun q => by
      unfold DocumentsPage.fetchDocuments
      split <;> exact ⟨rfl, rfl⟩
    refine ⟨fun j hj => not_open_close h hopen j ?_, fun it hit hkey => ?_⟩
    · rwa [DocumentsPage.hear, Open, (hfetch _).1, DocumentsPage.setItems, setState_eq] at hj
    · have hm' : (p.close i key).mounted = true := hm
      rw [DocumentsPage.hear, (hfetch _).2, DocumentsPage.setItems, setState_eq, if_pos hm'] at hit
      exact absurd hkey (of_decide_eq_true (List.mem_filter.1 hit).2)
  case error =>
    obtain rfl := Option.some.inj hevent
    exact closed_patch hbusy hm hopen fun it => atRest_ite_terminal it _
  case timeout =>
    obtain rfl := Option.some.inj hevent
    exact closed_patch hbusy hm hopen fun it => ⟨rfl, rfl⟩
  all_goals cases hclosing

/-- **The documents page**: in every state it is rendered in, its rows are attended to; unmounting
it closes every stream; and once it hears the frame that ends a stream of the API, nothing waits for
that stream. -/
theorem documents_page_attended (h : Run.Reachable step Run.anyMove Initial p)
    (hm : p.mounted = true) : p.Attended ∧
      (∀ q, p.step .unmount = some q → ∀ es ∈ q.sources, es.closed = true) ∧
      ∀ i es frame event q, p.sources[i]? = some es → frame.closing = true →
        frameEvent frame = some event → p.step (.heard i event) = some q →
          (∀ j, ¬q.Open j es.key) ∧
            ∀ it ∈ q.shown.items, it.key = es.key → it.atRest = true := by
  have hinv := inv_of_reachable h
  refine ⟨hinv.attended hm, fun q hq => closed_of_unmount hinv hq, ?_⟩
  intro i es frame event q hes hclosing hevent hq
  rw [step] at hq
  split at hq
  case h_2 => cases hq
  case h_1 es' hes' =>
    obtain rfl := Option.some.inj (hes.symm.trans hes')
    obtain ⟨hopen, hq⟩ := Option.ite_none_left_eq_some.1 hq
    exact Option.some.inj hq ▸
      hinv.closing hm ⟨es, hes, Bool.eq_false_of_not_eq_true hopen, rfl⟩ hclosing hevent

/-- Two files: one document is ready; the other fails and is sent again while its stream still
runs. -/
def samplePageMoves : List PageMove :=
  [.assistantLoaded (some (some (js "a"))),
    .addFiles [(⟨js "faq.txt", []⟩, 7), (⟨js "logo.md", []⟩, 7)],
    .uploaded 1 (.response true 201 (some (js "d2")) none),
    .uploaded 0 (.response true 201 (some (js "d1")) none),
    .heard 0 (.status (some (js "FAILED", none))), .retry (js "u7-1"), .heard 1 .done,
    .uploaded 0 (.response true 201 (some (js "d3")) none), .heard 2 (.error false)]

theorem documents_page_attended_retried : ∃ p, Run.Reachable step Run.anyMove Initial p ∧
    p.shown.items.map (·.docId) = [some (js "d3")] ∧ p.Attended := by
  have hstart : Run.Reachable step Run.anyMove Initial { counter := 0 } := .start ⟨0, rfl⟩
  obtain ⟨p, hreach, hp⟩ := hstart.replay (fun _ _ => true) (fun _ _ _ => trivial) samplePageMoves
    (fun p => p.mounted && p.shown.items.map (·.docId) == [some (js "d3")]) (by decide)
  obtain ⟨hm, hitems⟩ := Bool.and_eq_true_iff.1 hp
  exact ⟨p, hreach, beq_iff_eq.1 hitems, (documents_page_attended hreach hm).1⟩

end

end DocumentsPage

end Admin

import SupportAgent.Machinery.Async
import SupportAgent.Machinery.Table
import SupportAgent.Store.Schema

/-!
# Store/Backend — the calls the services await, and what each does to the shared state

One `Call` per store method, storage operation, queue operation or provider request; each store call
is one transaction under its tenant's row-level security.  `World.exec` is the call going through,
`World.handle` adds what may go wrong with any of them: rejected with nothing done, or done and the
answer lost.
-/

open Ingestion

/-- Storage location and format, for the parse stage. -/
structure DocumentRef where
  storageKey : ObjectKey
  sourceType : SourceType

/-- A chunk still to be embedded. -/
structure PendingChunk where
  id : Uuid
  content : JsString
  deriving DecidableEq

/-- What `saveChunks` reports. -/
structure SavedChunks where
  inserted : ℕ
  total : ℕ

/-- The columns an upload gives for a new document. -/
structure NewDocument where
  id : Uuid
  tenantId : Uuid
  assistantId : Uuid
  title : JsString
  sourceType : SourceType
  storageKey : ObjectKey
  status : DocumentStatus

/-- A retrieved chunk.  `scored` is the stored vector `score` was computed from; the query does not
return it. -/
structure ChunkHit where
  id : Uuid
  content : JsString
  documentId : Uuid
  title : JsString
  page : Option ℕ
  sectionText : Option JsString
  charStart : Option ℕ
  charEnd : Option ℕ
  score : JsNumber
  scored : Embedding
  deriving DecidableEq

/-- Everything a task may await.  A scan carries the model its query was embedded with and the model
the check before it found recorded (`checked`); the statement itself uses neither. -/
inductive Call
  | getStatus (documentId tenantId : Uuid)
  | setStatus (documentId tenantId : Uuid) (status : DocumentStatus)
  | markFailed (documentId tenantId : Uuid) (error : JsString)
  | getRef (documentId tenantId : Uuid)
  | setParseResult (documentId tenantId : Uuid) (pageCount : ℕ) (warnings : List JsString)
  | saveChunks (documentId tenantId assistantId : Uuid) (chunks : List ChunkDraft)
  | ensureEmbeddingModel (tenantId assistantId : Uuid) (model : JsString)
  | getUnembeddedChunks (documentId tenantId : Uuid)
  | setChunkEmbeddings (tenantId documentId : Uuid) (updates : List (Uuid × Embedding))
  | reconcileStuckDocuments (ageSeconds : ℕ)
  | findAssistant (tenantId assistantId : Uuid)
  | createDocument (data : NewDocument)
  | deleteDocument (tenantId documentId : Uuid)
  | scanChunks (tenantId assistantId : Uuid) (query : Embedding) (k : ℕ) (checked : Option JsString)
  | storagePut (key : ObjectKey) (body : Bytes)
  | storageGet (key : ObjectKey)
  | storageDelete (key : ObjectKey)
  | enqueue (job : IngestJobData)
  | embed (model : JsString) (texts : List JsString)

/-- What a call resolves to. -/
abbrev Call.Res : Call → Type
  | getStatus .. => Option DocumentStatus
  | getRef .. => Option DocumentRef
  | saveChunks .. => SavedChunks
  | getUnembeddedChunks .. => List PendingChunk
  | reconcileStuckDocuments .. => ℕ
  | findAssistant .. => Option Assistant
  | deleteDocument .. => Option ObjectKey
  | scanChunks .. => List ChunkHit
  | storageGet .. => Bytes
  | embed .. => List Embedding
  | setStatus .. | markFailed .. | setParseResult .. | ensureEmbeddingModel ..
  | setChunkEmbeddings .. | createDocument .. | storagePut .. | storageDelete
      .. | enqueue .. => Unit

/-- The calls as a signature. -/
abbrev backend : Async.Signature := ⟨Call, Call.Res⟩

/-- The body of a service function. -/
abbrev Service (α : Type) : Type := Async.Proc backend JsError α

/-! ## Statements -/

/-- The vector column's width. -/
def EMBEDDING_DIMENSIONS : ℕ := 1536

/-- The row-insert granularity of `saveChunks`. -/
def BATCH_SIZE : ℕ := 1000

/-- A row of `saveChunks`. -/
def chunkRow (P : Platform) (documentId tenantId assistantId id : Uuid) (c : ChunkDraft) :
    Chunk where
  id := id
  tenantId := tenantId
  documentId := documentId
  assistantId := assistantId
  content := c.content
  tokenCount := c.tokenCount
  page := some c.page
  sectionText := c.sectionText
  charStart := some c.charStart
  charEnd := some c.charEnd
  contentHash := P.hashChunkContent c.content
  embedding := none

/-- The statuses a sweep may fail. -/
def DocumentStatus.unfinished : DocumentStatus → Bool
  | .QUEUED | .UPLOADED | .PARSING | .EMBEDDING => true
  | .READY | .FAILED => false

/-- `ORDER BY char_start`: nulls last. -/
def charStartLe (c c' : Chunk) : Bool :=
  match c.charStart, c'.charStart with
  | some a, some b => a ≤ b
  | none, some _ => false
  | _, none => true

/-- `ORDER BY` a distance: ascending, `NaN` after every other value. -/
def JsNumber.orderLe : JsNumber → JsNumber → Bool
  | _, .nan => true
  | .nan, _ => false
  | .negInf, _ => true
  | _, .posInf => true
  | .finite a, .finite b => a ≤ b
  | _, _ => false

/-- `1 - distance`. -/
def JsNumber.oneMinus : JsNumber → JsNumber
  | .finite q => .finite (1 - q)
  | .posInf => .negInf
  | .negInf => .posInf
  | .nan => .nan

/-- A value the vector column takes. -/
def fitsVectorColumn (v : List JsNumber) : Bool :=
  v.length == EMBEDDING_DIMENSIONS && v.all JsNumber.isFinite

/-- The vector an update gives a chunk, if it names it. -/
def updateFor (updates : List (Uuid × Embedding)) (c : Chunk) : Option Embedding :=
  (updates.find? fun u => u.1 == c.id).map (·.2)

/-- The joined rows of the vector scan, with their distance to the query. -/
def World.scanRows (P : Platform) (w : World) (tenantId assistantId : Uuid)
    (query : List JsNumber) : List (JsNumber × ChunkHit) :=
  w.chunks.filterMap fun c =>
    if c.tenantId == tenantId && c.assistantId == assistantId then
      match c.embedding, w.findDocument tenantId c.documentId with
      | some e, some doc =>
        let distance := P.cosineDistance e.vector query
        some (distance, {
          id := c.id, content := c.content, documentId := c.documentId, title := doc.title
          page := c.page, sectionText := c.sectionText, charStart := c.charStart
          charEnd := c.charEnd, score := distance.oneMinus, scored := e })
      | _, _ => none
    else none

/-- The error of an update whose row is not there. -/
def recordNotFound : JsError := .new (js "An operation failed because it depends on one or more "
  ++ js "records that were required but not found.")

/-- The error of a row whose parent is not there. -/
def foreignKeyFailed : JsError := .new (js "Foreign key constraint violated")

/-- The error `ensureEmbeddingModel` throws. -/
def embeddingModelMismatch (claimed : Option JsString) (model : JsString) : JsError :=
  .new (js "ensureEmbeddingModel: corpus already embedded with \"" ++ claimed.getD (js "null") ++
    js "\", refusing to mix in \"" ++ model ++
    js "\". Re-embed the whole corpus to change models.")

def World.updateDocuments (w : World) (p : Document → Bool) (f : Document → Document) : World :=
  { w with documents := Table.updateMany p f w.documents }

/-- `SET embedding_model = model WHERE id AND embedding_model IS NULL`. -/
def World.claimModel (w : World) (tenantId assistantId : Uuid) (model : JsString) : World :=
  { w with
    assistants := Table.updateMany
      (fun a => a.visible tenantId assistantId && a.embeddingModel.isNone)
      (fun a => { a with embeddingModel := some model }) w.assistants }

/-- `saveChunks` inserts its rows batch by batch, skipping duplicates. -/
def World.insertChunks (w : World) (data : List Chunk) : List Chunk :=
  (Table.slices BATCH_SIZE data).foldl (Table.createMany Chunk.conflicts) w.chunks

/-- A chunk after an `UPDATE … SET embedding` under a tenant. -/
def Chunk.embedIn (tenantId : Uuid) (updates : List (Uuid × Embedding)) (c : Chunk) : Chunk :=
  match updateFor updates c with
  | some e => if c.tenantId = tenantId then { c with embedding := some e } else c
  | none => c

def World.embedChunks (w : World) (tenantId : Uuid) (updates : List (Uuid × Embedding)) : World :=
  { w with chunks := w.chunks.map (Chunk.embedIn tenantId updates) }

/-- The row of a new document. -/
def NewDocument.row (data : NewDocument) (now : ℕ) : Document where
  id := data.id
  tenantId := data.tenantId
  assistantId := data.assistantId
  title := data.title
  sourceType := data.sourceType
  storageKey := data.storageKey
  pageCount := none
  status := data.status
  error := none
  warnings := []
  createdAt := now
  updatedAt := now

/-- `DELETE FROM document WHERE id`; the chunks that reference the row go with it. -/
def World.deleteDocument (w : World) (tenantId id : Uuid) : World :=
  { w with
    documents := Table.deleteMany (·.visible tenantId id) w.documents
    chunks := Table.deleteMany
      (fun c => w.documents.any fun doc => doc.visible tenantId id && c.references doc) w.chunks }

/-! ## Calls -/

/-- What the outside world decides about a call: whether it fails, the time, the ids it is handed,
the vectors the provider answers with. -/
inductive Fault
  /-- rejected, nothing done -/
  | refused (e : JsError)
  /-- done, but the caller sees a rejection -/
  | lost (e : JsError)

/-- What becomes of a call under a fault. -/
def Fault.through {α σ : Type} (fault : Option Fault) (s : σ)
    (r : Option (Except JsError α × σ)) : Option (Except JsError α × σ) :=
  match fault with
  | none => r
  | some (.refused e) => some (.error e, s)
  | some (.lost e) => r.map fun rs => (.error e, rs.2)

/-- A call goes through, its answer arriving or not, or nothing happens. -/
theorem Fault.through_cases {α σ : Type} {fault : Option Fault} {s t : σ}
    {r : Option (Except JsError α × σ)} {x : Except JsError α}
    (h : Fault.through fault s r = some (x, t)) : (∃ y, r = some (y, t)) ∨ t = s := by
  unfold Fault.through at h
  split at h
  · exact .inl ⟨x, h⟩
  · exact .inr (congrArg Prod.snd (Option.some.inj h)).symm
  · obtain ⟨⟨y, t'⟩, hr, heq⟩ := Option.map_eq_some_iff.mp h
    obtain rfl : t' = t := congrArg Prod.snd heq
    exact .inl ⟨y, hr⟩

/-- A call that resolved went through. -/
theorem Fault.eq_of_through_ok {α σ : Type} {fault : Option Fault} {s t : σ}
    {r : Option (Except JsError α × σ)} {v : α} (h : Fault.through fault s r = some (.ok v, t)) :
    r = some (.ok v, t) := by
  unfold Fault.through at h
  split at h
  · exact h
  · simp at h
  · simp at h

/-- Under one fault, calls that go through alike look alike. -/
theorem Fault.through_agree {α σ : Type} {R : σ → σ → Prop} {fault : Option Fault} {s s' t t' : σ}
    {r r' : Option (Except JsError α × σ)} {x x' : Except JsError α} (hs : R s s')
    (hr : ∀ y y' u u', r = some (y, u) → r' = some (y', u') → y = y' ∧ R u u')
    (h : Fault.through fault s r = some (x, t)) (h' : Fault.through fault s' r' = some (x', t')) :
    x = x' ∧ R t t' := by
  rcases fault with _ | e | e
  · exact hr _ _ _ _ h h'
  · obtain ⟨rfl, rfl⟩ := Prod.mk.inj (Option.some.inj h)
    obtain ⟨rfl, rfl⟩ := Prod.mk.inj (Option.some.inj h')
    exact ⟨rfl, hs⟩
  · obtain ⟨⟨y, u⟩, hy, heq⟩ := Option.map_eq_some_iff.mp h
    obtain ⟨⟨y', u'⟩, hy', heq'⟩ := Option.map_eq_some_iff.mp h'
    obtain ⟨rfl, rfl⟩ := Prod.mk.inj heq
    obtain ⟨rfl, rfl⟩ := Prod.mk.inj heq'
    exact ⟨rfl, (hr _ _ _ _ hy hy').2⟩

structure Decision where
  fault : Option Fault := none
  now : ℕ := 0
  ids : List Uuid := []
  vectors : List (List JsNumber) := []

/-- The call reaches the store. -/
def Decision.Performed (d : Decision) : Prop := ∀ e, d.fault ≠ some (.refused e)

/-- **A call going through.**  What Postgres itself turns down (a NUL or half a surrogate pair in a
text, a number its column cannot hold) does not go through: it is a refused call, as any other fault
is. -/
def World.exec (P : Platform) (w : World) :
    (c : Call) → Decision → Option (Except JsError c.Res × World)
  | .getStatus id tenantId, _ => some (.ok ((w.findDocument tenantId id).map (·.status)), w)
  | .setStatus id tenantId status, d =>
    if (w.findDocument tenantId id).isSome then
      some (.ok (), w.updateDocuments (·.visible tenantId id) fun doc =>
        { doc with status, error := none, updatedAt := d.now })
    else some (.error recordNotFound, w)
  | .markFailed id tenantId error, d =>
    some (.ok (), w.updateDocuments (fun doc => doc.visible tenantId id && doc.status != .READY)
      fun doc => { doc with status := .FAILED, error := some error, updatedAt := d.now })
  | .getRef id tenantId, _ =>
    some (.ok ((w.findDocument tenantId id).map fun doc => ⟨doc.storageKey, doc.sourceType⟩), w)
  | .setParseResult id tenantId pageCount warnings, d =>
    if (w.findDocument tenantId id).isSome then
      some (.ok (), w.updateDocuments (·.visible tenantId id) fun doc =>
        { doc with pageCount := some pageCount, warnings, updatedAt := d.now })
    else some (.error recordNotFound, w)
  | .saveChunks id tenantId assistantId chunks, d =>
    -- `randomUUID()` per row
    if d.ids.length = chunks.length ∧ d.ids.Nodup ∧ ∀ i ∈ d.ids, i ∉ w.issued then
      let data := List.zipWith (chunkRow P id tenantId assistantId) d.ids chunks
      let rows := w.insertChunks data
      if (rows.drop w.chunks.length).all fun c => w.documents.any c.references then
        some (.ok ⟨rows.length - w.chunks.length, chunks.length⟩,
          { w with chunks := rows, issued := w.issued ++ d.ids })
      else some (.error foreignKeyFailed, w)
    else none
  | .ensureEmbeddingModel tenantId assistantId model, _ =>
    let claimed := w.claimModel tenantId assistantId model
    match claimed.findAssistant tenantId assistantId with
    | some a =>
      if a.embeddingModel ≠ some model then
        some (.error (embeddingModelMismatch a.embeddingModel model), w)
      else some (.ok (), claimed)
    | none => some (.ok (), claimed)
  | .getUnembeddedChunks id tenantId, _ =>
    let rows := w.chunks.filter fun c =>
      c.documentId == id && c.tenantId == tenantId && !c.embedded
    some (.ok ((rows.mergeSort charStartLe).map fun c => ⟨c.id, c.content⟩), w)
  | .setChunkEmbeddings tenantId id updates, d =>
    if updates.all fun u => fitsVectorColumn u.2.vector then
      some (.ok (), (w.embedChunks tenantId updates).updateDocuments (·.visible tenantId id)
        fun doc => { doc with updatedAt := d.now })
    else some (.error (.new (js "invalid input for type vector")), w)
  | .reconcileStuckDocuments ageSeconds, d =>
    let stuck := fun doc : Document =>
      doc.status.unfinished && decide (doc.updatedAt + ageSeconds < d.now)
    some (.ok (w.documents.countP stuck), w.updateDocuments stuck fun doc =>
      { doc with status := .FAILED, error := some (js "ingestion timed out") })
  | .findAssistant tenantId assistantId, _ => some (.ok (w.findAssistant tenantId assistantId), w)
  | .createDocument data, d =>
    -- `data.id` is a fresh `randomUUID()`
    if data.id ∈ w.issued then none
    else if w.assistants.any (·.visible data.tenantId data.assistantId) then
      some (.ok (), { w with
        documents := w.documents ++ [data.row d.now], issued := w.issued ++ [data.id] })
    else some (.error foreignKeyFailed, w)
  | .deleteDocument tenantId id, _ =>
    match w.findDocument tenantId id with
    | none => some (.ok none, w)
    | some doc => some (.ok (some doc.storageKey), w.deleteDocument tenantId id)
  | .scanChunks tenantId assistantId query k _, _ =>
    let rows := (w.scanRows P tenantId assistantId query.vector).mergeSort
      fun r r' => r.1.orderLe r'.1
    some (.ok ((rows.take k).map (·.2)), w)
  | .storagePut key body, _ =>
    -- the key of a fresh `randomUUID()`
    if key.documentId ∈ w.issued then none
    else some (.ok (), { w with objects := Function.update w.objects key (some body) })
  | .storageGet key, _ =>
    match w.objects key with
    | some body => some (.ok body, w)
    | none => some (.error (.new (js "object not found")), w)
  | .storageDelete key, _ =>
    some (.ok (), { w with objects := Function.update w.objects key none })
  | .enqueue job, _ =>
    -- `jobId = documentId`: a job already there is kept
    if w.jobs.any fun j => j.documentId == job.documentId then some (.ok (), w)
    else some (.ok (), { w with jobs := w.jobs ++ [job] })
  | .embed model _, d => some (.ok (d.vectors.map fun v => ⟨model, v⟩), w)

/-- **A call, whatever happens to it.** -/
def World.handle (P : Platform) : Async.Handler backend JsError Decision World :=
  fun w c d => Fault.through d.fault w (w.exec P c d)

import SupportAgent.Ingestion.Chunking.Chunker
import SupportAgent.Ingestion.Parsing.Parse

/-!
# Store/Schema — the rows the services share, and what surrounds them

`World` is everything the workers and the API read and write between them: the tables, the object
store and the ingest queue.  `Platform` gathers the functions computed outside of it — the
tokenizer, the content hash, the format parsers, the distance of two vectors.
-/

open Ingestion

/-- A UUID, as the number it spells. -/
abbrev Uuid : Type := ℕ

/-- The 32 hexadecimal digits of a UUID, in groups of 8, 4, 4, 4 and 12. -/
def Uuid.text (id : Uuid) : JsString :=
  (List.range 32).flatMap fun i =>
    (if i ∈ [8, 12, 16, 20] then js "-" else []) ++ utf16 (Nat.digitChar (id / 16 ^ (31 - i) % 16))

inductive DocumentStatus
  | QUEUED
  | UPLOADED
  | PARSING
  | EMBEDDING
  | READY
  | FAILED
  deriving DecidableEq, Repr

inductive AssistantStatus
  | DRAFT
  | PUBLISHED
  deriving DecidableEq, Repr

/-- The key `tenants/{tenantId}/{documentId}/original` of a stored object. -/
structure ObjectKey where
  tenantId : Uuid
  documentId : Uuid
  deriving DecidableEq

/-- A vector, with the model that computed it.  The column holds the numbers alone; `model` is
written down for what is proved about them. -/
structure Embedding where
  model : JsString
  vector : List JsNumber
  deriving DecidableEq

structure Assistant where
  id : Uuid
  tenantId : Uuid
  name : JsString
  systemPrompt : Option JsString
  model : JsString
  embeddingModel : Option JsString
  refusalThreshold : ℚ
  status : AssistantStatus
  createdAt : ℕ

structure Document where
  id : Uuid
  tenantId : Uuid
  assistantId : Uuid
  title : JsString
  sourceType : SourceType
  storageKey : ObjectKey
  pageCount : Option ℕ
  status : DocumentStatus
  error : Option JsString
  warnings : List JsString
  createdAt : ℕ
  updatedAt : ℕ

structure Chunk where
  id : Uuid
  tenantId : Uuid
  documentId : Uuid
  assistantId : Uuid
  content : JsString
  tokenCount : ℕ
  page : Option ℕ
  sectionText : Option JsString
  charStart : Option ℕ
  charEnd : Option ℕ
  contentHash : JsString
  embedding : Option Embedding

/-- The ids of an ingest job: one per document. -/
structure IngestJobData where
  documentId : Uuid
  tenantId : Uuid
  assistantId : Uuid
  deriving DecidableEq

/-- **The shared state.**  `issued` holds the ids `randomUUID` has given to rows so far; it never
gives the same one twice. -/
structure World where
  assistants : List Assistant
  documents : List Document := []
  chunks : List Chunk := []
  objects : ObjectKey → Option Bytes := fun _ => none
  jobs : List IngestJobData := []
  issued : List Uuid := []

/-- What the code computes with and does not define. -/
structure Platform where
  tokenizer : Tokenizer
  hashChunkContent : JsString → JsString
  formats : Formats
  /-- pgvector's `<=>`. -/
  cosineDistance : List JsNumber → List JsNumber → JsNumber

/-! ## Rows seen under row-level security -/

/-- The row with this id, when it is the tenant's. -/
def Document.visible (tenantId id : Uuid) (doc : Document) : Bool :=
  doc.id == id && doc.tenantId == tenantId

def World.findDocument (w : World) (tenantId id : Uuid) : Option Document :=
  w.documents.find? (·.visible tenantId id)

def Assistant.visible (tenantId id : Uuid) (a : Assistant) : Bool :=
  a.id == id && a.tenantId == tenantId

def World.findAssistant (w : World) (tenantId id : Uuid) : Option Assistant :=
  w.assistants.find? (·.visible tenantId id)

/-- The foreign key of a chunk: its document, tenant and assistant together. -/
def Chunk.references (c : Chunk) (doc : Document) : Bool :=
  c.documentId == doc.id && c.tenantId == doc.tenantId && c.assistantId == doc.assistantId

/-- A conflict on the primary key or on `(tenant_id, assistant_id, content_hash)`. -/
def Chunk.conflicts (c c' : Chunk) : Bool :=
  c.id == c'.id ||
    c.tenantId == c'.tenantId && c.assistantId == c'.assistantId && c.contentHash == c'.contentHash

def Chunk.embedded (c : Chunk) : Bool := c.embedding.isSome

@[simp] theorem Document.visible_iff {tenantId id : Uuid} {doc : Document} :
    doc.visible tenantId id = true ↔ doc.id = id ∧ doc.tenantId = tenantId := by
  simp [visible]

@[simp] theorem Assistant.visible_iff {tenantId id : Uuid} {a : Assistant} :
    a.visible tenantId id = true ↔ a.id = id ∧ a.tenantId = tenantId := by
  simp [visible]

@[simp] theorem Chunk.references_iff {c : Chunk} {doc : Document} : c.references doc = true ↔
    c.documentId = doc.id ∧ c.tenantId = doc.tenantId ∧ c.assistantId = doc.assistantId := by
  simp [references, and_assoc]

theorem Chunk.conflicts_iff {c c' : Chunk} : c.conflicts c' = true ↔ c.id = c'.id ∨
    c.tenantId = c'.tenantId ∧ c.assistantId = c'.assistantId ∧ c.contentHash = c'.contentHash := by
  simp [conflicts, and_assoc]

theorem Chunk.conflicts_symm (c c' : Chunk) (h : c.conflicts c' = true) :
    c'.conflicts c = true := by
  rw [conflicts_iff] at h ⊢
  rcases h with h | ⟨h₁, h₂, h₃⟩
  · exact .inl h.symm
  · exact .inr ⟨h₁.symm, h₂.symm, h₃.symm⟩

/-! ## What a document's bytes hold -/

/-- `chunkDocument(parseDocument(bytes))` of a document, when its object is there. -/
def World.chunksOf (P : Platform) (w : World) (doc : Document) : Except JsError (List ChunkDraft) :=
  match w.objects doc.storageKey with
  | none => throw (.new (js "object not found"))
  | some bytes => do
    let parsed ← parseDocument P.formats bytes doc.sourceType
    chunkDocument P.tokenizer DEFAULT_CHUNK_OPTIONS parsed

/-! ## Samples to run on -/

/-- The sample encoder, the content as its own hash, one block per file. -/
def samplePlatform : Platform where
  tokenizer := sampleEncoder.tokenizer
  hashChunkContent := fun content => content
  formats :=
    let parse := fun bytes : Ingestion.Bytes =>
      .ok { blocks := [{ text := bytes.map fun b => b.toUInt16, page := 1 }], pageCount := 1,
            warnings := [] }
    { contentMatchesType := fun _ _ => true
      parseTxt := parse, parseMarkdown := parse, parseDocx := parse, parsePdf := parse }
  cosineDistance := fun _ _ => .finite 0

/-- An assistant with nothing embedded yet. -/
def sampleAssistant : Assistant where
  id := 1
  tenantId := 7
  name := js "Support"
  systemPrompt := none
  model := js "claude-haiku-4-5"
  embeddingModel := none
  refusalThreshold := 0
  status := .PUBLISHED
  createdAt := 0

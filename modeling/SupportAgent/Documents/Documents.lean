import SupportAgent.Store.Backend

/-!
# Documents/Documents — storing an upload, deleting a document

The coroutines of `POST /documents` and `DELETE /documents/:id`, from the point where their input
has been checked.
-/

open Async Ingestion

def MAX_TITLE_LENGTH : ℕ := 255

/-- A checked upload: the ids it is stored under and the file. -/
structure Upload where
  tenantId : Uuid
  assistantId : Uuid
  documentId : Uuid
  originalname : JsString
  sourceType : SourceType
  body : Bytes

/-- `tenantObjectKey(tenantId, documentId)`. -/
def tenantObjectKey (tenantId documentId : Uuid) : ObjectKey := ⟨tenantId, documentId⟩

def Upload.job (u : Upload) : IngestJobData := ⟨u.documentId, u.tenantId, u.assistantId⟩

/-- Store the raw bytes, then record the row, then enqueue; `false` when the assistant is not
there. -/
def storeUpload (u : Upload) : Service Bool := do
  let assistant ← Proc.call (S := backend) (.findAssistant u.tenantId u.assistantId)
  if assistant.isNone then pure false
  else
    let storageKey := tenantObjectKey u.tenantId u.documentId
    Proc.call (S := backend) (.storagePut storageKey u.body)
    Proc.call (S := backend) (.createDocument {
      id := u.documentId
      tenantId := u.tenantId
      assistantId := u.assistantId
      title := JsString.slice u.originalname 0 MAX_TITLE_LENGTH
      sourceType := u.sourceType
      storageKey
      status := .UPLOADED })
    Proc.call (S := backend) (.enqueue u.job)
    pure true

/-- Delete the row with its chunks, then the stored object as best it can; `false` when there is no
such document. -/
def removeDocument (tenantId documentId : Uuid) : Service Bool := do
  let removed ← Proc.call (S := backend) (.deleteDocument tenantId documentId)
  match removed with
  | none => pure false
  | some storageKey =>
    (Proc.call (S := backend) (.storageDelete storageKey)).tryCatch fun _ => pure ()
    pure true

/-- The calls of a deletion. -/
theorem only_removeDocument {C : Call → Prop} {tenantId documentId : Uuid}
    (hdelete : C (.deleteDocument tenantId documentId)) (hobject : ∀ key, C (.storageDelete key)) :
    (removeDocument tenantId documentId).Only C := by
  refine Proc.Only.bind (Proc.only_call hdelete) ?_
  rintro (_ | key)
  · trivial
  · exact Proc.Only.bind (Proc.Only.tryCatch (Proc.only_call (hobject key)) fun _ => trivial)
      fun _ => trivial

import SupportAgent.Store.Backend
import SupportAgent.Util.Retry

/-!
# Worker/Pipeline — the ingestion pipeline

`runIngestion` drives a list of stages with the document's status as its checkpoint; it sees the
status only through `DocumentStatusStore`, so it is stated for any signature of calls.  `parseStage`
and `embedStage` are the stages the worker runs it with.
-/

open Async Ingestion

/-! ## The driver -/

/-- The lifecycle store `runIngestion` needs. -/
structure DocumentStatusStore (S : Signature) where
  getStatus : (documentId tenantId : Uuid) → Proc S JsError (Option DocumentStatus)
  setStatus : (documentId tenantId : Uuid) → DocumentStatus → Proc S JsError Unit

structure IngestStage (S : Signature) where
  name : JsString
  /-- Status set while this stage runs (and the resume checkpoint marker). -/
  startStatus : DocumentStatus
  run : IngestJobData → Proc S JsError Unit

/-- Linear lifecycle the pipeline advances through. -/
def ORDER : List DocumentStatus := [.UPLOADED, .PARSING, .EMBEDDING, .READY]

/-- QUEUED/FAILED rank as 0. -/
def rank (status : DocumentStatus) : ℕ :=
  let i := ORDER.idxOf status
  if i < ORDER.length then i else 0

/-- The status that means "this stage is finished": the next stage's start, or READY. -/
def doneStatus {S : Signature} (rest : List (IngestStage S)) : DocumentStatus :=
  match rest with
  | next :: _ => next.startStatus
  | [] => .READY

def documentNotFound (documentId : Uuid) : JsError :=
  .new (js "document not found: " ++ documentId.text)

section Driver

variable {S : Signature} (store : DocumentStatusStore S) (job : IngestJobData)

/-- The loop of `runIngestion` from some stage on, and what follows it. -/
def runStages : List (IngestStage S) → (curRank : ℕ) → Proc S JsError Unit
  | [], curRank =>
    if curRank < rank .READY then store.setStatus job.documentId job.tenantId .READY else pure ()
  | stage :: rest, curRank =>
    if rank (doneStatus rest) ≤ curRank then runStages rest curRank
    else do
      if curRank < rank stage.startStatus then
        store.setStatus job.documentId job.tenantId stage.startStatus
      stage.run job
      store.setStatus job.documentId job.tenantId (doneStatus rest)
      runStages rest (rank (doneStatus rest))

/-- Run the ingestion pipeline for one document. -/
def runIngestion (stages : List (IngestStage S)) : Proc S JsError Unit := do
  let current ← store.getStatus job.documentId job.tenantId
  match current with
  | none => .throw (documentNotFound job.documentId)
  | some current => runStages store job stages (rank current)

end Driver

/-- **One stage of the driver**: it is skipped, or started and run, and the rest goes on from where
its done status leaves it. -/
theorem safe_runStages_cons {S : Signature} {δ σ : Type} {K : Contract S JsError δ σ}
    {J L : σ → Prop} {Q : Except JsError Unit → σ → Prop} {store : DocumentStatusStore S}
    {job : IngestJobData} {stage : IngestStage S} {rest : List (IngestStage S)}
    {curRank : ℕ} {s : σ}
    (hskip : rank (doneStatus rest) ≤ curRank → K.Safe Q (runStages store job rest curRank) s)
    (hstart : curRank < rank stage.startStatus →
      K.Safe (fun o t => (o = .ok () → J t) ∧ ∀ e, o = .error e → Q (.error e) t)
        (store.setStatus job.documentId job.tenantId stage.startStatus) s)
    (hs : J s)
    (hrun : ∀ t, J t →
      K.Safe (fun o u => (o = .ok () → L u) ∧ ∀ e, o = .error e → Q (.error e) u) (stage.run job) t)
    (hdone : ∀ t, L t →
      K.Safe (fun o u => (o = .ok () → L u) ∧ ∀ e, o = .error e → Q (.error e) u)
        (store.setStatus job.documentId job.tenantId (doneStatus rest)) t)
    (hrest : ∀ t, L t → K.Safe Q (runStages store job rest (rank (doneStatus rest))) t) :
    K.Safe Q (runStages store job (stage :: rest) curRank) s := by
  have hafter : ∀ t, J t → K.Safe Q (stage.run job >>= fun _ => do
      store.setStatus job.documentId job.tenantId (doneStatus rest)
      runStages store job rest (rank (doneStatus rest))) t := by
    intro t ht
    refine Contract.Safe.bind ((hrun t ht).imp ?_)
    rintro (e | _) u hu
    · exact hu.2 e rfl
    · refine Contract.Safe.bind ((hdone u (hu.1 rfl)).imp ?_)
      rintro (e | _) v hv
      · exact hv.2 e rfl
      · exact hrest v (hv.1 rfl)
  rw [runStages]
  split
  case isTrue hle => exact hskip hle
  case isFalse =>
    split
    case isTrue hlt =>
      refine Contract.Safe.bind ((hstart hlt).imp ?_)
      rintro (e | _) t ht
      · exact ht.2 e rfl
      · exact hafter t (ht.1 rfl)
    case isFalse => exact hafter s hs

/-- **The driver is safe when its status calls and its stages are.** -/
theorem safe_runStages {S : Signature} {δ σ : Type} {K : Contract S JsError δ σ} {J : σ → Prop}
    {store : DocumentStatusStore S} {job : IngestJobData} {stages : List (IngestStage S)}
    (hset : ∀ status s, J s →
      K.Safe (fun _ t => J t) (store.setStatus job.documentId job.tenantId status) s)
    (hrun : ∀ stage ∈ stages, ∀ s, J s → K.Safe (fun _ t => J t) (stage.run job) s)
    (curRank : ℕ) {s : σ} (hs : J s) :
    K.Safe (fun _ t => J t) (runStages store job stages curRank) s := by
  induction stages generalizing curRank s with
  | nil =>
    rw [runStages]
    split
    · exact hset _ s hs
    · exact hs
  | cons stage rest ih =>
    obtain ⟨hstage, hrest⟩ := List.forall_mem_cons.mp hrun
    have hends : ∀ (o : Except JsError Unit) t, J t →
        (o = .ok () → J t) ∧ ∀ e, o = .error e → J t := fun _ _ ht => ⟨fun _ => ht, fun _ _ => ht⟩
    exact safe_runStages_cons (fun _ => ih hrest curRank hs) (fun _ => (hset _ s hs).imp hends) hs
      (fun t ht => (hstage t ht).imp hends) (fun t ht => (hset _ t ht).imp hends)
      fun t ht => ih hrest _ ht

/-! ## The stages -/

/-- What the worker knows of its embedder besides the calls it makes. -/
structure Embedder where
  model : JsString
  dimensions : ℕ

/-- The retry and persist granularity of the embed stage. -/
def EMBED_BATCH_SIZE : ℕ := 128

/-- The store of the worker. -/
def prismaDocumentStatusStore : DocumentStatusStore backend where
  getStatus documentId tenantId := Proc.call (S := backend) (.getStatus documentId tenantId)
  setStatus documentId tenantId status :=
    Proc.call (S := backend) (.setStatus documentId tenantId status)

variable (P : Platform)

def parseStage : IngestStage backend where
  name := js "parse"
  startStatus := .PARSING
  run job := do
    let ref ← Proc.call (S := backend) (.getRef job.documentId job.tenantId)
    match ref with
    | none => .throw (documentNotFound job.documentId)
    | some ref =>
      let bytes ← Proc.call (S := backend) (.storageGet ref.storageKey)
      let parsed ← .ofExcept (parseDocument P.formats bytes ref.sourceType)
      if JsString.trim parsed.text = [] then
        .throw (.new (js "no extractable text — document may be scanned or image-only"))
      else
        Proc.call (S := backend)
          (.setParseResult job.documentId job.tenantId parsed.pageCount parsed.warnings)
        let chunks ← .ofExcept (chunkDocument P.tokenizer DEFAULT_CHUNK_OPTIONS parsed)
        if chunks = [] then .throw (.new (js "no chunkable content in document"))
        else
          let _ ← Proc.call (S := backend)
            (.saveChunks job.documentId job.tenantId job.assistantId chunks)
          pure ()

section Embed

variable (embedder : Embedder) (job : IngestJobData)

/-- The checks on one vector of a batch. -/
def checkVector (v : List JsNumber) : Except JsError Unit :=
  if v.length ≠ EMBEDDING_DIMENSIONS then
    throw (.new (js "embedding has " ++ js (toString v.length) ++ js " dims, expected " ++
      js (toString EMBEDDING_DIMENSIONS)))
  else if !v.all JsNumber.isFinite then
    throw (.new (js "embedding contains a non-finite value"))
  else pure ()

/-- One turn of the `map` that pairs a batch with its vectors. -/
def embeddingUpdate (x : PendingChunk × Embedding) : Except JsError (Uuid × Embedding) := do
  checkVector x.2.vector
  return (x.1.id, x.2)

theorem checkVector_eq_ok {v : List JsNumber} :
    checkVector v = .ok () ↔ fitsVectorColumn v = true := by
  rw [fitsVectorColumn, Bool.and_eq_true, beq_iff_eq]
  unfold checkVector
  split
  case isTrue h => exact ⟨fun hthrow => (nomatch hthrow), fun hfits => absurd hfits.1 h⟩
  case isFalse h =>
    split
    case isTrue h' =>
      exact ⟨fun hthrow => (nomatch hthrow), fun hfits => absurd h' (by simp [hfits.2])⟩
    case isFalse h' => exact ⟨fun _ => ⟨not_not.mp h, by simpa using h'⟩, fun _ => rfl⟩

theorem embeddingUpdate_eq_ok {x : PendingChunk × Embedding} {u : Uuid × Embedding} :
    embeddingUpdate x = .ok u ↔ fitsVectorColumn x.2.vector = true ∧ u = (x.1.id, x.2) := by
  rw [embeddingUpdate, Except.bind_eq_ok]
  constructor
  · rintro ⟨⟨⟩, hcheck, hu⟩
    exact ⟨checkVector_eq_ok.mp hcheck, (Except.ok.inj hu).symm⟩
  · rintro ⟨hfits, rfl⟩
    exact ⟨(), checkVector_eq_ok.mpr hfits, rfl⟩

/-- **A batch that passes its checks pairs each chunk with its vector.** -/
theorem mapM_embeddingUpdate_eq_ok {xs : List (PendingChunk × Embedding)}
    {us : List (Uuid × Embedding)} : xs.mapM embeddingUpdate = .ok us ↔
      (∀ x ∈ xs, fitsVectorColumn x.2.vector = true) ∧ us = xs.map fun x => (x.1.id, x.2) := by
  induction xs generalizing us with
  | nil => exact ⟨fun h => ⟨by simp, (Except.ok.inj h).symm⟩, fun h => h.2 ▸ rfl⟩
  | cons x xs ih =>
    rw [List.mapM_cons, Except.bind_eq_ok]
    constructor
    · rintro ⟨u, hu, hus⟩
      obtain ⟨us', hus', hcons⟩ := Except.bind_eq_ok.mp hus
      obtain ⟨hx, rfl⟩ := embeddingUpdate_eq_ok.mp hu
      obtain ⟨hxs, rfl⟩ := ih.mp hus'
      exact ⟨List.forall_mem_cons.mpr ⟨hx, hxs⟩, (Except.ok.inj hcons).symm⟩
    · rintro ⟨hfits, rfl⟩
      obtain ⟨hx, hxs⟩ := List.forall_mem_cons.mp hfits
      refine ⟨_, embeddingUpdate_eq_ok.mpr ⟨hx, rfl⟩, ?_⟩
      exact Except.bind_eq_ok.mpr ⟨_, ih.mpr ⟨hxs, rfl⟩, rfl⟩

/-- The ids of a batch paired with as many vectors. -/
theorem map_fst_updates {batch : List PendingChunk} {vectors : List Embedding}
    (hlen : batch.length = vectors.length) :
    ((batch.zip vectors).map fun x => (x.1.id, x.2)).map (·.1) = batch.map (·.id) := by
  have hfst := List.map_fst_zip hlen.le
  calc ((batch.zip vectors).map fun x => (x.1.id, x.2)).map (·.1)
      = ((batch.zip vectors).map Prod.fst).map (·.id) := by rw [List.map_map, List.map_map]; rfl
    _ = batch.map (·.id) := by rw [hfst]

/-- One turn of the loop of the embed stage. -/
def embedBatch (batch : List PendingChunk) : Service Unit := do
  let vectors ← withRetry
    (Proc.call (S := backend) (.embed embedder.model (batch.map (·.content))))
      4 isRetryableEmbedError
  if vectors.length ≠ batch.length then
    .throw (.new (js "embedder returned " ++ js (toString vectors.length) ++ js " vectors for " ++
      js (toString batch.length) ++ js " chunks"))
  else
    let updates ← .ofExcept ((batch.zip vectors).mapM embeddingUpdate)
    Proc.call (S := backend) (.setChunkEmbeddings job.tenantId job.documentId updates)

/-- The loop of the embed stage. -/
def embedBatches : List (List PendingChunk) → Service Unit
  | [] => pure ()
  | batch :: batches => do
    embedBatch embedder job batch
    embedBatches batches

end Embed

def embedStage (embedder : Embedder) : IngestStage backend where
  name := js "embed"
  startStatus := .EMBEDDING
  run job := do
    if embedder.dimensions ≠ EMBEDDING_DIMENSIONS then
      .throw (.new (js "embedder dimensions " ++ js (toString embedder.dimensions) ++
        js " != column width " ++ js (toString EMBEDDING_DIMENSIONS)))
    else
      let pending ← Proc.call (S := backend) (.getUnembeddedChunks job.documentId job.tenantId)
      if pending = [] then pure ()
      else
        Proc.call (S := backend)
          (.ensureEmbeddingModel job.tenantId job.assistantId embedder.model)
        embedBatches embedder job (Table.slices EMBED_BATCH_SIZE pending)

def DEFAULT_STAGES (embedder : Embedder) : List (IngestStage backend) :=
  [parseStage P, embedStage embedder]

/-! ## The worker -/

def MAX_ERROR_LENGTH : ℕ := 2000

/-- A job handed to the worker. -/
def processJob (embedder : Embedder) (job : IngestJobData) : Service Unit :=
  runIngestion prismaDocumentStatusStore job (DEFAULT_STAGES P embedder)

/-- `worker.on('failed')`: the document is marked FAILED once the job's attempts are exhausted. -/
def onFailed (job : IngestJobData) (attemptsMade attempts : ℕ) (err : JsError) : Service Unit :=
  if attempts ≤ attemptsMade then
    (Proc.call (S := backend) (.markFailed job.documentId job.tenantId
      (JsString.slice err.message 0 MAX_ERROR_LENGTH))).tryCatch fun _ => pure ()
  else pure ()

/-! ## The calls of the worker -/

/-- The calls an execution of a job may make. -/
def Call.OfJob (job : IngestJobData) : Call → Prop
  | .getStatus documentId tenantId | .setStatus documentId tenantId _
  | .getRef documentId tenantId | .setParseResult documentId tenantId _ _
  | .getUnembeddedChunks documentId tenantId | .setChunkEmbeddings tenantId documentId _ =>
    documentId = job.documentId ∧ tenantId = job.tenantId
  | .saveChunks documentId tenantId assistantId _ =>
    documentId = job.documentId ∧ tenantId = job.tenantId ∧ assistantId = job.assistantId
  | .ensureEmbeddingModel tenantId assistantId _ =>
    tenantId = job.tenantId ∧ assistantId = job.assistantId
  | .storageGet _ | .embed .. => True
  | _ => False

section

variable {P : Platform} {job : IngestJobData} {C : Call → Prop}

theorem only_runStages {S : Signature} {C : S.Call → Prop} {store : DocumentStatusStore S}
    {stages : List (IngestStage S)}
    (hset : ∀ status, (store.setStatus job.documentId job.tenantId status).Only C)
    (hrun : ∀ stage ∈ stages, (stage.run job).Only C) (curRank : ℕ) :
    (runStages store job stages curRank).Only C := by
  induction stages generalizing curRank with
  | nil =>
    rw [runStages]
    split
    · exact hset _
    · trivial
  | cons stage rest ih =>
    obtain ⟨hstage, hrest⟩ := List.forall_mem_cons.mp hrun
    have hgo := hstage.bind fun _ => (hset (doneStatus rest)).bind fun _ =>
      ih hrest (rank (doneStatus rest))
    rw [runStages]
    split
    · exact ih hrest _
    split
    · exact (hset _).bind fun _ => hgo
    · exact hgo

theorem only_parseStage (href : C (.getRef job.documentId job.tenantId))
    (hget : ∀ key, C (.storageGet key))
    (hresult : ∀ pageCount warnings,
      C (.setParseResult job.documentId job.tenantId pageCount warnings))
    (hsave : ∀ chunks, C (.saveChunks job.documentId job.tenantId job.assistantId chunks)) :
    ((parseStage P).run job).Only C := by
  dsimp only [parseStage]
  refine Proc.Only.bind (Proc.only_call href) ?_
  rintro (_ | ref)
  · trivial
  refine Proc.Only.bind (Proc.only_call (hget _)) fun bytes => ?_
  refine Proc.Only.bind (Proc.only_ofExcept _) fun parsed => ?_
  split
  · trivial
  refine Proc.Only.bind (Proc.only_call (hresult _ _)) fun _ => ?_
  refine Proc.Only.bind (Proc.only_ofExcept _) fun chunks => ?_
  split
  · trivial
  · exact Proc.Only.bind (Proc.only_call (hsave _)) fun _ => trivial

theorem only_embedBatch {embedder : Embedder} (hembed : ∀ model texts, C (.embed model texts))
    (hset : ∀ updates, C (.setChunkEmbeddings job.tenantId job.documentId updates))
    (batch : List PendingChunk) : (embedBatch embedder job batch).Only C := by
  refine Proc.Only.bind (only_withRetry (Proc.only_call (hembed _ _)) _ _) fun vectors => ?_
  split
  · trivial
  · exact Proc.Only.bind (Proc.only_ofExcept _) fun updates => Proc.only_call (hset updates)

theorem only_embedBatches {embedder : Embedder} (hembed : ∀ model texts, C (.embed model texts))
    (hset : ∀ updates, C (.setChunkEmbeddings job.tenantId job.documentId updates))
    (batches : List (List PendingChunk)) : (embedBatches embedder job batches).Only C := by
  induction batches with
  | nil => trivial
  | cons batch batches ih =>
    rw [embedBatches]
    exact (only_embedBatch hembed hset batch).bind fun _ => ih

theorem only_embedStage {embedder : Embedder}
    (hpending : C (.getUnembeddedChunks job.documentId job.tenantId))
    (hensure : ∀ model, C (.ensureEmbeddingModel job.tenantId job.assistantId model))
    (hembed : ∀ model texts, C (.embed model texts))
    (hset : ∀ updates, C (.setChunkEmbeddings job.tenantId job.documentId updates)) :
    ((embedStage embedder).run job).Only C := by
  dsimp only [embedStage]
  split
  · trivial
  refine Proc.Only.bind (Proc.only_call hpending) fun pending => ?_
  split
  · trivial
  · exact Proc.Only.bind (Proc.only_call (hensure _)) fun _ => only_embedBatches hembed hset _

/-- **An execution of a job makes calls of this job only.** -/
theorem only_processJob {embedder : Embedder} :
    (processJob P embedder job).Only (Call.OfJob job) := by
  refine Proc.Only.bind (Proc.only_call ⟨rfl, rfl⟩) ?_
  rintro (_ | current)
  · trivial
  refine only_runStages (fun status => Proc.only_call ⟨rfl, rfl⟩) (fun stage hstage => ?_) _
  rcases List.mem_pair.mp hstage with rfl | rfl
  · exact only_parseStage ⟨rfl, rfl⟩ (fun _ => trivial) (fun _ _ => ⟨rfl, rfl⟩)
      fun _ => ⟨rfl, rfl, rfl⟩
  · exact only_embedStage ⟨rfl, rfl⟩ (fun _ => ⟨rfl, rfl⟩) (fun _ _ => trivial)
      fun _ => ⟨rfl, rfl⟩

/-- The failure handler marks the document of its job. -/
theorem only_onFailed {attemptsMade attempts : ℕ} {err : JsError}
    (hmark : ∀ error, C (.markFailed job.documentId job.tenantId error)) :
    (onFailed job attemptsMade attempts err).Only C := by
  rw [onFailed]
  split
  · exact Proc.Only.tryCatch (Proc.only_call (hmark _)) fun _ => trivial
  · trivial

end

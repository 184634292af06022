import SupportAgent.Documents.Documents
import SupportAgent.Store.Constraints
import SupportAgent.Retrieval.Retrieve
import SupportAgent.Worker.Pipeline

/-!
# System/Corpus — everything that touches a corpus, interleaved

The tasks of the services over one shared `World`: uploads, ingest jobs (one job may run any number
of times, and at the same time as itself), the failure handler, reconciler sweeps, deletions and
retrievals, each worker and API instance with an embedding model of its own.  `Corpus.step`
interleaves their calls one by one; any task may be lost at any of them.
-/

open Async

/-- What a task ends with. -/
inductive TaskResult
  | done
  | hits (model : JsString) (hits : List ChunkHit)

/-- A task starting. -/
inductive Launch
  | ingest (embedder : Embedder) (job : IngestJobData)
  | failed (job : IngestJobData) (attemptsMade attempts : ℕ) (err : JsError)
  | sweep (ageSeconds : ℕ)
  | upload (u : Upload)
  | delete (tenantId documentId : Uuid)
  | retrieve (embedder : Embedder) (tenantId : Uuid) (query : RetrievalQuery)

namespace Corpus

variable (P : Platform)

/-- The task a launch starts.  A job comes from the queue; an embedding model has a name. -/
def launch (w : World) : Launch → Option (Service TaskResult)
  | .ingest embedder job =>
    if job ∈ w.jobs ∧ embedder.model ≠ [] then
      some (processJob P embedder job >>= fun _ => pure .done)
    else none
  | .failed job attemptsMade attempts err =>
    if job ∈ w.jobs then some (onFailed job attemptsMade attempts err >>= fun _ => pure .done)
    else none
  | .sweep ageSeconds => some do
    let _ ← Proc.call (S := backend) (.reconcileStuckDocuments ageSeconds)
    pure .done
  | .upload u => some (storeUpload u >>= fun _ => pure .done)
  | .delete tenantId documentId => some (removeDocument tenantId documentId >>= fun _ => pure .done)
  | .retrieve embedder tenantId query =>
    if embedder.model ≠ [] then
      some (retrieve embedder tenantId query >>= fun hits => pure (.hits embedder.model hits))
    else none

/-- The tasks a launch may start, with what it found. -/
inductive Starts (w : World) : Launch → Service TaskResult → Prop
  | ingest {embedder : Embedder} {job : IngestJobData} (hjob : job ∈ w.jobs)
      (hmodel : embedder.model ≠ []) :
      Starts w (.ingest embedder job) (processJob P embedder job >>= fun _ => pure .done)
  | failed {job : IngestJobData} {attemptsMade attempts : ℕ} {err : JsError} :
      Starts w (.failed job attemptsMade attempts err)
        (onFailed job attemptsMade attempts err >>= fun _ => pure .done)
  | sweep {ageSeconds : ℕ} :
      Starts w (.sweep ageSeconds)
        (Proc.call (S := backend) (.reconcileStuckDocuments ageSeconds) >>= fun _ => pure .done)
  | upload {u : Upload} : Starts w (.upload u) (storeUpload u >>= fun _ => pure .done)
  | delete {tenantId documentId : Uuid} :
      Starts w (.delete tenantId documentId)
        (removeDocument tenantId documentId >>= fun _ => pure .done)
  | retrieve {embedder : Embedder} {tenantId : Uuid} {query : RetrievalQuery}
      (hmodel : embedder.model ≠ []) :
      Starts w (.retrieve embedder tenantId query)
        (retrieve embedder tenantId query >>= fun hits => pure (.hits embedder.model hits))

/-- **What a launch starts.** -/
theorem starts_of_launch {w : World} {l : Launch} {p : Service TaskResult}
    (h : launch P w l = some p) : Starts P w l p := by
  cases l with
  | sweep | upload | delete =>
    obtain rfl := Option.some.inj h
    constructor
  | ingest embedder job =>
    simp only [launch] at h
    split at h
    case isFalse => simp at h
    case isTrue hjob =>
      obtain rfl := Option.some.inj h
      exact .ingest hjob.1 hjob.2
  | failed job attemptsMade attempts err =>
    simp only [launch] at h
    split at h
    case isFalse => simp at h
    obtain rfl := Option.some.inj h
    exact .failed
  | retrieve embedder tenantId query =>
    simp only [launch] at h
    split at h
    case isFalse => simp at h
    case isTrue hmodel =>
      obtain rfl := Option.some.inj h
      exact .retrieve hmodel

/-- The shared state and the tasks at work on it. -/
abbrev State : Type := Pool backend JsError TaskResult World

/-- A move of the system. -/
abbrev Move : Type := Pool.Move Launch Decision

/-- **One move of the system.** -/
def step : State → Move → Option State := Pool.step (World.handle P) (launch P)

/-- **The start**: assistants with nothing ingested yet, and no task. -/
structure Initial (c : State) : Prop where
  tasks : c.tasks = []
  documents : c.world.documents = []
  chunks : c.world.chunks = []
  jobs : c.world.jobs = []
  assistants : (c.world.assistants.map (·.id)).Nodup
  embeddingModel : ∀ a ∈ c.world.assistants, a.embeddingModel = none

/-- No condition on the calls of a run. -/
def anyCall : World → Call → Decision → Prop := fun _ _ _ => True

/-- The states of the runs from `init` whose calls all meet a condition. -/
abbrev Reachable (meets : World → Call → Decision → Prop) (init : State → Prop) : State → Prop :=
  Run.Reachable (step P) (Pool.Meets meets) init

/-- **The database keeps its keys**, whatever happens. -/
theorem wellFormed_of_reachable {meets : World → Call → Decision → Prop} {init : State → Prop}
    (hinit : ∀ c, init c → c.world.WellFormed P) {c : State} (h : Reachable P meets init c) :
    c.world.WellFormed P :=
  Pool.world_invariant (fun _ _ _ _ _ hw _ hr => hw.step (World.effect_of_handle hr)) hinit h

theorem Initial.wellFormed {c : State} (h : Initial c) : c.world.WellFormed P :=
  .of_empty h.assistants h.documents h.chunks

/-! ## Runs to try -/

/-- One assistant, nothing ingested. -/
def sampleStart : State where
  world := { assistants := [sampleAssistant] }
  tasks := []

theorem initial_sampleStart : Initial sampleStart :=
  ⟨rfl, rfl, rfl, rfl, by decide, by decide⟩

/-- A run from a given state on, its calls passing a test of their condition. -/
theorem reachable_from {meets : World → Call → Decision → Prop} (init : State → Prop) {c : State}
    (hc : init c) (ok : World → Call → Bool) (hok : ∀ w call d, ok w call = true → meets w call d)
    (moves : List Move) (p : State → Bool)
    (hp : (moves.foldlM (Run.tested (Pool.passes ok) (step samplePlatform)) c).any p = true) :
    ∃ c', Reachable samplePlatform meets init c' ∧ p c' = true := by
  have hstart : Reachable samplePlatform meets init c := .start hc
  exact hstart.replay (Pool.passes ok) (fun _ _ h => Pool.meets_of_passes hok h) moves p hp

/-- A test that every call passes. -/
def passAll : World → Call → Bool := fun _ _ => true

/-- A run from the sample start that ends as a test says. -/
theorem reachable_sample (moves : List Move) (p : State → Bool)
    (hp : (moves.foldlM (Run.tested (Pool.passes passAll) (step samplePlatform)) sampleStart).any p
      = true) : ∃ c, Reachable samplePlatform anyCall Initial c ∧ p c = true :=
  reachable_from Initial initial_sampleStart passAll (fun _ _ _ _ => trivial) moves p hp

/-- A worker's embedder. -/
def sampleEmbedder (model : JsString) : Embedder := ⟨model, EMBEDDING_DIMENSIONS⟩

/-- A vector of the column's width. -/
def sampleVector : List JsNumber := List.replicate EMBEDDING_DIMENSIONS (.finite 1)

/-- The upload of a text file of the sample assistant. -/
def sampleUpload (documentId : Uuid) (body : Ingestion.Bytes) : Upload :=
  ⟨7, 1, documentId, js "faq.txt", .TXT, body⟩

/-- The moves of an upload, as task `n`. -/
def sampleUploading (n : ℕ) (documentId : Uuid) (body : Ingestion.Bytes) : List Move :=
  .launch (.upload (sampleUpload documentId body)) :: List.replicate 4 (.resume n {})

/-- `count` calls of task `n`, each going through. -/
def resumes (n count : ℕ) : List Move := List.replicate count (.resume n {})

/-- A worker takes up the job of a document. -/
def sampleIngest (model : JsString) (documentId : Uuid) : Move :=
  .launch (.ingest (sampleEmbedder model) (sampleUpload documentId []).job)

/-- The parse stage of task `n`, from the status it sets to the status after it; the document's one
chunk is saved as `chunkId`. -/
def sampleParsing (n : ℕ) (chunkId : Uuid) : List Move :=
  resumes n 4 ++ [.resume n { ids := [chunkId] }] ++ resumes n 1

/-- The embed stage of task `n` over one chunk, up to READY. -/
def sampleEmbedding (n : ℕ) : List Move :=
  resumes n 2 ++ [.resume n { vectors := [sampleVector] }] ++ resumes n 2

end Corpus

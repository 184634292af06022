import SupportAgent.Store.Backend
import SupportAgent.Util.Retry
import SupportAgent.Worker.Pipeline

/-!
# Retrieval/Retrieve — the chunks nearest to a question

`retrieveChunks` checks the assistant's embedding model and then scans: two statements, so two
calls.
-/

open Async

def MAX_K : ℕ := 100

structure RetrieveParams where
  assistantId : Uuid
  queryEmbedding : Embedding
  embeddingModel : JsString
  k : JsNumber

/-- The checks on the query vector. -/
def checkQueryEmbedding (v : List JsNumber) : Except JsError Unit :=
  if v.length ≠ EMBEDDING_DIMENSIONS then
    throw (.new (js "retrieveChunks: query embedding has " ++ js (toString v.length) ++
      js " dims, expected " ++ js (toString EMBEDDING_DIMENSIONS)))
  else if !v.all JsNumber.isFinite then
    throw (.new (js "retrieveChunks: query embedding contains a non-finite value"))
  else if !v.any (· != .finite 0) then
    throw (.new (js "retrieveChunks: query embedding is all zeros (no direction)"))
  else pure ()

/-- `Math.min(Math.max(Math.floor(k), 1), MAX_K)` of a finite `k`. -/
def clampK : JsNumber → Except JsError ℕ
  | .finite q => pure (min (max q.floor 1) MAX_K).toNat
  | _ => throw (.new (js "retrieveChunks: k must be a finite number"))

/-- The comparison with the recorded model; an unclaimed assistant has nothing to compare
against. -/
def checkEmbeddingModel (recorded : Option JsString) (model : JsString) : Except JsError Unit :=
  match recorded with
  | none => pure ()
  | some claimed =>
    if claimed ≠ [] ∧ claimed ≠ model then
      throw (.new (js "retrieveChunks: embedding model mismatch — corpus=\"" ++ claimed ++
        js "\" query=\"" ++ model ++ js "\". Re-embed the corpus before querying."))
    else pure ()

/-- Tenant-filtered nearest-neighbour search over an assistant's chunks. -/
def retrieveChunks (tenantId : Uuid) (params : RetrieveParams) : Service (List ChunkHit) := do
  .ofExcept (checkQueryEmbedding params.queryEmbedding.vector)
  let k ← .ofExcept (clampK params.k)
  let assistant ← Proc.call (S := backend) (.findAssistant tenantId params.assistantId)
  let recorded := assistant.bind (·.embeddingModel)
  .ofExcept (checkEmbeddingModel recorded params.embeddingModel)
  Proc.call (S := backend)
    (.scanChunks tenantId params.assistantId params.queryEmbedding k recorded)

def DEFAULT_RETRIEVAL_K : JsNumber := .finite 8

def MAX_QUESTION_LENGTH : ℕ := 4000

structure RetrievalQuery where
  assistantId : Uuid
  question : JsString
  k : Option JsNumber := none

/-- `retrieve` of the retrieval service: embed the question and fetch the top-k matching chunks. -/
def retrieve (embedder : Embedder) (tenantId : Uuid) (query : RetrievalQuery) :
    Service (List ChunkHit) := do
  let question := JsString.trim query.question
  if question = [] then .throw (.new (js "retrieve: question is required"))
  else if MAX_QUESTION_LENGTH < question.length then
    .throw (.new (js "retrieve: question exceeds " ++ js (toString MAX_QUESTION_LENGTH) ++
      js " characters"))
  else
    let vectors ← withRetry
      (Proc.call (S := backend) (.embed embedder.model [question])) 3 isRetryableEmbedError
    match vectors with
    | [] => .throw (.new (js "retrieve: embedder returned no vector"))
    | embedding :: _ =>
      retrieveChunks tenantId {
        assistantId := query.assistantId
        queryEmbedding := embedding
        embeddingModel := embedder.model
        k := query.k.getD DEFAULT_RETRIEVAL_K }

/-- The calls of a retrieval. -/
theorem only_retrieve {C : Call → Prop} {embedder : Embedder} {tenantId : Uuid}
    {query : RetrievalQuery} (hembed : ∀ model texts, C (.embed model texts))
    (hfind : C (.findAssistant tenantId query.assistantId))
    (hscan : ∀ embedding k checked,
      C (.scanChunks tenantId query.assistantId embedding k checked)) :
    (retrieve embedder tenantId query).Only C := by
  dsimp only [retrieve]
  split
  · trivial
  split
  · trivial
  refine Proc.Only.bind (only_withRetry (Proc.only_call (hembed _ _)) _ _) ?_
  rintro (_ | ⟨embedding, vectors⟩)
  · trivial
  refine Proc.Only.bind (Proc.only_ofExcept _) fun _ => ?_
  refine Proc.Only.bind (Proc.only_ofExcept _) fun k => ?_
  refine Proc.Only.bind (Proc.only_call hfind) fun assistant => ?_
  exact Proc.Only.bind (Proc.only_ofExcept _) fun _ => Proc.only_call (hscan _ _ _)

import SupportAgent.Documents.Documents
import SupportAgent.Retrieval.Retrieve
import SupportAgent.Routes.Tables

/-!
# Routes/Handlers — the routes of the app

Each handler is a body that ends in the response it sends; what its `catch` sends is the last line
of it.  `requireAdmin` is the guard of the assistant and playground routes.
-/

open Async Ingestion JsString

/-! ## Tokens -/

/-- The tenant identity carried by an access token. -/
structure TenantClaims where
  tenantId : Uuid
  userId : Option Uuid
  assistantId : Option Uuid

/-- An admin (human) session vs a consumer/assistant-scoped one. -/
def isAdminSession (claims : TenantClaims) : Bool :=
  claims.userId.isSome && claims.assistantId.isNone

/-- The collaborators and limits the app is built with. -/
structure AppDeps where
  embedder : Embedder
  contextTokenBudget : JsNumber
  maxOutputTokens : ℕ
  /-- `.trim().toLowerCase().email().max(320)` -/
  normalizeEmail : JsString → Option JsString
  hashPassword : JsString → JsString
  verifyPassword : JsString → JsString → Bool
  hashApiKey : JsString → JsString
  signTenantToken : TenantClaims → (now : ℕ) → JsString

/-- What surrounds one request: whether its token still verifies, the random values and times drawn
for it, how long its stream is read, and what becomes of its calls. -/
structure Environment where
  tokenVerifies : Bool := true
  randomUUID : Uuid := 0
  randomKey : JsString := []
  now : ℕ := 0
  latencyMs : ℕ := 0
  ticks : ℕ := 0
  timedOut : Bool := false
  decisions : ℕ → ApiDecision

/-! ## Responses -/

structure DocumentStatusView where
  id : Uuid
  title : JsString
  sourceType : SourceType
  status : DocumentStatus
  pageCount : Option ℕ
  chunkCount : ℕ
  warnings : List JsString
  error : Option JsString
  updatedAt : ℕ

/-- An event of `GET /documents/:id/events`. -/
inductive StatusFrame
  | status (status : DocumentStatus) (pageCount : Option ℕ) (chunkCount : ℕ)
      (warnings : List JsString) (error : Option JsString)
  | done
  | error (error : JsString)
  | timeout
  | keepAlive

structure AssistantView where
  id : Uuid
  name : JsString
  status : AssistantStatus
  model : JsString
  refusalThreshold : ℚ
  createdAt : ℕ

structure ApiKeyView where
  id : Uuid
  createdAt : ℕ
  lastUsedAt : Option ℕ

structure RetrievedView where
  id : Uuid
  documentId : Uuid
  title : JsString
  page : Option ℕ
  sectionText : Option JsString
  score : JsNumber
  snippet : JsString

structure SourceView where
  marker : ℕ
  chunkId : Uuid
  documentId : Uuid
  title : JsString
  page : Option ℕ
  sectionText : Option JsString
  score : JsNumber

structure PlaygroundView where
  assistantId : Uuid
  question : JsString
  threshold : ℚ
  decision : ThresholdResult
  retrieved : List RetrievedView
  assembled : Option (ℕ × List SourceView)

inductive Payload
  | error (error : JsString)
  | health
  | token (token : JsString)
  | uploaded (documentId : Uuid)
  | documents (documents : List DocumentStatusView)
  | document (view : DocumentStatusView)
  | empty
  | events (frames : List StatusFrame)
  | chat (frames : List ChatFrame)
  | playground (view : PlaygroundView)
  | assistants (assistants : List AssistantView)
  | patched (id : JsString) (data : AssistantPatch)
  | apiKeyCreated (id : Uuid) (key : JsString) (createdAt : ℕ)
  | apiKeys (keys : List ApiKeyView)

structure Response where
  status : ℕ
  body : Payload
  retryAfter : Option ℕ := none

/-- `res.status(status).json({ error })`. -/
def errorResponse (status : ℕ) (error : JsString) : Response := ⟨status, .error error, none⟩

/-- The body of a route, with what is sent when it throws. -/
def catching (status : ℕ) (error : JsString) (route : Route Response) : Route Response :=
  route.tryCatch fun _ => .ret (errorResponse status error)

/-! ## Documents -/

def FRIENDLY_ERRORS : List (JsString × JsString) :=
  [(js "no extractable text",
      js "No readable text was found — the document may be scanned or image-only."),
    (js "no chunkable content", js "No usable content was found in the document."),
    (js "does not match declared type", js "The file's contents did not match its type."),
    (js "not valid utf-8", js "The file is not valid UTF-8 text.")]

def GENERIC_ERROR : JsString := js "Ingestion failed. Please try re-uploading the document."

/-- Sanitize a stored document error into a user-safe message. -/
def sanitizeDocumentError (raw : Option JsString) (status : DocumentStatus) : Option JsString :=
  if status ≠ .FAILED then none
  else
    match raw with
    | none | some [] => some GENERIC_ERROR
    | some raw =>
      let lower := raw.map lowerUnit
      some <| ((FRIENDLY_ERRORS.find? fun e => (indexOf e.1 lower).isSome).map (·.2)).getD
        GENERIC_ERROR

/-- Build the client-facing status view from a document row and its chunk count. -/
def toStatusView (doc : Document) (chunkCount : ℕ) : DocumentStatusView where
  id := doc.id
  title := doc.title
  sourceType := doc.sourceType
  status := doc.status
  pageCount := doc.pageCount
  chunkCount := chunkCount
  warnings := doc.warnings
  error := sanitizeDocumentError doc.error doc.status
  updatedAt := doc.updatedAt

def isTerminalStatus (status : DocumentStatus) : Bool := status == .READY || status == .FAILED

/-- `storeUpload` of a file whose type is no source type: the row is refused. -/
def storeUnrecorded (tenantId assistantId documentId : Uuid) (body : Bytes) : Service Bool := do
  let assistant ← Proc.call (S := backend) (.findAssistant tenantId assistantId)
  if assistant.isNone then pure false
  else
    Proc.call (S := backend) (.storagePut (tenantObjectKey tenantId documentId) body)
    .throw (.new (js "Argument sourceType: invalid value provided"))

/-- A checked upload is stored. -/
def storeFile (tenantId assistantId documentId : Uuid) (file : UploadedFile) :
    FoundType → Service Bool
  | .source sourceType => storeUpload {
      tenantId, assistantId, documentId, sourceType
      originalname := file.originalname
      body := file.buffer }
  | .inherited => storeUnrecorded tenantId assistantId documentId file.buffer

/-- What multer and the checks behind it leave of an upload. -/
def checkUpload : Multipart → Except Response (Uuid × UploadedFile × FoundType)
  | .tooLarge => throw (errorResponse 413 (js "file too large"))
  | .malformed => throw (errorResponse 400 (js "invalid upload"))
  | .form assistantId file =>
    -- `fileFilter`, before the fields are looked at
    if file.any fun f => (resolveSourceType f.originalname).isNone then
      throw (errorResponse 415 (js "unsupported file type"))
    else
      match zodUuid assistantId, file with
      | none, _ => throw (errorResponse 400 (js "assistantId (uuid) is required"))
      | some _, none => throw (errorResponse 400 (js "file is required"))
      | some assistantId, some file =>
        match resolveSourceType file.originalname with
        | none => throw (errorResponse 415 (js "unsupported file type"))
        | some found => pure (assistantId, file, found)

/-- `POST /documents`. -/
def postDocument (env : Environment) (tenant : TenantClaims) (form : Multipart) : Route Response :=
  match checkUpload form with
  | .error response => .ret response
  | .ok (assistantId, file, found) => catching 500 (js "internal error") do
    let stored ← (storeFile tenant.tenantId assistantId env.randomUUID file found).toRoute
    if stored then .ret ⟨201, .uploaded env.randomUUID, none⟩
    else .ret (errorResponse 404 (js "assistant not found"))

/-- `GET /documents`. -/
def listDocuments (tenant : TenantClaims) (assistantId : Option Json) (limit : JsNumber) :
    Route Response :=
  match zodUuid assistantId with
  | none => .ret (errorResponse 400 (js "assistantId (uuid) query param is required"))
  | some assistantId => catching 500 (js "internal error") do
    let docs ← Proc.call (S := api)
      (.listDocuments tenant.tenantId assistantId (listTake limit))
    .ret ⟨200, .documents (docs.map fun d => toStatusView d.1 d.2), none⟩

/-- The `:id` of a document route. -/
def withDocumentId (id : JsString) (route : Uuid → Route Response) : Route Response :=
  match Uuid.parse id with
  | none => .ret (errorResponse 400 (js "invalid document id"))
  | some id => route id

/-- `GET /documents/:id`. -/
def getDocument (tenant : TenantClaims) (id : JsString) : Route Response :=
  withDocumentId id fun id => catching 500 (js "internal error") do
    match ← Proc.call (S := api) (.getDocument tenant.tenantId id) with
    | some (doc, chunkCount) => .ret ⟨200, .document (toStatusView doc chunkCount), none⟩
    | none => .ret (errorResponse 404 (js "document not found"))

/-- `DELETE /documents/:id`. -/
def deleteDocument (tenant : TenantClaims) (id : JsString) : Route Response :=
  withDocumentId id fun id => catching 500 (js "internal error") do
    let removed ← (removeDocument tenant.tenantId id).toRoute
    if removed then .ret ⟨204, .empty, none⟩
    else .ret (errorResponse 404 (js "document not found"))

/-- The polls of an event stream, until it ends or is no longer read. -/
def statusFrames (tenantId id : Uuid) (timedOut : Bool) : (ticks : ℕ) →
    (lastStatus : Option DocumentStatus) → (ticksSinceWrite : ℕ) → Route (List StatusFrame)
  | 0, _, _ => .ret (if timedOut then [.timeout] else [])
  | ticks + 1, lastStatus, ticksSinceWrite => do
    -- an error ends the stream
    let snap ← (some <$> Proc.call (S := api) (.getDocument tenantId id)).tryCatch
        fun _ => .ret none
    match snap with
    | none => .ret []
    | some none => .ret [.error (js "document not found")]
    | some (some (doc, chunkCount)) =>
      if some doc.status ≠ lastStatus then
        let frame := StatusFrame.status doc.status doc.pageCount chunkCount doc.warnings
          (sanitizeDocumentError doc.error doc.status)
        if isTerminalStatus doc.status then .ret [frame, .done]
        else
          let frames ← statusFrames tenantId id timedOut ticks (some doc.status) 0
          .ret (frame :: frames)
      else
        let frames ← statusFrames tenantId id timedOut ticks lastStatus (ticksSinceWrite + 1)
        .ret (if (ticksSinceWrite + 1) % 15 = 0 then .keepAlive :: frames else frames)

/-- `GET /documents/:id/events`. -/
def documentEvents (env : Environment) (tenant : TenantClaims) (id : JsString) : Route Response :=
  withDocumentId id fun id => catching 500 (js "internal error") do
    match ← Proc.call (S := api) (.getDocument tenant.tenantId id) with
    | none => .ret (errorResponse 404 (js "document not found"))
    | some _ =>
      let frames ← statusFrames tenant.tenantId id env.timedOut env.ticks none 0
      .ret ⟨200, .events frames, none⟩

/-! ## Chat -/

/-- The checked body of `POST /chat`. -/
def chatBody (assistantId question : Option Json) : Option (Option Uuid × JsString) := do
  return (← zodOptional zodUuid assistantId, ← zodQuestion question)

/-- Per-tenant rate limiting, which fails open. -/
def rateLimit (tenant : TenantClaims) (next : Route Response) : Route Response := do
  let result ← (some <$> Proc.call (S := api) (.consume tenant.tenantId)).tryCatch
      fun _ => .ret none
  match result with
  | some ⟨false, retryAfterSec⟩ =>
    .ret { errorResponse 429 (js "rate limit exceeded") with retryAfter := some retryAfterSec }
  | _ => next

/-- The sources of the hits that pass the gate. -/
def assembled (P : Platform) (deps : AppDeps)
    (hits : List ChunkHit) : Except JsError AssembledContext :=
  assembleContext P.tokenizer {
    maxSources := DEFAULT_ASSEMBLE_OPTIONS.maxSources
    tokenBudget := deps.contextTokenBudget } hits

/-- The frames after the stream was opened. -/
def chatFrames (P : Platform) (deps : AppDeps) (env : Environment) (tenantId assistantId : Uuid)
    (assistant : Assistant) (question : JsString) : Route (List ChatFrame) := do
  let hits ← (retrieve deps.embedder tenantId { assistantId, question }).toRoute
  let gate := evaluateThreshold hits assistant.refusalThreshold
  if gate.refuse then .ret [.token REFUSAL_MESSAGE, .done false [] env.latencyMs]
  else
    let ctx ← .ofExcept (assembled P deps hits)
    let request ← .ofExcept (chatRequest assistant.model
      (buildGroundingSystem assistant.systemPrompt) question ctx.text deps.maxOutputTokens)
    let generated ← Proc.call (S := api) (.generate request)
    .ret (answerFrames ctx.sources env.latencyMs generated.thrown [] generated.events)

/-- `POST /chat`. -/
def postChat (P : Platform) (deps : AppDeps) (env : Environment) (tenant : TenantClaims)
    (assistantId question : Option Json) : Route Response :=
  rateLimit tenant <|
    match chatBody assistantId question with
    | none => .ret (errorResponse 400 (js "invalid request"))
    | some (bodyAssistantId, question) =>
      -- the token always wins
      match tenant.assistantId <|> bodyAssistantId with
      | none => .ret (errorResponse 400 (js "assistantId is required"))
      | some assistantId => catching 503 (js "service unavailable") do
        match ← Proc.call (S := api) (.service (.findAssistant tenant.tenantId assistantId)) with
        | none => .ret (errorResponse 404 (js "assistant not found"))
        | some assistant =>
          if tenant.assistantId.isSome && assistant.status != .PUBLISHED then
            .ret (errorResponse 403 (js "assistant is not published"))
          else
            let frames ←
              (chatFrames P deps env tenant.tenantId assistantId assistant question).tryCatch
                fun _ => .ret [.internalError]
            .ret ⟨200, .chat frames, none⟩

/-! ## Admin routes -/

/-- The guard of an admin route. -/
def requireAdmin (tenant : TenantClaims) (route : Route Response) : Route Response :=
  if !isAdminSession tenant then .ret (errorResponse 403 (js "admin only")) else route

/-- `z.coerce.number().int().min(1).max(50).optional()` of what `Number` made of the value. -/
def zodK (k : Option JsNumber) : Option (Option JsNumber) :=
  match k with
  | none => some none
  | some (.finite q) => if q.isInt && 1 ≤ q && q ≤ 50 then some k else none
  | some _ => none

def PLAYGROUND_SNIPPET_MAX : ℕ := 200

def ChunkHit.retrievedView (h : ChunkHit) : RetrievedView where
  id := h.id
  documentId := h.documentId
  title := h.title
  page := h.page
  sectionText := h.sectionText
  score := h.score
  snippet := slice h.content 0 PLAYGROUND_SNIPPET_MAX

def AssembledSource.view (s : AssembledSource) : SourceView where
  marker := s.marker
  chunkId := s.chunkId
  documentId := s.documentId
  title := s.title
  page := s.page
  sectionText := s.sectionText
  score := s.score

/-- `POST /playground/retrieve`. -/
def postPlaygroundRetrieve (P : Platform) (deps : AppDeps) (tenant : TenantClaims)
    (assistantId question : Option Json) (k : Option JsNumber) : Route Response :=
  requireAdmin tenant <|
    match zodUuid assistantId, zodQuestion question, zodK k with
    | some assistantId, some question, some k => catching 503 (js "service unavailable") do
      match ← Proc.call (S := api) (.service (.findAssistant tenant.tenantId assistantId)) with
      | none => .ret (errorResponse 404 (js "assistant not found"))
      | some assistant =>
        let hits ← (retrieve deps.embedder tenant.tenantId { assistantId, question, k }).toRoute
        let gate := evaluateThreshold hits assistant.refusalThreshold
        -- assembly only runs when the gate would let generation proceed
        let ctx ← if gate.refuse then .ret none else some <$> .ofExcept (assembled P deps hits)
        .ret ⟨200, .playground {
          assistantId := assistant.id
          question
          threshold := assistant.refusalThreshold
          decision := gate
          retrieved := hits.map (·.retrievedView)
          assembled := ctx.map fun ctx => (ctx.totalTokens, ctx.sources.map (·.view)) }, none⟩
    | _, _, _ => .ret (errorResponse 400 (js "invalid request"))

def Assistant.view (a : Assistant) : AssistantView where
  id := a.id
  name := a.name
  status := a.status
  model := a.model
  refusalThreshold := a.refusalThreshold
  createdAt := a.createdAt

/-- `GET /assistants`. -/
def listAssistants (tenant : TenantClaims) : Route Response :=
  requireAdmin tenant <| catching 500 (js "internal error") do
    let assistants ← Proc.call (S := api) (.listAssistants tenant.tenantId)
    .ret ⟨200, .assistants (assistants.map (·.view)), none⟩

/-- `z.enum(['DRAFT', 'PUBLISHED'])`. -/
def zodStatus (v : Option Json) : Option AssistantStatus :=
  match zodString v with
  | some s =>
    if s = js "DRAFT" then some .DRAFT else if s = js "PUBLISHED" then some .PUBLISHED else none
  | none => none

/-- `z.coerce.number().min(0).max(1).optional()`. -/
def zodThreshold (v : Option JsNumber) : Option (Option ℚ) :=
  match v with
  | none => some none
  | some (.finite q) => if 0 ≤ q && q ≤ 1 then some (some q) else none
  | some _ => none

/-- `patchSchema`: at least one field must be present. -/
def patchBody (refusalThreshold : Option JsNumber)
    (status : Option Json) : Option AssistantPatch := do
  let refusalThreshold ← zodThreshold refusalThreshold
  let status ← zodOptional zodStatus status
  if refusalThreshold.isNone && status.isNone then none
  else return { refusalThreshold, status }

/-- The `:id` of an assistant route. -/
def withAssistantId (id : JsString) (route : Uuid → Route Response) : Route Response :=
  match Uuid.parse id with
  | none => .ret (errorResponse 400 (js "invalid assistant id"))
  | some id => route id

/-- `PATCH /assistants/:id`. -/
def patchAssistant (tenant : TenantClaims) (id : JsString) (refusalThreshold : Option JsNumber)
    (status : Option Json) : Route Response :=
  requireAdmin tenant <| withAssistantId id fun assistantId =>
    match patchBody refusalThreshold status with
    | none => .ret (errorResponse 400
        (js "refusalThreshold (0..1) and/or status (DRAFT|PUBLISHED)"))
    | some data => catching 500 (js "internal error") do
      let count ← Proc.call (S := api) (.updateAssistant tenant.tenantId assistantId data)
      if count = 0 then .ret (errorResponse 404 (js "assistant not found"))
      else .ret ⟨200, .patched id data, none⟩

/-- `POST /assistants/:id/api-keys`. -/
def postApiKey (deps : AppDeps) (env : Environment) (tenant : TenantClaims) (id : JsString) :
    Route Response :=
  requireAdmin tenant <| withAssistantId id fun assistantId => catching 500 (js "internal error") do
    let key := js "asab_sk_" ++ env.randomKey
    match ← Proc.call (S := api)
      (.createApiKey tenant.tenantId assistantId (deps.hashApiKey key)) with
    | none => .ret (errorResponse 404 (js "assistant not found"))
    | some created => .ret ⟨201, .apiKeyCreated created.id key created.createdAt, none⟩

/-- `GET /assistants/:id/api-keys`. -/
def listApiKeys (tenant : TenantClaims) (id : JsString) : Route Response :=
  requireAdmin tenant <| withAssistantId id fun assistantId => catching 500 (js "internal error") do
    let keys ← Proc.call (S := api) (.listApiKeys tenant.tenantId assistantId)
    .ret ⟨200, .apiKeys (keys.map fun key => ⟨key.id, key.createdAt, key.lastUsedAt⟩), none⟩

/-- `DELETE /assistants/:id/api-keys/:keyId`. -/
def deleteApiKey (tenant : TenantClaims) (id keyId : JsString) : Route Response :=
  requireAdmin tenant <|
    match Uuid.parse id, Uuid.parse keyId with
    | some assistantId, some keyId => catching 500 (js "internal error") do
      let count ← Proc.call (S := api) (.deleteApiKey tenant.tenantId assistantId keyId)
      if count = 0 then .ret (errorResponse 404 (js "api key not found"))
      else .ret ⟨204, .empty, none⟩
    | _, _ => .ret (errorResponse 400 (js "invalid id"))

/-! ## Public routes -/

/-- An expected auth failure, as its response. -/
abbrev AuthError : Type := Response

/-- `authRouter`'s handlers send an `AuthError` as it is, and anything else as a 500. -/
def sendAuth (route : Route (Except AuthError Response)) : Route Response :=
  catching 500 (js "internal error") do
    match ← route with
    | .ok response => .ret response
    | .error response => .ret response

def isEmailTaken (err : JsError) : Bool :=
  [js "email already registered", js "unique_violation", js "23505"].any fun text =>
    (indexOf text err.message).isSome

/-- `POST /auth/signup`. -/
def postSignup (deps : AppDeps) (env : Environment) (tenantName email password : Option Json) :
    Route Response :=
  match zodText 1 200 trim tenantName, (zodString email).bind deps.normalizeEmail,
      zodText 8 200 id password with
  | some tenantName, some email, some password => sendAuth do
    let created ← (Except.ok <$> Proc.call (S := api) (.createTenantAndOwner tenantName email
      (deps.hashPassword password))).tryCatch fun err =>
        if isEmailTaken err then .ret (.error (errorResponse 409 (js "email already registered")))
        else .throw err
    match created with
    | .error response => .ret (.error response)
    | .ok user =>
      let token := deps.signTenantToken ⟨user.tenantId, some user.id, none⟩ env.now
      .ret (.ok ⟨201, .token token, none⟩)
  | _, _, _ => .ret (errorResponse 400 (js "invalid request"))

/-- A hash no password matches, to equalize the work. -/
def DUMMY_HASH : JsString :=
  js "$argon2id$v=19$m=19456,t=2,p=1$1z9fmYLDxziaT+rU+ImbTg" ++
    js "$abr8wd9HpjYd1lr/iq/NRUvOMXU30XkN61NL1M4ZpVg"

/-- `POST /auth/login`. -/
def postLogin (deps : AppDeps) (env : Environment)
    (email password : Option Json) : Route Response :=
  match (zodString email).bind deps.normalizeEmail, zodText 1 200 id password with
  | some email, some password => sendAuth do
    let user ← Proc.call (S := api) (.findUserByEmail email)
    let ok := deps.verifyPassword ((user.map (·.passwordHash)).getD DUMMY_HASH) password
    match user, ok with
    | some user, true =>
      let token := deps.signTenantToken ⟨user.tenantId, some user.id, none⟩ env.now
      .ret (.ok ⟨200, .token token, none⟩)
    | _, _ => .ret (.error (errorResponse 401 (js "invalid credentials")))
  | _, _ => .ret (errorResponse 400 (js "invalid request"))

/-- The claims of the token `exchangeApiKey` mints. -/
def consumerClaims (tenantId assistantId : Uuid) : TenantClaims :=
  ⟨tenantId, none, some assistantId⟩

/-- `POST /auth/api-key`. -/
def exchangeApiKey (deps : AppDeps) (env : Environment) (apiKey : Option Json) : Route Response :=
  match zodText 1 200 id apiKey with
  | none => .ret (errorResponse 400 (js "invalid request"))
  | some rawKey => sendAuth do
    match ← Proc.call (S := api) (.resolveApiKey (deps.hashApiKey rawKey)) with
    | none => .ret (.error (errorResponse 401 (js "invalid api key")))
    | some row =>
      let published ← Proc.call (S := api) (.findPublished row.tenantId row.assistantId)
      if !published then .ret (.error (errorResponse 403 (js "assistant is not published")))
      else
        let token := deps.signTenantToken (consumerClaims row.tenantId row.assistantId) env.now
        .ret (.ok ⟨200, .token token, none⟩)

/-! ## The app -/

/-- A request, as far as the app looks at it. -/
inductive Request
  | health
  | signup (tenantName email password : Option Json)
  | login (email password : Option Json)
  | exchangeApiKey (apiKey : Option Json)
  | postDocument (form : Multipart)
  | listDocuments (assistantId : Option Json) (limit : JsNumber)
  | getDocument (id : JsString)
  | deleteDocument (id : JsString)
  | documentEvents (id : JsString)
  | chat (assistantId question : Option Json)
  | playgroundRetrieve (assistantId question : Option Json) (k : Option JsNumber)
  | listAssistants
  | patchAssistant (id : JsString) (refusalThreshold : Option JsNumber) (status : Option Json)
  | postApiKey (id : JsString)
  | listApiKeys (id : JsString)
  | deleteApiKey (id keyId : JsString)

/-- The route is mounted behind `tenantContext`. -/
def Request.readsToken : Request → Bool
  | health | signup .. | login .. | exchangeApiKey .. => false
  | _ => true

/-- A route behind `tenantContext`, under the claims of the token. -/
def tenantContext (env : Environment) (route : Route Response) : Route Response :=
  if env.tokenVerifies then route else .ret (errorResponse 401 (js "invalid or expired token"))

/-- **The app**: what it does with a request that carries a token with these claims. -/
def app (P : Platform) (deps : AppDeps) (env : Environment) (claims : TenantClaims) :
    Request → Route Response
  | .health => .ret ⟨200, .health, none⟩
  | .signup tenantName email password => postSignup deps env tenantName email password
  | .login email password => postLogin deps env email password
  | .exchangeApiKey apiKey => exchangeApiKey deps env apiKey
  | .postDocument form => tenantContext env (postDocument env claims form)
  | .listDocuments assistantId limit => tenantContext env (listDocuments claims assistantId limit)
  | .getDocument id => tenantContext env (getDocument claims id)
  | .deleteDocument id => tenantContext env (deleteDocument claims id)
  | .documentEvents id => tenantContext env (documentEvents env claims id)
  | .chat assistantId question =>
    tenantContext env (postChat P deps env claims assistantId question)
  | .playgroundRetrieve assistantId question k =>
    tenantContext env (postPlaygroundRetrieve P deps claims assistantId question k)
  | .listAssistants => tenantContext env (listAssistants claims)
  | .patchAssistant id refusalThreshold status =>
    tenantContext env (patchAssistant claims id refusalThreshold status)
  | .postApiKey id => tenantContext env (postApiKey deps env claims id)
  | .listApiKeys id => tenantContext env (listApiKeys claims id)
  | .deleteApiKey id keyId => tenantContext env (deleteApiKey claims id keyId)

/-- One answered request. -/
structure Answer where
  request : Request
  result : Except JsError Response

/-- **A sequence of requests**, each served to its end. -/
def serve (P : Platform) (deps : AppDeps) (claims : TenantClaims) :
    List (Request × Environment) → ApiState → Option (List Answer × ApiState)
  | [], s => some ([], s)
  | (request, env) :: requests, s =>
    ((app P deps env claims request).run (ApiState.handle P) env.decisions s).bind
      fun (result, s) =>
      (serve P deps claims requests s).map fun (answers, s) => (⟨request, result⟩ :: answers, s)

/-- An app to run it on. -/
def sampleDeps : AppDeps where
  embedder := ⟨js "text-embedding-3-small", EMBEDDING_DIMENSIONS⟩
  contextTokenBudget := .finite 2000
  maxOutputTokens := 2048
  normalizeEmail := some
  hashPassword := id
  verifyPassword := fun hash password => hash == password
  hashApiKey := id
  signTenantToken := fun _ _ => []

import SupportAgent.Chat.Answer
import SupportAgent.Machinery.Sequential
import SupportAgent.RateLimit.RedisTokenBucket
import SupportAgent.Routes.Validation
import SupportAgent.Store.Constraints

/-!
# Routes/Tables — the calls of the API, and the state it shares with the workers

The API reads and writes the workers' state (`World`) and three tables of its own.  Its calls
(`ApiCall`) are those of the services it reuses, its own statements under a tenant's row-level
security, the functions that run before any tenant is known, and two requests to the outside.
-/

open Ingestion

structure Tenant where
  id : Uuid
  name : JsString

inductive UserRole
  | OWNER
  | MEMBER
  deriving DecidableEq

structure AppUser where
  id : Uuid
  tenantId : Uuid
  email : JsString
  passwordHash : JsString
  role : UserRole := .OWNER

structure ApiKey where
  id : Uuid
  tenantId : Uuid
  assistantId : Uuid
  keyHash : JsString
  lastUsedAt : Option ℕ
  createdAt : ℕ

/-- **The state of the API.** -/
structure ApiState where
  world : World
  tenants : List Tenant := []
  users : List AppUser := []
  apiKeys : List ApiKey := []

/-- The fields of a `PATCH` that are given. -/
structure AssistantPatch where
  refusalThreshold : Option ℚ
  status : Option AssistantStatus

inductive ApiCall
  | service (c : Call)
  | listDocuments (tenantId assistantId : Uuid) (take : ℕ)
  | getDocument (tenantId id : Uuid)
  | listAssistants (tenantId : Uuid)
  | updateAssistant (tenantId id : Uuid) (data : AssistantPatch)
  | createApiKey (tenantId assistantId : Uuid) (keyHash : JsString)
  | listApiKeys (tenantId assistantId : Uuid)
  | deleteApiKey (tenantId assistantId id : Uuid)
  | createTenantAndOwner (tenantName email passwordHash : JsString)
  | findUserByEmail (email : JsString)
  | resolveApiKey (keyHash : JsString)
  | findPublished (tenantId assistantId : Uuid)
  | consume (tenantId : Uuid)
  | generate (request : ChatRequest)

abbrev ApiCall.Res : ApiCall → Type
  | service c => c.Res
  | listDocuments .. => List (Document × ℕ)
  | getDocument .. => Option (Document × ℕ)
  | listAssistants .. => List Assistant
  | updateAssistant .. => ℕ
  | createApiKey .. => Option ApiKey
  | listApiKeys .. => List ApiKey
  | deleteApiKey .. => ℕ
  | createTenantAndOwner .. => AppUser
  | findUserByEmail .. => Option AppUser
  | resolveApiKey .. => Option ApiKey
  | findPublished .. => Bool
  | consume .. => RateLimitResult
  | generate .. => Generated

abbrev api : Async.Signature := ⟨ApiCall, ApiCall.Res⟩

/-- The body of a route. -/
abbrev Route (α : Type) : Type := Async.Proc api JsError α

/-- A service function called by a route. -/
def Service.toRoute {α : Type} : Service α → Route α
  | .ret a => .ret a
  | .throw e => .throw e
  | .await c k => .await (.service c) fun r => Service.toRoute (k r)

/-- What the outside world decides about a call of the API. -/
structure ApiDecision extends Decision where
  limit : RateLimitResult := ⟨true, 0⟩
  generated : Generated := ⟨[], none⟩

/-! ## Statements -/

/-- A document with the number of its chunks. -/
def World.counted (w : World) (doc : Document) : Document × ℕ :=
  (doc, w.chunks.countP (·.references doc))

/-- `ORDER BY created_at DESC`. -/
def createdDesc (doc doc' : Document) : Bool := doc'.createdAt ≤ doc.createdAt

def AssistantPatch.apply (data : AssistantPatch) (a : Assistant) : Assistant :=
  { a with
    refusalThreshold := data.refusalThreshold.getD a.refusalThreshold
    status := data.status.getD a.status }

/-- The assistant every new tenant starts with. -/
def defaultAssistant (id tenantId : Uuid) (now : ℕ) : Assistant where
  id := id
  tenantId := tenantId
  name := js "Default assistant"
  systemPrompt := none
  model := js "claude-haiku-4-5"
  embeddingModel := none
  refusalThreshold := 7 / 20
  status := .DRAFT
  createdAt := now

def ApiKey.visible (tenantId assistantId : Uuid) (key : ApiKey) : Bool :=
  key.tenantId == tenantId && key.assistantId == assistantId

def emailTaken : JsError := .new (js "email already registered")

namespace ApiState

variable (s : ApiState)

def updateAssistants (p : Assistant → Bool) (f : Assistant → Assistant) : ApiState :=
  { s with world := { s.world with assistants := Table.updateMany p f s.world.assistants } }

/-- **A call going through.** -/
def exec (P : Platform) : (c : ApiCall) → ApiDecision → Option (Except JsError c.Res × ApiState)
  | .service c, d => (s.world.exec P c d.toDecision).map fun (r, world) => (r, { s with world })
  | .listDocuments tenantId assistantId take, _ =>
    let docs := s.world.documents.filter fun doc =>
      doc.tenantId == tenantId && doc.assistantId == assistantId
    some (.ok (((docs.mergeSort createdDesc).take take).map s.world.counted), s)
  | .getDocument tenantId id, _ =>
    some (.ok ((s.world.findDocument tenantId id).map fun doc =>
      (doc, s.world.chunks.countP fun c => c.tenantId == tenantId && c.documentId == id)), s)
  | .listAssistants tenantId, _ =>
    let assistants := s.world.assistants.filter (·.tenantId == tenantId)
    some (.ok (assistants.mergeSort fun a b => decide (a.createdAt ≤ b.createdAt)), s)
  | .updateAssistant tenantId id data, _ =>
    some (.ok (s.world.assistants.countP (·.visible tenantId id)),
      s.updateAssistants (·.visible tenantId id) data.apply)
  | .createApiKey tenantId assistantId keyHash, d =>
    match s.world.findAssistant tenantId assistantId with
    | none => some (.ok none, s)
    | some _ =>
      match d.ids with
      | [id] =>
        let key : ApiKey := {
          id, tenantId, assistantId, keyHash, lastUsedAt := none, createdAt := d.now }
        some (.ok (some key), { s with apiKeys := s.apiKeys ++ [key] })
      | _ => none
  | .listApiKeys tenantId assistantId, _ =>
    let keys := s.apiKeys.filter (·.visible tenantId assistantId)
    some (.ok (keys.mergeSort fun a b => decide (b.createdAt ≤ a.createdAt)), s)
  | .deleteApiKey tenantId assistantId id, _ =>
    let p := fun key : ApiKey => key.visible tenantId assistantId && key.id == id
    some (.ok (s.apiKeys.countP p), { s with apiKeys := Table.deleteMany p s.apiKeys })
  | .createTenantAndOwner tenantName email passwordHash, d =>
    if s.users.any (·.email == email) then some (.error emailTaken, s)
    else
      match d.ids with
      | [tenantId, userId, assistantId] =>
        -- `gen_random_uuid()`, three times
        if tenantId ∈ s.tenants.map (·.id) ∨ assistantId ∈ s.world.assistants.map (·.id) then none
        else
          let user : AppUser := { id := userId, tenantId, email, passwordHash, role := .OWNER }
          some (.ok user, {
            s with
            tenants := s.tenants ++ [⟨tenantId, tenantName⟩]
            users := s.users ++ [user]
            world := { s.world with
              assistants := s.world.assistants ++ [defaultAssistant assistantId tenantId d.now] } })
      | _ => none
  | .findUserByEmail email, _ => some (.ok (s.users.find? (·.email == email)), s)
  | .resolveApiKey keyHash, _ => some (.ok (s.apiKeys.find? (·.keyHash == keyHash)), s)
  | .findPublished tenantId assistantId, _ =>
    some (.ok ((s.world.findAssistant tenantId assistantId).any (·.status == .PUBLISHED)), s)
  | .consume _, d => some (.ok d.limit, s)
  | .generate _, d => some (.ok d.generated, s)

/-- **A call, whatever happens to it.** -/
def handle (P : Platform) : Async.Handler api JsError ApiDecision ApiState :=
  fun s c d => Fault.through d.fault s (s.exec P c d)

end ApiState

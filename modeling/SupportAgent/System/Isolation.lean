import SupportAgent.Routes.Tenancy
import SupportAgent.System.Confinement

/-!
# System/Isolation — tenants sharing the database, the object store and the limiter

Requests under the tokens of other tenants and the workers on their documents are interleaved call
by call, and any of them may fail or be lost.  Every call is made under its own tenant, so that it
spares this one; the one key that is read from a row, that of a deleted document's object, is
another tenant's by `KeysApart`.

* `tenants_isolated` — the others leave a tenant's part of the state as it was, and its requests see
  nothing beyond that part.
-/

open Async Ingestion

/-! ## What the tenants share -/

/-- The state of the API, and the buckets `ratelimit:chat:{tenantId}` of its rate limiter. -/
structure SharedState where
  stored : ApiState
  buckets : Uuid → Option StoredBucket := fun _ => none

/-- What the outside world decides about a call, with the clocks of the limiter. -/
structure SharedDecision extends ApiDecision where
  clocks : Consume := ⟨0, 0⟩

namespace SharedState

variable (P : Platform) (limiter : RedisTokenBucket)

/-- **A call going through.** -/
def exec (s : SharedState) : (c : ApiCall) → SharedDecision →
    Option (Except JsError c.Res × SharedState)
  | .consume tenantId, d =>
    let (result, bucket) := limiter.consume (s.buckets tenantId) d.clocks
    some (.ok result, { s with buckets := Function.update s.buckets tenantId (some bucket) })
  | c, d => (s.stored.exec P c d.toApiDecision).map fun (r, stored) => (r, { s with stored })

/-- **A call, whatever happens to it.** -/
def handle : Async.Handler api JsError SharedDecision SharedState :=
  fun s c d => Fault.through d.fault s (s.exec P limiter c d)

/-- **The part of a tenant**: its rows, its objects and its bucket. -/
def part (tenantId : Uuid) (s : SharedState) : SharedState where
  stored := s.stored.part tenantId
  buckets t := if t = tenantId then s.buckets t else none

/-- **No other tenant has a document stored under a key of this one.** -/
def KeysApart (tenantId : Uuid) (s : SharedState) : Prop :=
  ∀ doc ∈ s.stored.world.documents, doc.storageKey.tenantId = tenantId → doc.tenantId = tenantId

variable {P} {limiter} {tenantId : Uuid} {s t : SharedState} {c : ApiCall} {d : SharedDecision}
  {r : Except JsError c.Res}

theorem part_congr (hstored : s.stored.part tenantId = t.stored.part tenantId)
    (hbucket : s.buckets tenantId = t.buckets tenantId) : s.part tenantId = t.part tenantId := by
  have hkeep : ∀ t', (if t' = tenantId then s.buckets t' else none) =
      if t' = tenantId then t.buckets t' else none := by
    intro t'
    split
    · subst t'
      exact hbucket
    · rfl
  rw [part, part, hstored, funext hkeep]

theorem stored_of_part (h : s.part tenantId = t.part tenantId) :
    s.stored.part tenantId = t.stored.part tenantId :=
  congrArg SharedState.stored h

theorem bucket_of_part (h : s.part tenantId = t.part tenantId) :
    s.buckets tenantId = t.buckets tenantId := by
  have hbucket : (s.part tenantId).buckets tenantId =
      (t.part tenantId).buckets tenantId := by rw [h]
  simpa [part] using hbucket

/-- A call is a matter of the limiter or of the API. -/
theorem exec_cases (h : s.exec P limiter c d = some (r, t)) :
    (∃ t', c = .consume t') ∨ (∀ t', c ≠ .consume t') ∧
    ∃ u, s.stored.exec P c d.toApiDecision = some (r, u) ∧
      t = { s with stored := u } := by
  have hmap : ∀ {x : Option (Except JsError c.Res × ApiState)},
      x.map (fun y => (y.1, ({ s with stored := y.2 } : SharedState))) = some (r, t) →
      ∃ u, x = some (r, u) ∧ t = { s with stored := u } := by
    intro x hx
    obtain ⟨⟨r', u⟩, rfl, heq⟩ := Option.map_eq_some_iff.mp hx
    obtain ⟨rfl, rfl⟩ := Prod.mk.inj heq
    exact ⟨u, rfl, rfl⟩
  cases c with
  | consume t' => exact .inl ⟨t', rfl⟩
  | _ => exact .inr ⟨fun _ hc => (nomatch hc), hmap h⟩

/-- **States with the same part answer a call of the tenant's requests alike**, and keep the same
part. -/
theorem exec_agree {s' t' : SharedState} {r' : Except JsError c.Res} (hc : c.OfRequest tenantId)
    (hpart : s.part tenantId = s'.part tenantId) (h : s.exec P limiter c d = some (r, t))
    (h' : s'.exec P limiter c d = some (r', t')) : r = r' ∧ t.part tenantId = t'.part tenantId := by
  have hstored := stored_of_part hpart
  have hbucket := bucket_of_part hpart
  obtain ⟨t₀, rfl⟩ | ⟨hother, u, hu, rfl⟩ := exec_cases h
  · obtain rfl | ⟨key, hkey⟩ := hc
    case inr => cases hkey
    obtain ⟨rfl, rfl⟩ := Prod.mk.inj (Option.some.inj h)
    obtain ⟨rfl, rfl⟩ := Prod.mk.inj (Option.some.inj h')
    rw [hbucket]
    refine ⟨rfl, part_congr hstored ?_⟩
    dsimp only
    rw [Function.update_self, Function.update_self]
  · obtain ⟨t₀, rfl⟩ | ⟨-, u', hu', rfl⟩ := exec_cases h'
    · exact absurd rfl (hother t₀)
    · obtain ⟨rfl, hkept⟩ := ApiState.exec_agree hc hstored hu hu'
      exact ⟨rfl, part_congr hkept hbucket⟩

/-- **A call that spares the tenant leaves its part alone.** -/
theorem part_eq_of_spares (hc : c.Spares tenantId) (h : s.exec P limiter c d = some (r, t)) :
    t.part tenantId = s.part tenantId := by
  obtain ⟨t₀, rfl⟩ | ⟨-, u, hu, rfl⟩ := exec_cases h
  · obtain ⟨-, rfl⟩ := Prod.mk.inj (Option.some.inj h)
    exact part_congr rfl (Function.update_of_ne (Ne.symm hc) _ _)
  · exact part_congr (ApiState.part_eq_of_spares hc hu) rfl

theorem KeysApart.exec (hs : s.KeysApart tenantId) (hc : c.Spares tenantId)
    (h : s.exec P limiter c d = some (r, t)) : t.KeysApart tenantId := by
  obtain ⟨t₀, rfl⟩ | ⟨-, u, hu, rfl⟩ := exec_cases h
  · obtain ⟨-, rfl⟩ := Prod.mk.inj (Option.some.inj h)
    exact hs
  · intro doc hdoc hkey
    obtain ⟨doc₀, hmem, hfile⟩ | hne := ApiState.document_of_spares hc hu hdoc
    · have hkey₀ : doc.storageKey = doc₀.storageKey := congrArg DocumentFile.storageKey hfile
      have htenant : doc.tenantId = doc₀.tenantId := congrArg DocumentFile.tenantId hfile
      rw [htenant]
      exact hs doc₀ hmem (hkey₀ ▸ hkey)
    · exact absurd hkey hne

/-- The key a deletion resolves to was in a row of its tenant. -/
theorem document_of_deleteDocument {t₀ id : Uuid} {key : ObjectKey}
    (h : s.handle P limiter (.service (.deleteDocument t₀ id)) d = some (.ok (some key), t)) :
    ∃ doc ∈ s.stored.world.documents, doc.tenantId = t₀ ∧ doc.storageKey = key := by
  obtain ⟨⟨_, u⟩, hu, heq⟩ := Option.map_eq_some_iff.mp (Fault.eq_of_through_ok h)
  obtain ⟨⟨_, w⟩, hw, heq'⟩ := Option.map_eq_some_iff.mp hu
  obtain ⟨rfl, -⟩ := Prod.mk.inj heq
  obtain ⟨rfl, -⟩ := Prod.mk.inj heq'
  simp only [World.exec] at hw
  split at hw
  case h_1 => simp at hw
  case h_2 doc hdoc =>
    obtain ⟨hkey, -⟩ := Prod.mk.inj (Option.some.inj hw)
    exact ⟨doc, List.mem_of_find?_eq_some hdoc,
      (Document.visible_iff.mp (List.find?_some hdoc :)).2, Option.some.inj (Except.ok.inj hkey)⟩

end SharedState

/-! ## The calls of the routes -/

section

variable {P : Platform} {deps : AppDeps} {env : Environment} {claims : TenantClaims}

theorem under_storeFile (assistantId documentId : Uuid) (file : UploadedFile) (found : FoundType) :
    (storeFile claims.tenantId assistantId documentId file found).toRoute.Only
      (ApiCall.Under claims.tenantId) := by
  refine only_toRoute ?_
  cases found with
  | source sourceType =>
    refine Proc.Only.bind (Proc.only_call (by exact rfl)) fun assistant => ?_
    split
    · trivial
    refine Proc.Only.bind (Proc.only_call (by exact rfl)) fun _ => ?_
    refine Proc.Only.bind (Proc.only_call (by exact ⟨rfl, rfl⟩)) fun _ => ?_
    exact Proc.Only.bind (Proc.only_call (by exact trivial)) fun _ => trivial
  | inherited =>
    refine Proc.Only.bind (Proc.only_call (by exact rfl)) fun assistant => ?_
    split
    · trivial
    · exact Proc.Only.bind (Proc.only_call (by exact rfl)) fun _ => trivial

theorem under_statusFrames (id : Uuid) (timedOut : Bool) (ticks : ℕ)
    (lastStatus : Option DocumentStatus) (ticksSinceWrite : ℕ) :
    (statusFrames claims.tenantId id timedOut ticks lastStatus ticksSinceWrite).Only
      (ApiCall.Under claims.tenantId) := by
  induction ticks generalizing lastStatus ticksSinceWrite with
  | zero => trivial
  | succ ticks ih =>
    refine Proc.Only.bind (Proc.Only.tryCatch (Proc.Only.map (Proc.only_call rfl)) fun _ => trivial)
      fun snap => ?_
    split
    · trivial
    · trivial
    split
    · split
      · trivial
      · exact Proc.Only.bind (ih _ _) fun _ => trivial
    · exact Proc.Only.bind (ih _ _) fun _ => trivial

/-- The guard of an `:id`, whatever it answers without one. -/
theorem only_parsedId {C : ApiCall → Prop} {id : JsString} {refused : Response}
    {route : Uuid → Route Response} (h : ∀ id, (route id).Only C) :
    Proc.Only C (match Uuid.parse id with
      | none => .ret refused
      | some id => route id) := by
  split
  · trivial
  · exact h _

theorem only_withDocumentId {C : ApiCall → Prop} {id : JsString} {route : Uuid → Route Response}
    (h : ∀ id, (route id).Only C) : (withDocumentId id route).Only C := only_parsedId h

theorem only_withAssistantId {C : ApiCall → Prop} {id : JsString} {route : Uuid → Route Response}
    (h : ∀ id, (route id).Only C) : (withAssistantId id route).Only C := only_parsedId h

theorem only_requireAdmin {C : ApiCall → Prop} {route : Route Response} (h : route.Only C) :
    (requireAdmin claims route).Only C := by
  rw [requireAdmin]
  split
  · trivial
  · exact h

theorem under_postPlaygroundRetrieve (assistantId question : Option Json) (k : Option JsNumber) :
    (postPlaygroundRetrieve P deps claims assistantId question k).Only
      (ApiCall.Under claims.tenantId) := by
  refine only_requireAdmin ?_
  split
  case h_2 => trivial
  refine only_catching (Proc.Only.bind (Proc.only_call (by exact rfl)) fun assistant => ?_)
  split
  · trivial
  refine Proc.Only.bind (only_toRoute (only_retrieve (by exact fun _ _ => trivial) (by exact rfl)
    (by exact fun _ _ _ => rfl))) fun hits => ?_
  dsimp only
  split
  · trivial
  · exact Proc.Only.bind (Proc.Only.map (Proc.only_ofExcept _)) fun ctx => trivial

/-- **A request makes its calls under the tenant of its token**, the deletion of an object apart. -/
theorem under_app {r : Request} (htoken : r.readsToken = true)
    (hdelete : ∀ id, r ≠ .deleteDocument id) :
    (app P deps env claims r).Only (ApiCall.Under claims.tenantId) := by
  cases r with
  | health | signup | login | exchangeApiKey => cases htoken
  | deleteDocument id => exact absurd rfl (hdelete id)
  | postDocument form =>
    refine only_tenantContext ?_
    rw [postDocument]
    split
    · trivial
    refine only_catching (Proc.Only.bind (under_storeFile _ _ _ _) fun stored => ?_)
    split <;> trivial
  | listDocuments assistantId limit =>
    refine only_tenantContext ?_
    rw [listDocuments]
    split
    · trivial
    · exact only_catching (Proc.Only.bind (Proc.only_call (by exact rfl)) fun docs => trivial)
  | getDocument id =>
    refine only_tenantContext (only_withDocumentId fun id => only_catching
      (Proc.Only.bind (Proc.only_call (by exact rfl)) fun found => ?_))
    split <;> trivial
  | documentEvents id =>
    refine only_tenantContext (only_withDocumentId fun id => only_catching
      (Proc.Only.bind (Proc.only_call (by exact rfl)) fun found => ?_))
    split
    · trivial
    · exact Proc.Only.bind (under_statusFrames _ _ _ _ _) fun frames => trivial
  | chat assistantId question =>
    exact only_tenantContext (only_postChat (C := ApiCall.Under claims.tenantId) rfl
      (fun id _ =>
        ⟨rfl, only_chatFrames (fun _ _ => trivial) rfl (fun _ _ _ => rfl) fun _ => trivial⟩)
      _ _)
  | playgroundRetrieve assistantId question k =>
    exact only_tenantContext (under_postPlaygroundRetrieve _ _ _)
  | listAssistants =>
    exact only_tenantContext (only_requireAdmin (only_catching
      (Proc.Only.bind (Proc.only_call (by exact rfl)) fun assistants => trivial)))
  | patchAssistant id refusalThreshold status =>
    refine only_tenantContext (only_requireAdmin (only_withAssistantId fun id => ?_))
    split
    · trivial
    refine only_catching (Proc.Only.bind (Proc.only_call (by exact rfl)) fun count => ?_)
    split <;> trivial
  | postApiKey id =>
    refine only_tenantContext (only_requireAdmin (only_withAssistantId fun id => only_catching
      (Proc.Only.bind (Proc.only_call (by exact rfl)) fun created => ?_)))
    split <;> trivial
  | listApiKeys id =>
    exact only_tenantContext (only_requireAdmin (only_withAssistantId fun id => only_catching
      (Proc.Only.bind (Proc.only_call (by exact rfl)) fun keys => trivial)))
  | deleteApiKey id keyId =>
    refine only_tenantContext (only_requireAdmin ?_)
    split
    case h_2 => trivial
    refine only_catching (Proc.Only.bind (Proc.only_call (by exact rfl)) fun count => ?_)
    split <;> trivial

/-- **The calls of any request**, under the tenant of its token. -/
theorem ofRequest_app {r : Request} (htoken : r.readsToken = true) :
    (app P deps env claims r).Only (ApiCall.OfRequest claims.tenantId) := by
  by_cases hdelete : ∀ id, r ≠ .deleteDocument id
  · exact (under_app htoken hdelete).imp fun _ => .inl
  · obtain ⟨id, hid⟩ := not_forall.mp hdelete
    obtain rfl : r = .deleteDocument id := not_not.mp hid
    refine only_tenantContext (only_withDocumentId fun id => only_catching
      (Proc.Only.bind (only_toRoute (only_removeDocument (by exact .inl rfl)
        (by exact fun key => .inr ⟨key, rfl⟩))) fun removed => ?_))
    split <;> trivial

end

/-! ## What the others do -/

/-- What starts for a tenant: a request under a token of it, an execution of a job of it, or the
failure handler of such a job. -/
inductive TenantTask
  | request (env : Environment) (claims : TenantClaims) (request : Request)
  | ingest (embedder : Embedder) (job : IngestJobData)
  | failed (job : IngestJobData) (attemptsMade attempts : ℕ) (err : JsError)

namespace Isolation

variable (P : Platform) (deps : AppDeps) (limiter : RedisTokenBucket) (tenantId : Uuid)

/-- The tasks of the tenants other than this one; a request ends in its response. -/
def launch (_ : SharedState) : TenantTask → Option (Route (Option Response))
  | .request env claims request =>
    if request.readsToken ∧ claims.tenantId ≠ tenantId then
      some (app P deps env claims request >>= fun response => .ret (some response))
    else none
  | .ingest embedder job =>
    if job.tenantId ≠ tenantId then
      some ((processJob P embedder job).toRoute >>= fun _ => .ret none)
    else none
  | .failed job attemptsMade attempts err =>
    if job.tenantId ≠ tenantId then
      some ((onFailed job attemptsMade attempts err).toRoute >>= fun _ => .ret none)
    else none

/-- The shared state and the tasks of the others at work on it. -/
abbrev State : Type := Pool api JsError (Option Response) SharedState

abbrev Move : Type := Pool.Move TenantTask SharedDecision

/-- **One move of the others.** -/
def step : State → Move → Option State :=
  Pool.step (SharedState.handle P limiter) (launch P deps tenantId)

/-- **The others leave the tenant's part as it is**, whatever they do from this state on. -/
def Undisturbed (s : SharedState) : Prop :=
  ∀ c, Run.Reachable (step P deps limiter tenantId) Run.anyMove (· = ⟨s, []⟩) c →
    c.world.part tenantId = s.part tenantId

/-- **Any request of the tenant gets the same response** from both states. -/
def AnsweredAlike (s s' : SharedState) : Prop :=
  ∀ (claims : TenantClaims) (request : Request) (env : Environment) (decisions : ℕ → SharedDecision)
    (result result' : Except JsError Response) (t t' : SharedState),
    claims.tenantId = tenantId → request.readsToken = true →
    (app P deps env claims request).run (SharedState.handle P limiter) decisions s =
      some (result, t) →
    (app P deps env claims request).run (SharedState.handle P limiter) decisions s' =
      some (result', t') → result = result'

/-- **The agreement of the others**: what they do, they do to their own. -/
def isolationContract : Contract api JsError SharedDecision SharedState where
  handler := SharedState.handle P limiter
  meets := fun _ _ _ => True
  inv := SharedState.KeysApart tenantId
  rely s t := t.part tenantId = s.part tenantId
  guar s t := t.part tenantId = s.part tenantId
  rely_refl _ := rfl
  rely_trans h h' := h'.trans h

variable {P} {deps} {limiter} {tenantId} {s : SharedState}

/-- One call that spares the tenant. -/
theorem spares_step {c : ApiCall} {d : SharedDecision} {r : Except JsError c.Res} {t : SharedState}
    (hs : s.KeysApart tenantId) (hc : c.Spares tenantId)
    (h : s.handle P limiter c d = some (r, t)) :
    t.KeysApart tenantId ∧ t.part tenantId = s.part tenantId := by
  obtain ⟨r', hexec⟩ | rfl := Fault.through_cases h
  · exact ⟨hs.exec hc hexec, SharedState.part_eq_of_spares hc hexec⟩
  · exact ⟨hs, rfl⟩

/-- A body whose calls spare the tenant honours the agreement. -/
theorem isolated_of_only {α : Type} {p : Route α} (hp : p.Only (ApiCall.Spares tenantId)) :
    (isolationContract P limiter tenantId).Safe (fun _ _ => True) p s :=
  Contract.Safe.of_only (J := fun _ => True)
    (fun _ hc _ _ _ _ (hi : SharedState.KeysApart tenantId _) _ _ hh =>
      ⟨(spares_step hi hc hh).1, (spares_step hi hc hh).2, trivial⟩)
    (fun _ _ _ _ => trivial) hp trivial

/-- **A deletion takes its own object**: the key comes from a row of another tenant. -/
theorem isolated_removeDocument {t₀ : Uuid} (ht : t₀ ≠ tenantId) (id : Uuid) :
    (isolationContract P limiter tenantId).Safe (fun _ _ => True)
      (removeDocument t₀ id).toRoute s := by
  intro s₁ _ hi d r s₂ _ hh
  obtain ⟨hinv, hpart⟩ := spares_step (c := .service (.deleteDocument t₀ id)) hi ht hh
  refine ⟨hinv, hpart, ?_⟩
  rcases r with e | _ | key
  · trivial
  · trivial
  obtain ⟨doc, hdoc, htenant, rfl⟩ := SharedState.document_of_deleteDocument hh
  have hkey : doc.storageKey.tenantId ≠ tenantId := fun heq =>
    ht (htenant.symm.trans (hi doc hdoc heq))
  exact isolated_of_only (p := Service.toRoute (((Proc.call (S := backend)
      (.storageDelete doc.storageKey)).tryCatch fun _ => pure ()) >>= fun _ => pure true))
    (only_toRoute (Proc.Only.bind (Proc.Only.tryCatch (Proc.only_call (by exact hkey))
      fun _ => trivial) fun _ => trivial))

theorem isolated_deleteDocument {env : Environment} {claims : TenantClaims}
    (ht : claims.tenantId ≠ tenantId) (id : JsString) :
    (isolationContract P limiter tenantId).Safe (fun _ _ => True)
      (app P deps env claims (.deleteDocument id)) s := by
  rw [app, tenantContext]
  split
  case isFalse => trivial
  rw [deleteDocument, withDocumentId]
  split
  · trivial
  refine Contract.Safe.tryCatch (Contract.Safe.bind ((isolated_removeDocument ht _).imp ?_))
  rintro (e | removed) t -
  · trivial
  · cases removed <;> trivial

/-- **Every task of the others honours the agreement.** -/
theorem isolated_launch (task : TenantTask) (p : Route (Option Response))
    (h : launch P deps tenantId s task = some p) :
    (isolationContract P limiter tenantId).Safe (fun _ _ => True) p s := by
  cases task with
  | request env claims request =>
    simp only [launch] at h
    split at h
    case isFalse => simp at h
    case isTrue hcond =>
      obtain rfl := Option.some.inj h
      obtain ⟨htoken, hne⟩ := hcond
      refine Contract.Safe.then ?_
      by_cases hdelete : ∀ id, request ≠ .deleteDocument id
      · exact isolated_of_only ((under_app htoken hdelete).imp fun c hc => hc.spares hne)
      · obtain ⟨id, hid⟩ := not_forall.mp hdelete
        obtain rfl : request = .deleteDocument id := not_not.mp hid
        exact isolated_deleteDocument hne id
  | ingest embedder job =>
    simp only [launch] at h
    split at h
    case isFalse => simp at h
    case isTrue hne =>
      obtain rfl := Option.some.inj h
      exact (isolated_of_only (only_toRoute (only_processJob.imp fun c hc => hc.spares hne))).then
  | failed job attemptsMade attempts err =>
    simp only [launch] at h
    split at h
    case isFalse => simp at h
    case isTrue hne =>
      obtain rfl := Option.some.inj h
      exact (isolated_of_only (only_toRoute (only_onFailed fun _ => hne))).then

/-! ## The result -/

/-- A request of the tenant, from two states with the same part. -/
theorem run_app_agree {env : Environment} {claims : TenantClaims} {request : Request}
    (htenant : claims.tenantId = tenantId) (htoken : request.readsToken = true)
    {decisions : ℕ → SharedDecision} {s' t t' : SharedState}
    {result result' : Except JsError Response} (hpart : s.part tenantId = s'.part tenantId)
    (h : (app P deps env claims request).run (SharedState.handle P limiter) decisions s =
      some (result, t))
    (h' : (app P deps env claims request).run (SharedState.handle P limiter) decisions s' =
      some (result', t')) : result = result' ∧ t.part tenantId = t'.part tenantId := by
  subst tenantId
  refine Proc.run_agree (R := fun u u' => u.part claims.tenantId = u'.part claims.tenantId) ?_
    (ofRequest_app htoken) hpart h h'
  intro c d u u' r r' v v' hc hu hstep hstep'
  exact Fault.through_agree (R := fun v v' => v.part claims.tenantId = v'.part claims.tenantId) hu
    (fun _ _ _ _ hexec hexec' => SharedState.exec_agree hc hu hexec hexec') hstep hstep'

/-- **Tenants are isolated** — requests under tokens of other tenants and the workers on their
documents, interleaved, failing or lost at any call, leave every row and object of a tenant and its
bucket as they were, if none of their documents is stored under a key of the tenant; and two states
with the same rows, objects and bucket of a tenant answer its requests alike. -/
theorem tenants_isolated (P : Platform) (deps : AppDeps) (limiter : RedisTokenBucket)
    (tenantId : Uuid) :
    (∀ s : SharedState, s.KeysApart tenantId → Undisturbed P deps limiter tenantId s) ∧
      ∀ s s' : SharedState, s.part tenantId = s'.part tenantId →
        AnsweredAlike P deps limiter tenantId s s' := by
  refine ⟨fun s hs c hc => ?_, fun s s' hpart claims request env decisions result result' t t'
    htenant htoken h h' => (run_app_agree htenant htoken hpart h h').1⟩
  refine (Pool.rely_of_reachable (K := isolationContract P limiter tenantId) (c := ⟨s, []⟩)
    (Q := fun _ _ => True) (fun _ _ h => h) (fun _ _ _ h _ => h)
    (fun _ task p _ h => isolated_launch task p h) ⟨hs, fun p hp => absurd hp List.not_mem_nil⟩
    (hc.mono fun c m _ => Pool.meets_of_forall (fun _ _ _ => trivial) m))

/-! ## States to try it on -/

/-- A user of a tenant. -/
def sampleClaims (tenantId : Uuid) : TenantClaims := ⟨tenantId, some 1, none⟩

/-- A request of a tenant, its calls going through. -/
def sampleRequest (tenantId : Uuid) (request : Request) : Route Response :=
  app samplePlatform sampleDeps { randomUUID := 11, decisions := fun _ => {} }
    (sampleClaims tenantId)
    request

def sampleRun (tenantId : Uuid) (request : Request) (s : SharedState) :
    Option (Except JsError Response × SharedState) :=
  (sampleRequest tenantId request).run (SharedState.handle samplePlatform .onePerSecond)
  (fun _ => {}) s

/-- The status a request was answered with. -/
def answeredWith (status : ℕ) (x : Except JsError Response × SharedState) : Bool :=
  match x.1 with
  | .ok response => response.status == status
  | .error _ => false

/-- A request launched by a tenant, and its calls. -/
def sampleServing (tenantId : Uuid) (request : Request) (calls : ℕ) : List Move :=
  .launch (.request { randomUUID := 11, decisions := fun _ => {} }
    (sampleClaims tenantId) request) ::
    List.replicate calls (.resume 0 {})

/-- The moves of the others of tenant 7, from a state on. -/
theorem reachable_sample {s : SharedState} (moves : List Move) (p : State → Bool)
    (hp : (moves.foldlM (Run.tested (fun _ _ => true)
      (step samplePlatform sampleDeps .onePerSecond 7))
      ⟨s, []⟩).any p = true) :
    ∃ c, Run.Reachable (step samplePlatform sampleDeps .onePerSecond 7) Run.anyMove
      (· = ⟨s, []⟩) c ∧
      p c = true := by
  have hstart : Run.Reachable (step samplePlatform sampleDeps .onePerSecond 7) Run.anyMove
      (· = ⟨s, []⟩) ⟨s, []⟩ := .start rfl
  exact hstart.replay (fun _ _ => true) (fun _ _ _ => trivial) moves p hp

/-- Tenants 7 and 8 with an assistant each, and a document of tenant 7. -/
def twoTenants : SharedState where
  stored := {
    world := {
      assistants := [sampleAssistantOf 7 1, sampleAssistantOf 8 2]
      documents := [sampleDocumentOf 7 1 10]
      issued := [10] }
    tenants := [⟨7, js "Acme"⟩, ⟨8, js "Bolt"⟩] }

def documentTen : JsString := js "00000000-0000-0000-0000-00000000000a"

/-- An upload for the assistant of tenant 8. -/
def uploadForTwo : Request :=
  .postDocument (.form (some (.str (js "00000000-0000-0000-0000-000000000002")))
    (some ⟨js "faq.txt", [104, 105]⟩))

/-- Tenant 8 uploads a document; tenant 7 reads its own as before. -/
theorem tenants_isolated_upload : ∃ c : State,
    Run.Reachable (step samplePlatform sampleDeps .onePerSecond 7) Run.anyMove
      (· = ⟨twoTenants, []⟩) c ∧
    c.world.stored.world.documents.length = 2 ∧ c.world.part 7 = twoTenants.part 7 ∧
    ∃ result t t', sampleRun 7 (.getDocument documentTen) twoTenants = some (result, t) ∧
      sampleRun 7 (.getDocument documentTen) c.world = some (result, t') := by
  obtain ⟨hundisturbed, halike⟩ := tenants_isolated samplePlatform sampleDeps .onePerSecond 7
  obtain ⟨c, hc, hp⟩ := reachable_sample (s := twoTenants) (sampleServing 8 uploadForTwo 4)
    (fun c => c.world.stored.world.documents.length == 2 &&
      (sampleRun 7 (.getDocument documentTen) c.world).isSome) (by decide +kernel)
  obtain ⟨hlength, hrun'⟩ := Bool.and_eq_true_iff.mp hp
  obtain ⟨⟨result', t'⟩, hrun'⟩ := Option.isSome_iff_exists.mp hrun'
  obtain ⟨⟨result, t⟩, hrun⟩ : ∃ x, sampleRun 7 (.getDocument documentTen) twoTenants = some x :=
    Option.isSome_iff_exists.mp (by decide +kernel)
  have hpart : c.world.part 7 = twoTenants.part 7 :=
    hundisturbed twoTenants (List.forall_mem_singleton.mpr fun _ => rfl) c hc
  obtain rfl : result = result' :=
    halike twoTenants c.world hpart.symm (sampleClaims 7) _ _ _ _ _ _ _ rfl rfl hrun hrun'
  exact ⟨c, hc, by simpa using hlength, hpart, result, t, t', hrun, hrun'⟩

/-- A document of tenant 8 whose row holds a key of tenant 7. -/
def misfiled : SharedState where
  stored := {
    world := {
      assistants := [sampleAssistantOf 8 2]
      documents := [{ sampleDocumentOf 8 2 10 with storageKey := ⟨7, 12⟩ }]
      objects := Function.update (fun _ => none) ⟨7, 12⟩ (some [104, 105])
      issued := [10] }
    tenants := [⟨7, js "Acme"⟩, ⟨8, js "Bolt"⟩] }

theorem wellFormed_misfiled : misfiled.stored.world.WellFormed samplePlatform where
  assistantIds := List.nodup_singleton _
  documentIds := List.nodup_singleton _
  documentIssued := by decide
  documentParent := by decide
  chunkUnique := .nil
  chunkIssued := by simp [misfiled]
  chunkParent := by simp [misfiled]
  chunkHash := by simp [misfiled]

/-- The same rows and objects, with a bucket that is used up. -/
def usedUp : SharedState := { twoTenants with buckets := fun _ => some ⟨0, 0, 1⟩ }

/-- **The bucket is part of what a response depends on, and a row's key is trusted**: tenant 8
deletes an object of tenant 7 where its row holds the key, and tenant 7 is turned away where its
bucket is empty. -/
theorem not_tenants_isolated :
    (∃ s : SharedState, s.stored.world.WellFormed samplePlatform ∧
      ¬ Undisturbed samplePlatform sampleDeps .onePerSecond 7 s) ∧
    ∃ s s' : SharedState, s.stored.part 7 = s'.stored.part 7 ∧
      ¬ AnsweredAlike samplePlatform sampleDeps .onePerSecond 7 s s' := by
  refine ⟨⟨misfiled, wellFormed_misfiled, fun hundisturbed => ?_⟩, twoTenants, usedUp, rfl,
    fun halike => ?_⟩
  · obtain ⟨c, hc, hp⟩ := reachable_sample (s := misfiled)
      (sampleServing 8 (.deleteDocument documentTen) 2)
      (fun c => (c.world.stored.world.objects ⟨7, 12⟩).isNone) (by decide +kernel)
    have hobject : (c.world.part 7).stored.world.objects ⟨7, 12⟩ =
        (misfiled.part 7).stored.world.objects ⟨7, 12⟩ := by
      rw [hundisturbed c hc]
    have hthere : (misfiled.part 7).stored.world.objects ⟨7, 12⟩ = some [104, 105] := by decide
    have hgone : (c.world.part 7).stored.world.objects ⟨7, 12⟩ = none :=
      (World.objects_part rfl).trans (Option.isNone_iff_eq_none.mp hp)
    rw [hgone, hthere] at hobject
    cases hobject
  · have hruns : (sampleRun 7 (.chat none none) twoTenants).any (answeredWith 400) = true ∧
        (sampleRun 7 (.chat none none) usedUp).any (answeredWith 429) = true := by decide +kernel
    obtain ⟨⟨result, t⟩, hrun, hstatus⟩ := (Option.any_eq_true _ _).mp hruns.1
    obtain ⟨⟨result', t'⟩, hrun', hstatus'⟩ := (Option.any_eq_true _ _).mp hruns.2
    obtain rfl : result = result' := halike (sampleClaims 7) _ _ _ _ _ _ _ rfl rfl hrun hrun'
    rcases result with e | response
    · cases hstatus
    · have h400 : response.status = 400 := beq_iff_eq.mp hstatus
      have h429 : response.status = 429 := beq_iff_eq.mp hstatus'
      omega

end Isolation

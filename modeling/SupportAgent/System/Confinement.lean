import SupportAgent.Routes.Scope
import Mathlib.Tactic.Linarith

/-!
# System/Confinement — what a token of one assistant can do

`exchangeApiKey` mints tokens that carry a tenant and one assistant of it.  `OnlyOwnAssistant` says
of a sequence of requests under such a token that it changes nothing of the tenant and shows nothing
beyond the assistant: the first over one run, the second over two runs from states that agree on the
assistant.

The admin routes turn such a token away and the chat pins its assistant; the documents routes do
neither.  So the sequences with that property are those that get nothing past the checks of a
documents route, the list of the assistant's own documents apart (`consumer_confined_iff`).
-/

open Async Ingestion

/-! ## The property -/

/-- The answers that depend on a token: those of the routes behind `tenantContext`. -/
def tokenAnswers (answers : List Answer) : List (Option (Except JsError Response)) :=
  answers.map fun a => if a.request.readsToken then some a.result else none

/-- **A token of the assistant only reaches its own assistant** with these requests, wherever they
start and whatever surrounds them. -/
structure OnlyOwnAssistant (P : Platform) (deps : AppDeps) (tenantId assistantId : Uuid)
    (requests : List Request) : Prop where
  keeps : ∀ served : List (Request × Environment), served.map Prod.fst = requests →
    ∀ (s t : ApiState) (answers : List Answer), s.WellFormed P tenantId →
      serve P deps (consumerClaims tenantId assistantId) served s = some (answers, t) →
      SameTenantData tenantId s t
  hides : ∀ served : List (Request × Environment), served.map Prod.fst = requests →
    ∀ (s s' t t' : ApiState) (answers answers' : List Answer), s.WellFormed P tenantId →
      s'.WellFormed P tenantId → s.world.AgreeOn tenantId assistantId s'.world →
      serve P deps (consumerClaims tenantId assistantId) served s = some (answers, t) →
      serve P deps (consumerClaims tenantId assistantId) served s' = some (answers', t') →
      tokenAnswers answers = tokenAnswers answers'

/-- **A request that stays with the assistant**: on a documents route, one that fails the route's
checks, or the list of the assistant's own documents. -/
def Request.Confined (assistantId : Uuid) : Request → Prop
  | .postDocument form => ∀ upload, checkUpload form ≠ .ok upload
  | .listDocuments requested _ => ∀ id, zodUuid requested = some id → id = assistantId
  | .getDocument id | .deleteDocument id | .documentEvents id => Uuid.parse id = none
  | _ => True

/-! ## The calls of a confined request -/

section

variable {P : Platform} {deps : AppDeps} {env : Environment} {tenantId assistantId : Uuid}

theorem only_toRoute {C : ApiCall → Prop} {α : Type} {p : Service α}
    (hp : p.Only fun c => C (.service c)) : p.toRoute.Only C := by
  induction p with
  | ret a => trivial
  | throw e => trivial
  | await c k ih => exact ⟨hp.1, fun r => ih r (hp.2 r)⟩

theorem only_catching {C : ApiCall → Prop} {status : ℕ} {error : JsString} {route : Route Response}
    (h : route.Only C) : (catching status error route).Only C :=
  Proc.Only.tryCatch h fun _ => trivial

/-- The calls of a chat, once its assistant is found. -/
theorem only_chatFrames {C : ApiCall → Prop}
    (hembed : ∀ model texts, C (.service (.embed model texts)))
    (hfind : C (.service (.findAssistant tenantId assistantId)))
    (hscan : ∀ embedding k checked,
      C (.service (.scanChunks tenantId assistantId embedding k checked)))
    (hgenerate : ∀ request, C (.generate request)) (assistant : Assistant) (question : JsString) :
    (chatFrames P deps env tenantId assistantId assistant question).Only C := by
  refine Proc.Only.bind (only_toRoute (only_retrieve hembed hfind hscan)) fun hits => ?_
  dsimp only
  split
  · trivial
  refine Proc.Only.bind (Proc.only_ofExcept _) fun ctx => ?_
  refine Proc.Only.bind (Proc.only_ofExcept _) fun request => ?_
  exact Proc.Only.bind (Proc.only_call (hgenerate request)) fun generated => trivial

/-- The calls of a chat: the token's assistant, if it has one, is the one chatted with. -/
theorem only_postChat {C : ApiCall → Prop} {claims : TenantClaims}
    (hconsume : C (.consume claims.tenantId))
    (hchat : ∀ id, (∃ body, (claims.assistantId <|> body) = some id) →
      C (.service (.findAssistant claims.tenantId id)) ∧ ∀ assistant question,
        (chatFrames P deps env claims.tenantId id assistant question).Only C)
    (requested question : Option Json) :
    (postChat P deps env claims requested question).Only C := by
  refine Proc.Only.bind (Proc.Only.tryCatch (Proc.Only.map (Proc.only_call hconsume))
    fun _ => trivial) fun result => ?_
  split
  · trivial
  split
  · trivial
  case h_2 bodyAssistantId question _ =>
    dsimp only
    split
    · trivial
    case h_2 id hid =>
      obtain ⟨hfind, hframes⟩ := hchat id ⟨bodyAssistantId, hid⟩
      refine only_catching (Proc.Only.bind (Proc.only_call hfind) fun assistant => ?_)
      split
      · trivial
      split
      · trivial
      · exact Proc.Only.bind (Proc.Only.tryCatch (hframes _ _) fun _ => trivial) fun frames =>
          trivial

/-- **The chat pins the token's assistant.** -/
theorem within_postChat (requested question : Option Json) :
    (postChat P deps env (consumerClaims tenantId assistantId) requested question).Only
      (ApiCall.Within tenantId assistantId) := by
  refine only_postChat (.consume tenantId) ?_ requested question
  rintro id ⟨body, hid⟩
  obtain rfl : assistantId = id := Option.some.inj hid
  exact ⟨.findAssistant, only_chatFrames .embed .findAssistant .scanChunks .generate⟩

theorem only_tenantContext {C : ApiCall → Prop} {route : Route Response} (h : route.Only C) :
    (tenantContext env route).Only C := by
  rw [tenantContext]
  split
  · exact h
  · trivial

/-- A list of the assistant's own documents, or none. -/
theorem only_listDocuments {requested : Option Json} {limit : JsNumber}
    (h : (Request.listDocuments requested limit).Confined assistantId) :
    (listDocuments (consumerClaims tenantId assistantId) requested limit).Only
      (ApiCall.Within tenantId assistantId) := by
  rw [listDocuments]
  split
  · trivial
  case h_2 id hid =>
    obtain rfl := h id hid
    exact only_catching (Proc.Only.bind (Proc.only_call (.listDocuments _)) fun docs => trivial)

/-- **A confined request under the token** makes calls within the assistant alone. -/
theorem only_app_within {r : Request} (hr : r.Confined assistantId) (htoken : r.readsToken = true) :
    (app P deps env (consumerClaims tenantId assistantId) r).Only
      (ApiCall.Within tenantId assistantId) := by
  cases r with
  | health | signup | login | exchangeApiKey => cases htoken
  | chat requested question => exact only_tenantContext (within_postChat requested question)
  | listDocuments requested limit => exact only_tenantContext (only_listDocuments hr)
  | postDocument form =>
    refine only_tenantContext ?_
    rw [postDocument]
    split
    · trivial
    case h_2 upload hupload => exact absurd hupload (hr _)
  | getDocument id | deleteDocument id | documentEvents id =>
    refine only_tenantContext ?_
    simp only [getDocument, deleteDocument, documentEvents, withDocumentId]
    rw [show Uuid.parse id = none from hr]
    trivial
  -- `requireAdmin` answers with 403
  | playgroundRetrieve | listAssistants | patchAssistant | postApiKey | listApiKeys
  | deleteApiKey =>
    exact only_tenantContext trivial

theorem only_sendAuth {C : ApiCall → Prop} {route : Route (Except AuthError Response)}
    (h : route.Only C) : (sendAuth route).Only C := by
  refine only_catching (Proc.Only.bind h fun result => ?_)
  split <;> trivial

theorem only_postSignup (tenantName email password : Option Json) :
    (postSignup deps env tenantName email password).Only ApiCall.Public := by
  rw [postSignup]
  split
  case h_2 => trivial
  case h_1 tenantName email password _ _ _ =>
    refine only_sendAuth (Proc.Only.bind (Proc.Only.tryCatch (Proc.Only.map (Proc.only_call
      (.createTenantAndOwner tenantName email _))) fun err => ?_) fun created => ?_)
    · split <;> trivial
    · split <;> trivial

theorem only_postLogin (email password : Option Json) :
    (postLogin deps env email password).Only ApiCall.Public := by
  rw [postLogin]
  split
  case h_2 => trivial
  case h_1 email password _ _ =>
    refine only_sendAuth (Proc.Only.bind (Proc.only_call (.findUserByEmail email)) fun user => ?_)
    dsimp only
    split <;> trivial

theorem only_exchangeApiKey (apiKey : Option Json) :
    (exchangeApiKey deps env apiKey).Only ApiCall.Public := by
  rw [exchangeApiKey]
  split
  · trivial
  case h_2 rawKey _ =>
    refine only_sendAuth (Proc.Only.bind (Proc.only_call (.resolveApiKey _)) fun row => ?_)
    split
    · trivial
    case h_2 row =>
      refine Proc.Only.bind (Proc.only_call (.findPublished row.tenantId row.assistantId))
        fun ok => ?_
      split <;> trivial

/-- A request to a public route makes public calls alone. -/
theorem only_app_public {claims : TenantClaims} {r : Request} (htoken : r.readsToken = false) :
    (app P deps env claims r).Only ApiCall.Public := by
  cases r with
  | health => trivial
  | signup tenantName email password => exact only_postSignup tenantName email password
  | login email password => exact only_postLogin email password
  | exchangeApiKey apiKey => exact only_exchangeApiKey apiKey
  | _ => cases htoken

end

/-! ## Confined sequences have the property -/

section

variable {P : Platform} {deps : AppDeps} {tenantId assistantId : Uuid}

/-- The steps of serving one more request. -/
theorem serve_cons_eq_some {claims : TenantClaims} {request : Request} {env : Environment}
    {served : List (Request × Environment)} {s t : ApiState} {answers : List Answer}
    (h : serve P deps claims ((request, env) :: served) s = some (answers, t)) :
    ∃ result s₁ rest, (app P deps env claims request).run (ApiState.handle P) env.decisions s =
      some (result, s₁) ∧ serve P deps claims served s₁ = some (rest, t) ∧
        answers = ⟨request, result⟩ :: rest := by
  obtain ⟨⟨result, s₁⟩, hrun, hrest⟩ := Option.bind_eq_some_iff.mp h
  obtain ⟨⟨rest, t'⟩, hserve, heq⟩ := Option.map_eq_some_iff.mp hrest
  obtain ⟨rfl, rfl⟩ := Prod.mk.inj heq
  exact ⟨result, s₁, rest, hrun, hserve, rfl⟩

/-- **One confined request keeps the tenant's data.** -/
theorem run_app_keeps {env : Environment} {r : Request} (hr : r.Confined assistantId)
    {s t : ApiState} {result : Except JsError Response} (hs : s.WellFormed P tenantId)
    (h : (app P deps env (consumerClaims tenantId assistantId) r).run (ApiState.handle P)
      env.decisions s = some (result, t)) :
    SameTenantData tenantId s t ∧ t.WellFormed P tenantId := by
  have hkeeps : ∀ C : ApiCall → Prop, (∀ c d (s t : ApiState) r', C c → s.WellFormed P tenantId →
      s.exec P c d = some (r', t) → SameTenantData tenantId s t ∧ t.WellFormed P tenantId) →
      (app P deps env (consumerClaims tenantId assistantId) r).Only C →
      SameTenantData tenantId s t ∧ t.WellFormed P tenantId := by
    intro C hexec honly
    refine Proc.run_keeps (.refl tenantId) .trans (fun c d s r' t hc hs hh => ?_) honly hs h
    obtain ⟨r₀, hr₀⟩ | rfl := ApiState.handle_cases hh
    · exact hexec c d s t r₀ hc hs hr₀
    · exact ⟨.refl tenantId t, hs⟩
  rcases htoken : r.readsToken with _ | _
  · exact hkeeps ApiCall.Public (fun c d s t r' hc hs => ApiState.exec_public hc hs)
      (only_app_public htoken)
  · refine hkeeps _ (fun c d s t r' hc hs hexec => ?_) (only_app_within hr htoken)
    obtain ⟨r₀, hr₀, -⟩ := ApiState.exec_within hc hs hs ⟨rfl, rfl, rfl⟩ d
    obtain rfl : s = t := congrArg Prod.snd (Option.some.inj (hr₀.symm.trans hexec))
    exact ⟨.refl tenantId s, hs⟩

/-- **One confined request under the token is answered alike** where the assistant is the same. -/
theorem run_app_agree {env : Environment} {r : Request} (hr : r.Confined assistantId)
    (htoken : r.readsToken = true) {s s' t t' : ApiState} {result result' : Except JsError Response}
    (hs : s.WellFormed P tenantId) (hs' : s'.WellFormed P tenantId)
    (hagree : s.world.AgreeOn tenantId assistantId s'.world)
    (h : (app P deps env (consumerClaims tenantId assistantId) r).run (ApiState.handle P)
      env.decisions s = some (result, t))
    (h' : (app P deps env (consumerClaims tenantId assistantId) r).run (ApiState.handle P)
      env.decisions s' = some (result', t')) : result = result' := by
  refine (Proc.run_agree (R := fun u u' => u.WellFormed P tenantId ∧ u'.WellFormed P tenantId ∧
    u.world.AgreeOn tenantId assistantId u'.world) ?_ (only_app_within hr htoken) ⟨hs, hs', hagree⟩
    h h').1
  rintro c d u u' r₁ r₂ v v' hc ⟨hu, hu', huu'⟩ hstep hstep'
  obtain ⟨r₀, hr₀, hr₀'⟩ := ApiState.handle_within hc hu hu' huu' d
  obtain ⟨rfl, rfl⟩ := Prod.mk.inj (Option.some.inj (hr₀.symm.trans hstep))
  obtain ⟨rfl, rfl⟩ := Prod.mk.inj (Option.some.inj (hr₀'.symm.trans hstep'))
  exact ⟨rfl, hu, hu', huu'⟩

theorem serve_keeps (served : List (Request × Environment))
    (hconfined : ∀ p ∈ served, p.1.Confined assistantId) {s t : ApiState} {answers : List Answer}
    (hs : s.WellFormed P tenantId)
    (h : serve P deps (consumerClaims tenantId assistantId) served s = some (answers, t)) :
    SameTenantData tenantId s t := by
  induction served generalizing s answers with
  | nil =>
    obtain ⟨-, rfl⟩ := Prod.mk.inj (Option.some.inj h)
    exact .refl tenantId s
  | cons p served ih =>
    obtain ⟨request, env⟩ := p
    obtain ⟨result, s₁, rest, hrun, hrest, -⟩ := serve_cons_eq_some h
    obtain ⟨hsame, hs₁⟩ := run_app_keeps (hconfined _ List.mem_cons_self) hs hrun
    exact hsame.trans (ih (fun p hp => hconfined p (List.mem_cons_of_mem _ hp)) hs₁ hrest)

theorem serve_agree (served : List (Request × Environment))
    (hconfined : ∀ p ∈ served, p.1.Confined assistantId) {s s' t t' : ApiState}
    {answers answers' : List Answer} (hs : s.WellFormed P tenantId) (hs' : s'.WellFormed P tenantId)
    (hagree : s.world.AgreeOn tenantId assistantId s'.world)
    (h : serve P deps (consumerClaims tenantId assistantId) served s = some (answers, t))
    (h' : serve P deps (consumerClaims tenantId assistantId) served s' = some (answers', t')) :
    tokenAnswers answers = tokenAnswers answers' := by
  induction served generalizing s s' answers answers' with
  | nil =>
    obtain ⟨rfl, -⟩ := Prod.mk.inj (Option.some.inj h)
    obtain ⟨rfl, -⟩ := Prod.mk.inj (Option.some.inj h')
    rfl
  | cons p served ih =>
    obtain ⟨request, env⟩ := p
    obtain ⟨result, s₁, rest, hrun, hrest, rfl⟩ := serve_cons_eq_some h
    obtain ⟨result', s₁', rest', hrun', hrest', rfl⟩ := serve_cons_eq_some h'
    have hreq : request.Confined assistantId := hconfined _ List.mem_cons_self
    obtain ⟨hsame, hs₁⟩ := run_app_keeps hreq hs hrun
    obtain ⟨hsame', hs₁'⟩ := run_app_keeps hreq hs' hrun'
    have htail : tokenAnswers rest = tokenAnswers rest' :=
      ih (fun p hp => hconfined p (List.mem_cons_of_mem _ hp)) hs₁ hs₁'
        (((hsame.symm.agreeOn assistantId).trans hagree).trans (hsame'.agreeOn assistantId))
        hrest hrest'
    have hhead : request.readsToken = true → result = result' := fun htoken =>
      run_app_agree hreq htoken hs hs' hagree hrun hrun'
    rw [tokenAnswers, List.map_cons, tokenAnswers, List.map_cons]
    refine List.cons_eq_cons.mpr ⟨?_, htail⟩
    dsimp only
    split
    · rw [hhead ‹_›]
    · rfl

/-- **Confined sequences stay with the assistant.** -/
theorem onlyOwnAssistant_of_confined {requests : List Request}
    (h : ∀ r ∈ requests, r.Confined assistantId) :
    OnlyOwnAssistant P deps tenantId assistantId requests where
  keeps served hserved _ _ _ hs hrun :=
    serve_keeps served (fun _ hp => h _ (hserved ▸ List.mem_map_of_mem hp)) hs hrun
  hides served hserved _ _ _ _ _ _ hs hs' hagree hrun hrun' :=
    serve_agree served (fun _ hp => h _ (hserved ▸ List.mem_map_of_mem hp)) hs hs' hagree hrun hrun'

end

/-! ## What an unconfined request does -/

/-- An environment in which the first calls of a request go through and the others are refused. -/
def Environment.cutOff (calls : ℕ) : Environment where
  decisions n := if n < calls then {} else { fault := some (.refused (.new (js "unavailable"))) }

/-- The requests, every call of theirs refused. -/
def refused (requests : List Request) : List (Request × Environment) :=
  requests.map fun r => (r, .cutOff 0)

section

variable {P : Platform} {deps : AppDeps} {claims : TenantClaims} {tenantId assistantId : Uuid}

/-- What is left of a request once its calls are refused changes nothing. -/
theorem run_cutOff (P : Platform) (p : Route Response) (n : ℕ) (s : ApiState) :
    ∃ result, p.run (ApiState.handle P) (fun m => (Environment.cutOff n).decisions (m + n)) s =
      some (result, s) :=
  Proc.run_refused (e := .new (js "unavailable")) (fun c m => by
    dsimp only [Environment.cutOff]
    rw [if_neg (by omega)]
    rfl) p

theorem serve_cons {request : Request} {env : Environment} {served : List (Request × Environment)}
    {s s₁ t : ApiState} {result : Except JsError Response} {answers : List Answer}
    (h : (app P deps env claims request).run (ApiState.handle P) env.decisions s =
      some (result, s₁))
    (hrest : serve P deps claims served s₁ = some (answers, t)) :
    serve P deps claims ((request, env) :: served) s = some (⟨request, result⟩ :: answers, t) := by
  rw [serve, h]
  change (serve P deps claims served s₁).map _ = _
  rw [hrest]
  rfl

theorem serve_append {served served' : List (Request × Environment)} {s t u : ApiState}
    {answers answers' : List Answer} (h : serve P deps claims served s = some (answers, t))
    (h' : serve P deps claims served' t = some (answers', u)) :
    serve P deps claims (served ++ served') s = some (answers ++ answers', u) := by
  induction served generalizing s answers with
  | nil =>
    obtain ⟨rfl, rfl⟩ := Prod.mk.inj (Option.some.inj h)
    exact h'
  | cons p served ih =>
    obtain ⟨request, env⟩ := p
    obtain ⟨result, s₁, rest, hrun, hrest, rfl⟩ := serve_cons_eq_some h
    exact serve_cons hrun (ih hrest)

theorem serve_refused (P : Platform) (deps : AppDeps) (claims : TenantClaims)
    (requests : List Request) (s : ApiState) :
    ∃ answers, answers.length = requests.length ∧
      serve P deps claims (refused requests) s = some (answers, s) := by
  induction requests with
  | nil => exact ⟨[], rfl, rfl⟩
  | cons r requests ih =>
    obtain ⟨answers, hlen, hserve⟩ := ih
    obtain ⟨result, hrun⟩ := run_cutOff P (app P deps (.cutOff 0) claims r) 0 s
    exact ⟨⟨r, result⟩ :: answers, congrArg (· + 1) hlen, serve_cons hrun hserve⟩

/-- **One request among refused ones** does what it does alone. -/
theorem serve_among {env : Environment} {r : Request} {s t : ApiState}
    {result : Except JsError Response}
    (h : (app P deps env claims r).run (ApiState.handle P) env.decisions s = some (result, t))
    (before after : List Request) : ∃ answers answers', answers.length = before.length ∧
      serve P deps claims (refused before ++ (r, env) :: refused after) s =
        some (answers ++ ⟨r, result⟩ :: answers', t) := by
  obtain ⟨answers, hlen, hbefore⟩ := serve_refused P deps claims before s
  obtain ⟨answers', -, hafter⟩ := serve_refused P deps claims after t
  exact ⟨answers, answers', hlen, serve_append hbefore (serve_cons h hafter)⟩

theorem map_fst_among (before after : List Request) (r : Request) (env : Environment) :
    (refused before ++ (r, env) :: refused after).map Prod.fst = before ++ r :: after := by
  have hfst : ∀ requests, (refused requests).map Prod.fst = requests := fun requests => by
    rw [refused, List.map_map]
    exact List.map_id requests
  rw [List.map_append, List.map_cons, hfst, hfst]

/-- A request that changes the tenant's data. -/
theorem not_only_of_changes {env : Environment} {r : Request} {s t : ApiState}
    {result : Except JsError Response} (hs : s.WellFormed P tenantId)
    (h : (app P deps env (consumerClaims tenantId assistantId) r).run (ApiState.handle P)
      env.decisions s = some (result, t))
    (hchanged : ¬ SameTenantData tenantId s t) (before after : List Request) :
    ¬ OnlyOwnAssistant P deps tenantId assistantId (before ++ r :: after) := by
  intro honly
  obtain ⟨answers, answers', -, hserve⟩ := serve_among h before after
  exact hchanged (honly.keeps _ (map_fst_among before after r env) s t _ hs hserve)

/-- A request whose answer tells apart what is not the assistant's. -/
theorem not_only_of_tells {env : Environment} {r : Request} (htoken : r.readsToken = true)
    {s s' t t' : ApiState} {result result' : Except JsError Response} (hs : s.WellFormed P tenantId)
    (hs' : s'.WellFormed P tenantId) (hagree : s.world.AgreeOn tenantId assistantId s'.world)
    (h : (app P deps env (consumerClaims tenantId assistantId) r).run (ApiState.handle P)
      env.decisions s = some (result, t))
    (h' : (app P deps env (consumerClaims tenantId assistantId) r).run (ApiState.handle P)
      env.decisions s' = some (result', t'))
    (htells : result ≠ result') (before after : List Request) :
    ¬ OnlyOwnAssistant P deps tenantId assistantId (before ++ r :: after) := by
  intro honly
  obtain ⟨answers₁, answers₂, hlen, hserve⟩ := serve_among h before after
  obtain ⟨answers₁', answers₂', hlen', hserve'⟩ := serve_among h' before after
  have heq := honly.hides _ (map_fst_among before after r env)
    s s' t t' _ _ hs hs' hagree hserve hserve'
  rw [tokenAnswers, tokenAnswers, List.map_append, List.map_append] at heq
  have hlens : (tokenAnswers answers₁).length = (tokenAnswers answers₁').length := by
    rw [tokenAnswers, tokenAnswers, List.length_map, List.length_map, hlen, hlen']
  obtain ⟨-, htail⟩ := List.append_inj heq hlens
  have hhead := (List.cons_eq_cons.mp htail).1
  simp only [htoken, if_true] at hhead
  exact htells (Option.some.inj hhead)

end

/-! ## Tenants to try it on -/

def sampleAssistantOf (tenantId assistantId : Uuid) : Assistant := { sampleAssistant with
  id := assistantId
  tenantId }

/-- A stored document of the assistant. -/
def sampleDocumentOf (tenantId assistantId id : Uuid) : Document :=
  NewDocument.row {
    id, tenantId, assistantId
    title := js "Handbook"
    sourceType := .PDF
    storageKey := tenantObjectKey tenantId id
    status := .UPLOADED } 0

/-- A tenant with one assistant and documents of it. -/
def sampleTenant (tenantId assistantId : Uuid) (ids : List Uuid) : ApiState where
  world := {
    assistants := [sampleAssistantOf tenantId assistantId]
    documents := ids.map (sampleDocumentOf tenantId assistantId)
    issued := ids }
  tenants := [⟨tenantId, js "Acme"⟩]

section

variable {P : Platform} {deps : AppDeps} {tenantId assistantId : Uuid}

theorem wellFormed_sampleTenant (P : Platform) (tenantId assistantId : Uuid) {ids : List Uuid}
    (h : ids.Nodup) : (sampleTenant tenantId assistantId ids).WellFormed P tenantId where
  world :=
    { assistantIds := List.nodup_singleton _
      documentIds := by
        change ((ids.map _).map _).Nodup
        rw [List.map_map]
        exact (List.map_id ids).symm ▸ h
      documentIssued := by
        intro doc hdoc
        obtain ⟨id, hid, rfl⟩ := List.mem_map.mp hdoc
        exact hid
      documentParent := by
        intro doc hdoc
        obtain ⟨id, hid, rfl⟩ := List.mem_map.mp hdoc
        exact ⟨_, List.mem_singleton_self _, rfl, rfl⟩
      chunkUnique := .nil
      chunkIssued := by simp [sampleTenant]
      chunkParent := by simp [sampleTenant]
      chunkHash := by simp [sampleTenant] }
  tenant := List.mem_singleton_self _

/-- The documents of another assistant are none of this one's. -/
theorem agreeOn_sampleTenant {other : Uuid} (h : other ≠ assistantId) (ids ids' : List Uuid) :
    (sampleTenant tenantId other ids).world.AgreeOn tenantId assistantId
      (sampleTenant tenantId other ids').world where
  assistant := rfl
  documents := by
    have hnone : ∀ ids, (sampleTenant tenantId other ids).world.documents.filter
        (·.ofAssistant tenantId assistantId) = [] := by
      intro ids
      refine List.filter_eq_nil_iff.mpr fun doc hdoc => ?_
      obtain ⟨id, -, rfl⟩ := List.mem_map.mp hdoc
      simp [Document.ofAssistant, sampleDocumentOf, NewDocument.row, h]
    rw [hnone, hnone]
  chunks := rfl

theorem findAssistant_sampleTenant (ids : List Uuid) :
    (sampleTenant tenantId assistantId ids).world.findAssistant tenantId assistantId =
      some (sampleAssistantOf tenantId assistantId) := by
  simp [sampleTenant, World.findAssistant, sampleAssistantOf]

theorem findDocument_sampleTenant (id : Uuid) :
    (sampleTenant tenantId assistantId [id]).world.findDocument tenantId id =
      some (sampleDocumentOf tenantId assistantId id) := by
  simp [sampleTenant, World.findDocument, sampleDocumentOf, NewDocument.row]

/-! ## Every unconfined request breaks the property -/

/-- **An upload that passes its checks is stored**, for whatever assistant it names. -/
theorem not_only_postDocument {form : Multipart} {upload : Uuid × UploadedFile × FoundType}
    (h : checkUpload form = .ok upload) (before after : List Request) :
    ¬ OnlyOwnAssistant P deps tenantId assistantId (before ++ .postDocument form :: after) := by
  obtain ⟨named, file, found⟩ := upload
  set s := sampleTenant tenantId named [] with hs
  set s₁ : ApiState := { s with world := { s.world with
    objects := Function.update s.world.objects ⟨tenantId, 0⟩ (some file.buffer) } } with hs₁
  have happ : ∃ k k', app P deps (.cutOff 2) (consumerClaims tenantId assistantId)
      (.postDocument form) = .await (.service (.findAssistant tenantId named)) k ∧
        k (.ok (some (sampleAssistantOf tenantId named))) =
          .await (.service (.storagePut ⟨tenantId, 0⟩ file.buffer)) k' := by
    rw [app, tenantContext, postDocument, h]
    cases found with
    | source sourceType => exact ⟨_, _, rfl, rfl⟩
    | inherited => exact ⟨_, _, rfl, rfl⟩
  obtain ⟨k, k', happ, hk⟩ := happ
  obtain ⟨result, hrest⟩ := run_cutOff P (k' (.ok ())) 2 s₁
  have hrun : (app P deps (.cutOff 2) (consumerClaims tenantId assistantId)
      (.postDocument form)).run (ApiState.handle P) (Environment.cutOff 2).decisions s =
        some (result, s₁) := by
    have hfind : s.handle P (.service (.findAssistant tenantId named))
        ((Environment.cutOff 2).decisions 0) =
          some (.ok (some (sampleAssistantOf tenantId named)), s) := by
      change some (Except.ok (s.world.findAssistant tenantId named), s) = _
      rw [hs, findAssistant_sampleTenant]
    have hput : s.handle P (.service (.storagePut ⟨tenantId, 0⟩ file.buffer))
        ((Environment.cutOff 2).decisions 1) = some (.ok (), s₁) := rfl
    rw [happ, Proc.run_await hfind, hk, Proc.run_await hput]
    exact hrest
  refine not_only_of_changes (wellFormed_sampleTenant P tenantId named List.nodup_nil) hrun
    (fun hsame => ?_) before after
  have hobject : none = Function.update s.world.objects ⟨tenantId, 0⟩ (some file.buffer)
      ⟨tenantId, 0⟩ :=
    hsame.objects 0
  rw [Function.update_self] at hobject
  cases hobject

/-- **A document with a well-formed id is deleted**, whatever its assistant. -/
theorem not_only_deleteDocument {text : JsString} {id : Uuid} (h : Uuid.parse text = some id)
    (before after : List Request) :
    ¬ OnlyOwnAssistant P deps tenantId assistantId (before ++ .deleteDocument text :: after) := by
  set s := sampleTenant tenantId (assistantId + 1) [id] with hs
  set s₁ : ApiState := { s with world := s.world.deleteDocument tenantId id } with hs₁
  have happ : ∃ k, app P deps (.cutOff 1) (consumerClaims tenantId assistantId)
      (.deleteDocument text) = .await (.service (.deleteDocument tenantId id)) k := by
    rw [app, tenantContext, deleteDocument, withDocumentId, h]
    exact ⟨_, rfl⟩
  obtain ⟨k, happ⟩ := happ
  obtain ⟨result, hrest⟩ := run_cutOff P (k (.ok (some (tenantObjectKey tenantId id)))) 1 s₁
  have hrun : (app P deps (.cutOff 1) (consumerClaims tenantId assistantId)
      (.deleteDocument text)).run (ApiState.handle P) (Environment.cutOff 1).decisions s =
        some (result, s₁) := by
    have hfind : s.world.findDocument tenantId id =
        some (sampleDocumentOf tenantId (assistantId + 1) id) :=
      findDocument_sampleTenant id
    have hstep : s.handle P (.service (.deleteDocument tenantId id))
        ((Environment.cutOff 1).decisions 0) =
          some (.ok (some (tenantObjectKey tenantId id)), s₁) := by
      change (s.world.exec P (.deleteDocument tenantId id) _).map _ = _
      rw [World.exec, hfind]
      rfl
    rw [happ, Proc.run_await hstep]
    exact hrest
  refine not_only_of_changes (wellFormed_sampleTenant P tenantId _ (List.nodup_singleton id))
    hrun (fun hsame => ?_) before after
  have hdocs := hsame.documents
  simp [hs₁, hs, World.deleteDocument, Table.deleteMany, sampleTenant, sampleDocumentOf,
    NewDocument.row] at hdocs

/-- **A document with a well-formed id is found or not**, whatever its assistant. -/
theorem not_only_of_getDocument {r : Request} (htoken : r.readsToken = true) (id : Uuid)
    (h : ∃ k, app P deps (.cutOff 1) (consumerClaims tenantId assistantId) r =
      .await (.getDocument tenantId id) k ∧
        ∃ x y, k (.ok (some (sampleDocumentOf tenantId (assistantId + 1) id, 0))) = .ret x ∧
          k (.ok none) = .ret y ∧ x ≠ y) (before after : List Request) :
    ¬ OnlyOwnAssistant P deps tenantId assistantId (before ++ r :: after) := by
  obtain ⟨k, happ, x, y, hfound, hmissing, hne⟩ := h
  have hrun : ∀ (s : ApiState) (view : Option (Document × ℕ)) (z : Response),
      s.exec P (.getDocument tenantId id) {} = some (.ok view, s) → k (.ok view) = .ret z →
      (app P deps (.cutOff 1) (consumerClaims tenantId assistantId) r).run (ApiState.handle P)
        (Environment.cutOff 1).decisions s = some (.ok z, s) := by
    intro s view z hexec hz
    have hstep : s.handle P (.getDocument tenantId id) ((Environment.cutOff 1).decisions 0) =
        some (.ok view, s) := hexec
    rw [happ, Proc.run_await hstep, hz]
    rfl
  refine not_only_of_tells htoken (wellFormed_sampleTenant P tenantId _ (List.nodup_singleton id))
    (wellFormed_sampleTenant P tenantId _ List.nodup_nil)
    (agreeOn_sampleTenant (Nat.succ_ne_self assistantId) [id] [])
    (hrun _ _ x ?_ hfound) (hrun _ _ y rfl hmissing)
    (fun heq => hne (Except.ok.inj heq)) before after
  rw [ApiState.exec, findDocument_sampleTenant]
  rfl

/-- The status of a document and its events both read it first. -/
theorem not_only_readDocument {r : Request} {text : JsString} {id : Uuid}
    (hr : r = .getDocument text ∨ r = .documentEvents text) (h : Uuid.parse text = some id)
    (before after : List Request) :
    ¬ OnlyOwnAssistant P deps tenantId assistantId (before ++ r :: after) := by
  refine not_only_of_getDocument (by rcases hr with rfl | rfl <;> rfl) id ?_ before after
  rcases hr with rfl | rfl <;>
  · simp only [app, tenantContext, getDocument, documentEvents, withDocumentId, h]
    refine ⟨_, rfl, _, _, rfl, rfl, fun heq => ?_⟩
    cases congrArg Response.status heq

/-- A list has room for a document. -/
theorem listTake_pos (limit : JsNumber) : 0 < listTake limit := by
  cases limit with
  | nan | posInf | negInf => decide
  | finite q =>
    have hone : (1 : ℚ) ≤ if q = 0 then 50 else min (max q 1) 200 := by
      split
      · norm_num
      · exact le_min (le_max_right q 1) (by norm_num)
    have hfloor : (1 : ℤ) ≤ (if q = 0 then (50 : ℚ) else min (max q 1) 200).floor :=
      Rat.le_floor_iff.mpr (by exact_mod_cast hone)
    rw [listTake]
    omega

/-- **Another assistant's documents are listed.** -/
theorem not_only_listDocuments {requested : Option Json} {limit : JsNumber} {other : Uuid}
    (h : zodUuid requested = some other) (hother : other ≠ assistantId)
    (before after : List Request) :
    ¬ OnlyOwnAssistant P deps tenantId assistantId
      (before ++ .listDocuments requested limit :: after) := by
  have happ : ∃ k, app P deps (.cutOff 1) (consumerClaims tenantId assistantId)
      (.listDocuments requested limit) =
        .await (.listDocuments tenantId other (listTake limit)) k ∧
        ∀ docs, k (.ok docs) =
          .ret ⟨200, .documents (docs.map fun d => toStatusView d.1 d.2), none⟩ := by
    rw [app, tenantContext, listDocuments, h]
    exact ⟨_, rfl, fun _ => rfl⟩
  obtain ⟨k, happ, hk⟩ := happ
  have hrun : ∀ (s : ApiState) (docs : List (Document × ℕ)),
      s.exec P (.listDocuments tenantId other (listTake limit)) {} = some (.ok docs, s) →
      (app P deps (.cutOff 1) (consumerClaims tenantId assistantId)
        (.listDocuments requested limit)).run (ApiState.handle P)
        (Environment.cutOff 1).decisions s =
        some (.ok ⟨200, .documents (docs.map fun d => toStatusView d.1 d.2), none⟩, s) := by
    intro s docs hexec
    have hstep : s.handle P (.listDocuments tenantId other (listTake limit))
        ((Environment.cutOff 1).decisions 0) = some (.ok docs, s) := hexec
    rw [happ, Proc.run_await hstep, hk]
    rfl
  refine not_only_of_tells rfl (wellFormed_sampleTenant P tenantId other (List.nodup_singleton 0))
    (wellFormed_sampleTenant P tenantId other List.nodup_nil)
    (agreeOn_sampleTenant hother [0] [])
    (hrun _ [(sampleDocumentOf tenantId other 0, 0)] ?_) (hrun _ [] ?_) (fun heq => ?_) before after
  · obtain ⟨n, hn⟩ := Nat.exists_eq_succ_of_ne_zero (listTake_pos limit).ne'
    simp [hn, ApiState.exec, sampleTenant, sampleDocumentOf, NewDocument.row, World.counted]
  · simp [ApiState.exec, sampleTenant]
  · cases heq

/-! ## The result -/

/-- **What a consumer's token reaches** — its own assistant alone, exactly with the requests that
get nothing past the checks of a documents route, the list of the assistant's own documents
apart. -/
theorem consumer_confined_iff (requests : List Request) :
    OnlyOwnAssistant P deps tenantId assistantId requests ↔
      ∀ r ∈ requests, r.Confined assistantId := by
  refine ⟨fun honly r hr => ?_, onlyOwnAssistant_of_confined⟩
  obtain ⟨before, after, rfl⟩ := List.append_of_mem hr
  cases r with
  | postDocument form => exact fun upload h => not_only_postDocument h before after honly
  | listDocuments requested limit =>
    intro id hid
    by_contra hother
    exact not_only_listDocuments hid hother before after honly
  | getDocument text =>
    exact Option.eq_none_iff_forall_ne_some.mpr fun id h =>
      not_only_readDocument (.inl rfl) h before after honly
  | deleteDocument text =>
    exact Option.eq_none_iff_forall_ne_some.mpr fun id h =>
      not_only_deleteDocument h before after honly
  | documentEvents text =>
    exact Option.eq_none_iff_forall_ne_some.mpr fun id h =>
      not_only_readDocument (.inr rfl) h before after honly
  | _ => trivial

end

/-- A token of assistant 1 deletes a document of assistant 2. -/
theorem not_consumer_confined : ¬ OnlyOwnAssistant samplePlatform sampleDeps 7 1
    [.deleteDocument (js "00000000-0000-0000-0000-00000000000a")] := by
  have hid : Uuid.parse (js "00000000-0000-0000-0000-00000000000a") = some 10 := by decide +kernel
  exact not_only_deleteDocument hid [] []

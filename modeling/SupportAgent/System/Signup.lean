import SupportAgent.Routes.Handlers
import SupportAgent.Machinery.Run

/-!
# System/Signup — signups racing for an email

`auth_create_tenant_and_owner` is one transaction: it looks for the email among the committed users,
inserts a tenant, its owner and its assistant, and commits.  The steps of any number of calls
interleave.  The rows of a call are its own until it commits, except that the unique index on the
email sees them: a second insert of the email waits for the first to end.

* `signup_unique` — whatever the interleaving, the committed rows are those of the requests answered
  201, one per email, and every other request is answered 409.
-/

open Async Ingestion

/-! ## The function, step by step -/

/-- Where a call of `auth_create_tenant_and_owner` stands, with the rows it has inserted. -/
inductive SignupPhase
  | called
  /-- No user with the email was found. -/
  | unregistered
  | tenantInserted (tenant : Tenant)
  | userInserted (tenant : Tenant) (user : AppUser)
  | assistantInserted (tenant : Tenant) (user : AppUser) (assistant : Assistant)

/-- A call of `auth_create_tenant_and_owner`, and what its request does with the outcome. -/
structure SignupCall where
  tenantName : JsString
  email : JsString
  passwordHash : JsString
  phase : SignupPhase := .called
  respond : Except JsError AppUser → Route Response

/-- A request of `POST /auth/signup`, inside the function or answered. -/
inductive SignupTask
  | calling (call : SignupCall)
  | answered (result : Except JsError Response)

structure SignupRequest where
  tenantName : Option Json
  email : Option Json
  password : Option Json
  env : Environment

/-- The committed rows, and the requests in the order of their arrival. -/
structure SignupSystem where
  committed : ApiState
  tasks : List (SignupRequest × SignupTask) := []

/-- The message of an error a raw query rethrows from the database. -/
def rawQueryFailed (code message : JsString) : JsError :=
  .new (js "Raw query failed. Code: " ++ [0x60] ++ code ++ [0x60] ++ js ". Message: " ++ [0x60] ++
    message ++ [0x60])

/-- `unique_violation`. -/
def UNIQUE_VIOLATION : JsString := js "23505"

/-- The tenant row of a call. -/
def SignupPhase.tenant : SignupPhase → Option Tenant
  | called | unregistered => none
  | tenantInserted tenant | userInserted tenant _ | assistantInserted tenant _ _ => some tenant

/-- The call has an entry in the unique index on the email. -/
def SignupPhase.holds : SignupPhase → Bool
  | userInserted .. | assistantInserted .. => true
  | _ => false

/-- The assistant row of a call. -/
def SignupPhase.assistant : SignupPhase → Option Assistant
  | assistantInserted _ _ assistant => some assistant
  | _ => none

def SignupTask.call : SignupTask → Option SignupCall
  | calling call => some call
  | answered _ => none

namespace SignupSystem

variable (s : SignupSystem)

/-- The calls in flight. -/
def calls : List SignupCall := s.tasks.filterMap (·.2.call)

/-- `app_user_email_key`, and the check before it: a committed user has the email. -/
def registered (email : JsString) : Bool := s.committed.users.any (·.email == email)

def put (i : ℕ) (request : SignupRequest) (task : SignupTask) : SignupSystem :=
  { s with tasks := s.tasks.set i (request, task) }

/-- The call goes on. -/
def proceed (i : ℕ) (request : SignupRequest) (call : SignupCall) (phase : SignupPhase) :
    SignupSystem :=
  s.put i request (.calling { call with phase })

/-- The call ends: an exception rolls it back. -/
def finish (i : ℕ) (request : SignupRequest) (call : SignupCall)
    (outcome : Except JsError AppUser) : Option SignupSystem :=
  (call.respond outcome).outcome.map fun result => s.put i request (.answered result)

/-- The rows of a call, committed. -/
def commit (tenant : Tenant) (user : AppUser) (assistant : Assistant) : SignupSystem :=
  { s with
    committed := { s.committed with
      tenants := s.committed.tenants ++ [tenant]
      users := s.committed.users ++ [user]
      world := { s.committed.world with
        assistants := s.committed.world.assistants ++ [assistant] } } }

/-- **One statement of a call**, where it does not wait; `drawn` is what `gen_random_uuid()` gives
and `detail` what the database says of a violation. -/
def statement (detail : JsString) (i : ℕ) (request : SignupRequest) (call : SignupCall)
    (drawn : Uuid) (now : ℕ) : Option SignupSystem :=
  match call.phase with
  | .called =>
    if s.registered call.email then
      s.finish i request call
        (.error (rawQueryFailed UNIQUE_VIOLATION (js "email already registered")))
    else some (s.proceed i request call .unregistered)
  | .unregistered =>
    if drawn ∈ s.committed.tenants.map (·.id) ∨
        s.calls.any (fun other => other.phase.tenant.any (·.id == drawn)) then none
    else some (s.proceed i request call (.tenantInserted ⟨drawn, call.tenantName⟩))
  | .tenantInserted tenant =>
    if s.registered call.email then
      s.finish i request call (.error (rawQueryFailed UNIQUE_VIOLATION detail))
    -- another call has inserted the email: wait for it to end
    else if s.calls.any (fun other => other.phase.holds && other.email == call.email) then none
    else some (s.proceed i request call (.userInserted tenant {
      id := drawn, tenantId := tenant.id, email := call.email
      passwordHash := call.passwordHash, role := .OWNER }))
  | .userInserted tenant user =>
    if drawn ∈ s.committed.world.assistants.map (·.id) ∨
        s.calls.any (fun other => other.phase.assistant.any (·.id == drawn)) then none
    else some (s.proceed i request call
      (.assistantInserted tenant user (defaultAssistant drawn tenant.id now)))
  | .assistantInserted tenant user assistant =>
    (s.commit tenant user assistant).finish i request call (.ok user)

end SignupSystem

/-- A request up to its call of the function. -/
def SignupRequest.begin (deps : AppDeps) (request : SignupRequest) : Option SignupTask :=
  match postSignup deps request.env request.tenantName request.email request.password with
  | .ret response => some (.answered (.ok response))
  | .throw e => some (.answered (.error e))
  | .await (.createTenantAndOwner tenantName email passwordHash) respond =>
    some (.calling { tenantName, email, passwordHash, respond })
  | .await _ _ => none

/-- What happens next: a request arrives, or a call executes its next statement. -/
inductive SignupMove
  | arrive (request : SignupRequest)
  | advance (i : ℕ) (drawn : Uuid) (now : ℕ)

/-- **One step of the system.** -/
def SignupSystem.step (deps : AppDeps) (detail : JsString) (s : SignupSystem) :
    SignupMove → Option SignupSystem
  | .arrive request => (request.begin deps).map fun task =>
    { s with tasks := s.tasks ++ [(request, task)] }
  | .advance i drawn now =>
    match s.tasks[i]? with
    | some (request, .calling call) => s.statement detail i request call drawn now
    | _ => none

/-! ## What signups keep -/

/-- **Every tenant has one owner and one default assistant, and every email one user.** -/
structure ApiState.Provisioned (s : ApiState) : Prop where
  emails : (s.users.map (·.email)).Nodup
  tenants : (s.tenants.map (·.id)).Nodup
  userTenant : ∀ user ∈ s.users, user.tenantId ∈ s.tenants.map (·.id)
  assistantTenant : ∀ assistant ∈ s.world.assistants, assistant.tenantId ∈ s.tenants.map (·.id)
  owner : ∀ tenant ∈ s.tenants,
    s.users.countP (fun user => user.tenantId == tenant.id && user.role == .OWNER) = 1
  assistant : ∀ tenant ∈ s.tenants, s.world.assistants.countP (fun assistant =>
    assistant.tenantId == tenant.id && assistant.name == js "Default assistant") = 1

/-- The normalized email of a request. -/
def SignupRequest.normalizedEmail (deps : AppDeps) (request : SignupRequest) : Option JsString :=
  (zodString request.email).bind deps.normalizeEmail

/-- The body passes `signupSchema`. -/
def SignupRequest.Valid (deps : AppDeps) (request : SignupRequest) : Prop :=
  (zodText 1 200 JsString.trim request.tenantName).isSome ∧
    (request.normalizedEmail deps).isSome ∧ (zodText 8 200 id request.password).isSome

/-- The answer of a signup that succeeded. -/
def SignedUp (result : Except JsError Response) : Prop :=
  ∃ token, result = .ok ⟨201, .token token, none⟩

/-- The answer of a signup whose email is taken. -/
def EMAIL_TAKEN : Except JsError Response := .ok (errorResponse 409 (js "email already registered"))

/-- The rows a call inserted belong together. -/
def SignupPhase.Rows (email : JsString) : SignupPhase → Prop
  | called | unregistered | tenantInserted _ => True
  | userInserted tenant user =>
    user.email = email ∧ user.tenantId = tenant.id ∧ user.role = .OWNER
  | assistantInserted tenant user assistant =>
    (user.email = email ∧ user.tenantId = tenant.id ∧ user.role = .OWNER) ∧
      assistant.tenantId = tenant.id ∧ assistant.name = js "Default assistant"

/-- A call of the function as its request made it. -/
structure SignupCall.Fits (deps : AppDeps) (request : SignupRequest) (call : SignupCall) :
    Prop where
  email : request.normalizedEmail deps = some call.email
  created : ∀ user, ∃ result, (call.respond (.ok user)).outcome = some result ∧ SignedUp result
  taken : ∀ message, (call.respond (.error (rawQueryFailed UNIQUE_VIOLATION message))).outcome =
    some EMAIL_TAKEN
  rows : call.phase.Rows call.email

/-- **Either way the function fails, the service sees a taken email.** -/
theorem isEmailTaken_rawQueryFailed (message : JsString) :
    isEmailTaken (rawQueryFailed UNIQUE_VIOLATION message) = true := by
  have hfound : (JsString.indexOf (js "23505")
      (rawQueryFailed UNIQUE_VIOLATION message).message).isSome := by
    refine JsString.isSome_indexOf_iff.2 ⟨js "Raw query failed. Code: " ++ [0x60],
      [0x60] ++ js ". Message: " ++ [0x60] ++ message ++ [0x60], ?_⟩
    simp [rawQueryFailed, JsError.new, UNIQUE_VIOLATION]
  rw [isEmailTaken, List.any_eq_true]
  exact ⟨js "23505", by simp, hfound⟩

section

variable {deps : AppDeps} {request : SignupRequest}

/-- A valid request calls the function with its normalized email. -/
theorem SignupRequest.begin_of_valid (h : request.Valid deps) :
    ∃ call, request.begin deps = some (.calling call) ∧ call.phase = .called ∧
      call.Fits deps request := by
  obtain ⟨hname, hemail, hpassword⟩ := h
  obtain ⟨name, hname⟩ := Option.isSome_iff_exists.1 hname
  obtain ⟨email, hemail⟩ := Option.isSome_iff_exists.1 hemail
  obtain ⟨password, hpassword⟩ := Option.isSome_iff_exists.1 hpassword
  rw [normalizedEmail] at hemail
  rw [begin, postSignup, hname, hemail, hpassword]
  refine ⟨_, rfl, rfl, hemail, fun user => ⟨_, rfl, _, rfl⟩, fun message => ?_, trivial⟩
  have htaken := isEmailTaken_rawQueryFailed message
  dsimp only [Proc.tryCatch, Proc.bind, Functor.map]
  rw [if_pos htaken]
  rfl

theorem SignupRequest.begin_of_not_valid (h : ¬ request.Valid deps) :
    request.begin deps = some (.answered (.ok (errorResponse 400 (js "invalid request")))) := by
  have hrefused : postSignup deps request.env request.tenantName request.email request.password =
      .ret (errorResponse 400 (js "invalid request")) := by
    rw [postSignup]
    split
    case h_1 name email password hname hemail hpassword =>
      refine absurd ⟨?_, ?_, ?_⟩ h
      · rw [hname]
        rfl
      · rw [normalizedEmail, hemail]
        rfl
      · rw [hpassword]
        rfl
    case h_2 => rfl
  rw [begin, hrefused]

/-- A request that calls the function is only starting. -/
theorem SignupRequest.calling_of_begin {call : SignupCall}
    (h : request.begin deps = some (.calling call)) : call.phase = .called ∧
    call.Fits deps request := by
  by_cases hvalid : request.Valid deps
  · obtain ⟨call', hcall', hphase, hfits⟩ := begin_of_valid hvalid
    cases h.symm.trans hcall'
    exact ⟨hphase, hfits⟩
  · cases h.symm.trans (begin_of_not_valid hvalid)

/-- A request answered without a call was refused. -/
theorem SignupRequest.answered_of_begin {result : Except JsError Response}
    (h : request.begin deps = some (.answered result)) :
    ¬ request.Valid deps ∧ ¬ SignedUp result := by
  by_cases hvalid : request.Valid deps
  · obtain ⟨call, hcall, -⟩ := begin_of_valid hvalid
    cases h.symm.trans hcall
  · refine ⟨hvalid, ?_⟩
    cases h.symm.trans (begin_of_not_valid hvalid)
    rintro ⟨token, htoken⟩
    cases htoken

end

/-! ## The invariant -/

/-- The rows a signup committed, and the request they were for. -/
structure SignupRows where
  index : ℕ
  tenant : Tenant
  user : AppUser
  assistant : Assistant

/-- A state with the rows of some signups added. -/
def ApiState.withSignups (s : ApiState) (added : List SignupRows) : ApiState :=
  { s with
    tenants := s.tenants ++ added.map (·.tenant)
    users := s.users ++ added.map (·.user)
    world := { s.world with assistants := s.world.assistants ++ added.map (·.assistant) } }

/-- The rows of one signup, of the request with this email. -/
structure SignupRows.Fits (email : JsString) (rows : SignupRows) : Prop where
  email : rows.user.email = email
  user : rows.user.tenantId = rows.tenant.id
  role : rows.user.role = .OWNER
  assistant : rows.assistant.tenantId = rows.tenant.id
  name : rows.assistant.name = js "Default assistant"

/-- **The rows of one more signup** keep the tables in order, its tenant and email being new. -/
theorem ApiState.Provisioned.add {s : ApiState} (h : s.Provisioned) {email : JsString}
    {rows : SignupRows} (hrows : rows.Fits email) (hemail : email ∉ s.users.map (·.email))
    (htenant : rows.tenant.id ∉ s.tenants.map (·.id)) : (s.withSignups [rows]).Provisioned := by
  obtain ⟨huemail, huser, hrole, hassistant, hname⟩ := hrows
  have hforeign : ∀ user ∈ s.users, (user.tenantId == rows.tenant.id) = false := fun user hu =>
    beq_false_of_ne fun heq => htenant (heq ▸ h.userTenant user hu)
  have hforeign' : ∀ a ∈ s.world.assistants, (a.tenantId == rows.tenant.id) = false := fun a ha =>
    beq_false_of_ne fun heq => htenant (heq ▸ h.assistantTenant a ha)
  have hother : ∀ tenant ∈ s.tenants, (rows.tenant.id == tenant.id) = false := fun tenant ht =>
    beq_false_of_ne fun heq => htenant (heq ▸ List.mem_map_of_mem ht)
  constructor
  · simp only [withSignups, List.map_append, List.map_cons, List.map_nil]
    exact List.nodup_append.2 ⟨h.emails, List.nodup_singleton _, fun a ha b hb hab =>
      hemail (by rw [← huemail, ← List.mem_singleton.1 hb, ← hab]; exact ha)⟩
  · simp only [withSignups, List.map_append, List.map_cons, List.map_nil]
    exact List.nodup_append.2 ⟨h.tenants, List.nodup_singleton _, fun a ha b hb hab =>
      htenant (by rw [← List.mem_singleton.1 hb, ← hab]; exact ha)⟩
  · intro user hu
    simp only [withSignups, List.map_append, List.map_cons, List.map_nil] at hu ⊢
    obtain hu | hu := List.mem_append.1 hu
    · exact List.mem_append_left _ (h.userTenant user hu)
    · rw [List.mem_singleton.1 hu, huser]
      exact List.mem_append_right _ List.mem_cons_self
  · intro a ha
    simp only [withSignups, List.map_append, List.map_cons, List.map_nil] at ha ⊢
    obtain ha | ha := List.mem_append.1 ha
    · exact List.mem_append_left _ (h.assistantTenant a ha)
    · rw [List.mem_singleton.1 ha, hassistant]
      exact List.mem_append_right _ List.mem_cons_self
  · intro tenant ht
    simp only [withSignups, List.map_cons, List.map_nil, List.countP_append,
      List.countP_singleton] at ht ⊢
    obtain ht | ht := List.mem_append.1 ht
    · rw [h.owner tenant ht, huser, hother tenant ht]
      rfl
    · obtain rfl := List.mem_singleton.1 ht
      rw [List.countP_eq_zero.2 fun user hu => by simp [hforeign user hu], huser, hrole]
      simp
  · intro tenant ht
    simp only [withSignups, List.map_cons, List.map_nil, List.countP_append,
      List.countP_singleton] at ht ⊢
    obtain ht | ht := List.mem_append.1 ht
    · rw [h.assistant tenant ht, hassistant, hother tenant ht]
      rfl
    · obtain rfl := List.mem_singleton.1 ht
      rw [List.countP_eq_zero.2 fun a ha => by simp [hforeign' a ha], hassistant, hname]
      simp

/-- **What the system keeps**, `added` being the signups committed so far. -/
structure SignupSystem.Sound (deps : AppDeps) (s₀ : ApiState) (added : List SignupRows)
    (s : SignupSystem) : Prop where
  committed : s.committed = s₀.withSignups added
  provisioned : s.committed.Provisioned
  nodup : (added.map (·.index)).Nodup
  calls : ∀ (i : ℕ) r c, s.tasks[i]? = some (r, .calling c) → c.Fits deps r
  tenants : ∀ (i : ℕ) r c t, s.tasks[i]? = some (r, .calling c) → c.phase.tenant = some t →
    t.id ∉ s.committed.tenants.map (·.id) ∧ ∀ (j : ℕ) r' c' t', j ≠ i →
      s.tasks[j]? = some (r', .calling c') → c'.phase.tenant = some t' → t'.id ≠ t.id
  holders : ∀ (i : ℕ) r c, s.tasks[i]? = some (r, .calling c) → c.phase.holds = true →
    c.email ∉ s.committed.users.map (·.email) ∧ ∀ (j : ℕ) r' c', j ≠ i →
      s.tasks[j]? = some (r', .calling c') → c'.phase.holds = true → c'.email ≠ c.email
  answered : ∀ (i : ℕ) r result, s.tasks[i]? = some (r, .answered result) → r.Valid deps →
    SignedUp result ∨ result = EMAIL_TAKEN
  winners : ∀ (i : ℕ) r result, s.tasks[i]? = some (r, .answered result) → SignedUp result →
    ∃ rows ∈ added, rows.index = i
  rows : ∀ rows ∈ added, ∃ r result email, s.tasks[rows.index]? = some (r, .answered result) ∧
    SignedUp result ∧ r.normalizedEmail deps = some email ∧ rows.Fits email

namespace SignupSystem

variable {deps : AppDeps} {s₀ : ApiState} {added : List SignupRows} {s : SignupSystem} {i : ℕ}
  {request : SignupRequest} {call : SignupCall}

theorem getElem?_put {old new : SignupTask} {j : ℕ} {x : SignupRequest × SignupTask}
    (hi : s.tasks[i]? = some (request, old)) :
    (s.put i request new).tasks[j]? = some x ↔
      j = i ∧ x = (request, new) ∨ j ≠ i ∧ s.tasks[j]? = some x := by
  have hlt : i < s.tasks.length := (List.getElem?_eq_some_iff.1 hi).1
  by_cases hji : j = i
  · subst hji
    simp [put, hlt, eq_comm]
  · simp [put, hji, Ne.symm hji]

/-- When a call is answered, those still in flight are the others. -/
theorem calling_of_answer (hi : s.tasks[i]? = some (request, .calling call))
    {answer : Except JsError Response} {j : ℕ} {r : SignupRequest} {c : SignupCall}
    (hj : (s.put i request (.answered answer)).tasks[j]? = some (r, .calling c)) :
    j ≠ i ∧ s.tasks[j]? = some (r, .calling c) := by
  obtain ⟨-, heq⟩ | hold := (getElem?_put hi).1 hj
  · cases heq
  · exact hold

/-- An answer stays. -/
theorem answered_put (hi : s.tasks[i]? = some (request, .calling call)) {new : SignupTask} {j : ℕ}
    {r : SignupRequest} {result : Except JsError Response}
    (hj : s.tasks[j]? = some (r, .answered result)) :
    (s.put i request new).tasks[j]? = some (r, .answered result) := by
  refine (getElem?_put hi).2 (.inr ⟨fun heq => ?_, hj⟩)
  rw [heq, hi] at hj
  cases hj

/-- The call of a task that is one is in flight. -/
theorem mem_calls (hi : s.tasks[i]? = some (request, .calling call)) : call ∈ s.calls :=
  List.mem_filterMap.2 ⟨_, List.mem_of_getElem? hi, rfl⟩

/-- **A call that goes on keeps the system sound**, where what it inserts is new. -/
theorem Sound.proceed (hs : s.Sound deps s₀ added)
    (hi : s.tasks[i]? = some (request, .calling call))
    {phase : SignupPhase} (hrows : phase.Rows call.email)
    (htenant : ∀ t, phase.tenant = some t → t.id ∉ s.committed.tenants.map (·.id) ∧
      ∀ (j : ℕ) r' c' t', j ≠ i → s.tasks[j]? = some (r', .calling c') →
        c'.phase.tenant = some t' → t'.id ≠ t.id)
    (hholds : phase.holds = true → call.email ∉ s.committed.users.map (·.email) ∧
      ∀ (j : ℕ) r' c', j ≠ i → s.tasks[j]? = some (r', .calling c') → c'.phase.holds = true →
        c'.email ≠ call.email) :
    (s.proceed i request call phase).Sound deps s₀ added := by
  have hget := @getElem?_put s i request (.calling call) (.calling { call with phase })
  refine ⟨hs.committed, hs.provisioned, hs.nodup, ?_, ?_, ?_, ?_, ?_, ?_⟩
  · intro j r c hj
    obtain ⟨rfl, heq⟩ | ⟨-, hj⟩ := (hget hi).1 hj
    · cases heq
      obtain ⟨hemail, hcreated, htaken, -⟩ := hs.calls _ _ _ hi
      exact ⟨hemail, hcreated, htaken, hrows⟩
    · exact hs.calls j r c hj
  · intro j r c t hj ht
    obtain ⟨rfl, heq⟩ | ⟨hji, hold⟩ := (hget hi).1 hj
    · cases heq
      refine ⟨(htenant t ht).1, fun k r' c' t' hk hk' => ?_⟩
      obtain ⟨rfl, -⟩ | ⟨-, hk'⟩ := (hget hi).1 hk'
      · exact absurd rfl hk
      · exact (htenant t ht).2 k r' c' t' hk hk'
    · refine ⟨(hs.tenants j r c t hold ht).1, fun k r' c' t' hk hk' ht' => ?_⟩
      obtain ⟨rfl, heq⟩ | ⟨-, hk'⟩ := (hget hi).1 hk'
      · cases heq
        exact ((htenant t' ht').2 j r c t hji hold ht).symm
      · exact (hs.tenants j r c t hold ht).2 k r' c' t' hk hk' ht'
  · intro j r c hj hc
    obtain ⟨rfl, heq⟩ | ⟨hji, hold⟩ := (hget hi).1 hj
    · cases heq
      refine ⟨(hholds hc).1, fun k r' c' hk hk' => ?_⟩
      obtain ⟨rfl, -⟩ | ⟨-, hk'⟩ := (hget hi).1 hk'
      · exact absurd rfl hk
      · exact (hholds hc).2 k r' c' hk hk'
    · refine ⟨(hs.holders j r c hold hc).1, fun k r' c' hk hk' hc' => ?_⟩
      obtain ⟨rfl, heq⟩ | ⟨-, hk'⟩ := (hget hi).1 hk'
      · cases heq
        exact ((hholds hc').2 j r c hji hold hc).symm
      · exact (hs.holders j r c hold hc).2 k r' c' hk hk' hc'
  · intro j r result hj
    obtain ⟨-, heq⟩ | ⟨-, hj⟩ := (hget hi).1 hj
    · cases heq
    · exact hs.answered j r result hj
  · intro j r result hj
    obtain ⟨-, heq⟩ | ⟨-, hj⟩ := (hget hi).1 hj
    · cases heq
    · exact hs.winners j r result hj
  · intro rows hmem
    obtain ⟨r, result, email, hj, hrest⟩ := hs.rows rows hmem
    exact ⟨r, result, email, answered_put hi hj, hrest⟩

/-- **A call whose email is taken leaves no row behind.** -/
theorem Sound.taken (hs : s.Sound deps s₀ added) (hi : s.tasks[i]? = some (request, .calling call))
    {message : JsString} {s' : SignupSystem}
    (hfinish : s.finish i request call (.error (rawQueryFailed UNIQUE_VIOLATION message)) =
      some s') :
    s'.Sound deps s₀ added := by
  rw [finish, (hs.calls i request call hi).taken message] at hfinish
  obtain rfl := Option.some.inj hfinish
  have hget := @getElem?_put s i request (.calling call) (.answered EMAIL_TAKEN)
  refine ⟨hs.committed, hs.provisioned, hs.nodup, ?_, ?_, ?_, ?_, ?_, ?_⟩
  · intro j r c hj
    exact hs.calls j r c (calling_of_answer hi hj).2
  · intro j r c t hj ht
    obtain ⟨hfresh, hdistinct⟩ := hs.tenants j r c t (calling_of_answer hi hj).2 ht
    exact ⟨hfresh, fun k r' c' t' hk hk' => hdistinct k r' c' t' hk (calling_of_answer hi hk').2⟩
  · intro j r c hj hc
    obtain ⟨hnew, hunheld⟩ := hs.holders j r c (calling_of_answer hi hj).2 hc
    exact ⟨hnew, fun k r' c' hk hk' => hunheld k r' c' hk (calling_of_answer hi hk').2⟩
  · intro j r result hj hvalid
    obtain ⟨-, heq⟩ | ⟨-, hold⟩ := (hget hi).1 hj
    · cases heq
      exact .inr rfl
    · exact hs.answered j r result hold hvalid
  · intro j r result hj hsigned
    obtain ⟨-, heq⟩ | ⟨-, hold⟩ := (hget hi).1 hj
    · cases heq
      obtain ⟨token, htoken⟩ := hsigned
      cases htoken
    · exact hs.winners j r result hold hsigned
  · intro rows hmem
    obtain ⟨r, result, email, hj, hrest⟩ := hs.rows rows hmem
    exact ⟨r, result, email, answered_put hi hj, hrest⟩

/-- **A call that commits** adds its rows and is answered with a token. -/
theorem Sound.commit (hs : s.Sound deps s₀ added) (hi : s.tasks[i]? = some (request, .calling call))
    {tenant : Tenant} {user : AppUser} {assistant : Assistant}
    (hphase : call.phase = .assistantInserted tenant user assistant) {s' : SignupSystem}
    (hfinish : (s.commit tenant user assistant).finish i request call (.ok user) = some s') :
    s'.Sound deps s₀ (added ++ [⟨i, tenant, user, assistant⟩]) := by
  obtain ⟨hemail, hcreated, -, hrows⟩ := hs.calls i request call hi
  obtain ⟨result, hresult, hsigned⟩ := hcreated user
  rw [hphase] at hrows
  obtain ⟨⟨huemail, huser, hrole⟩, hassistant, hname⟩ := hrows
  obtain ⟨hfresh, hdistinct⟩ := hs.tenants i request call tenant hi (by rw [hphase]; rfl)
  obtain ⟨hnew, hunheld⟩ := hs.holders i request call hi (by rw [hphase]; rfl)
  rw [finish, hresult] at hfinish
  obtain rfl := Option.some.inj hfinish
  have hi' : (s.commit tenant user assistant).tasks[i]? = some (request, .calling call) := hi
  have hget := @getElem?_put (s.commit tenant user assistant) i request (.calling call)
    (.answered result)
  have hfits : (SignupRows.mk i tenant user assistant).Fits call.email :=
    ⟨huemail, huser, hrole, hassistant, hname⟩
  have hcommitted : (s.commit tenant user assistant).committed =
      s.committed.withSignups [⟨i, tenant, user, assistant⟩] := rfl
  refine ⟨?_, ?_, ?_, ?_, ?_, ?_, ?_, ?_, ?_⟩
  · change (s.commit tenant user assistant).committed = _
    rw [hcommitted, hs.committed]
    simp [ApiState.withSignups]
  · exact hs.provisioned.add hfits hnew hfresh
  · rw [List.map_append]
    refine List.nodup_append.2 ⟨hs.nodup, List.nodup_singleton _, ?_⟩
    rintro k hk _ hlast rfl
    obtain rfl : k = i := List.mem_singleton.1 hlast
    obtain ⟨rows, hmem, rfl⟩ := List.mem_map.1 hk
    obtain ⟨r, result', email, hj, -⟩ := hs.rows rows hmem
    rw [hi] at hj
    cases hj
  · intro j r c hj
    exact hs.calls j r c (calling_of_answer hi' hj).2
  · intro j r c t hj ht
    obtain ⟨hji, hold⟩ := calling_of_answer hi' hj
    obtain ⟨hfresh', hdistinct'⟩ := hs.tenants j r c t hold ht
    refine ⟨fun hmem => ?_, fun k r' c' t' hk hk' =>
      hdistinct' k r' c' t' hk (calling_of_answer hi' hk').2⟩
    change t.id ∈ (s.committed.tenants ++ [tenant]).map (·.id) at hmem
    rw [List.map_append] at hmem
    obtain hmem | hmem := List.mem_append.1 hmem
    · exact hfresh' hmem
    · exact hdistinct j r c t hji hold ht (List.mem_singleton.1 hmem)
  · intro j r c hj hc
    obtain ⟨hji, hold⟩ := calling_of_answer hi' hj
    obtain ⟨hnew', hunheld'⟩ := hs.holders j r c hold hc
    refine ⟨fun hmem => ?_, fun k r' c' hk hk' =>
      hunheld' k r' c' hk (calling_of_answer hi' hk').2⟩
    change c.email ∈ (s.committed.users ++ [user]).map (·.email) at hmem
    rw [List.map_append] at hmem
    obtain hmem | hmem := List.mem_append.1 hmem
    · exact hnew' hmem
    · exact hunheld j r c hji hold hc ((List.mem_singleton.1 hmem).trans huemail)
  · intro j r result' hj hvalid
    obtain ⟨-, heq⟩ | ⟨-, hold⟩ := (hget hi).1 hj
    · cases heq
      exact .inl hsigned
    · exact hs.answered j r result' hold hvalid
  · intro j r result' hj hsigned'
    obtain ⟨rfl, -⟩ | ⟨-, hold⟩ := (hget hi).1 hj
    · exact ⟨_, List.mem_append_right _ List.mem_cons_self, rfl⟩
    · obtain ⟨rows, hmem, hindex⟩ := hs.winners j r result' hold hsigned'
      exact ⟨rows, List.mem_append_left _ hmem, hindex⟩
  · intro rows hmem
    obtain hmem | hmem := List.mem_append.1 hmem
    · obtain ⟨r, result', email, hj, hrest⟩ := hs.rows rows hmem
      exact ⟨r, result', email, answered_put hi' hj, hrest⟩
    · obtain rfl := List.mem_singleton.1 hmem
      exact ⟨request, result, call.email, (hget hi).2 (.inl ⟨rfl, rfl⟩), hsigned, hemail, hfits⟩

theorem getElem?_arrive {task : SignupTask} {j : ℕ} {x : SignupRequest × SignupTask}
    (hj : (s.tasks ++ [(request, task)])[j]? = some x) :
    s.tasks[j]? = some x ∨ x = (request, task) := by
  rw [List.getElem?_append] at hj
  split at hj
  · exact .inl hj
  · obtain ⟨-, rfl⟩ := List.getElem?_eq_some_iff.1 hj
    exact .inr (by simp)

/-- **A request that arrives keeps the system sound**: it has inserted nothing. -/
theorem Sound.arrive (hs : s.Sound deps s₀ added) {task : SignupTask}
    (hbegin : request.begin deps = some task) :
    SignupSystem.Sound deps s₀ added { s with tasks := s.tasks ++ [(request, task)] } := by
  have hcalling : ∀ {j : ℕ} {r : SignupRequest} {c : SignupCall},
      (s.tasks ++ [(request, task)])[j]? = some (r, .calling c) →
        s.tasks[j]? = some (r, .calling c) ∨ c.phase = .called ∧ c.Fits deps r := by
    intro j r c hj
    obtain hold | hnew := getElem?_arrive hj
    · exact .inl hold
    · obtain ⟨rfl, rfl⟩ := Prod.mk.inj hnew
      exact .inr (SignupRequest.calling_of_begin hbegin)
  have hanswered : ∀ {j : ℕ} {r : SignupRequest} {result : Except JsError Response},
      (s.tasks ++ [(request, task)])[j]? = some (r, .answered result) →
        s.tasks[j]? = some (r, .answered result) ∨ ¬ r.Valid deps ∧ ¬ SignedUp result := by
    intro j r result hj
    obtain hold | hnew := getElem?_arrive hj
    · exact .inl hold
    · obtain ⟨rfl, rfl⟩ := Prod.mk.inj hnew
      exact .inr (SignupRequest.answered_of_begin hbegin)
  refine ⟨hs.committed, hs.provisioned, hs.nodup, ?_, ?_, ?_, ?_, ?_, ?_⟩
  · intro j r c hj
    obtain hold | ⟨-, hfits⟩ := hcalling hj
    · exact hs.calls j r c hold
    · exact hfits
  · intro j r c t hj ht
    obtain hold | ⟨hphase, -⟩ := hcalling hj
    · refine ⟨(hs.tenants j r c t hold ht).1, fun k r' c' t' hk hk' ht' => ?_⟩
      obtain hold' | ⟨hphase', -⟩ := hcalling hk'
      · exact (hs.tenants j r c t hold ht).2 k r' c' t' hk hold' ht'
      · rw [hphase'] at ht'
        cases ht'
    · rw [hphase] at ht
      cases ht
  · intro j r c hj hc
    obtain hold | ⟨hphase, -⟩ := hcalling hj
    · refine ⟨(hs.holders j r c hold hc).1, fun k r' c' hk hk' hc' => ?_⟩
      obtain hold' | ⟨hphase', -⟩ := hcalling hk'
      · exact (hs.holders j r c hold hc).2 k r' c' hk hold' hc'
      · rw [hphase'] at hc'
        cases hc'
    · rw [hphase] at hc
      cases hc
  · intro j r result hj hvalid
    obtain hold | ⟨hrefused, -⟩ := hanswered hj
    · exact hs.answered j r result hold hvalid
    · exact absurd hvalid hrefused
  · intro j r result hj hsigned
    obtain hold | ⟨-, hunsigned⟩ := hanswered hj
    · exact hs.winners j r result hold hsigned
    · exact absurd hsigned hunsigned
  · intro rows hmem
    obtain ⟨r, result, email, hj, hrest⟩ := hs.rows rows hmem
    exact ⟨r, result, email,
      List.getElem?_append_left (List.getElem?_eq_some_iff.1 hj).1 ▸ hj, hrest⟩

theorem registered_eq_false {email : JsString} (h : ¬ s.registered email = true) :
    email ∉ s.committed.users.map (·.email) := by
  intro hmem
  obtain ⟨user, huser, rfl⟩ := List.mem_map.1 hmem
  exact h (List.any_eq_true.2 ⟨user, huser, beq_self_eq_true _⟩)

/-- **Every statement of a call keeps the system sound.** -/
theorem Sound.statement (hs : s.Sound deps s₀ added)
    (hi : s.tasks[i]? = some (request, .calling call)) {detail : JsString} {drawn : Uuid} {now : ℕ}
    {s' : SignupSystem} (h : s.statement detail i request call drawn now = some s') :
    ∃ added', s'.Sound deps s₀ added' := by
  have hrows := (hs.calls i request call hi).rows
  have htenants := fun t => hs.tenants i request call t hi
  have hholders := hs.holders i request call hi
  rw [SignupSystem.statement] at h
  cases hphase : call.phase with
  | called =>
    rw [hphase] at h
    dsimp only at h
    split at h
    · exact ⟨added, hs.taken hi h⟩
    · obtain rfl := Option.some.inj h
      exact ⟨added, hs.proceed hi trivial nofun nofun⟩
  | unregistered =>
    rw [hphase] at h
    dsimp only at h
    split at h
    · cases h
    · rename_i hfresh
      obtain ⟨hcommitted, hcalls⟩ := not_or.1 hfresh
      obtain rfl := Option.some.inj h
      refine ⟨added, hs.proceed hi trivial (fun t ht => ?_) nofun⟩
      obtain rfl := Option.some.inj ht
      refine ⟨hcommitted, fun j r' c' t' _ hj ht' heq => hcalls (List.any_eq_true.2 ?_)⟩
      exact ⟨c', mem_calls hj, by rw [ht', Option.any_some, heq]; exact beq_self_eq_true _⟩
  | tenantInserted tenant =>
    rw [hphase] at h hrows
    dsimp only at h
    split at h
    · exact ⟨added, hs.taken hi h⟩
    rename_i hfree
    split at h
    · cases h
    rename_i hunheld
    obtain rfl := Option.some.inj h
    refine ⟨added, hs.proceed hi ⟨rfl, rfl, rfl⟩ (fun t ht => htenants t (by rw [hphase]; exact ht))
      fun _ => ⟨registered_eq_false hfree, fun j r' c' _ hj hc' heq => hunheld ?_⟩⟩
    exact List.any_eq_true.2 ⟨c', mem_calls hj, by rw [hc', heq]; simp⟩
  | userInserted tenant user =>
    rw [hphase] at h hrows
    dsimp only at h
    split at h
    · cases h
    obtain rfl := Option.some.inj h
    exact ⟨added, hs.proceed hi ⟨hrows, rfl, rfl⟩
      (fun t ht => htenants t (by rw [hphase]; exact ht)) fun _ => hholders (by rw [hphase]; rfl)⟩
  | assistantInserted tenant user assistant =>
    rw [hphase] at h
    exact ⟨_, hs.commit hi hphase h⟩

/-- **Every step keeps the system sound.** -/
theorem Sound.step (hs : s.Sound deps s₀ added) {detail : JsString} {move : SignupMove}
    {s' : SignupSystem} (h : s.step deps detail move = some s') :
    ∃ added', s'.Sound deps s₀ added' := by
  cases move with
  | arrive request =>
    obtain ⟨task, hbegin, rfl⟩ := Option.map_eq_some_iff.1 h
    exact ⟨added, hs.arrive hbegin⟩
  | advance i drawn now =>
    rw [SignupSystem.step] at h
    split at h
    · rename_i request call hi
      exact hs.statement hi h
    · cases h

theorem Sound.start (h₀ : s₀.Provisioned) : SignupSystem.Sound deps s₀ [] { committed := s₀ } where
  committed := by simp [ApiState.withSignups]
  provisioned := h₀
  nodup := List.nodup_nil
  calls := fun _ _ _ hi => nomatch hi
  tenants := fun _ _ _ _ hi => nomatch hi
  holders := fun _ _ _ hi => nomatch hi
  answered := fun _ _ _ hi => nomatch hi
  winners := fun _ _ _ hi => nomatch hi
  rows := fun _ hmem => nomatch hmem

theorem Sound.of_reachable (h₀ : s₀.Provisioned) {detail : JsString}
    (h : Run.Reachable (SignupSystem.step deps detail) Run.anyMove (· = { committed := s₀ }) s) :
    ∃ added, s.Sound deps s₀ added := by
  refine Run.Reachable.invariant (P := fun u => ∃ added, u.Sound deps s₀ added) h ?_ ?_
  · rintro _ rfl
    exact ⟨[], .start h₀⟩
  · rintro u move v ⟨added, hu⟩ - hstep
    exact hu.step hstep

end SignupSystem

/-- **Signup is unique and all-or-nothing.**  In every state the requests reach, the committed
tables are in order, and hold beyond what they held at the start exactly the rows of the requests
answered 201, one tenant, owner and assistant each; of the requests with one email at most one is
answered 201; and every valid request that is answered otherwise is told that the email is taken. -/
theorem signup_unique {deps : AppDeps} {detail : JsString} {s₀ : ApiState} (h₀ : s₀.Provisioned)
    {s : SignupSystem}
    (h : Run.Reachable (SignupSystem.step deps detail) Run.anyMove (· = { committed := s₀ }) s) :
    s.committed.Provisioned ∧
    (∃ added : List SignupRows, s.committed = s₀.withSignups added ∧ (added.map (·.index)).Nodup ∧
      (∀ rows ∈ added, ∃ request result email,
        s.tasks[rows.index]? = some (request, .answered result) ∧ SignedUp result ∧
          request.normalizedEmail deps = some email ∧ rows.Fits email) ∧
      ∀ (i : ℕ) request result, s.tasks[i]? = some (request, .answered result) → SignedUp result →
        ∃ rows ∈ added, rows.index = i) ∧
    (∀ (i j : ℕ) request request' result result',
      s.tasks[i]? = some (request, .answered result) →
      s.tasks[j]? = some (request', .answered result') → SignedUp result → SignedUp result' →
      request.normalizedEmail deps = request'.normalizedEmail deps → i = j) ∧
    ∀ (i : ℕ) request result, s.tasks[i]? = some (request, .answered result) → request.Valid deps →
      SignedUp result ∨ result = EMAIL_TAKEN := by
  obtain ⟨added, hs⟩ := SignupSystem.Sound.of_reachable h₀ h
  refine ⟨hs.provisioned, ⟨added, hs.committed, hs.nodup, hs.rows, hs.winners⟩, ?_, hs.answered⟩
  intro i j request request' result result' hi hj hsigned hsigned' hemail
  obtain ⟨rows, hmem, rfl⟩ := hs.winners i request result hi hsigned
  obtain ⟨rows', hmem', rfl⟩ := hs.winners j request' result' hj hsigned'
  obtain ⟨r, res, email, hr, -, hnormal, hfits⟩ := hs.rows rows hmem
  obtain ⟨r', res', email', hr', -, hnormal', hfits'⟩ := hs.rows rows' hmem'
  cases hi.symm.trans hr
  cases hj.symm.trans hr'
  have hsame : rows.user.email = rows'.user.email := by
    rw [hfits.email, hfits'.email]
    exact Option.some.inj (hnormal.symm.trans (hemail.trans hnormal'))
  have hnodup : (added.map (·.user.email)).Nodup := by
    have hemails := hs.provisioned.emails
    rw [hs.committed, ApiState.withSignups, List.map_append, List.map_map] at hemails
    exact (List.nodup_append.1 hemails).2.1
  rw [List.inj_on_of_nodup_map hnodup hmem hmem' hsame]

/-- The body of a signup with this email. -/
def sampleSignup (email : JsString) : SignupRequest where
  tenantName := some (.str (js "Acme"))
  email := some (.str email)
  password := some (.str (js "password"))
  env := { decisions := fun _ => {} }

/-- No tenant, no user and no assistant yet. -/
def noTenants : ApiState := { world := { assistants := [] } }

/-- Two requests with one email, both past the check when the first of them commits. -/
def racedSignups : List SignupMove :=
  [.arrive (sampleSignup (js "a@b.co")), .arrive (sampleSignup (js "a@b.co")), .advance 0 0 0,
    .advance 1 0 0, .advance 0 1 0, .advance 1 2 0, .advance 0 3 0, .advance 0 4 0, .advance 0 0 0,
    .advance 1 5 0]

/-- The statuses of the answers so far. -/
def SignupSystem.statuses (s : SignupSystem) : List ℕ :=
  s.tasks.filterMap fun task => match task.2 with
    | .answered (.ok response) => some response.status
    | _ => none

theorem signup_unique_raced : ∃ s,
    Run.Reachable (SignupSystem.step sampleDeps []) Run.anyMove (· = { committed := noTenants }) s ∧
      s.statuses = [201, 409] ∧ s.committed.users.length = 1 ∧ s.committed.Provisioned := by
  have hinit : Run.Reachable (SignupSystem.step sampleDeps []) Run.anyMove
      (· = { committed := noTenants }) { committed := noTenants } := .start rfl
  obtain ⟨s, hreach, hs⟩ := Run.Reachable.replay (fun _ _ => true) (fun _ _ _ => trivial) hinit
    racedSignups (fun s => s.statuses == [201, 409] && s.committed.users.length == 1) rfl
  obtain ⟨hstatuses, husers⟩ := Bool.and_eq_true_iff.1 hs
  have hnone : noTenants.Provisioned := by
    constructor <;> simp [noTenants]
  exact ⟨s, hreach, beq_iff_eq.1 hstatuses, beq_iff_eq.1 husers, (signup_unique hnone hreach).1⟩

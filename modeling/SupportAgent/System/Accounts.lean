import SupportAgent.System.Signup

/-!
# System/Accounts — logging in after signups that raced

The accounts a database ends up with after any interleaving of signups, and who gets a token from
`POST /auth/login` then.

* `Ledger` — every account beyond those of the start was opened by a request answered 201, and every
  such request opened one.
* `login_of_signups` — a login gives a session of the account whose credentials it was sent, to
  every owner who signed up, and to nobody else.
-/

open Async Ingestion

/-! ## Accounts -/

/-- The claims of a user's session. -/
def AppUser.claims (user : AppUser) : TenantClaims := ⟨user.tenantId, some user.id, none⟩

/-- The rows of a call are made of its password. -/
def SignupPhase.Own (passwordHash : JsString) : SignupPhase → Prop
  | called | unregistered | tenantInserted _ => True
  | userInserted _ user => user.passwordHash = passwordHash
  | assistantInserted tenant user assistant =>
    user.passwordHash = passwordHash ∧ ∃ id now, assistant = defaultAssistant id tenant.id now

/-- A call of the function has the password of its request, and answers with the token of its
user. -/
structure SignupCall.Asks (deps : AppDeps) (request : SignupRequest) (call : SignupCall) :
    Prop where
  password : ∃ password, zodText 8 200 id request.password = some password ∧
    call.passwordHash = deps.hashPassword password
  token : ∀ user : AppUser, (call.respond (.ok user)).outcome =
    some (.ok ⟨201, .token (deps.signTenantToken user.claims request.env.now), none⟩)
  own : call.phase.Own call.passwordHash

/-- The request opened the account of the user, and was answered with a session of it. -/
structure SignupRequest.Opened (deps : AppDeps) (request : SignupRequest) (user : AppUser)
    (answer : Except JsError Response) : Prop where
  email : request.normalizedEmail deps = some user.email
  password : ∃ password, zodText 8 200 id request.password = some password ∧
    user.passwordHash = deps.hashPassword password
  token : answer = .ok ⟨201, .token (deps.signTenantToken user.claims request.env.now), none⟩

/-- The tenant of the user has the assistant it started with, and no other. -/
def ApiState.Fresh (s : ApiState) (user : AppUser) : Prop :=
  ∃ id now, s.world.assistants.filter (·.tenantId == user.tenantId) =
    [defaultAssistant id user.tenantId now]

/-- **Accounts and answers match**: an account beyond those of the start was opened by a request
answered 201, and every such request opened one. -/
structure SignupSystem.Ledger (deps : AppDeps) (s₀ : ApiState) (s : SignupSystem) : Prop where
  calls : ∀ (i : ℕ) r c, s.tasks[i]? = some (r, .calling c) → c.Asks deps r
  users : ∀ user ∈ s.committed.users, user ∈ s₀.users ∨ ∃ (i : ℕ) (r : SignupRequest) (answer : _),
    s.tasks[i]? = some (r, .answered answer) ∧ r.Opened deps user answer
  opened : ∀ (i : ℕ) r answer, s.tasks[i]? = some (r, .answered answer) → SignedUp answer →
    ∃ user ∈ s.committed.users, r.Opened deps user answer ∧ s.committed.Fresh user

/-! ## What signups keep of it -/

section

variable {deps : AppDeps} {request : SignupRequest}

/-- A request that calls the function hands over its password. -/
theorem SignupRequest.asks_of_begin {call : SignupCall}
    (h : request.begin deps = some (.calling call)) : call.Asks deps request := by
  by_cases hvalid : request.Valid deps
  case neg => cases h.symm.trans (begin_of_not_valid hvalid)
  obtain ⟨hname, hemail, hpassword⟩ := hvalid
  obtain ⟨name, hname⟩ := Option.isSome_iff_exists.1 hname
  obtain ⟨email, hemail⟩ := Option.isSome_iff_exists.1 hemail
  obtain ⟨password, hpassword⟩ := Option.isSome_iff_exists.1 hpassword
  rw [normalizedEmail] at hemail
  rw [begin, postSignup, hname, hemail, hpassword] at h
  cases h
  exact ⟨⟨password, hpassword, rfl⟩, fun user => rfl, trivial⟩

end

namespace SignupSystem

variable {deps : AppDeps} {s₀ : ApiState} {added : List SignupRows} {s s' : SignupSystem} {i : ℕ}
  {request : SignupRequest} {call : SignupCall}

/-- **What one statement of a call does**: the call goes on, its email is taken, or it commits. -/
theorem statement_cases {detail : JsString} {drawn : Uuid} {now : ℕ}
    (h : s.statement detail i request call drawn now = some s') :
    (∃ phase, s' = s.proceed i request call phase ∧
      (call.phase.Own call.passwordHash → phase.Own call.passwordHash)) ∨
    (∃ message, s.finish i request call (.error (rawQueryFailed UNIQUE_VIOLATION message)) =
      some s') ∨
    ∃ tenant user assistant, call.phase = .assistantInserted tenant user assistant ∧
      (s.commit tenant user assistant).finish i request call (.ok user) = some s' := by
  rw [statement] at h
  cases hphase : call.phase with
  | called =>
    rw [hphase] at h
    dsimp only at h
    split at h
    · exact .inr (.inl ⟨_, h⟩)
    · exact .inl ⟨_, (Option.some.inj h).symm, fun _ => trivial⟩
  | unregistered =>
    rw [hphase] at h
    dsimp only at h
    split at h
    · cases h
    · exact .inl ⟨_, (Option.some.inj h).symm, fun _ => trivial⟩
  | tenantInserted tenant =>
    rw [hphase] at h
    dsimp only at h
    split at h
    · exact .inr (.inl ⟨_, h⟩)
    split at h
    · cases h
    · exact .inl ⟨_, (Option.some.inj h).symm, fun _ => rfl⟩
  | userInserted tenant user =>
    rw [hphase] at h
    dsimp only at h
    split at h
    · cases h
    · exact .inl ⟨_, (Option.some.inj h).symm, fun hown => ⟨hown, _, _, rfl⟩⟩
  | assistantInserted tenant user assistant =>
    rw [hphase] at h
    exact .inr (.inr ⟨tenant, user, assistant, rfl, h⟩)

/-- An account of before stays explained while the answers stay. -/
theorem Ledger.users_of_answered (hl : s.Ledger deps s₀)
    {tasks : List (SignupRequest × SignupTask)} (hkept : ∀ (j : ℕ) r answer,
      s.tasks[j]? = some (r, .answered answer) → tasks[j]? = some (r, .answered answer))
    {user : AppUser} (huser : user ∈ s.committed.users) :
    user ∈ s₀.users ∨ ∃ (j : ℕ) (r : SignupRequest) (answer : _),
      tasks[j]? = some (r, .answered answer) ∧ r.Opened deps user answer := by
  obtain hold | ⟨j, r, answer, hj, hopened⟩ := hl.users user huser
  · exact .inl hold
  · exact .inr ⟨j, r, answer, hkept j r answer hj, hopened⟩

/-- A call that goes on changes no account and no answer. -/
theorem Ledger.proceed (hl : s.Ledger deps s₀) (hi : s.tasks[i]? = some (request, .calling call))
    {phase : SignupPhase} (hown : phase.Own call.passwordHash) :
    (s.proceed i request call phase).Ledger deps s₀ := by
  have hget := @getElem?_put s i request (.calling call) (.calling { call with phase })
  refine ⟨?_, ?_, ?_⟩
  · intro j r c hj
    obtain ⟨rfl, heq⟩ | ⟨-, hj⟩ := (hget hi).1 hj
    · cases heq
      obtain ⟨hpassword, htoken, -⟩ := hl.calls _ _ _ hi
      exact ⟨hpassword, htoken, hown⟩
    · exact hl.calls j r c hj
  · exact fun user huser => hl.users_of_answered (fun j r answer => answered_put hi) huser
  · intro j r answer hj hsigned
    obtain ⟨-, heq⟩ | ⟨-, hj⟩ := (hget hi).1 hj
    · cases heq
    · exact hl.opened j r answer hj hsigned

/-- **A taken email opens no account.** -/
theorem Ledger.taken (hl : s.Ledger deps s₀) (hs : s.Sound deps s₀ added)
    (hi : s.tasks[i]? = some (request, .calling call)) {message : JsString}
    (hfinish : s.finish i request call (.error (rawQueryFailed UNIQUE_VIOLATION message)) =
      some s') :
    s'.Ledger deps s₀ := by
  rw [finish, (hs.calls i request call hi).taken message] at hfinish
  obtain rfl := Option.some.inj hfinish
  refine ⟨?_, ?_, ?_⟩
  · intro j r c hj
    exact hl.calls j r c (calling_of_answer hi hj).2
  · exact fun user huser => hl.users_of_answered (fun j r answer => answered_put hi) huser
  · intro j r answer hj hsigned
    obtain ⟨-, heq⟩ | ⟨-, hj⟩ := (getElem?_put hi).1 hj
    · cases heq
      obtain ⟨token, htoken⟩ := hsigned
      cases htoken
    · exact hl.opened j r answer hj hsigned

/-- **A call that commits opens one account**, of a tenant of its own. -/
theorem Ledger.commit (hl : s.Ledger deps s₀) (hs : s.Sound deps s₀ added)
    (hi : s.tasks[i]? = some (request, .calling call)) {tenant : Tenant} {user : AppUser}
    {assistant : Assistant} (hphase : call.phase = .assistantInserted tenant user assistant)
    (hfinish : (s.commit tenant user assistant).finish i request call (.ok user) = some s') :
    s'.Ledger deps s₀ := by
  obtain ⟨⟨password, hpassword, hhash⟩, htoken, hown⟩ := hl.calls i request call hi
  obtain ⟨hemail, -, -, hrows⟩ := hs.calls i request call hi
  rw [hphase] at hown hrows
  obtain ⟨huhash, assistantId, now, hassistant⟩ := hown
  obtain ⟨⟨huemail, huser, -⟩, -⟩ := hrows
  obtain ⟨hfresh, -⟩ := hs.tenants i request call tenant hi (by rw [hphase]; rfl)
  rw [finish, htoken user] at hfinish
  obtain rfl := Option.some.inj hfinish
  have hi' : (s.commit tenant user assistant).tasks[i]? = some (request, .calling call) := hi
  have hopened : request.Opened deps user
      (.ok ⟨201, .token (deps.signTenantToken user.claims request.env.now), none⟩) :=
    ⟨hemail.trans (congrArg some huemail.symm), ⟨password, hpassword, huhash.trans hhash⟩, rfl⟩
  -- the tenant is new, so nobody else's rows are among its rows
  have hforeign : ∀ a ∈ s.committed.world.assistants, (a.tenantId == tenant.id) = false :=
    fun a ha =>
    beq_false_of_ne fun heq => hfresh (heq ▸ hs.provisioned.assistantTenant a ha)
  refine ⟨?_, ?_, ?_⟩
  · intro j r c hj
    exact hl.calls j r c (calling_of_answer hi' hj).2
  · intro u hu
    obtain hu | hu := List.mem_append.1 hu
    · exact hl.users_of_answered (fun j r answer => answered_put hi') hu
    · obtain rfl := List.mem_singleton.1 hu
      exact .inr ⟨i, request, _, (getElem?_put hi').2 (.inl ⟨rfl, rfl⟩), hopened⟩
  · intro j r answer hj hsigned
    obtain ⟨-, heq⟩ | ⟨-, hj⟩ := (getElem?_put hi').1 hj
    · cases heq
      refine ⟨user, List.mem_append_right _ List.mem_cons_self, hopened, assistantId, now, ?_⟩
      change (s.committed.world.assistants ++ [assistant]).filter _ = _
      rw [List.filter_append, huser, List.filter_eq_nil_iff.2 fun a ha => by simp [hforeign a ha],
        hassistant]
      simp [defaultAssistant]
    · obtain ⟨u, hu, hropened, id, created, hfilter⟩ := hl.opened j r answer hj hsigned
      refine ⟨u, List.mem_append_left _ hu, hropened, id, created, ?_⟩
      have hother : (assistant.tenantId == u.tenantId) = false := by
        refine beq_false_of_ne fun heq => hfresh ?_
        rw [hassistant] at heq
        exact (show tenant.id = u.tenantId from heq) ▸ hs.provisioned.userTenant u hu
      change (s.committed.world.assistants ++ [assistant]).filter _ = _
      rw [List.filter_append, hfilter, List.filter_singleton, hother]
      rfl

/-- A request that arrives has opened nothing. -/
theorem Ledger.arrive (hl : s.Ledger deps s₀) {task : SignupTask}
    (hbegin : request.begin deps = some task) :
    SignupSystem.Ledger deps s₀ { s with tasks := s.tasks ++ [(request, task)] } := by
  refine ⟨?_, ?_, ?_⟩
  · intro j r c hj
    obtain hold | hnew := getElem?_arrive hj
    · exact hl.calls j r c hold
    · obtain ⟨rfl, rfl⟩ := Prod.mk.inj hnew
      exact SignupRequest.asks_of_begin hbegin
  · exact fun user huser => hl.users_of_answered (fun j r answer hj =>
      List.getElem?_append_left (List.getElem?_eq_some_iff.1 hj).1 ▸ hj) huser
  · intro j r answer hj hsigned
    obtain hold | hnew := getElem?_arrive hj
    · exact hl.opened j r answer hold hsigned
    · obtain ⟨rfl, rfl⟩ := Prod.mk.inj hnew
      exact absurd hsigned (SignupRequest.answered_of_begin hbegin).2

/-- **Every step keeps accounts and answers matched.** -/
theorem Ledger.step (hl : s.Ledger deps s₀) (hs : s.Sound deps s₀ added) {detail : JsString}
    {move : SignupMove} (h : s.step deps detail move = some s') : s'.Ledger deps s₀ := by
  cases move with
  | arrive request =>
    obtain ⟨task, hbegin, rfl⟩ := Option.map_eq_some_iff.1 h
    exact hl.arrive hbegin
  | advance i drawn now =>
    rw [SignupSystem.step] at h
    split at h
    case h_2 => cases h
    case h_1 request call hi =>
      obtain ⟨phase, rfl, hown⟩ | ⟨message, hfinish⟩ | ⟨tenant, user, assistant, hphase, hfinish⟩ :=
        statement_cases h
      · exact hl.proceed hi (hown (hl.calls i request call hi).own)
      · exact hl.taken hs hi hfinish
      · exact hl.commit hs hi hphase hfinish

/-- **Whatever the interleaving, accounts and answers match.** -/
theorem Ledger.of_reachable (h₀ : s₀.Provisioned) {detail : JsString}
    (h : Run.Reachable (SignupSystem.step deps detail) Run.anyMove (· = { committed := s₀ }) s) :
    s.Ledger deps s₀ := by
  refine (Run.Reachable.invariant (P := fun u => (∃ added, u.Sound deps s₀ added) ∧
    u.Ledger deps s₀)
    h ?_ ?_).2
  · rintro _ rfl
    refine ⟨⟨[], .start h₀⟩, fun i r c hi => ?_, fun user huser => .inl huser,
      fun i r answer hi => ?_⟩
    all_goals cases hi
  · rintro u move v ⟨⟨added, hs⟩, hl⟩ - hstep
    exact ⟨hs.step hstep, hl.step hs hstep⟩

end SignupSystem

/-! ## Logging in -/

/-- The credentials are those of the user. -/
def AppDeps.Admits (deps : AppDeps) (email password : Option Json) (user : AppUser) : Prop :=
  (zodString email).bind deps.normalizeEmail = some user.email ∧
    ∃ sent, zodText 1 200 id password = some sent ∧
      deps.verifyPassword user.passwordHash sent = true

/-- The password of a signup is one a login may send. -/
theorem zodText_of_signup {v : Option Json} {password : JsString}
    (h : zodText 8 200 id v = some password) : zodText 1 200 id v = some password := by
  obtain ⟨hv, hlength⟩ := Option.filter_eq_some_iff.1 h
  refine Option.filter_eq_some_iff.2 ⟨hv, ?_⟩
  simp only [Bool.and_eq_true, decide_eq_true_eq] at hlength ⊢
  omega

section

variable {P : Platform} {deps : AppDeps} {env : Environment} {email password : Option Json}
  {s : ApiState}

variable (P deps env email password) in
/-- **What a login answers**, an email having one account at most. -/
theorem run_postLogin (hs : s.Provisioned) :
    ∃ result, (postLogin deps env email password).run (ApiState.handle P) env.decisions s =
      some (result, s) ∧
    ((∃ user ∈ s.users, deps.Admits email password user ∧
        result = .ok ⟨200, .token (deps.signTenantToken user.claims env.now), none⟩) ∨
      (∀ user ∈ s.users, ¬deps.Admits email password user) ∧
        result = .ok (errorResponse 401 (js "invalid credentials")) ∨
      ((zodString email).bind deps.normalizeEmail = none ∨ zodText 1 200 id password = none) ∧
        result = .ok (errorResponse 400 (js "invalid request")) ∨
      (env.decisions 0).fault ≠ none ∧ result = .ok (errorResponse 500 (js "internal error"))) := by
  rw [postLogin]
  split
  case h_2 hnot =>
    refine ⟨_, rfl, .inr (.inr (.inl ⟨?_, rfl⟩))⟩
    rcases hemail : (zodString email).bind deps.normalizeEmail with _ | address
    · exact .inl rfl
    rcases hsent : zodText 1 200 id password with _ | sent
    · exact .inr rfl
    · exact absurd hsent (hnot address sent hemail)
  case h_1 address sent hemail hsent =>
    have hexec : s.exec P (.findUserByEmail address) (env.decisions 0) =
        some (.ok (s.users.find? (·.email == address)), s) := rfl
    rcases hfault : (env.decisions 0).fault with _ | fault
    case some =>
      refine ⟨.ok (errorResponse 500 (js "internal error")), ?_, .inr (.inr (.inr ⟨nofun, rfl⟩))⟩
      obtain ⟨e, hhandle⟩ : ∃ e, ApiState.handle P s (.findUserByEmail address) (env.decisions 0) =
          some (.error e, s) := by
        rw [ApiState.handle, hfault, hexec]
        rcases fault with e | e
        all_goals exact ⟨e, rfl⟩
      exact Proc.run_await (h := ApiState.handle P) (d := env.decisions) hhandle
    have hhandle : ApiState.handle P s (.findUserByEmail address) (env.decisions 0) =
        some (.ok (s.users.find? (·.email == address)), s) := by
      rw [ApiState.handle, hfault, hexec]
      rfl
    rcases hfind : s.users.find? (·.email == address) with _ | user
    · rw [hfind] at hhandle
      refine ⟨_, Proc.run_await (h := ApiState.handle P) (d := env.decisions) hhandle,
        .inr (.inl ⟨fun user huser hadmits => ?_, rfl⟩)⟩
      have haddress : address = user.email := Option.some.inj (hemail.symm.trans hadmits.1)
      simpa [haddress] using List.find?_eq_none.1 hfind user huser
    have huser := List.mem_of_find?_eq_some hfind
    obtain rfl : user.email = address := by simpa using List.find?_some hfind
    rw [hfind] at hhandle
    rcases hverify : deps.verifyPassword user.passwordHash sent with _ | _
    · refine ⟨_, (Proc.run_await (h := ApiState.handle P) (d := env.decisions) hhandle).trans ?_,
        .inr (.inl ⟨fun other hother hadmits => ?_, rfl⟩)⟩
      · dsimp only [Proc.bind, Option.map, Option.getD]
        rw [hverify]
        rfl
      · obtain ⟨haddress, sent', hsent', hadmit⟩ := hadmits
        cases hsent.symm.trans hsent'
        obtain rfl : user = other := List.inj_on_of_nodup_map hs.emails huser hother
          (Option.some.inj (hemail.symm.trans haddress))
        cases hadmit.symm.trans hverify
    · refine ⟨_, (Proc.run_await (h := ApiState.handle P) (d := env.decisions) hhandle).trans ?_,
        .inl ⟨user, huser, ⟨hemail, sent, hsent, hverify⟩, rfl⟩⟩
      dsimp only [Proc.bind, Option.map, Option.getD]
      rw [hverify]
      rfl

/-- What an owner sees first: the assistant every tenant starts with. -/
theorem run_listAssistants_fresh {user : AppUser} (hfresh : s.Fresh user)
    (htoken : env.tokenVerifies = true) (hfault : (env.decisions 0).fault = none) : ∃ id now,
    (app P deps env user.claims .listAssistants).run (ApiState.handle P) env.decisions s =
      some (.ok ⟨200, .assistants [(defaultAssistant id user.tenantId now).view], none⟩, s) := by
  obtain ⟨id, now, hfilter⟩ := hfresh
  have hhandle : ApiState.handle P s (.listAssistants user.tenantId) (env.decisions 0) =
      some (.ok [defaultAssistant id user.tenantId now], s) := by
    rw [ApiState.handle, hfault, ApiState.exec, hfilter, List.mergeSort_singleton]
    rfl
  refine ⟨id, now, ?_⟩
  rw [app, tenantContext, if_pos htoken]
  exact Proc.run_await (h := ApiState.handle P) (d := env.decisions) hhandle

end

/-- **Logging in after signups that raced.**  In every state the requests reach, a login changes
nothing and is answered.  A token is a session of an account with those credentials, one there at
the start or opened by a signup answered 201.  Whoever was answered 201 owns an account whose
assistants are the one it started with, and the email and password of the signup log in to it; where
nobody has the credentials, the answer is the same for an unknown email and for a wrong password. -/
theorem login_of_signups {deps : AppDeps} {detail : JsString} {s₀ : ApiState} (h₀ : s₀.Provisioned)
    (hverify : ∀ password, deps.verifyPassword (deps.hashPassword password) password = true)
    {s : SignupSystem}
    (h : Run.Reachable (SignupSystem.step deps detail) Run.anyMove (· = { committed := s₀ }) s)
    (P : Platform) (env : Environment) (email password : Option Json) :
    ∃ result, (postLogin deps env email password).run (ApiState.handle P)
      env.decisions s.committed =
        some (result, s.committed) ∧
    (∀ token, result = .ok ⟨200, .token token, none⟩ → ∃ user ∈ s.committed.users,
      deps.Admits email password user ∧ token = deps.signTenantToken user.claims env.now ∧
        (user ∈ s₀.users ∨ ∃ (i : ℕ) (request : SignupRequest) (answer : _),
          s.tasks[i]? = some (request, .answered answer) ∧ request.Opened deps user answer)) ∧
    (∀ (i : ℕ) request answer, s.tasks[i]? = some (request, .answered answer) → SignedUp answer →
      ∃ user ∈ s.committed.users, request.Opened deps user answer ∧
        (∀ env' : Environment, env'.tokenVerifies = true → (env'.decisions 0).fault = none →
          ∃ id now,
          (app P deps env' user.claims .listAssistants).run (ApiState.handle P)
            env'.decisions s.committed =
            some (.ok ⟨200, .assistants [(defaultAssistant id user.tenantId now).view], none⟩,
              s.committed)) ∧
        ((zodString email).bind deps.normalizeEmail = request.normalizedEmail deps →
          password = request.password → (env.decisions 0).fault = none →
          result = .ok ⟨200, .token (deps.signTenantToken user.claims env.now), none⟩)) ∧
    ((∀ user ∈ s.committed.users, ¬deps.Admits email password user) →
      ((zodString email).bind deps.normalizeEmail).isSome → (zodText 1 200 id password).isSome →
      (env.decisions 0).fault = none →
      result = .ok (errorResponse 401 (js "invalid credentials"))) := by
  have hledger := SignupSystem.Ledger.of_reachable h₀ h
  obtain ⟨added, hsound⟩ := SignupSystem.Sound.of_reachable h₀ h
  obtain ⟨result, hrun, hcases⟩ := run_postLogin P deps env email password hsound.provisioned
  refine ⟨result, hrun, ?_, ?_, ?_⟩
  · rintro token rfl
    obtain ⟨user, huser, hadmits, heq⟩ | ⟨-, heq⟩ | ⟨-, heq⟩ | ⟨-, heq⟩ := hcases
    · cases heq
      exact ⟨user, huser, hadmits, rfl, hledger.users user huser⟩
    all_goals cases heq
  · intro i request answer hi hsigned
    obtain ⟨user, huser, hopened, hfresh⟩ := hledger.opened i request answer hi hsigned
    refine ⟨user, huser, hopened, fun env' => run_listAssistants_fresh hfresh, ?_⟩
    rintro hemail rfl hfault
    obtain ⟨sent, hsent, hhash⟩ := hopened.password
    have hsent' := zodText_of_signup hsent
    have hadmits : deps.Admits email request.password user :=
      ⟨hemail.trans hopened.email, sent, hsent', hhash ▸ hverify sent⟩
    obtain ⟨other, hother, hadmits', rfl⟩ | ⟨hnone, -⟩ | ⟨hbad | hbad, -⟩ | ⟨hfaulty, -⟩ := hcases
    · obtain rfl : other = user := List.inj_on_of_nodup_map hsound.provisioned.emails hother huser
        (Option.some.inj (hadmits'.1.symm.trans hadmits.1))
      rfl
    · exact absurd hadmits (hnone user huser)
    · cases hbad.symm.trans hadmits.1
    · cases hbad.symm.trans hsent'
    · exact absurd hfault hfaulty
  · intro hnone hemail hsent hfault
    obtain ⟨user, huser, hadmits, -⟩ | ⟨-, rfl⟩ | ⟨hbad | hbad, -⟩ | ⟨hfaulty, -⟩ := hcases
    · exact absurd hadmits (hnone user huser)
    · rfl
    · rw [hbad] at hemail
      cases hemail
    · rw [hbad] at hsent
      cases hsent
    · exact absurd hfault hfaulty

/-- The two requests of `racedSignups`, both answered. -/
def raced : SignupSystem :=
  (racedSignups.foldlM (SignupSystem.step sampleDeps []) { committed := noTenants }).getD
    { committed := noTenants }

theorem login_of_signups_raced : raced.statuses = [201, 409] ∧ ∃ user ∈ raced.committed.users,
    (postLogin sampleDeps (sampleSignup []).env (some (.str (js "a@b.co")))
      (some (.str (js "password")))).run
        (ApiState.handle samplePlatform) (sampleSignup []).env.decisions raced.committed =
      some (.ok ⟨200, .token (sampleDeps.signTenantToken user.claims 0), none⟩,
        raced.committed) := by
  have hnone : noTenants.Provisioned := by
    constructor <;> simp [noTenants]
  have hraced : racedSignups.foldlM (SignupSystem.step sampleDeps []) { committed := noTenants } =
      some raced := rfl
  obtain ⟨result, hrun, -, howner, -⟩ := login_of_signups hnone (fun _ => beq_self_eq_true _)
    (.of_run (fun _ _ => trivial) (.start rfl) hraced) samplePlatform (sampleSignup []).env
    (some (.str (js "a@b.co"))) (some (.str (js "password")))
  obtain ⟨user, huser, -, -, hlogin⟩ := howner 0 (sampleSignup (js "a@b.co")) _ rfl ⟨_, rfl⟩
  exact ⟨rfl, user, huser, hlogin rfl rfl rfl ▸ hrun⟩

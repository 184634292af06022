import SupportAgent.System.Confinement

/-!
# System/ApiKeys — the life of a consumer API key

Admins mint keys for their assistants, revoke them and publish the assistants.  `Live` reads off a
history of such operations which keys are in force: minted, and not revoked since by the same
tenant.  The rows of the key table are the live keys (`Ran.rows_live`), each under the hash of its
key, so that `exchangeRawKey` issues a token exactly for a live key of a published assistant.
-/

open Async Ingestion

/-- `exchangeApiKey` of the auth service, for any string presented. -/
def exchangeRawKey (deps : AppDeps) (env : Environment) (rawKey : JsString) :
    Route (Except AuthError Response) := do
  match ← Proc.call (S := api) (.resolveApiKey (deps.hashApiKey rawKey)) with
  | none => .ret (.error (errorResponse 401 (js "invalid api key")))
  | some row =>
    let published ← Proc.call (S := api) (.findPublished row.tenantId row.assistantId)
    if !published then .ret (.error (errorResponse 403 (js "assistant is not published")))
    else
      let token := deps.signTenantToken (consumerClaims row.tenantId row.assistantId) env.now
      .ret (.ok ⟨200, .token token, none⟩)

/-! ## Histories -/

/-- An operation on keys or on the state of an assistant. -/
def Request.isKeyOperation : Request → Bool
  | .postApiKey _ | .deleteApiKey .. | .patchAssistant .. => true
  | _ => false

/-- An operation an admin made, and its answer. -/
structure KeyOperation where
  claims : TenantClaims
  request : Request
  env : Environment
  result : Except JsError Response

namespace KeyOperation

/-- **The operation minted `key`** for an assistant of a tenant, under the id `keyId`. -/
def Mints (op : KeyOperation) (tenantId assistantId keyId : Uuid) (key : JsString) : Prop :=
  op.claims.tenantId = tenantId ∧ ∃ id createdAt, op.request = .postApiKey id ∧
    Uuid.parse id = some assistantId ∧
    op.result = .ok ⟨201, .apiKeyCreated keyId key createdAt, none⟩

/-- **The operation revoked** the tenant's key of this assistant and id. -/
def Revokes (op : KeyOperation) (tenantId assistantId keyId : Uuid) : Prop :=
  op.claims.tenantId = tenantId ∧ ∃ id key, op.request = .deleteApiKey id key ∧
    Uuid.parse id = some assistantId ∧ Uuid.parse key = some keyId ∧
    op.result = .ok ⟨204, .empty, none⟩

/-- The operation is atomic: done and answered, or refused. -/
def Atomic (op : KeyOperation) : Prop := ∀ n e, (op.env.decisions n).fault ≠ some (.lost e)

/-- **The operation, run** from one state to another. -/
def Runs (P : Platform) (deps : AppDeps) (op : KeyOperation) (s t : ApiState) : Prop :=
  op.request.isKeyOperation = true ∧ op.Atomic ∧
    (app P deps op.env op.claims op.request).run (ApiState.handle P) op.env.decisions s =
      some (op.result, t)

/-- Two operations that each draw a key draw different ones. -/
def Distinct (op op' : KeyOperation) : Prop :=
  ∀ id id', op.request = .postApiKey id → op'.request = .postApiKey id' →
    op.env.randomKey ≠ op'.env.randomKey

instance : Std.Symm Distinct := ⟨fun _ _ h id id' hid hid' => (h id' id hid' hid).symm⟩

end KeyOperation

/-- **A history of operations**, one after the other. -/
inductive Ran (P : Platform) (deps : AppDeps) (s₀ : ApiState) : List KeyOperation → ApiState → Prop
  | start : Ran P deps s₀ [] s₀
  | next {ops : List KeyOperation} {op : KeyOperation} {s t : ApiState} :
      Ran P deps s₀ ops s → op.Runs P deps s t → Ran P deps s₀ (ops ++ [op]) t

/-- **A key in force**: minted for the assistant, and not revoked since. -/
def Live (ops : List KeyOperation) (tenantId assistantId keyId : Uuid) (key : JsString) : Prop :=
  ∃ before op since, ops = before ++ op :: since ∧ op.Mints tenantId assistantId keyId key ∧
    ∀ later ∈ since, ¬ later.Revokes tenantId assistantId keyId

theorem live_concat {ops : List KeyOperation} {op : KeyOperation}
    {tenantId assistantId keyId : Uuid} {key : JsString} :
    Live (ops ++ [op]) tenantId assistantId keyId key ↔
      Live ops tenantId assistantId keyId key ∧ ¬ op.Revokes tenantId assistantId keyId ∨
        op.Mints tenantId assistantId keyId key := by
  constructor
  · rintro ⟨before, minting, since, hsplit, hmints, hkept⟩
    obtain rfl | ⟨since, last, rfl⟩ := since.eq_nil_or_concat'
    · obtain ⟨-, hop⟩ := List.append_inj' hsplit rfl
      obtain rfl := List.singleton_inj.1 hop
      exact .inr hmints
    · rw [← List.cons_append, ← List.append_assoc] at hsplit
      obtain ⟨rfl, hop⟩ := List.append_inj' hsplit rfl
      obtain rfl := List.singleton_inj.1 hop
      exact .inl ⟨⟨before, minting, since, rfl, hmints,
        fun later hl => hkept later (List.mem_append_left _ hl)⟩, hkept op (by simp)⟩
  · rintro (⟨⟨before, minting, since, rfl, hmints, hkept⟩, hnot⟩ | hmints)
    · refine ⟨before, minting, since ++ [op], by simp, hmints, fun later hl => ?_⟩
      obtain hl | hl := List.mem_append.1 hl
      · exact hkept later hl
      · exact List.mem_singleton.1 hl ▸ hnot
    · exact ⟨ops, op, [], rfl, hmints, fun _ hl => absurd hl List.not_mem_nil⟩

/-! ## What one operation does -/

section

variable {P : Platform} {deps : AppDeps} {env : Environment} {claims : TenantClaims}
  {s t : ApiState} {r : Except JsError Response}

/-- A call that is not lost is done and answered, or refused. -/
theorem ApiState.handle_atomic {c : ApiCall} {d : ApiDecision} {r : Except JsError c.Res}
    (hd : ∀ e, d.fault ≠ some (.lost e)) (h : s.handle P c d = some (r, t)) :
    s.exec P c d = some (r, t) ∨ (∃ e, r = .error e) ∧ t = s := by
  unfold ApiState.handle Fault.through at h
  split at h
  · exact .inl h
  · obtain ⟨rfl, rfl⟩ := Prod.mk.inj (Option.some.inj h)
    exact .inr ⟨⟨_, rfl⟩, rfl⟩
  · rename_i e hlost
    exact absurd hlost (hd e)

/-- **Minting** adds the row of the key it answers with, or does nothing. -/
theorem run_postApiKey {id : JsString} (hatomic : ∀ n e, (env.decisions n).fault ≠ some (.lost e))
    (h : (postApiKey deps env claims id).run (ApiState.handle P) env.decisions s = some (r, t)) :
    (t = s ∧ ∀ keyId key createdAt, r ≠ .ok ⟨201, .apiKeyCreated keyId key createdAt, none⟩) ∨
    ∃ assistantId keyId, Uuid.parse id = some assistantId ∧
      r = .ok ⟨201, .apiKeyCreated keyId (js "asab_sk_" ++ env.randomKey)
        (env.decisions 0).now, none⟩ ∧
      t = { s with apiKeys := s.apiKeys ++ [{
        id := keyId, tenantId := claims.tenantId, assistantId
        keyHash := deps.hashApiKey (js "asab_sk_" ++ env.randomKey)
        lastUsedAt := none, createdAt := (env.decisions 0).now }] } := by
  rw [postApiKey, requireAdmin] at h
  split at h
  · obtain ⟨rfl, rfl⟩ := Prod.mk.inj (Option.some.inj h)
    exact .inl ⟨rfl, fun _ _ _ hcreated => by cases hcreated⟩
  rw [withAssistantId] at h
  split at h
  · obtain ⟨rfl, rfl⟩ := Prod.mk.inj (Option.some.inj h)
    exact .inl ⟨rfl, fun _ _ _ hcreated => by cases hcreated⟩
  rename_i assistantId hparse
  obtain ⟨⟨created, u⟩, hcall, hrest⟩ := Option.bind_eq_some_iff.1 h
  obtain hexec | ⟨⟨e, rfl⟩, rfl⟩ := ApiState.handle_atomic (hatomic 0) hcall
  · rw [ApiState.exec] at hexec
    split at hexec
    · obtain ⟨rfl, rfl⟩ := Prod.mk.inj (Option.some.inj hexec)
      obtain ⟨rfl, rfl⟩ := Prod.mk.inj (Option.some.inj hrest)
      exact .inl ⟨rfl, fun _ _ _ hcreated => by cases hcreated⟩
    split at hexec
    case h_2 => cases hexec
    rename_i keyId _
    obtain ⟨rfl, rfl⟩ := Prod.mk.inj (Option.some.inj hexec)
    obtain ⟨rfl, rfl⟩ := Prod.mk.inj (Option.some.inj hrest)
    exact .inr ⟨assistantId, keyId, hparse, rfl, rfl⟩
  · obtain ⟨rfl, rfl⟩ := Prod.mk.inj (Option.some.inj hrest)
    exact .inl ⟨rfl, fun _ _ _ hcreated => by cases hcreated⟩

/-- **Revoking** deletes the tenant's key of the assistant and the id, or does nothing. -/
theorem run_deleteApiKey {id key : JsString}
    (hatomic : ∀ n e, (env.decisions n).fault ≠ some (.lost e))
    (h : (deleteApiKey claims id key).run (ApiState.handle P) env.decisions s = some (r, t)) :
    (t = s ∧ r ≠ .ok ⟨204, .empty, none⟩) ∨
    ∃ assistantId keyId, Uuid.parse id = some assistantId ∧ Uuid.parse key = some keyId ∧
      r = .ok ⟨204, .empty, none⟩ ∧
      t = { s with
        apiKeys := Table.deleteMany
          (fun row => row.visible claims.tenantId assistantId && row.id == keyId) s.apiKeys } := by
  rw [deleteApiKey, requireAdmin] at h
  split at h
  · obtain ⟨rfl, rfl⟩ := Prod.mk.inj (Option.some.inj h)
    exact .inl ⟨rfl, nofun⟩
  split at h
  case h_2 =>
    obtain ⟨rfl, rfl⟩ := Prod.mk.inj (Option.some.inj h)
    exact .inl ⟨rfl, nofun⟩
  rename_i assistantId keyId hassistant hkey
  obtain ⟨⟨count, u⟩, hcall, hrest⟩ := Option.bind_eq_some_iff.1 h
  obtain hexec | ⟨⟨e, rfl⟩, rfl⟩ := ApiState.handle_atomic (hatomic 0) hcall
  · obtain ⟨rfl, rfl⟩ := Prod.mk.inj (Option.some.inj hexec)
    by_cases hzero : s.apiKeys.countP
        (fun row => row.visible claims.tenantId assistantId && row.id == keyId) = 0
    · have hnone : Table.deleteMany (fun row => row.visible claims.tenantId assistantId &&
          row.id == keyId) s.apiKeys = s.apiKeys :=
        List.filter_eq_self.2 fun row hrow => by
          rw [Bool.not_eq_true']
          exact Bool.eq_false_of_not_eq_true (List.countP_eq_zero.1 hzero row hrow)
      rw [hnone, hzero] at hrest
      obtain ⟨rfl, rfl⟩ := Prod.mk.inj (Option.some.inj hrest)
      exact .inl ⟨rfl, nofun⟩
    · simp only [Proc.bind, Proc.tryCatch, hzero, if_false] at hrest
      obtain ⟨rfl, rfl⟩ := Prod.mk.inj (Option.some.inj hrest)
      exact .inr ⟨assistantId, keyId, hassistant, hkey, rfl, rfl⟩
  · obtain ⟨rfl, rfl⟩ := Prod.mk.inj (Option.some.inj hrest)
    exact .inl ⟨rfl, nofun⟩

/-- Publishing and unpublishing leave the keys alone. -/
theorem run_patchAssistant {id : JsString} {refusalThreshold : Option JsNumber}
    {status : Option Json}
    (h : (patchAssistant claims id refusalThreshold status).run (ApiState.handle P)
      env.decisions s = some (r, t)) : t.apiKeys = s.apiKeys := by
  have honly : (patchAssistant claims id refusalThreshold status).Only
      fun c : ApiCall => ∃ tenantId assistantId data,
        c = .updateAssistant tenantId assistantId data := by
    rw [patchAssistant, requireAdmin]
    split
    · trivial
    rw [withAssistantId]
    split
    · trivial
    dsimp only
    split
    · trivial
    refine Proc.Only.tryCatch (Proc.Only.bind (Proc.only_call ⟨_, _, _, rfl⟩) fun count => ?_)
      fun _ => trivial
    split <;> trivial
  refine (Proc.run_keeps (R := fun u v => v.apiKeys = u.apiKeys) (I := fun _ => True) (fun _ => rfl)
    (fun {a b c} (hab : b.apiKeys = a.apiKeys) (hbc : c.apiKeys = b.apiKeys) => hbc.trans hab) ?_
    honly trivial h).1
  rintro c d u r' v ⟨tenantId, assistantId, data, rfl⟩ - hcall
  unfold ApiState.handle Fault.through at hcall
  split at hcall
  all_goals
    obtain ⟨-, rfl⟩ := Prod.mk.inj (Option.some.inj hcall)
    exact ⟨rfl, trivial⟩

/-- **Exchanging** finds the row of the presented key's hash and asks whether its assistant is
published. -/
theorem run_exchangeRawKey (hfault : ∀ n, (env.decisions n).fault = none) (rawKey : JsString) :
    (exchangeRawKey deps env rawKey).run (ApiState.handle P) env.decisions s = some (.ok
      (match s.apiKeys.find? (·.keyHash == deps.hashApiKey rawKey) with
      | none => .error (errorResponse 401 (js "invalid api key"))
      | some row =>
        if (s.world.findAssistant row.tenantId row.assistantId).any (·.status == .PUBLISHED) then
          .ok ⟨200, .token (deps.signTenantToken (consumerClaims row.tenantId row.assistantId)
            env.now), none⟩
        else .error (errorResponse 403 (js "assistant is not published"))), s) := by
  have hcall : ∀ (c : ApiCall) (n : ℕ),
      s.handle P c (env.decisions n) = s.exec P c (env.decisions n) :=
    fun c n => by rw [ApiState.handle, hfault n, Fault.through]
  rw [exchangeRawKey]
  refine (Proc.run_await (hcall _ 0)).trans ?_
  cases hrow : s.apiKeys.find? (·.keyHash == deps.hashApiKey rawKey) with
  | none => rfl
  | some row =>
    refine (Proc.run_await (hcall _ 1)).trans ?_
    dsimp only
    cases (s.world.findAssistant row.tenantId row.assistantId).any (·.status == .PUBLISHED) <;> rfl

end

/-! ## The key table over a history -/

section

variable {P : Platform} {deps : AppDeps} {s₀ s : ApiState} {ops : List KeyOperation}

theorem Ran.runs (h : Ran P deps s₀ ops s) : ∀ op ∈ ops, ∃ u v, op.Runs P deps u v := by
  induction h with
  | start => exact fun op hop => absurd hop List.not_mem_nil
  | @next ops last u v hran hruns ih =>
    intro op hop
    obtain hop | hop := List.mem_append.1 hop
    · exact ih op hop
    · exact List.mem_singleton.1 hop ▸ ⟨u, v, hruns⟩

/-- **What an operation does to the key table**, and what it answers then. -/
inductive KeyEffect (deps : AppDeps) (op : KeyOperation) (u v : ApiState) : Prop
  | kept (hrows : v.apiKeys = u.apiKeys) (hmints : ∀ t a i k, ¬ op.Mints t a i k)
      (hrevokes : ∀ t a i, ¬ op.Revokes t a i)
  | minted (row : ApiKey) (key : JsString) (htenant : row.tenantId = op.claims.tenantId)
      (hkey : key = js "asab_sk_" ++ op.env.randomKey) (hhash : row.keyHash = deps.hashApiKey key)
      (hrows : v.apiKeys = u.apiKeys ++ [row])
      (hmints : ∀ t a i k, op.Mints t a i k ↔
        t = row.tenantId ∧ a = row.assistantId ∧ i = row.id ∧ k = key)
      (hrevokes : ∀ t a i, ¬ op.Revokes t a i)
  | revoked (assistantId keyId : Uuid)
      (hrows : v.apiKeys = Table.deleteMany
        (fun row => row.visible op.claims.tenantId assistantId && row.id == keyId) u.apiKeys)
      (hmints : ∀ t a i k, ¬ op.Mints t a i k)
      (hrevokes : ∀ t a i, op.Revokes t a i ↔
        t = op.claims.tenantId ∧ a = assistantId ∧ i = keyId)

variable {op : KeyOperation}

theorem KeyOperation.not_mints (h : ∀ id, op.request ≠ .postApiKey id) (t a i : Uuid)
    (k : JsString) : ¬ op.Mints t a i k := by
  rintro ⟨-, id, _, hpost, -⟩
  exact h id hpost

theorem KeyOperation.not_revokes (h : ∀ id key, op.request ≠ .deleteApiKey id key) (t a i : Uuid) :
    ¬ op.Revokes t a i := by
  rintro ⟨-, id, key, hdelete, -⟩
  exact h id key hdelete

/-- What a mint answered 201 mints. -/
theorem KeyOperation.mints_iff {id : JsString} {assistantId keyId : Uuid} {key : JsString}
    {createdAt : ℕ} (hrequest : op.request = .postApiKey id)
    (hparse : Uuid.parse id = some assistantId)
    (hresult : op.result = .ok ⟨201, .apiKeyCreated keyId key createdAt, none⟩) (t a i : Uuid)
    (k : JsString) : op.Mints t a i k ↔
      t = op.claims.tenantId ∧ a = assistantId ∧ i = keyId ∧ k = key := by
  constructor
  · rintro ⟨rfl, _, _, hpost, hassistant, hminted⟩
    cases hrequest.symm.trans hpost
    cases hresult.symm.trans hminted
    exact ⟨rfl, Option.some.inj (hassistant.symm.trans hparse), rfl, rfl⟩
  · rintro ⟨rfl, rfl, rfl, rfl⟩
    exact ⟨rfl, id, _, hrequest, hparse, hresult⟩

/-- What a revocation answered 204 revokes. -/
theorem KeyOperation.revokes_iff {id key : JsString} {assistantId keyId : Uuid}
    (hrequest : op.request = .deleteApiKey id key) (hassistant : Uuid.parse id = some assistantId)
    (hkey : Uuid.parse key = some keyId) (hresult : op.result = .ok ⟨204, .empty, none⟩)
    (t a i : Uuid) : op.Revokes t a i ↔ t = op.claims.tenantId ∧ a = assistantId ∧ i = keyId := by
  constructor
  · rintro ⟨rfl, _, _, hdelete, ha, hi, -⟩
    cases hrequest.symm.trans hdelete
    exact ⟨rfl, Option.some.inj (ha.symm.trans hassistant), Option.some.inj (hi.symm.trans hkey)⟩
  · rintro ⟨rfl, rfl, rfl⟩
    exact ⟨rfl, id, key, hrequest, hassistant, hkey, hresult⟩

/-- An operation that is not answered as minting or revoking changes no key. -/
theorem KeyEffect.of_kept {u v : ApiState} (hrows : v.apiKeys = u.apiKeys)
    (hminted : ∀ keyId key createdAt,
      op.result ≠ .ok ⟨201, .apiKeyCreated keyId key createdAt, none⟩)
    (hrevoked : op.result ≠ .ok ⟨204, .empty, none⟩ ∨ ∀ id key, op.request ≠ .deleteApiKey id key) :
    KeyEffect deps op u v := by
  refine .kept hrows ?_ ?_
  · rintro t a i k ⟨-, _, createdAt, -, -, hresult⟩
    exact hminted i k createdAt hresult
  · rintro t a i ⟨-, id, key, hrequest, -, -, hresult⟩
    obtain hrevoked | hrevoked := hrevoked
    · exact hrevoked hresult
    · exact hrevoked id key hrequest

theorem KeyOperation.Runs.effect {u v : ApiState} (h : op.Runs P deps u v) :
    KeyEffect deps op u v := by
  obtain ⟨hkind, hatomic, hrun⟩ := h
  cases hrequest : op.request with
  | postApiKey id =>
    rw [hrequest, app, tenantContext] at hrun
    have hnot : ∀ id key, op.request ≠ .deleteApiKey id key := by
      intro id key hdelete
      cases hrequest.symm.trans hdelete
    split at hrun
    · obtain ⟨rfl, hresult⟩ | ⟨assistantId, keyId, hparse, hresult, rfl⟩ :=
        run_postApiKey hatomic hrun
      · exact .of_kept rfl hresult (.inr hnot)
      · exact .minted _ _ rfl rfl rfl rfl (mints_iff hrequest hparse hresult) (not_revokes hnot)
    · obtain ⟨hresult, rfl⟩ := Prod.mk.inj (Option.some.inj hrun)
      refine .of_kept rfl (fun _ _ _ hcreated => ?_) (.inr hnot)
      cases hresult.trans hcreated
  | deleteApiKey id key =>
    rw [hrequest, app, tenantContext] at hrun
    have hnot : ∀ id, op.request ≠ .postApiKey id := by
      intro id hpost
      cases hrequest.symm.trans hpost
    split at hrun
    · obtain ⟨rfl, hresult⟩ | ⟨assistantId, keyId, hassistant, hkey, hresult, rfl⟩ :=
        run_deleteApiKey hatomic hrun
      · refine .kept rfl (not_mints hnot) ?_
        rintro t a i ⟨-, _, _, -, -, -, hrevoked⟩
        exact hresult hrevoked
      · exact .revoked assistantId keyId rfl (not_mints hnot)
          (revokes_iff hrequest hassistant hkey hresult)
    · obtain ⟨hresult, rfl⟩ := Prod.mk.inj (Option.some.inj hrun)
      refine .of_kept rfl (fun _ _ _ hcreated => ?_) (.inl fun hempty => ?_)
      · cases hresult.trans hcreated
      · cases hresult.trans hempty
  | patchAssistant id refusalThreshold status =>
    rw [hrequest, app, tenantContext] at hrun
    have hrows : v.apiKeys = u.apiKeys := by
      split at hrun
      · exact run_patchAssistant hrun
      · obtain ⟨-, rfl⟩ := Prod.mk.inj (Option.some.inj hrun)
        rfl
    refine .kept hrows (not_mints ?_) (not_revokes ?_)
    · intro id hpost
      cases hrequest.symm.trans hpost
    · intro id key hdelete
      cases hrequest.symm.trans hdelete
  | _ =>
    rw [hrequest] at hkind
    cases hkind

/-- **The rows of the key table are the live keys**, each under the hash of its key. -/
theorem Ran.rows_live (h : Ran P deps s₀ ops s) (hempty : s₀.apiKeys = [])
    (tenantId assistantId keyId : Uuid) (keyHash : JsString) :
    (∃ row ∈ s.apiKeys, row.tenantId = tenantId ∧ row.assistantId = assistantId ∧ row.id = keyId ∧
      row.keyHash = keyHash) ↔
    ∃ key, Live ops tenantId assistantId keyId key ∧ deps.hashApiKey key = keyHash := by
  induction h with
  | start =>
    rw [hempty]
    constructor
    · rintro ⟨row, hrow, -⟩
      cases hrow
    · rintro ⟨key, ⟨before, op, since, hsplit, -⟩, -⟩
      simp at hsplit
  | @next ops op u v _ hruns ih =>
    simp only [live_concat]
    cases hruns.effect with
    | kept hrows hmints hrevokes =>
      rw [hrows, ih]
      simp [hmints, hrevokes]
    | minted row key _ _ hhash hrows hmints hrevokes =>
      rw [hrows]
      constructor
      · rintro ⟨row', hrow', rfl, rfl, rfl, rfl⟩
        obtain hold | hnew := List.mem_append.1 hrow'
        · obtain ⟨key', hlive, hkey'⟩ := ih.1 ⟨row', hold, rfl, rfl, rfl, rfl⟩
          exact ⟨key', .inl ⟨hlive, hrevokes _ _ _⟩, hkey'⟩
        · obtain rfl := List.mem_singleton.1 hnew
          exact ⟨key, .inr ((hmints _ _ _ _).2 ⟨rfl, rfl, rfl, rfl⟩), hhash.symm⟩
      · rintro ⟨key', ⟨hlive, -⟩ | hminted, hkey'⟩
        · obtain ⟨row', hold, hfields⟩ := ih.2 ⟨key', hlive, hkey'⟩
          exact ⟨row', List.mem_append_left _ hold, hfields⟩
        · obtain ⟨rfl, rfl, rfl, rfl⟩ := (hmints _ _ _ _).1 hminted
          exact ⟨row, by simp, rfl, rfl, rfl, hhash.trans hkey'⟩
    | revoked revokedAssistant revokedKey hrows hmints hrevokes =>
      rw [hrows]
      constructor
      · rintro ⟨row, hrow, rfl, rfl, rfl, rfl⟩
        obtain ⟨hold, hkept⟩ := List.mem_filter.1 hrow
        obtain ⟨key, hlive, hkey⟩ := ih.1 ⟨row, hold, rfl, rfl, rfl, rfl⟩
        refine ⟨key, .inl ⟨hlive, fun hrevoked => ?_⟩, hkey⟩
        obtain ⟨htenant, hassistant, hid⟩ := (hrevokes _ _ _).1 hrevoked
        simp [ApiKey.visible, htenant, hassistant, hid] at hkept
      · rintro ⟨key, ⟨hlive, hnot⟩ | hminted, hkey⟩
        · obtain ⟨row, hold, rfl, rfl, rfl, rfl⟩ := ih.2 ⟨key, hlive, hkey⟩
          refine ⟨row, List.mem_filter.2 ⟨hold, ?_⟩, rfl, rfl, rfl, rfl⟩
          rw [Bool.not_eq_true']
          refine Bool.eq_false_of_not_eq_true fun hall => hnot ((hrevokes _ _ _).2 ?_)
          simpa [ApiKey.visible, and_assoc] using hall
        · exact absurd hminted (hmints _ _ _ _)

/-- A minted key carries what was drawn for it. -/
theorem KeyOperation.Runs.key_eq {op : KeyOperation} {u v : ApiState} (h : op.Runs P deps u v)
    {tenantId assistantId keyId : Uuid} {key : JsString}
    (hmints : op.Mints tenantId assistantId keyId key) :
    key = js "asab_sk_" ++ op.env.randomKey := by
  cases h.effect with
  | kept _ hnot _ => exact absurd hmints (hnot _ _ _ _)
  | minted row key' _ hkey _ _ hall _ =>
    obtain ⟨-, -, -, rfl⟩ := (hall _ _ _ _).1 hmints
    exact hkey
  | revoked _ _ _ hnot _ => exact absurd hmints (hnot _ _ _ _)

/-- **A key is in force for one assistant at most**, keys being drawn fresh. -/
theorem Ran.live_unique (h : Ran P deps s₀ ops s) (hfresh : ops.Pairwise KeyOperation.Distinct)
    {tenantId assistantId keyId tenantId' assistantId' keyId' : Uuid} {key : JsString}
    (hlive : Live ops tenantId assistantId keyId key)
    (hlive' : Live ops tenantId' assistantId' keyId' key) :
    tenantId = tenantId' ∧ assistantId = assistantId' := by
  obtain ⟨before, op, since, hsplit, hmints, -⟩ := hlive
  obtain ⟨before', op', since', hsplit', hmints', -⟩ := hlive'
  have hop : op ∈ ops := by rw [hsplit]; simp
  have hop' : op' ∈ ops := by rw [hsplit']; simp
  obtain ⟨u, v, hruns⟩ := h.runs op hop
  obtain ⟨u', v', hruns'⟩ := h.runs op' hop'
  have hdrawn : op.env.randomKey = op'.env.randomKey :=
    List.append_cancel_left ((hruns.key_eq hmints).symm.trans (hruns'.key_eq hmints'))
  obtain ⟨rfl, id, _, hpost, hparse, hresult⟩ := hmints
  obtain ⟨rfl, id', _, hpost', hparse', hresult'⟩ := hmints'
  by_cases hsame : op = op'
  · subst hsame
    cases hpost.symm.trans hpost'
    exact ⟨rfl, Option.some.inj (hparse.symm.trans hparse')⟩
  · exact absurd hdrawn (hfresh.forall hop hop' hsame id id' hpost hpost')

/-- An operation of one tenant leaves the keys of every other as they are. -/
theorem KeyOperation.Runs.keeps_others {op : KeyOperation} {u v : ApiState} (h : op.Runs P deps u v)
    {tenantId : Uuid} (hother : tenantId ≠ op.claims.tenantId) :
    v.apiKeys.filter (·.tenantId == tenantId) = u.apiKeys.filter (·.tenantId == tenantId) := by
  cases h.effect with
  | kept hrows => rw [hrows]
  | minted row key htenant _ _ hrows =>
    have hnew : (row.tenantId == tenantId) = false := by
      rw [htenant]
      exact beq_false_of_ne hother.symm
    rw [hrows, List.filter_append, List.filter_singleton, hnew, cond_false, List.append_nil]
  | revoked assistantId keyId hrows =>
    rw [hrows, Table.deleteMany, List.filter_filter]
    refine List.filter_congr fun row _ => ?_
    by_cases hrow : row.tenantId = tenantId
    · simp [ApiKey.visible, hrow, hother]
    · simp [hrow]

/-- **The life of an API key.**  After any history of operations by any tenants, exchanging a string
issues a token exactly when it is a key in force of an assistant that is published, and then for
that tenant and assistant and for no user; and no operation touches another tenant's keys. -/
theorem exchange_iff_live (hhash : Function.Injective deps.hashApiKey) (hempty : s₀.apiKeys = [])
    (hran : Ran P deps s₀ ops s) (hfresh : ops.Pairwise KeyOperation.Distinct) :
    (∀ (env : Environment) (rawKey : JsString), (∀ n, (env.decisions n).fault = none) →
      ∃ r, (exchangeRawKey deps env rawKey).run (ApiState.handle P) env.decisions s =
          some (.ok r, s) ∧
        ((∃ token, r = .ok ⟨200, .token token, none⟩) ↔
          ∃ tenantId assistantId keyId, Live ops tenantId assistantId keyId rawKey ∧
            (s.world.findAssistant tenantId assistantId).any (·.status == .PUBLISHED) = true) ∧
        ∀ tenantId assistantId keyId, Live ops tenantId assistantId keyId rawKey →
          (s.world.findAssistant tenantId assistantId).any (·.status == .PUBLISHED) = true →
          r = .ok ⟨200, .token (deps.signTenantToken ⟨tenantId, none, some assistantId⟩ env.now),
            none⟩) ∧
    ∀ (op : KeyOperation) (u v : ApiState), op.Runs P deps u v → ∀ tenantId,
      tenantId ≠ op.claims.tenantId →
      v.apiKeys.filter (·.tenantId == tenantId) = u.apiKeys.filter (·.tenantId == tenantId) := by
  refine ⟨fun env rawKey hfault => ⟨_, run_exchangeRawKey hfault rawKey, ?_⟩,
    fun op u v hruns tenantId hother => hruns.keeps_others hother⟩
  cases hrow : s.apiKeys.find? (·.keyHash == deps.hashApiKey rawKey) with
  | none =>
    have hdead : ∀ tenantId assistantId keyId, ¬ Live ops tenantId assistantId keyId rawKey := by
      intro tenantId assistantId keyId hlive
      obtain ⟨row, hmem, -, -, -, hkey⟩ := (hran.rows_live hempty _ _ _ _).2 ⟨rawKey, hlive, rfl⟩
      have hnot := List.find?_eq_none.1 hrow row hmem
      rw [hkey, beq_self_eq_true] at hnot
      exact hnot rfl
    refine ⟨⟨?_, ?_⟩, ?_⟩
    · rintro ⟨token, htoken⟩
      cases htoken
    · rintro ⟨tenantId, assistantId, keyId, hlive, -⟩
      exact absurd hlive (hdead _ _ _)
    · intro tenantId assistantId keyId hlive
      exact absurd hlive (hdead _ _ _)
  | some row =>
    have hkey : row.keyHash = deps.hashApiKey rawKey := by simpa using List.find?_some hrow
    obtain ⟨key, hlive, hsame⟩ := (hran.rows_live hempty _ _ _ _).1
      ⟨row, List.mem_of_find?_eq_some hrow, rfl, rfl, rfl, hkey⟩
    obtain rfl := hhash hsame
    dsimp only
    split
    · rename_i hpublished
      refine ⟨⟨fun _ => ⟨_, _, _, hlive, hpublished⟩, fun _ => ⟨_, rfl⟩⟩, ?_⟩
      intro tenantId assistantId keyId hlive' _
      obtain ⟨rfl, rfl⟩ := hran.live_unique hfresh hlive hlive'
      rfl
    · rename_i hdraft
      refine ⟨⟨?_, ?_⟩, ?_⟩
      · rintro ⟨token, htoken⟩
        cases htoken
      · rintro ⟨tenantId, assistantId, keyId, hlive', hpublished⟩
        obtain ⟨rfl, rfl⟩ := hran.live_unique hfresh hlive hlive'
        exact absurd hpublished hdraft
      · intro tenantId assistantId keyId hlive' hpublished
        obtain ⟨rfl, rfl⟩ := hran.live_unique hfresh hlive hlive'
        exact absurd hpublished hdraft

/-- A tenant with one assistant that is published. -/
def publishedTenant : ApiState where
  world := { assistants := [sampleAssistant] }

/-- A key minted for that assistant. -/
def sampleMint : KeyOperation where
  claims := ⟨7, some 3, none⟩
  request := .postApiKey (js "00000000-0000-0000-0000-000000000001")
  env := { randomKey := js "k", decisions := fun _ => { ids := [20] } }
  result := .ok ⟨201, .apiKeyCreated 20 (js "asab_sk_" ++ js "k") 0, none⟩

/-- A key just minted is exchanged for a token. -/
theorem exchange_iff_live_minted : ∃ r, (exchangeRawKey sampleDeps { decisions := fun _ => {} }
    (js "asab_sk_" ++ js "k")).run (ApiState.handle samplePlatform) (fun _ => {})
      { publishedTenant with
        apiKeys := [⟨20, 7, 1, js "asab_sk_" ++ js "k", none, 0⟩] } = some (.ok r, {
      publishedTenant with
        apiKeys := [⟨20, 7, 1, js "asab_sk_" ++ js "k", none, 0⟩] }) ∧
    ∃ token, r = .ok ⟨200, .token token, none⟩ := by
  have hid : Uuid.parse (js "00000000-0000-0000-0000-000000000001") = some 1 := by decide +kernel
  have hruns : sampleMint.Runs samplePlatform sampleDeps publishedTenant { publishedTenant with
      apiKeys := [⟨20, 7, 1, js "asab_sk_" ++ js "k", none, 0⟩] } := by
    refine ⟨rfl, fun _ _ => nofun, ?_⟩
    rw [sampleMint, app, tenantContext, if_pos rfl, postApiKey, requireAdmin, if_neg (by decide),
      withAssistantId, hid]
    rfl
  obtain ⟨r, hrun, hissues, -⟩ := (exchange_iff_live (fun _ _ h => h) rfl (Ran.start.next hruns)
    (List.pairwise_singleton _ _)).1 { decisions := fun _ => {} } (js "asab_sk_" ++ js "k")
      fun _ => rfl
  exact ⟨r, hrun, hissues.2 ⟨7, 1, 20, ⟨[], sampleMint, [], rfl, ⟨rfl, _, 0, rfl, hid, rfl⟩,
    fun _ hl => absurd hl List.not_mem_nil⟩, rfl⟩⟩

end

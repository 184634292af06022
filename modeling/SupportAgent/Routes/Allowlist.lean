import SupportAgent.Routes.Uploads

/-!
# Routes/Allowlist — which file names an upload goes through with

`resolveSourceType` looks the extension of a file name up in an object literal, which has the names
of `Object.prototype` beside its own.  Two of those are their own lower case.

* `resolveSourceType_eq_some_iff` — what is found for a name, by its extension.
* `allowlist_exact_iff` — a name is let through as its type or turned away with 415, exactly when
  its extension is none of the two.
-/

open Async Ingestion JsString

/-! ## Extensions -/

/-- The text behind the last `.` of a name, in lower case. -/
def Extension (name ext : JsString) : Prop :=
  ∃ stem rest, name = stem ++ 0x2E :: rest ∧ 0x2E ∉ rest ∧ rest.map lowerUnit = ext

/-- The allowlist. -/
def ALLOWED : List (JsString × SourceType) :=
  [(js "pdf", .PDF), (js "docx", .DOCX), (js "md", .MD), (js "markdown", .MD), (js "txt", .TXT)]

/-- The name has an extension of the allowlist. -/
def AllowedAs (name : JsString) (t : SourceType) : Prop :=
  ∃ ext, Extension name ext ∧ (ext, t) ∈ ALLOWED

/-- The name has an extension that every object has a property of. -/
def Inherited (name : JsString) : Prop :=
  Extension name (js "constructor") ∨ Extension name (js "__proto__")

section

variable {name ext : JsString} {t : SourceType}

theorem EXT_TO_SOURCE_eq_source : EXT_TO_SOURCE ext = some (.source t) ↔ (ext, t) ∈ ALLOWED := by
  constructor
  · intro h
    rw [EXT_TO_SOURCE] at h
    split_ifs at h with hpdf hdocx hmd hmarkdown htxt hinherited <;> cases h
    · simp [ALLOWED, hpdf]
    · simp [ALLOWED, hdocx]
    · simp [ALLOWED, hmd]
    · simp [ALLOWED, hmarkdown]
    · simp [ALLOWED, htxt]
  · intro h
    simp only [ALLOWED, List.mem_cons, List.not_mem_nil, or_false, Prod.mk.injEq] at h
    rcases h with ⟨rfl, rfl⟩ | ⟨rfl, rfl⟩ | ⟨rfl, rfl⟩ | ⟨rfl, rfl⟩ | ⟨rfl, rfl⟩ <;> rfl

theorem EXT_TO_SOURCE_eq_inherited :
    EXT_TO_SOURCE ext = some .inherited ↔ ext = js "constructor" ∨ ext = js "__proto__" := by
  constructor
  · intro h
    rw [EXT_TO_SOURCE] at h
    split_ifs at h with hpdf hdocx hmd hmarkdown htxt hinherited <;> cases h
    exact hinherited
  · rintro (rfl | rfl) <;> rfl

/-- A name has an extension where `resolveSourceType` looks for it. -/
theorem extension_iff (h : 0x2E ∈ name) :
    Extension name ext ↔ (name.rtakeWhile (· != 0x2E)).map lowerUnit = ext := by
  constructor
  · rintro ⟨stem, rest, rfl, hrest, hext⟩
    rwa [rtakeWhile_behind hrest]
  · intro hext
    obtain ⟨stem, hname⟩ := exists_eq_append_rtakeWhile h
    exact ⟨stem, _, hname, notMem_rtakeWhile, hext⟩

/-- **What is found for a name** is what its extension leads to. -/
theorem resolveSourceType_eq_some_iff {found : FoundType} :
    resolveSourceType name = some found ↔ ∃ ext, Extension name ext ∧
    EXT_TO_SOURCE ext = some found := by
  rw [resolveSourceType]
  split
  · rename_i hdot
    constructor
    · exact fun h => ⟨_, (extension_iff hdot).mpr rfl, h⟩
    · rintro ⟨ext, hext, h⟩
      rwa [(extension_iff hdot).mp hext]
  · rename_i hdot
    refine iff_of_false (by simp) ?_
    rintro ⟨ext, ⟨stem, rest, rfl, -⟩, -⟩
    exact hdot (by simp)

/-- **A name of the allowlist** has its type, and no other. -/
theorem resolveSourceType_eq_source :
    resolveSourceType name = some (.source t) ↔ AllowedAs name t := by
  rw [resolveSourceType_eq_some_iff, AllowedAs]
  exact exists_congr fun ext => and_congr_right fun _ => EXT_TO_SOURCE_eq_source

/-- **A name of two more** has something that is no type. -/
theorem resolveSourceType_eq_inherited :
    resolveSourceType name = some .inherited ↔ Inherited name := by
  rw [resolveSourceType_eq_some_iff, Inherited]
  constructor
  · rintro ⟨ext, hext, h⟩
    obtain rfl | rfl := EXT_TO_SOURCE_eq_inherited.mp h
    · exact .inl hext
    · exact .inr hext
  · rintro (hext | hext)
    · exact ⟨_, hext, EXT_TO_SOURCE_eq_inherited.mpr (.inl rfl)⟩
    · exact ⟨_, hext, EXT_TO_SOURCE_eq_inherited.mpr (.inr rfl)⟩

end

/-! ## Uploads -/

/-- **The allowlist is exact for a name**: a file of that name is let through as its type, and
stored as that, or it is turned away with 415 before anything is stored. -/
structure ExactAllowlist (P : Platform) (name : JsString) : Prop where
  lets : ∀ t, AllowedAs name t → ∀ field assistantId buffer, zodUuid field = some assistantId →
    checkUpload (.form field (some ⟨name, buffer⟩)) = .ok (assistantId, ⟨name, buffer⟩, .source t)
  stores : ∀ t, AllowedAs name t → ∀ field assistantId buffer, zodUuid field = some assistantId →
    ∀ (env : Environment) (claims : TenantClaims) (s : ApiState), env.randomUUID ∉ s.world.issued →
      (s.world.findAssistant claims.tenantId assistantId).isSome = true →
      (∀ n, (env.decisions n).fault = none) →
      ∃ s', (postDocument env claims (.form field (some ⟨name, buffer⟩))).run (ApiState.handle P)
          env.decisions s = some (.ok ⟨201, .uploaded env.randomUUID, none⟩, s') ∧
        s'.world.objects (tenantObjectKey claims.tenantId env.randomUUID) = some buffer ∧
        ∃ doc ∈ s'.world.documents, doc.id = env.randomUUID ∧ doc.sourceType = t
  turnsAway : (∀ t, ¬AllowedAs name t) →
    ∀ field buffer (env : Environment) (claims : TenantClaims) (s : ApiState),
      (postDocument env claims (.form field (some ⟨name, buffer⟩))).run (ApiState.handle P)
        env.decisions s = some (.ok (errorResponse 415 (js "unsupported file type")), s)

section

variable {P : Platform} {name : JsString} {t : SourceType} {found : FoundType} {field : Option Json}
  {assistantId : Uuid} (buffer : Bytes)

/-- A file whose type is found goes through with it. -/
theorem checkUpload_of_found (hfound : resolveSourceType name = some found)
    (hfield : zodUuid field = some assistantId) :
    checkUpload (.form field (some ⟨name, buffer⟩)) = .ok (assistantId, ⟨name, buffer⟩, found) := by
  simp [checkUpload, hfound, hfield]
  rfl

/-- A file of an allowed name is stored as its type. -/
theorem stores_of_allowed (ht : AllowedAs name t) (hfield : zodUuid field = some assistantId)
    (env : Environment) (claims : TenantClaims) (s : ApiState)
    (hfresh : env.randomUUID ∉ s.world.issued)
    (hassistant : (s.world.findAssistant claims.tenantId assistantId).isSome = true)
    (hcalls : ∀ n, (env.decisions n).fault = none) :
    ∃ s', (postDocument env claims (.form field (some ⟨name, buffer⟩))).run (ApiState.handle P)
        env.decisions s = some (.ok ⟨201, .uploaded env.randomUUID, none⟩, s') ∧
      s'.world.objects (tenantObjectKey claims.tenantId env.randomUUID) = some buffer ∧
      ∃ doc ∈ s'.world.documents, doc.id = env.randomUUID ∧ doc.sourceType = t := by
  let u : Upload := ⟨claims.tenantId, assistantId, env.randomUUID, name, t, buffer⟩
  have hcheck := checkUpload_of_found buffer (resolveSourceType_eq_source.mpr ht) hfield
  have hrow : WritesRow s.world u.tenantId u.assistantId fun n => (env.decisions n).toDecision :=
    ⟨hcalls 0, hassistant, hcalls 1, fun e he => by cases (hcalls 2).symm.trans he⟩
  obtain ⟨r, w', hrun, ⟨hnot, -⟩ | ⟨-, hfault, -⟩ | ⟨-, -, rfl, hobject, hdocs, -⟩⟩ :=
    run_storeUpload (P := P) (u := u) (d := fun n => (env.decisions n).toDecision) hfresh
  · exact absurd hrow hnot
  · exact absurd ⟨hcalls 2, hcalls 3⟩ hfault
  · refine ⟨{ s with world := w' }, by rw [run_postDocument hcheck, storeFile, hrun]; rfl, hobject,
      u.document.row (env.decisions 2).now, ?_, rfl, rfl⟩
    dsimp only
    rw [hdocs]
    exact List.mem_append_right _ (List.mem_singleton_self _)

/-- A file whose type is not found is turned away. -/
theorem turnsAway_of_none (hnone : resolveSourceType name = none) (env : Environment)
    (claims : TenantClaims) (s : ApiState) :
    (postDocument env claims (.form field (some ⟨name, buffer⟩))).run (ApiState.handle P)
      env.decisions s = some (.ok (errorResponse 415 (js "unsupported file type")), s) := by
  have hcheck : checkUpload (.form field (some ⟨name, buffer⟩)) =
      .error (errorResponse 415 (js "unsupported file type")) := by
    simp [checkUpload, hnone]
    rfl
  rw [postDocument, hcheck]
  rfl

/-- **A file of an inherited name is stored**, before its row is refused. -/
theorem run_of_inherited (hname : Inherited name) (hfield : zodUuid field = some assistantId)
    (env : Environment) (claims : TenantClaims) (s : ApiState)
    (hfresh : env.randomUUID ∉ s.world.issued)
    (hassistant : (s.world.findAssistant claims.tenantId assistantId).isSome = true)
    (hcalls : ∀ n, (env.decisions n).fault = none) :
    (postDocument env claims (.form field (some ⟨name, buffer⟩))).run (ApiState.handle P)
      env.decisions s = some (.ok (errorResponse 500 (js "internal error")), { s with
        world := { s.world with
          objects := Function.update s.world.objects
            (tenantObjectKey claims.tenantId env.randomUUID) (some buffer) } }) := by
  have hcheck := checkUpload_of_found buffer (resolveSourceType_eq_inherited.mpr hname) hfield
  obtain ⟨-, hrun⟩ | ⟨hstop, -⟩ := run_lookup_put (P := P) (w := s.world)
    (d := fun n => (env.decisions n).toDecision) claims.tenantId assistantId buffer
    (.throw (.new (js "Argument sourceType: invalid value provided"))) hfresh
  · rw [run_postDocument hcheck, storeFile, storeUnrecorded, hrun]
    rfl
  · exact absurd ⟨hcalls 0, hassistant, hcalls 1⟩ hstop

end

theorem zodUuid_sample :
    zodUuid (some (.str (js "00000000-0000-0000-0000-000000000001"))) = some 1 := rfl

/-- The file is answered 500 where it can be stored, and a name that is not allowed 415. -/
theorem not_exact_of_inherited {P : Platform} {name : JsString} (hname : Inherited name) :
    ¬ExactAllowlist P name := fun hexact => by
  have hnot : ∀ t, ¬AllowedAs name t := fun t ht => by
    cases (resolveSourceType_eq_source.mpr ht).symm.trans (resolveSourceType_eq_inherited.mpr hname)
  have hrun := run_of_inherited (P := P) [] hname zodUuid_sample { decisions := fun _ => {} }
    ⟨7, some 1, none⟩ beforeUpload List.not_mem_nil rfl fun _ => rfl
  have hturned := hrun.symm.trans (hexact.turnsAway hnot _ [] _ ⟨7, some 1, none⟩ _)
  obtain ⟨hresponse, -⟩ := Prod.mk.inj (Option.some.inj hturned)
  exact absurd (congrArg Response.status (Except.ok.inj hresponse)) (show 500 ≠ 415 by decide)

/-- **The upload allowlist is exact**, but for the names every object has a property of:
`constructor` and `__proto__` are looked up in the object literal and found. -/
theorem allowlist_exact_iff (P : Platform) (name : JsString) :
    ExactAllowlist P name ↔ ¬Inherited name := by
  constructor
  · exact fun hexact hname => not_exact_of_inherited hname hexact
  · intro hname
    refine ⟨fun t ht field assistantId buffer hfield =>
      checkUpload_of_found buffer (resolveSourceType_eq_source.mpr ht) hfield,
      fun t ht field assistantId buffer hfield => stores_of_allowed buffer ht hfield, ?_⟩
    intro hnot field buffer env claims s
    refine turnsAway_of_none buffer ?_ env claims s
    rcases hfound : resolveSourceType name with _ | t | _
    · rfl
    · exact absurd (resolveSourceType_eq_source.mp hfound) (hnot t)
    · exact absurd (resolveSourceType_eq_inherited.mp hfound) hname

/-- **A file of no type is stored** under a name the allowlist does not have. -/
theorem not_allowlist_exact : ∃ s',
    (postDocument { randomUUID := 11, decisions := fun _ => {} } ⟨7, some 1, none⟩
      (.form (some (.str (js "00000000-0000-0000-0000-000000000001")))
        (some ⟨js "notes.constructor", [104, 105]⟩))).run (ApiState.handle samplePlatform)
        (fun _ => {})
      beforeUpload = some (.ok (errorResponse 500 (js "internal error")), s') ∧
    s'.world.objects (tenantObjectKey 7 11) = some [104, 105] ∧
    ¬ExactAllowlist samplePlatform (js "notes.constructor") := by
  have hname : Inherited (js "notes.constructor") :=
    .inl ⟨js "notes", js "constructor", rfl, by decide, rfl⟩
  have hrun := run_of_inherited (P := samplePlatform) [104, 105] hname zodUuid_sample
    { randomUUID := 11, decisions := fun _ => {} } ⟨7, some 1, none⟩
      beforeUpload List.not_mem_nil rfl
    fun _ => rfl
  refine ⟨_, hrun, ?_, not_exact_of_inherited hname⟩
  exact Function.update_self (tenantObjectKey 7 11) (some [104, 105]) beforeUpload.world.objects

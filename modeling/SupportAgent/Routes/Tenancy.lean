import SupportAgent.Routes.Handlers

/-!
# Routes/Tenancy — the part of the state that is one tenant's

`ApiState.part` keeps a tenant's rows and objects and drops the rest.  A call `Under` the tenant
does to the part what it does to the state and is answered alike (`exec_part`); a call that `Spares`
the tenant leaves its part as it was (`part_eq_of_spares`).
-/

open Async Ingestion

/-! ## Parts -/

/-- The rows and objects of a tenant. -/
def World.part (tenantId : Uuid) (w : World) : World where
  assistants := w.assistants.filter (·.tenantId == tenantId)
  documents := w.documents.filter (·.tenantId == tenantId)
  chunks := w.chunks.filter (·.tenantId == tenantId)
  objects key := if key.tenantId = tenantId then w.objects key else none

/-- **The part of a tenant**: its rows in every table, and its objects. -/
def ApiState.part (tenantId : Uuid) (s : ApiState) : ApiState where
  world := s.world.part tenantId
  tenants := s.tenants.filter (·.id == tenantId)
  users := s.users.filter (·.tenantId == tenantId)
  apiKeys := s.apiKeys.filter (·.tenantId == tenantId)

/-! ## Calls under a tenant -/

/-- A call that a route makes under the tenant of its token. -/
def Call.Under (tenantId : Uuid) : Call → Prop
  | .findAssistant t _ | .deleteDocument t _ | .scanChunks t _ _ _ _ => t = tenantId
  | .createDocument data => data.tenantId = tenantId ∧ data.storageKey.tenantId = tenantId
  | .storagePut key _ => key.tenantId = tenantId
  | .enqueue _ | .embed .. => True
  | _ => False

/-- **A call under the tenant**: row-level security shows it the tenant's rows alone, and the key of
an object it puts is the tenant's. -/
def ApiCall.Under (tenantId : Uuid) : ApiCall → Prop
  | .service c => c.Under tenantId
  | .listDocuments t .. | .getDocument t _ | .listAssistants t | .updateAssistant t ..
  | .createApiKey t .. | .listApiKeys t _ | .deleteApiKey t .. | .consume t => t = tenantId
  | .generate _ => True
  | _ => False

/-- A call of a request of the tenant: one under the tenant, or the deletion of the object whose key
was read from a row. -/
def ApiCall.OfRequest (tenantId : Uuid) (c : ApiCall) : Prop :=
  c.Under tenantId ∨ ∃ key, c = .service (.storageDelete key)

/-- A call that writes no row and no object of the tenant. -/
def Call.Spares (tenantId : Uuid) : Call → Prop
  | .setStatus _ t _ | .markFailed _ t _ | .setParseResult _ t _ _ | .saveChunks _ t _ _
  | .ensureEmbeddingModel t _ _ | .setChunkEmbeddings t _ _ | .deleteDocument t _ => t ≠ tenantId
  | .createDocument data => data.tenantId ≠ tenantId ∧ data.storageKey.tenantId ≠ tenantId
  | .storagePut key _ | .storageDelete key => key.tenantId ≠ tenantId
  | .reconcileStuckDocuments _ => False
  | _ => True

/-- **A call that writes nothing of the tenant's.** -/
def ApiCall.Spares (tenantId : Uuid) : ApiCall → Prop
  | .service c => c.Spares tenantId
  | .updateAssistant t .. | .createApiKey t .. | .deleteApiKey t .. | .consume t => t ≠ tenantId
  | .createTenantAndOwner .. => False
  | _ => True

theorem ApiCall.Under.spares {tenantId t : Uuid} {c : ApiCall} (h : c.Under t) (ht : t ≠ tenantId) :
    c.Spares tenantId := by
  cases c with
  | service c =>
    cases c with
    | deleteDocument | storagePut => exact fun heq => ht (h.symm.trans heq)
    | createDocument =>
      exact ⟨fun heq => ht (h.1.symm.trans heq), fun heq => ht (h.2.symm.trans heq)⟩
    | findAssistant | scanChunks | enqueue | embed => trivial
    | _ => exact h.elim
  | updateAssistant | createApiKey | deleteApiKey | consume =>
    exact fun heq => ht (h.symm.trans heq)
  | listDocuments | getDocument | listAssistants | listApiKeys | generate => trivial
  | _ => exact h.elim

/-- The worker works under the tenant of its job. -/
theorem Call.OfJob.spares {tenantId : Uuid} {job : IngestJobData} {c : Call} (h : c.OfJob job)
    (ht : job.tenantId ≠ tenantId) : c.Spares tenantId := by
  cases c with
  | setStatus | setParseResult | setChunkEmbeddings => exact fun heq => ht (h.2.symm.trans heq)
  | saveChunks => exact fun heq => ht (h.2.1.symm.trans heq)
  | ensureEmbeddingModel => exact fun heq => ht (h.1.symm.trans heq)
  | getStatus | getRef | getUnembeddedChunks | storageGet | embed => trivial
  | _ => exact h.elim

/-! ## Reading within the part -/

namespace World

variable {P : Platform} {tenantId : Uuid} {w : World}

theorem findDocument_part (id : Uuid) :
    (w.part tenantId).findDocument tenantId id = w.findDocument tenantId id :=
  Table.find?_part (fun _ hdoc => beq_iff_eq.mpr (Document.visible_iff.mp hdoc).2) w.documents

theorem findAssistant_part (id : Uuid) :
    (w.part tenantId).findAssistant tenantId id = w.findAssistant tenantId id :=
  Table.find?_part (fun _ ha => beq_iff_eq.mpr (Assistant.visible_iff.mp ha).2) w.assistants

theorem counted_part {doc : Document} (hdoc : doc.tenantId = tenantId) :
    (w.part tenantId).counted doc = w.counted doc := by
  have hcount : (w.part tenantId).chunks.countP (·.references doc) =
      w.chunks.countP (·.references doc) :=
    Table.countP_part (fun c hc => beq_iff_eq.mpr ((Chunk.references_iff.mp hc).2.1.trans hdoc)) _
  rw [World.counted, World.counted, hcount]

theorem scanRows_part (assistantId : Uuid) (query : List JsNumber) :
    (w.part tenantId).scanRows P tenantId assistantId query =
      w.scanRows P tenantId assistantId query := by
  rw [scanRows, scanRows]
  simp only [findDocument_part]
  rw [World.part, List.filterMap_filter]
  refine List.filterMap_congr fun c _ => ?_
  by_cases ht : c.tenantId = tenantId
  · simp [ht]
  · simp [ht]

/-- Worlds with the same rows and objects of the tenant have the same part. -/
theorem part_congr {w w' : World}
    (hassistants : w.assistants.filter (·.tenantId == tenantId) =
      w'.assistants.filter (·.tenantId == tenantId))
    (hdocuments : w.documents.filter (·.tenantId == tenantId) =
      w'.documents.filter (·.tenantId == tenantId))
    (hchunks : w.chunks.filter (·.tenantId == tenantId) =
      w'.chunks.filter (·.tenantId == tenantId))
    (hobjects : ∀ key : ObjectKey, key.tenantId = tenantId → w.objects key = w'.objects key) :
    w.part tenantId = w'.part tenantId := by
  have hkeep : ∀ key : ObjectKey, (if key.tenantId = tenantId then w.objects key else none) =
      if key.tenantId = tenantId then w'.objects key else none := by
    intro key
    split
    · exact hobjects key ‹_›
    · rfl
  rw [World.part, World.part, hassistants, hdocuments, hchunks, funext hkeep]

/-- An object of the part. -/
theorem objects_part {key : ObjectKey} (h : key.tenantId = tenantId) :
    (w.part tenantId).objects key = w.objects key :=
  if_pos h

theorem part_part : (w.part tenantId).part tenantId = w.part tenantId :=
  part_congr (Table.part_part _) (Table.part_part _) (Table.part_part _) fun _ h => objects_part h

theorem part_deleteDocument (id : Uuid) :
    ((w.part tenantId).deleteDocument tenantId id).part tenantId =
    (w.deleteDocument tenantId id).part tenantId := by
  refine part_congr (Table.part_part _) ?_ ?_ fun _ h => objects_part h
  · rw [deleteDocument, deleteDocument, Table.part_deleteMany, Table.part_deleteMany]
    exact congrArg _ (Table.part_part _)
  · have hany : ∀ c : Chunk, (w.part tenantId).documents.any
        (fun doc => doc.visible tenantId id && c.references doc) =
          w.documents.any fun doc => doc.visible tenantId id && c.references doc := fun c =>
      Table.any_part (fun doc hdoc => beq_iff_eq.mpr
        (Document.visible_iff.mp (Bool.and_eq_true_iff.mp hdoc).1).2) _
    rw [deleteDocument, deleteDocument, Table.part_deleteMany, Table.part_deleteMany, funext hany]
    exact congrArg _ (Table.part_part _)

/-- Writing under a key does to the part what it does to the state. -/
theorem part_update (key : ObjectKey) (body : Option Bytes) :
    { w.part tenantId with
      objects := Function.update (w.part tenantId).objects key body }.part tenantId =
      { w with objects := Function.update w.objects key body }.part tenantId := by
  refine part_congr (Table.part_part _) (Table.part_part _) (Table.part_part _) fun key' h => ?_
  dsimp only
  by_cases heq : key' = key
  · subst heq
    rw [Function.update_self, Function.update_self]
  · rw [Function.update_of_ne heq, Function.update_of_ne heq]
    exact objects_part h

/-- **A call under the tenant sees its part alone.** -/
theorem exec_part {c : Call} {d : Decision} {r : Except JsError c.Res} {w' : World}
    (hc : c.Under tenantId) (h : w.exec P c d = some (r, w')) :
    ∃ v, (w.part tenantId).exec P c d = some (r, v) ∧ v.part tenantId = w'.part tenantId := by
  cases c with
  | findAssistant t id =>
    obtain rfl : t = tenantId := hc
    obtain ⟨rfl, rfl⟩ := Prod.mk.inj (Option.some.inj h)
    exact ⟨_, by rw [exec, findAssistant_part], part_part⟩
  | scanChunks t id query k checked =>
    obtain rfl : t = tenantId := hc
    obtain ⟨rfl, rfl⟩ := Prod.mk.inj (Option.some.inj h)
    exact ⟨_, by rw [exec, scanRows_part], part_part⟩
  | deleteDocument t id =>
    obtain rfl : t = tenantId := hc
    simp only [exec, findDocument_part] at h ⊢
    split at h <;> obtain ⟨rfl, rfl⟩ := Prod.mk.inj (Option.some.inj h)
    · exact ⟨_, rfl, part_part⟩
    · exact ⟨_, rfl, part_deleteDocument id⟩
  | createDocument data =>
    obtain ⟨rfl, -⟩ := hc
    have hany : (w.part data.tenantId).assistants.any (·.visible data.tenantId data.assistantId) =
        w.assistants.any (·.visible data.tenantId data.assistantId) :=
      Table.any_part (fun a ha => beq_iff_eq.mpr (Assistant.visible_iff.mp ha).2) _
    have hfresh : data.id ∉ (w.part data.tenantId).issued := List.not_mem_nil
    simp only [exec] at h ⊢
    rw [if_neg hfresh, hany]
    split at h
    case isTrue => simp at h
    split at h <;> obtain ⟨rfl, rfl⟩ := Prod.mk.inj (Option.some.inj h)
    case isTrue hparent =>
      refine ⟨_, if_pos hparent,
        part_congr (Table.part_part _) ?_ (Table.part_part _) fun _ h => objects_part h⟩
      rw [List.filter_append, List.filter_append]
      exact congrArg (· ++ _) (Table.part_part _)
    case isFalse hparent => exact ⟨_, if_neg hparent, part_part⟩
  | storagePut key body =>
    simp only [exec] at h ⊢
    split at h
    case isTrue => simp at h
    obtain ⟨rfl, rfl⟩ := Prod.mk.inj (Option.some.inj h)
    exact ⟨_, if_neg List.not_mem_nil, part_update key _⟩
  | enqueue job =>
    simp only [exec] at h
    split at h <;> obtain ⟨rfl, rfl⟩ := Prod.mk.inj (Option.some.inj h)
    all_goals exact ⟨_, rfl, part_part⟩
  | embed model texts =>
    obtain ⟨rfl, rfl⟩ := Prod.mk.inj (Option.some.inj h)
    exact ⟨_, rfl, part_part⟩
  | _ => exact hc.elim

/-! ## Writing outside the part -/

theorem part_updateDocuments {p : Document → Bool} {f : Document → Document}
    (hp : ∀ doc, p doc = true → doc.tenantId ≠ tenantId)
    (hf : ∀ doc, (f doc).tenantId = doc.tenantId) :
    (w.updateDocuments p f).part tenantId = w.part tenantId := by
  refine part_congr rfl ?_ rfl fun _ _ => rfl
  refine Table.part_updateMany_of_outside (fun doc hdoc => beq_eq_false_iff_ne.mpr (hp doc hdoc))
    (fun doc => ?_) _
  rw [hf doc]

/-- What row-level security lets through is another tenant's. -/
theorem tenantId_ne_of_visible {t id : Uuid} (ht : t ≠ tenantId) (doc : Document)
    (hdoc : doc.visible t id = true) : doc.tenantId ≠ tenantId :=
  fun heq => ht ((Document.visible_iff.mp hdoc).2.symm.trans heq)

theorem part_claimModel_of_outside {t assistantId : Uuid} {model : JsString} (ht : t ≠ tenantId) :
    (w.claimModel t assistantId model).part tenantId = w.part tenantId := by
  refine part_congr ?_ rfl rfl fun _ _ => rfl
  refine Table.part_updateMany_of_outside
    (f := fun a : Assistant => { a with embeddingModel := some model }) (fun a ha => ?_)
    (fun _ => rfl) _
  have hvis := Assistant.visible_iff.mp (Bool.and_eq_true_iff.mp ha).1
  exact beq_eq_false_iff_ne.mpr fun heq => ht (hvis.2.symm.trans heq)

theorem part_embedChunks_of_outside {t : Uuid} {updates : List (Uuid × Embedding)}
    (ht : t ≠ tenantId) : (w.embedChunks t updates).part tenantId = w.part tenantId := by
  refine part_congr rfl rfl (Table.part_map_of_outside (fun row hrow => ?_) (fun row => ?_) _)
    fun _ _ => rfl
  · have hne : row.tenantId ≠ t := fun heq => ht (heq.symm.trans (beq_iff_eq.mp hrow))
    unfold Chunk.embedIn
    split
    · rw [if_neg hne]
    · rfl
  · have htenant : (row.embedIn t updates).bare.tenantId = row.bare.tenantId :=
      congrArg Chunk.tenantId (embedIn_cases t updates row).1
    exact congrArg (· == tenantId) htenant

theorem part_deleteDocument_of_outside {t id : Uuid} (ht : t ≠ tenantId) :
    (w.deleteDocument t id).part tenantId = w.part tenantId := by
  refine part_congr rfl ?_ ?_ fun _ _ => rfl
  · exact Table.part_deleteMany_of_outside fun doc hdoc =>
      beq_eq_false_iff_ne.mpr (tenantId_ne_of_visible ht doc hdoc)
  · refine Table.part_deleteMany_of_outside fun row hrow => beq_eq_false_iff_ne.mpr ?_
    obtain ⟨doc, -, hdoc⟩ := List.any_eq_true.mp hrow
    obtain ⟨hvis, href⟩ := Bool.and_eq_true_iff.mp hdoc
    exact fun heq =>
      tenantId_ne_of_visible ht doc hvis ((Chunk.references_iff.mp href).2.1.symm.trans heq)

theorem part_update_of_outside {key : ObjectKey} {body : Option Bytes}
    (hkey : key.tenantId ≠ tenantId) :
    { w with objects := Function.update w.objects key body }.part tenantId = w.part tenantId :=
  part_congr rfl rfl rfl fun key' hkey' =>
    Function.update_of_ne (fun heq : key' = key => hkey (heq ▸ hkey')) _ _

/-- **A call that spares the tenant leaves its part alone.** -/
theorem part_eq_of_spares {c : Call} {d : Decision} {r : Except JsError c.Res} {w' : World}
    (hc : c.Spares tenantId) (h : w.exec P c d = some (r, w')) :
    w'.part tenantId = w.part tenantId := by
  cases c with
  | getStatus | getRef | getUnembeddedChunks | findAssistant | scanChunks | embed =>
    obtain ⟨-, rfl⟩ := Prod.mk.inj (Option.some.inj h)
    rfl
  | setStatus | setParseResult =>
    simp only [exec] at h
    split at h <;> obtain ⟨-, rfl⟩ := Prod.mk.inj (Option.some.inj h)
    · exact part_updateDocuments (tenantId_ne_of_visible hc) fun _ => rfl
    · rfl
  | markFailed =>
    obtain ⟨-, rfl⟩ := Prod.mk.inj (Option.some.inj h)
    exact part_updateDocuments
      (fun doc hdoc => tenantId_ne_of_visible hc doc (Bool.and_eq_true_iff.mp hdoc).1) fun _ => rfl
  | saveChunks id t assistantId chunks =>
    simp only [exec] at h
    split at h
    case isFalse => simp at h
    split at h <;> obtain ⟨-, rfl⟩ := Prod.mk.inj (Option.some.inj h)
    · refine part_congr rfl rfl ?_ fun _ _ => rfl
      dsimp only
      rw [insertChunks_eq]
      refine Table.part_createMany_of_outside (fun row hrow => ?_) _
      obtain ⟨i, -, x, -, rfl⟩ := mem_zipWith_chunkRow hrow
      exact beq_eq_false_iff_ne.mpr hc
    · rfl
  | ensureEmbeddingModel t assistantId model =>
    simp only [exec] at h
    split at h
    · split at h <;> obtain ⟨-, rfl⟩ := Prod.mk.inj (Option.some.inj h)
      · rfl
      · exact part_claimModel_of_outside hc
    · obtain ⟨-, rfl⟩ := Prod.mk.inj (Option.some.inj h)
      exact part_claimModel_of_outside hc
  | setChunkEmbeddings t id updates =>
    simp only [exec] at h
    split at h <;> obtain ⟨-, rfl⟩ := Prod.mk.inj (Option.some.inj h)
    · refine (part_updateDocuments (f := fun doc : Document => { doc with updatedAt := d.now })
        (tenantId_ne_of_visible hc) fun _ => rfl).trans ?_
      exact part_embedChunks_of_outside hc
    · rfl
  | reconcileStuckDocuments => exact hc.elim
  | createDocument data =>
    simp only [exec] at h
    split at h
    case isTrue => simp at h
    split at h <;> obtain ⟨-, rfl⟩ := Prod.mk.inj (Option.some.inj h)
    · refine part_congr rfl ?_ rfl fun _ _ => rfl
      have hrow : ((data.row d.now).tenantId == tenantId) = false := beq_eq_false_iff_ne.mpr hc.1
      rw [List.filter_append, List.filter_singleton, hrow]
      exact List.append_nil _
    · rfl
  | deleteDocument t id =>
    simp only [exec] at h
    split at h <;> obtain ⟨-, rfl⟩ := Prod.mk.inj (Option.some.inj h)
    · rfl
    · exact part_deleteDocument_of_outside hc
  | storagePut key body =>
    simp only [exec] at h
    split at h
    case isTrue => simp at h
    obtain ⟨-, rfl⟩ := Prod.mk.inj (Option.some.inj h)
    exact part_update_of_outside hc
  | storageGet key =>
    simp only [exec] at h
    split at h <;> obtain ⟨-, rfl⟩ := Prod.mk.inj (Option.some.inj h) <;> rfl
  | storageDelete key =>
    obtain ⟨-, rfl⟩ := Prod.mk.inj (Option.some.inj h)
    exact part_update_of_outside hc
  | enqueue job =>
    simp only [exec] at h
    split at h <;> obtain ⟨-, rfl⟩ := Prod.mk.inj (Option.some.inj h) <;> rfl

end World

/-! ## The calls of the API -/

namespace ApiState

variable {P : Platform} {tenantId : Uuid} {s t : ApiState} {c : ApiCall} {d : ApiDecision}
  {r : Except JsError c.Res}

/-- States with the same part of the database and the same rows of the tenant have the same part. -/
theorem part_congr (hworld : s.world.part tenantId = t.world.part tenantId)
    (htenants : s.tenants.filter (·.id == tenantId) = t.tenants.filter (·.id == tenantId))
    (husers : s.users.filter (·.tenantId == tenantId) = t.users.filter (·.tenantId == tenantId))
    (hapiKeys : s.apiKeys.filter (·.tenantId == tenantId) =
      t.apiKeys.filter (·.tenantId == tenantId)) : s.part tenantId = t.part tenantId := by
  rw [ApiState.part, ApiState.part, hworld, htenants, husers, hapiKeys]

theorem part_part : (s.part tenantId).part tenantId = s.part tenantId :=
  part_congr World.part_part (Table.part_part _) (Table.part_part _) (Table.part_part _)

/-- A key seen under row-level security is the tenant's. -/
theorem tenantId_of_visible {assistantId : Uuid} {key : ApiKey}
    (h : key.visible tenantId assistantId = true) : (key.tenantId == tenantId) = true :=
  (Bool.and_eq_true_iff.mp h).1

/-- **A call under the tenant sees its part alone.** -/
theorem exec_part (hc : c.Under tenantId) (h : s.exec P c d = some (r, t)) :
    ∃ u, (s.part tenantId).exec P c d = some (r, u) ∧ u.part tenantId = t.part tenantId := by
  cases c with
  | service c =>
    obtain ⟨⟨r', w'⟩, hexec, heq⟩ := Option.map_eq_some_iff.mp h
    obtain ⟨rfl, rfl⟩ := Prod.mk.inj heq
    obtain ⟨v, hv, hpart⟩ := World.exec_part hc hexec
    refine ⟨{ s.part tenantId with world := v }, ?_, part_congr hpart (Table.part_part _)
      (Table.part_part _) (Table.part_part _)⟩
    change ((s.world.part tenantId).exec P c d.toDecision).map _ = _
    rw [hv]
    rfl
  | listDocuments t assistantId take =>
    obtain rfl : t = tenantId := hc
    obtain ⟨rfl, rfl⟩ := Prod.mk.inj (Option.some.inj h)
    refine ⟨_, ?_, part_part⟩
    have hdocs : (s.world.part t).documents.filter
        (fun doc => doc.tenantId == t && doc.assistantId == assistantId) =
          s.world.documents.filter fun doc => doc.tenantId == t && doc.assistantId == assistantId :=
      Table.filter_part (fun doc hdoc => (Bool.and_eq_true_iff.mp hdoc).1) _
    change some (Except.ok (((((s.world.part t).documents.filter _).mergeSort createdDesc).take
      take).map (s.world.part t).counted), s.part t) = _
    rw [hdocs]
    refine congrArg (fun docs => some (Except.ok docs, s.part t)) ?_
    refine List.map_congr_left fun doc hdoc => World.counted_part ?_
    have hmem := List.mem_filter.mp ((List.mergeSort_perm _ createdDesc).mem_iff.mp
      (List.mem_of_mem_take hdoc))
    exact beq_iff_eq.mp (Bool.and_eq_true_iff.mp hmem.2).1
  | getDocument t id =>
    obtain rfl : t = tenantId := hc
    obtain ⟨rfl, rfl⟩ := Prod.mk.inj (Option.some.inj h)
    refine ⟨_, ?_, part_part⟩
    have hcount : (s.part t).world.chunks.countP (fun c => c.tenantId == t && c.documentId == id) =
        s.world.chunks.countP fun c => c.tenantId == t && c.documentId == id :=
      Table.countP_part (fun c hc => (Bool.and_eq_true_iff.mp hc).1) _
    change some (Except.ok (((s.world.part t).findDocument t id).map _), s.part t) = _
    rw [World.findDocument_part, hcount]
  | listAssistants t =>
    obtain rfl : t = tenantId := hc
    obtain ⟨rfl, rfl⟩ := Prod.mk.inj (Option.some.inj h)
    refine ⟨_, ?_, part_part⟩
    change some (Except.ok (((s.world.assistants.filter _).filter _).mergeSort _), s.part t) = _
    rw [Table.part_part]
  | updateAssistant t id data =>
    obtain rfl : t = tenantId := hc
    obtain ⟨rfl, rfl⟩ := Prod.mk.inj (Option.some.inj h)
    have hcount : (s.world.part t).assistants.countP (·.visible t id) =
        s.world.assistants.countP (·.visible t id) :=
      Table.countP_part (fun a ha => beq_iff_eq.mpr (Assistant.visible_iff.mp ha).2) _
    refine ⟨_, by rw [exec]; exact congrArg (fun n => some (Except.ok n, _)) hcount, part_congr
      (World.part_congr ?_ (Table.part_part _) (Table.part_part _) fun _ h => World.objects_part h)
      (Table.part_part _) (Table.part_part _) (Table.part_part _)⟩
    have happly : ∀ a : Assistant, ((data.apply a).tenantId == t) = (a.tenantId == t) :=
      fun _ => rfl
    rw [updateAssistants, updateAssistants, Table.part_updateMany happly,
      Table.part_updateMany happly]
    exact congrArg _ (Table.part_part _)
  | createApiKey t assistantId keyHash =>
    obtain rfl : t = tenantId := hc
    have hfind : (s.part t).world.findAssistant t assistantId =
        s.world.findAssistant t assistantId :=
      World.findAssistant_part assistantId
    simp only [exec, hfind] at h ⊢
    split at h
    · obtain ⟨rfl, rfl⟩ := Prod.mk.inj (Option.some.inj h)
      exact ⟨_, rfl, part_part⟩
    split at h
    case h_2 => simp at h
    obtain ⟨rfl, rfl⟩ := Prod.mk.inj (Option.some.inj h)
    refine ⟨_, rfl, part_congr World.part_part (Table.part_part _) (Table.part_part _) ?_⟩
    rw [List.filter_append, List.filter_append]
    exact congrArg (· ++ _) (Table.part_part _)
  | listApiKeys t assistantId =>
    obtain rfl : t = tenantId := hc
    obtain ⟨rfl, rfl⟩ := Prod.mk.inj (Option.some.inj h)
    refine ⟨_, ?_, part_part⟩
    change some (Except.ok (((s.part t).apiKeys.filter (·.visible t assistantId)).mergeSort _),
      s.part t) = _
    rw [ApiState.part, Table.filter_part fun key hkey => tenantId_of_visible hkey]
  | deleteApiKey t assistantId id =>
    obtain rfl : t = tenantId := hc
    obtain ⟨rfl, rfl⟩ := Prod.mk.inj (Option.some.inj h)
    have hcount : (s.part t).apiKeys.countP (fun key => key.visible t assistantId && key.id == id) =
        s.apiKeys.countP fun key => key.visible t assistantId && key.id == id :=
      Table.countP_part (fun key hkey => tenantId_of_visible (Bool.and_eq_true_iff.mp hkey).1) _
    refine ⟨_, by rw [exec]; exact congrArg (fun n => some (Except.ok n, _)) hcount,
      part_congr World.part_part (Table.part_part _) (Table.part_part _) ?_⟩
    dsimp only
    rw [Table.part_deleteMany, Table.part_deleteMany]
    exact congrArg _ (Table.part_part _)
  | consume | generate =>
    obtain ⟨rfl, rfl⟩ := Prod.mk.inj (Option.some.inj h)
    exact ⟨_, rfl, part_part⟩
  | _ => exact hc.elim

/-- A call of the tenant's requests sees its part alone. -/
theorem exec_part_ofRequest (hc : c.OfRequest tenantId) (h : s.exec P c d = some (r, t)) :
    ∃ u, (s.part tenantId).exec P c d = some (r, u) ∧ u.part tenantId = t.part tenantId := by
  obtain hunder | ⟨key, rfl⟩ := hc
  · exact exec_part hunder h
  · obtain ⟨rfl, rfl⟩ := Prod.mk.inj (Option.some.inj h)
    exact ⟨_, rfl, part_congr (World.part_update key none) (Table.part_part _) (Table.part_part _)
      (Table.part_part _)⟩

/-- **Two states with the same part answer a call of the tenant's requests alike**, and keep the
same part. -/
theorem exec_agree {s' t' : ApiState} {r' : Except JsError c.Res} (hc : c.OfRequest tenantId)
    (hpart : s.part tenantId = s'.part tenantId) (h : s.exec P c d = some (r, t))
    (h' : s'.exec P c d = some (r', t')) : r = r' ∧ t.part tenantId = t'.part tenantId := by
  obtain ⟨u, hu, ht⟩ := exec_part_ofRequest hc h
  obtain ⟨u', hu', ht'⟩ := exec_part_ofRequest hc h'
  rw [hpart, hu'] at hu
  obtain ⟨rfl, rfl⟩ := Prod.mk.inj (Option.some.inj hu)
  exact ⟨rfl, ht.symm.trans ht'⟩

/-- **A call that spares the tenant leaves its part alone.** -/
theorem part_eq_of_spares (hc : c.Spares tenantId) (h : s.exec P c d = some (r, t)) :
    t.part tenantId = s.part tenantId := by
  cases c with
  | service c =>
    obtain ⟨⟨r', w'⟩, hexec, heq⟩ := Option.map_eq_some_iff.mp h
    obtain ⟨rfl, rfl⟩ := Prod.mk.inj heq
    exact part_congr (World.part_eq_of_spares hc hexec) rfl rfl rfl
  | updateAssistant t id data =>
    obtain ⟨-, rfl⟩ := Prod.mk.inj (Option.some.inj h)
    have hother : ∀ a : Assistant, a.visible t id = true → (a.tenantId == tenantId) = false :=
      fun a ha => beq_eq_false_iff_ne.mpr fun heq =>
        hc ((Assistant.visible_iff.mp ha).2.symm.trans heq)
    exact part_congr (World.part_congr (Table.part_updateMany_of_outside (f := data.apply) hother
      (fun _ => rfl) _) rfl rfl fun _ _ => rfl) rfl rfl rfl
  | createApiKey t assistantId keyHash =>
    simp only [exec] at h
    split at h
    · obtain ⟨-, rfl⟩ := Prod.mk.inj (Option.some.inj h)
      rfl
    split at h
    case h_2 => simp at h
    obtain ⟨-, rfl⟩ := Prod.mk.inj (Option.some.inj h)
    refine part_congr rfl rfl rfl ?_
    have hkey : (t == tenantId) = false := beq_eq_false_iff_ne.mpr hc
    rw [List.filter_append, List.filter_singleton, hkey]
    exact List.append_nil _
  | deleteApiKey t assistantId id =>
    obtain ⟨-, rfl⟩ := Prod.mk.inj (Option.some.inj h)
    refine part_congr rfl rfl rfl (Table.part_deleteMany_of_outside fun key hkey =>
      beq_eq_false_iff_ne.mpr fun heq => ?_)
    exact hc ((beq_iff_eq.mp (tenantId_of_visible (Bool.and_eq_true_iff.mp hkey).1)).symm.trans heq)
  | createTenantAndOwner => exact hc.elim
  | _ =>
    obtain ⟨-, rfl⟩ := Prod.mk.inj (Option.some.inj h)
    rfl

/-- **What a call that spares the tenant leaves of the documents**: they were there, or are stored
under a key of another tenant. -/
theorem document_of_spares (hc : c.Spares tenantId) (h : s.exec P c d = some (r, t))
    {doc : Document}
    (hdoc : doc ∈ t.world.documents) : (∃ doc₀ ∈ s.world.documents, doc.file = doc₀.file) ∨
      doc.storageKey.tenantId ≠ tenantId := by
  have hsame : t.world.documents = s.world.documents →
      (∃ doc₀ ∈ s.world.documents, doc.file = doc₀.file) ∨ doc.storageKey.tenantId ≠ tenantId :=
    fun heq => .inl ⟨doc, heq ▸ hdoc, rfl⟩
  cases c with
  | service c =>
    obtain ⟨⟨r', w'⟩, hexec, heq⟩ := Option.map_eq_some_iff.mp h
    obtain ⟨rfl, rfl⟩ := Prod.mk.inj heq
    obtain ⟨doc₀, hmem, hfile, -⟩ | ⟨data, rfl, -, -, rfl, -⟩ :=
      (World.effect_of_exec hexec).document_origin hdoc
    · exact .inl ⟨doc₀, hmem, hfile⟩
    · exact .inr hc.2
  | createApiKey t assistantId keyHash =>
    simp only [exec] at h
    split at h
    · obtain ⟨-, rfl⟩ := Prod.mk.inj (Option.some.inj h)
      exact hsame rfl
    split at h
    case h_2 => simp at h
    obtain ⟨-, rfl⟩ := Prod.mk.inj (Option.some.inj h)
    exact hsame rfl
  | createTenantAndOwner => exact hc.elim
  | _ =>
    obtain ⟨-, rfl⟩ := Prod.mk.inj (Option.some.inj h)
    exact hsame rfl

end ApiState

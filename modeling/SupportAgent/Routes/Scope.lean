import SupportAgent.Routes.Handlers

/-!
# Routes/Scope — what the calls of one assistant reach

A call `Within` an assistant reads that assistant's row, documents and chunks and writes nothing, so
two states that agree on them answer it alike (`exec_within`).  A `Public` call, one made before any
tenant is known, leaves the data of every tenant already there alone (`exec_public`).
-/

open Async

/-! ## What two states have in common -/

/-- The row is the assistant's. -/
def Document.ofAssistant (tenantId assistantId : Uuid) (doc : Document) : Bool :=
  doc.tenantId == tenantId && doc.assistantId == assistantId

/-- The row is the assistant's. -/
def Chunk.ofAssistant (tenantId assistantId : Uuid) (c : Chunk) : Bool :=
  c.tenantId == tenantId && c.assistantId == assistantId

/-- **The assistant's row, its documents and its chunks** are the same in both. -/
structure World.AgreeOn (tenantId assistantId : Uuid) (w w' : World) : Prop where
  assistant : w.findAssistant tenantId assistantId = w'.findAssistant tenantId assistantId
  documents : w.documents.filter (·.ofAssistant tenantId assistantId) =
    w'.documents.filter (·.ofAssistant tenantId assistantId)
  chunks : w.chunks.filter (·.ofAssistant tenantId assistantId) =
    w'.chunks.filter (·.ofAssistant tenantId assistantId)

/-- **The tenant's documents, chunks, assistants, API keys and stored objects** are the same in
both. -/
structure SameTenantData (tenantId : Uuid) (s t : ApiState) : Prop where
  documents : s.world.documents.filter (·.tenantId == tenantId) =
    t.world.documents.filter (·.tenantId == tenantId)
  chunks : s.world.chunks.filter (·.tenantId == tenantId) =
    t.world.chunks.filter (·.tenantId == tenantId)
  assistants : s.world.assistants.filter (·.tenantId == tenantId) =
    t.world.assistants.filter (·.tenantId == tenantId)
  apiKeys : s.apiKeys.filter (·.tenantId == tenantId) = t.apiKeys.filter (·.tenantId == tenantId)
  objects : ∀ documentId, s.world.objects ⟨tenantId, documentId⟩ =
    t.world.objects ⟨tenantId, documentId⟩

/-- **The keys of the schema hold, and the tenant has its row.** -/
structure ApiState.WellFormed (P : Platform) (tenantId : Uuid) (s : ApiState) : Prop where
  world : s.world.WellFormed P
  tenant : tenantId ∈ s.tenants.map (·.id)

theorem SameTenantData.refl (tenantId : Uuid) (s : ApiState) : SameTenantData tenantId s s :=
  ⟨rfl, rfl, rfl, rfl, fun _ => rfl⟩

theorem SameTenantData.symm {tenantId : Uuid} {s t : ApiState} (h : SameTenantData tenantId s t) :
    SameTenantData tenantId t s :=
  ⟨h.documents.symm, h.chunks.symm, h.assistants.symm, h.apiKeys.symm, fun id =>
    (h.objects id).symm⟩

theorem SameTenantData.trans {tenantId : Uuid} {s t u : ApiState} (h : SameTenantData tenantId s t)
    (h' : SameTenantData tenantId t u) : SameTenantData tenantId s u :=
  ⟨h.documents.trans h'.documents, h.chunks.trans h'.chunks, h.assistants.trans h'.assistants,
    h.apiKeys.trans h'.apiKeys, fun id => (h.objects id).trans (h'.objects id)⟩

theorem World.AgreeOn.trans {tenantId assistantId : Uuid} {u v w : World}
    (h : u.AgreeOn tenantId assistantId v) (h' : v.AgreeOn tenantId assistantId w) :
    u.AgreeOn tenantId assistantId w :=
  ⟨h.assistant.trans h'.assistant, h.documents.trans h'.documents, h.chunks.trans h'.chunks⟩

/-- Two conditions, one after the other. -/
theorem filter_filter_and {α : Type} (p q : α → Bool) (l : List α) :
    (l.filter p).filter q = l.filter fun a => p a && q a := by
  rw [List.filter_filter]
  exact List.filter_congr fun a _ => Bool.and_comm _ _

/-- Where a tenant's data is the same, each of its assistants' is. -/
theorem SameTenantData.agreeOn {tenantId : Uuid} {s t : ApiState} (h : SameTenantData tenantId s t)
    (assistantId : Uuid) : s.world.AgreeOn tenantId assistantId t.world where
  assistant := by
    have hfind : ∀ w : World, w.findAssistant tenantId assistantId =
        (w.assistants.filter (·.tenantId == tenantId)).find? (·.id == assistantId) := fun w => by
      rw [World.findAssistant, List.find?_filter]
      congr 1
      ext a
      rw [Bool.decide_and, Bool.decide_eq_true, Bool.decide_eq_true]
      exact Bool.and_comm _ _
    rw [hfind, hfind, h.assistants]
  documents := by
    have hfilter : ∀ w : World, w.documents.filter (·.ofAssistant tenantId assistantId) =
        (w.documents.filter (·.tenantId == tenantId)).filter (·.assistantId == assistantId) :=
      fun w => (filter_filter_and _ _ w.documents).symm
    rw [hfilter, hfilter, h.documents]
  chunks := by
    have hfilter : ∀ w : World, w.chunks.filter (·.ofAssistant tenantId assistantId) =
        (w.chunks.filter (·.tenantId == tenantId)).filter (·.assistantId == assistantId) :=
      fun w => (filter_filter_and _ _ w.chunks).symm
    rw [hfilter, hfilter, h.chunks]

/-! ## Reading within one assistant -/

namespace World

variable {P : Platform} {tenantId assistantId : Uuid} {w w' : World}

/-- A document of the assistant has the same chunks in both. -/
theorem AgreeOn.counted (h : w.AgreeOn tenantId assistantId w') {doc : Document}
    (hdoc : doc.ofAssistant tenantId assistantId = true) : w.counted doc = w'.counted doc := by
  have hcount : ∀ v : World, v.chunks.countP (·.references doc) =
      (v.chunks.filter (·.ofAssistant tenantId assistantId)).countP (·.references doc) :=
        fun v => by
    rw [List.countP_filter]
    refine List.countP_congr fun c _ => ?_
    simp only [Document.ofAssistant, Chunk.ofAssistant, Bool.and_eq_true, beq_iff_eq,
      Chunk.references_iff] at hdoc ⊢
    exact ⟨fun href => ⟨href, href.2.1.trans hdoc.1, href.2.2.trans hdoc.2⟩, fun hc => hc.1⟩
  rw [World.counted, World.counted, hcount w, hcount w', h.chunks]

/-- A chunk of the assistant has the same document in both. -/
theorem AgreeOn.findDocument (h : w.AgreeOn tenantId assistantId w') (hw : w.WellFormed P)
    (hw' : w'.WellFormed P) {c : Chunk} (hc : c ∈ w.chunks)
    (hof : c.ofAssistant tenantId assistantId = true) :
    w.findDocument tenantId c.documentId = w'.findDocument tenantId c.documentId := by
  obtain ⟨doc, hdoc, href⟩ := hw.chunkParent c hc
  obtain ⟨hid, ht, ha⟩ := Chunk.references_iff.mp href
  simp only [Chunk.ofAssistant, Bool.and_eq_true, beq_iff_eq] at hof
  have hmem : doc ∈ w'.documents.filter (·.ofAssistant tenantId assistantId) := by
    rw [← h.documents]
    refine List.mem_filter.mpr ⟨hdoc, ?_⟩
    simp only [Document.ofAssistant, Bool.and_eq_true, beq_iff_eq]
    exact ⟨ht.symm.trans hof.1, ha.symm.trans hof.2⟩
  have hfind : w.findDocument tenantId c.documentId = some doc :=
    hw.findDocument_eq_some.mpr ⟨hdoc, hid.symm, ht.symm.trans hof.1⟩
  have hfind' : w'.findDocument tenantId c.documentId = some doc :=
    hw'.findDocument_eq_some.mpr ⟨List.mem_of_mem_filter hmem, hid.symm, ht.symm.trans hof.1⟩
  exact hfind.trans hfind'.symm

/-- A scan is over the assistant's chunks. -/
theorem scanRows_eq (P : Platform) (w : World) (tenantId assistantId : Uuid)
    (query : List JsNumber) : w.scanRows P tenantId assistantId query =
      { w with chunks := w.chunks.filter (·.ofAssistant tenantId assistantId) }.scanRows P tenantId
        assistantId query := by
  rw [scanRows, scanRows, List.filterMap_filter]
  refine List.filterMap_congr fun c _ => ?_
  rw [Chunk.ofAssistant]
  split
  · rfl
  · rfl

/-- **A scan sees nothing beyond the assistant.** -/
theorem AgreeOn.scanRows (h : w.AgreeOn tenantId assistantId w') (hw : w.WellFormed P)
    (hw' : w'.WellFormed P) (query : List JsNumber) :
    w.scanRows P tenantId assistantId query = w'.scanRows P tenantId assistantId query := by
  rw [scanRows_eq P w, scanRows_eq P w', ← h.chunks]
  refine List.filterMap_congr fun c hc => ?_
  obtain ⟨hmem, hof⟩ := List.mem_filter.mp hc
  have hfind := h.findDocument hw hw' hmem hof
  simp only [World.findDocument] at hfind ⊢
  rw [hfind]

end World

/-- A new assistant breaks no key. -/
theorem World.WellFormed.addAssistant {P : Platform} {w : World} (hw : w.WellFormed P)
    {a : Assistant} (hfresh : a.id ∉ w.assistants.map (·.id)) :
    { w with assistants := w.assistants ++ [a] }.WellFormed P where
  assistantIds := by
    rw [List.map_append]
    exact List.nodup_append'.mpr ⟨hw.assistantIds, by simp, List.disjoint_singleton.mpr hfresh⟩
  documentIds := hw.documentIds
  documentIssued := hw.documentIssued
  documentParent doc hdoc := by
    obtain ⟨a', ha', hparent⟩ := hw.documentParent doc hdoc
    exact ⟨a', List.mem_append_left _ ha', hparent⟩
  chunkUnique := hw.chunkUnique
  chunkIssued := hw.chunkIssued
  chunkParent := hw.chunkParent
  chunkHash := hw.chunkHash

/-! ## The calls of one assistant -/

/-- **A call within the assistant**: it reads the assistant's row, its documents or its chunks, or
nothing of the database. -/
inductive ApiCall.Within (tenantId assistantId : Uuid) : ApiCall → Prop
  | findAssistant : Within tenantId assistantId (.service (.findAssistant tenantId assistantId))
  | scanChunks (query : Embedding) (k : ℕ) (checked : Option JsString) :
      Within tenantId assistantId (.service (.scanChunks tenantId assistantId query k checked))
  | embed (model : JsString) (texts : List JsString) :
      Within tenantId assistantId (.service (.embed model texts))
  | listDocuments (take : ℕ) :
      Within tenantId assistantId (.listDocuments tenantId assistantId take)
  | consume (id : Uuid) : Within tenantId assistantId (.consume id)
  | generate (request : ChatRequest) : Within tenantId assistantId (.generate request)

/-- A call made before any tenant is known. -/
inductive ApiCall.Public : ApiCall → Prop
  | createTenantAndOwner (tenantName email passwordHash : JsString) :
      Public (.createTenantAndOwner tenantName email passwordHash)
  | findUserByEmail (email : JsString) : Public (.findUserByEmail email)
  | resolveApiKey (keyHash : JsString) : Public (.resolveApiKey keyHash)
  | findPublished (tenantId assistantId : Uuid) : Public (.findPublished tenantId assistantId)

namespace ApiState

variable {P : Platform} {tenantId assistantId : Uuid} {s s' t t' : ApiState} {c : ApiCall}
  {d : ApiDecision} {r r' : Except JsError c.Res}

/-- **A call within the assistant is answered alike** by two states that agree on it, and changes
neither. -/
theorem exec_within (hc : c.Within tenantId assistantId) (hs : s.WellFormed P tenantId)
    (hs' : s'.WellFormed P tenantId) (h : s.world.AgreeOn tenantId assistantId s'.world)
    (d : ApiDecision) :
    ∃ r, s.exec P c d = some (r, s) ∧ s'.exec P c d = some (r, s') := by
  cases hc with
  | findAssistant => exact ⟨_, rfl, by rw [h.assistant]; rfl⟩
  | scanChunks query k checked => exact ⟨_, rfl, by rw [h.scanRows hs.world hs'.world]; rfl⟩
  | embed | consume | generate => exact ⟨_, rfl, rfl⟩
  | listDocuments take =>
    have hlist : ∀ v : ApiState, v.exec P (.listDocuments tenantId assistantId take) d =
        some (.ok ((((v.world.documents.filter (·.ofAssistant tenantId assistantId)).mergeSort
          createdDesc).take take).map v.world.counted), v) := fun _ => rfl
    refine ⟨_, hlist s, ?_⟩
    rw [hlist s', ← h.documents]
    have hcounted :
        ∀ doc ∈ ((s.world.documents.filter (·.ofAssistant tenantId assistantId)).mergeSort
        createdDesc).take take, s'.world.counted doc = s.world.counted doc := by
      intro doc hdoc
      have hmem := (List.mergeSort_perm _ createdDesc).mem_iff.mp (List.mem_of_mem_take hdoc)
      exact (h.counted (List.mem_filter.mp hmem).2).symm
    rw [List.map_congr_left hcounted]

/-- What becomes of a call: it goes through, its answer arriving or not, or nothing happens. -/
theorem handle_cases (h : s.handle P c d = some (r, t)) :
    (∃ r', s.exec P c d = some (r', t)) ∨ t = s :=
  Fault.through_cases h

theorem handle_within (hc : c.Within tenantId assistantId) (hs : s.WellFormed P tenantId)
    (hs' : s'.WellFormed P tenantId) (h : s.world.AgreeOn tenantId assistantId s'.world)
    (d : ApiDecision) :
    ∃ r, s.handle P c d = some (r, s) ∧ s'.handle P c d = some (r, s') := by
  obtain ⟨r, hexec, hexec'⟩ := exec_within hc hs hs' h d
  unfold handle
  rw [hexec, hexec']
  rcases d.fault with _ | e | e
  · exact ⟨r, rfl, rfl⟩
  · exact ⟨.error e, rfl, rfl⟩
  · exact ⟨.error e, rfl, rfl⟩

/-- **A public call leaves the data of a tenant already there alone.** -/
theorem exec_public (hc : c.Public) (hs : s.WellFormed P tenantId)
    (h : s.exec P c d = some (r, t)) : SameTenantData tenantId s t ∧ t.WellFormed P tenantId := by
  cases hc with
  | findUserByEmail | resolveApiKey | findPublished =>
    obtain ⟨-, rfl⟩ := Prod.mk.inj (Option.some.inj h)
    exact ⟨.refl tenantId s, hs⟩
  | createTenantAndOwner tenantName email passwordHash =>
    simp only [exec] at h
    split at h
    · obtain ⟨-, rfl⟩ := Prod.mk.inj (Option.some.inj h)
      exact ⟨.refl tenantId s, hs⟩
    split at h
    case h_2 => simp at h
    case h_1 newTenant userId newAssistant hids =>
      split at h
      case isTrue => simp at h
      case isFalse hfresh =>
        obtain ⟨-, rfl⟩ := Prod.mk.inj (Option.some.inj h)
        obtain ⟨htenant, hassistant⟩ := not_or.mp hfresh
        have hne : newTenant ≠ tenantId := fun heq => htenant (heq ▸ hs.tenant)
        refine ⟨⟨rfl, rfl, ?_, rfl, fun _ => rfl⟩, ⟨?_, ?_⟩⟩
        · rw [List.filter_append]
          simp [defaultAssistant, hne]
        · exact hs.world.addAssistant hassistant
        · rw [List.map_append]
          exact List.mem_append_left _ hs.tenant

end ApiState

import SupportAgent.Store.Backend

/-!
# Store/Effects — what a call can have done to the shared state

`World.Effect` lists the changes a call can make, guards included, and `World.effect_of_exec` is the
one place where the calls are taken apart; the invariants of the corpus are read off the effects.  A
document is followed through its `file` columns, a chunk through its `bare` row (all but the
embedding), an assistant through its `unclaimed` row.
-/

open Ingestion

/-- The columns of a document that no call writes. -/
structure DocumentFile where
  id : Uuid
  tenantId : Uuid
  assistantId : Uuid
  sourceType : SourceType
  storageKey : ObjectKey

def Document.file (doc : Document) : DocumentFile :=
  ⟨doc.id, doc.tenantId, doc.assistantId, doc.sourceType, doc.storageKey⟩

/-- A chunk without its embedding. -/
def Chunk.bare (c : Chunk) : Chunk := { c with embedding := none }

/-- An assistant without its embedding model. -/
def Assistant.unclaimed (a : Assistant) : Assistant := { a with embeddingModel := none }

@[simp] theorem chunkRow_bare (P : Platform) (documentId tenantId assistantId id : Uuid)
    (c : ChunkDraft) : (chunkRow P documentId tenantId assistantId id c).bare =
      chunkRow P documentId tenantId assistantId id c := rfl

/-- The status a call may leave on a document it updates: the one it had, the one `setStatus` names,
or FAILED when it was not READY. -/
def Call.MayLeave (c : Call) (before after : Document) : Prop :=
  after.status = before.status ∨ c = .setStatus before.id before.tenantId after.status ∨
    before.status ≠ .READY ∧ after.status = .FAILED

namespace World

variable {P : Platform} {w w' : World} {c : Call} {d : Decision} {r : Except JsError c.Res}

/-- **What a call can have done.** -/
inductive Effect (P : Platform) (w : World) (d : Decision) : Call → World → Prop
  | nothing (c : Call) : Effect P w d c w
  | documents (c : Call) (p : Document → Bool) (f : Document → Document)
      (hfile : ∀ doc, (f doc).file = doc.file) (hstatus : ∀ doc, p doc → c.MayLeave doc (f doc)) :
      Effect P w d c (w.updateDocuments p f)
  | saved (documentId tenantId assistantId : Uuid) (chunks : List ChunkDraft)
      (hlen : d.ids.length = chunks.length) (hnodup : d.ids.Nodup)
      (hfresh : ∀ i ∈ d.ids, i ∉ w.issued)
      (hparent : ∀ c ∈ (w.insertChunks (List.zipWith (chunkRow P documentId tenantId assistantId)
        d.ids chunks)).drop w.chunks.length, ∃ doc ∈ w.documents, c.references doc = true) :
      Effect P w d (.saveChunks documentId tenantId assistantId chunks)
        { w with
          chunks := w.insertChunks
            (List.zipWith (chunkRow P documentId tenantId assistantId) d.ids chunks)
          issued := w.issued ++ d.ids }
  | claimed (tenantId assistantId : Uuid) (model : JsString) :
      Effect P w d (.ensureEmbeddingModel tenantId assistantId model)
        (w.claimModel tenantId assistantId model)
  | embedded (tenantId documentId : Uuid) (updates : List (Uuid × Embedding)) :
      Effect P w d (.setChunkEmbeddings tenantId documentId updates)
        ((w.embedChunks tenantId updates).updateDocuments (·.visible tenantId documentId)
          fun doc => { doc with updatedAt := d.now })
  | created (data : NewDocument) (hfresh : data.id ∉ w.issued)
      (hparent : ∃ a ∈ w.assistants, a.visible data.tenantId data.assistantId = true) :
      Effect P w d (.createDocument data)
        { w with documents := w.documents ++ [data.row d.now], issued := w.issued ++ [data.id] }
  | deleted (tenantId documentId : Uuid) :
      Effect P w d (.deleteDocument tenantId documentId) (w.deleteDocument tenantId documentId)
  | stored (key : ObjectKey) (body : Bytes) (hfresh : key.documentId ∉ w.issued) :
      Effect P w d (.storagePut key body)
        { w with objects := Function.update w.objects key (some body) }
  | removed (key : ObjectKey) :
      Effect P w d (.storageDelete key) { w with objects := Function.update w.objects key none }
  | enqueued (job : IngestJobData) :
      Effect P w d (.enqueue job) { w with jobs := w.jobs ++ [job] }

/-- **Every call that goes through has one of the effects.** -/
theorem effect_of_exec (h : w.exec P c d = some (r, w')) : w.Effect P d c w' := by
  cases c with
  | getStatus | getRef | getUnembeddedChunks | findAssistant | scanChunks | embed =>
    obtain ⟨-, rfl⟩ := Prod.mk.inj (Option.some.inj h)
    exact .nothing _
  | setStatus id tenantId status =>
    simp only [exec] at h
    split at h <;> obtain ⟨-, rfl⟩ := Prod.mk.inj (Option.some.inj h)
    · refine .documents _ _ _ (fun _ => rfl) fun doc hdoc => .inr (.inl ?_)
      obtain ⟨rfl, rfl⟩ := Document.visible_iff.mp hdoc
      rfl
    · exact .nothing _
  | markFailed id tenantId error =>
    obtain ⟨-, rfl⟩ := Prod.mk.inj (Option.some.inj h)
    refine .documents _ _ _ (fun _ => rfl) fun doc hdoc => .inr (.inr ⟨?_, rfl⟩)
    simpa using (Bool.and_eq_true_iff.mp hdoc).2
  | setParseResult id tenantId pageCount warnings =>
    simp only [exec] at h
    split at h <;> obtain ⟨-, rfl⟩ := Prod.mk.inj (Option.some.inj h)
    · exact .documents _ _ _ (fun _ => rfl) fun doc _ => .inl rfl
    · exact .nothing _
  | saveChunks id tenantId assistantId chunks =>
    simp only [exec] at h
    split at h
    case isFalse => simp at h
    case isTrue hids =>
      split at h <;> obtain ⟨-, rfl⟩ := Prod.mk.inj (Option.some.inj h)
      case isTrue hparent =>
        refine .saved id tenantId assistantId chunks hids.1 hids.2.1 hids.2.2 fun c hc => ?_
        simpa using List.all_eq_true.mp hparent c hc
      case isFalse => exact .nothing _
  | ensureEmbeddingModel tenantId assistantId model =>
    simp only [exec] at h
    split at h
    · split at h <;> obtain ⟨-, rfl⟩ := Prod.mk.inj (Option.some.inj h)
      · exact .nothing _
      · exact .claimed _ _ _
    · obtain ⟨-, rfl⟩ := Prod.mk.inj (Option.some.inj h)
      exact .claimed _ _ _
  | setChunkEmbeddings tenantId id updates =>
    simp only [exec] at h
    split at h <;> obtain ⟨-, rfl⟩ := Prod.mk.inj (Option.some.inj h)
    · exact .embedded _ _ _
    · exact .nothing _
  | reconcileStuckDocuments age =>
    obtain ⟨-, rfl⟩ := Prod.mk.inj (Option.some.inj h)
    refine .documents _ _ _ (fun _ => rfl) fun doc hdoc => .inr (.inr ⟨fun hready => ?_, rfl⟩)
    simp [hready, DocumentStatus.unfinished] at hdoc
  | createDocument data =>
    simp only [exec] at h
    split at h
    case isTrue => simp at h
    case isFalse hfresh =>
      split at h <;> obtain ⟨-, rfl⟩ := Prod.mk.inj (Option.some.inj h)
      case isTrue hparent => exact .created data hfresh (List.any_eq_true.mp hparent)
      case isFalse => exact .nothing _
  | deleteDocument tenantId id =>
    simp only [exec] at h
    split at h <;> obtain ⟨-, rfl⟩ := Prod.mk.inj (Option.some.inj h)
    · exact .nothing _
    · exact .deleted _ _
  | storagePut key body =>
    simp only [exec] at h
    split at h
    case isTrue => simp at h
    case isFalse hfresh =>
      obtain ⟨-, rfl⟩ := Prod.mk.inj (Option.some.inj h)
      exact .stored key body hfresh
  | storageGet key =>
    simp only [exec] at h
    split at h <;> obtain ⟨-, rfl⟩ := Prod.mk.inj (Option.some.inj h) <;> exact .nothing _
  | storageDelete key =>
    obtain ⟨-, rfl⟩ := Prod.mk.inj (Option.some.inj h)
    exact .removed key
  | enqueue job =>
    simp only [exec] at h
    split at h <;> obtain ⟨-, rfl⟩ := Prod.mk.inj (Option.some.inj h)
    · exact .nothing _
    · exact .enqueued job

/-- **Every call that happened has one of the effects**, or none. -/
theorem effect_of_handle (h : w.handle P c d = some (r, w')) : w.Effect P d c w' := by
  obtain ⟨r', hexec⟩ | rfl := Fault.through_cases h
  · exact effect_of_exec hexec
  · exact .nothing c

/-- A refused call changes nothing. -/
theorem eq_of_not_performed (hd : ¬ d.Performed) (h : w.handle P c d = some (r, w')) : w' = w := by
  obtain ⟨e, he⟩ : ∃ e, d.fault = some (.refused e) := by simpa [Decision.Performed] using hd
  unfold handle Fault.through at h
  rw [he] at h
  exact (congrArg Prod.snd (Option.some.inj h)).symm

/-! ## Where rows come from -/

/-- The rows `saveChunks` offers. -/
theorem mem_zipWith_chunkRow {documentId tenantId assistantId : Uuid} {ids : List Uuid}
    {chunks : List ChunkDraft} {row : Chunk}
    (h : row ∈ List.zipWith (chunkRow P documentId tenantId assistantId) ids chunks) :
    ∃ i ∈ ids, ∃ x ∈ chunks, row = chunkRow P documentId tenantId assistantId i x := by
  induction ids generalizing chunks with
  | nil => simp at h
  | cons i ids ih =>
    rcases chunks with _ | ⟨x, chunks⟩
    · simp at h
    · rcases List.mem_cons.mp (List.zipWith_cons_cons ▸ h) with rfl | h
      · exact ⟨i, by simp, x, by simp, rfl⟩
      · obtain ⟨j, hj, y, hy, rfl⟩ := ih h
        exact ⟨j, by simp [hj], y, by simp [hy], rfl⟩

/-- Batches make no difference to what is inserted. -/
theorem insertChunks_eq (w : World) (data : List Chunk) :
    w.insertChunks data = Table.createMany Chunk.conflicts w.chunks data := by
  rw [insertChunks, Table.foldl_createMany, Table.flatten_slices (by decide)]

/-- What one update leaves of a chunk: the row, and the embedding it had or was given. -/
theorem embedIn_cases (tenantId : Uuid) (updates : List (Uuid × Embedding)) (c : Chunk) :
    (c.embedIn tenantId updates).bare = c.bare ∧
      ((c.embedIn tenantId updates).embedding = c.embedding ∨ ∃ e, c.tenantId = tenantId ∧
        updateFor updates c = some e ∧ (c.embedIn tenantId updates).embedding = some e) := by
  unfold Chunk.embedIn
  split
  case h_1 e he =>
    split
    case isTrue ht => exact ⟨rfl, .inr ⟨e, ht, he, rfl⟩⟩
    case isFalse => exact ⟨rfl, .inl rfl⟩
  case h_2 => exact ⟨rfl, .inl rfl⟩

/-- **Where a document comes from**: it was there, with the file it had and a status the call may
leave, or the call created it. -/
theorem Effect.document_origin (h : w.Effect P d c w') {doc' : Document}
    (hdoc : doc' ∈ w'.documents) :
    (∃ doc ∈ w.documents, doc'.file = doc.file ∧ c.MayLeave doc doc') ∨
      ∃ data, c = .createDocument data ∧ data.id ∉ w.issued ∧ data.id ∈ w'.issued ∧
        doc' = data.row d.now ∧ ∃ a ∈ w.assistants,
        a.visible data.tenantId data.assistantId = true := by
  have hupdate : ∀ (v : World) (p : Document → Bool) (f : Document → Document),
      (∀ doc, (f doc).file = doc.file) → (∀ doc, p doc → c.MayLeave doc (f doc)) →
      doc' ∈ (v.updateDocuments p f).documents →
      ∃ doc ∈ v.documents, doc'.file = doc.file ∧ c.MayLeave doc doc' := by
    intro v p f hfile hstatus hdoc
    obtain ⟨doc, hmem, rfl⟩ := Table.mem_updateMany.mp hdoc
    refine ⟨doc, hmem, ?_⟩
    split
    case isTrue hp => exact ⟨hfile doc, hstatus doc hp⟩
    case isFalse => exact ⟨rfl, .inl rfl⟩
  rcases h with _ | ⟨_, p, f, hfile, hstatus⟩ | _ | _ | ⟨t, id, us⟩ | ⟨data, hfresh, hparent⟩ |
    ⟨t, id⟩ | _ | _ | _
  case documents => exact .inl (hupdate w p f hfile hstatus hdoc)
  case embedded =>
    exact .inl (hupdate (w.embedChunks t us) (·.visible t id)
      (fun doc => { doc with updatedAt := d.now }) (fun _ => rfl) (fun _ _ => .inl rfl) hdoc)
  case created =>
    rcases List.mem_append.mp hdoc with hdoc | hdoc
    · exact .inl ⟨doc', hdoc, rfl, .inl rfl⟩
    · exact .inr ⟨data, rfl, hfresh, by simp, List.mem_singleton.mp hdoc, hparent⟩
  case deleted => exact .inl ⟨doc', List.mem_of_mem_filter hdoc, rfl, .inl rfl⟩
  all_goals exact .inl ⟨doc', hdoc, rfl, .inl rfl⟩

/-- **Where a chunk comes from**: it was there, with the embedding it had or one written just now,
or it was saved just now, by a call that found its document. -/
theorem Effect.chunk_origin (h : w.Effect P d c w') {row' : Chunk} (hrow : row' ∈ w'.chunks) :
    (∃ row ∈ w.chunks, row'.bare = row.bare ∧ (row'.embedding = row.embedding ∨
      ∃ documentId updates e, c = .setChunkEmbeddings row.tenantId documentId updates ∧
        updateFor updates row = some e ∧ row'.embedding = some e)) ∨
      ∃ documentId tenantId assistantId chunks,
        c = .saveChunks documentId tenantId assistantId chunks ∧
        ∃ i, i ∉ w.issued ∧ i ∈ w'.issued ∧ ∃ x ∈ chunks,
          row' = chunkRow P documentId tenantId assistantId i x ∧
          ∃ doc ∈ w.documents, row'.references doc = true := by
  rcases h with _ | _ | ⟨id, t, a, chunks, hlen, hnodup, hfresh, hparent⟩ | _ | ⟨t, id, us⟩ | _ |
    ⟨t, id⟩ | _ | _ | _
  case saved =>
    dsimp only at hrow
    generalize hdata : List.zipWith (chunkRow P id t a) d.ids chunks = data at hrow hparent
    obtain ⟨rows, hrows⟩ := Table.prefix_createMany Chunk.conflicts w.chunks data
    rw [insertChunks_eq, ← hrows] at hrow hparent
    rw [List.drop_left] at hparent
    rcases List.mem_append.mp hrow with hrow | hrow
    · exact .inl ⟨row', hrow, rfl, .inl rfl⟩
    · have hmem : row' ∈ w.chunks ++ rows := List.mem_append_right _ hrow
      rw [hrows] at hmem
      rcases Table.mem_of_mem_createMany hmem with hold | hnew
      · exact .inl ⟨row', hold, rfl, .inl rfl⟩
      · obtain ⟨i, hi, x, hx, rfl⟩ := mem_zipWith_chunkRow (hdata ▸ hnew)
        exact .inr ⟨id, t, a, chunks, rfl, i, hfresh i hi, List.mem_append_right _ hi, x, hx, rfl,
          hparent _ hrow⟩
  case embedded =>
    obtain ⟨row, hmem, rfl⟩ := List.mem_map.mp hrow
    obtain ⟨hbare, hsame | ⟨e, rfl, hupdate, he⟩⟩ := embedIn_cases t us row
    · exact .inl ⟨row, hmem, hbare, .inl hsame⟩
    · exact .inl ⟨row, hmem, hbare, .inr ⟨id, us, e, rfl, hupdate, he⟩⟩
  case deleted => exact .inl ⟨row', List.mem_of_mem_filter hrow, rfl, .inl rfl⟩
  all_goals exact .inl ⟨row', hrow, rfl, .inl rfl⟩

/-- **Where an assistant comes from**: it was there, with the embedding model it had or one it
claimed just now. -/
theorem Effect.assistant_origin (h : w.Effect P d c w') {a' : Assistant}
    (ha : a' ∈ w'.assistants) :
    ∃ a ∈ w.assistants, a'.unclaimed = a.unclaimed ∧ (a'.embeddingModel = a.embeddingModel ∨
      a.embeddingModel = none ∧ ∃ model, c = .ensureEmbeddingModel a.tenantId a.id model ∧
        a'.embeddingModel = some model) := by
  rcases h with _ | _ | _ | ⟨t, id, model⟩ | _ | _ | _ | _ | _ | _
  case claimed =>
    obtain ⟨a, hmem, rfl⟩ := Table.mem_updateMany.mp ha
    refine ⟨a, hmem, ?_⟩
    split
    case isTrue hp =>
      obtain ⟨hvis, hnone⟩ := Bool.and_eq_true_iff.mp hp
      obtain ⟨rfl, rfl⟩ := Assistant.visible_iff.mp hvis
      exact ⟨rfl, .inr ⟨by simpa using hnone, model, rfl, rfl⟩⟩
    case isFalse => exact ⟨rfl, .inl rfl⟩
  all_goals exact ⟨a', ha, rfl, .inl rfl⟩

/-- A job in the queue was there, or put there just now. -/
theorem Effect.job_origin (h : w.Effect P d c w') {job : IngestJobData} (hjob : job ∈ w'.jobs) :
    job ∈ w.jobs ∨ c = .enqueue job := by
  rcases h with _ | _ | _ | _ | _ | _ | _ | _ | _ | ⟨job'⟩
  case enqueued =>
    rcases List.mem_append.mp hjob with hjob | hjob
    · exact .inl hjob
    · exact .inr (List.mem_singleton.mp hjob ▸ rfl)
  all_goals exact .inl hjob

/-! ## What becomes of rows -/

/-- The object of a document stays, unless it is deleted: an upload writes under a fresh id. -/
theorem Effect.object_kept (h : w.Effect P d c w') {key : ObjectKey}
    (hkey : key.documentId ∈ w.issued) :
    c = .storageDelete key ∨ w'.objects key = w.objects key := by
  rcases h with _ | _ | _ | _ | _ | _ | _ | ⟨key', body, hfresh⟩ | ⟨key'⟩ | _
  case stored =>
    refine .inr (Function.update_of_ne ?_ _ _)
    rintro rfl
    exact hfresh hkey
  case removed =>
    by_cases heq : key = key'
    · exact .inl (heq ▸ rfl)
    · exact .inr (Function.update_of_ne heq _ _)
  all_goals exact .inr rfl

/-- A claimed embedding model stays. -/
theorem Effect.assistant_kept (h : w.Effect P d c w') {a : Assistant} (ha : a ∈ w.assistants) :
    ∃ a' ∈ w'.assistants, a'.unclaimed = a.unclaimed ∧
      ∀ model, a.embeddingModel = some model → a'.embeddingModel = some model := by
  rcases h with _ | _ | _ | ⟨t, id, model⟩ | _ | _ | _ | _ | _ | _
  case claimed =>
    refine ⟨_, Table.mem_updateMany_of_mem ha, ?_⟩
    split
    case isTrue hp =>
      refine ⟨rfl, fun model' hm => ?_⟩
      simp [hm] at hp
    case isFalse => exact ⟨rfl, fun _ h => h⟩
  all_goals exact ⟨a, ha, rfl, fun _ h => h⟩

/-- **What becomes of a chunk**: only a deletion takes it away, and an embedding it has is at most
replaced by another. -/
theorem Effect.chunk_kept (h : w.Effect P d c w') {row : Chunk} (hrow : row ∈ w.chunks) :
    (∃ tenantId documentId, c = .deleteDocument tenantId documentId) ∨
      ∃ row' ∈ w'.chunks, row'.bare = row.bare ∧ (row.embedded → row'.embedded) := by
  rcases h with _ | _ | ⟨id, t, a, chunks, hlen, hnodup, hfresh, hparent⟩ | _ | ⟨t, id, us⟩ | _ |
    ⟨t, id⟩ | _ | _ | _
  case saved =>
    refine .inr ⟨row, ?_, rfl, fun h => h⟩
    rw [insertChunks_eq]
    exact (Table.prefix_createMany _ _ _).subset hrow
  case embedded =>
    refine .inr ⟨_, List.mem_map_of_mem hrow, (embedIn_cases t us row).1, fun he => ?_⟩
    rcases (embedIn_cases t us row).2 with hsame | ⟨e, -, -, he'⟩
    · rwa [Chunk.embedded, hsame]
    · simp [Chunk.embedded, he']
  case deleted => exact .inl ⟨t, id, rfl⟩
  all_goals exact .inr ⟨row, hrow, rfl, fun h => h⟩

/-- Only saves, vector writes and deletions touch chunks. -/
theorem Effect.chunks_eq (h : w.Effect P d c w')
    (hsave : ∀ id t a chunks, c ≠ .saveChunks id t a chunks)
    (hembed : ∀ t id updates, c ≠ .setChunkEmbeddings t id updates)
    (hdelete : ∀ t id, c ≠ .deleteDocument t id) : w'.chunks = w.chunks := by
  rcases h with _ | _ | _ | _ | _ | _ | _ | _ | _ | _
  case saved => exact absurd rfl (hsave _ _ _ _)
  case embedded => exact absurd rfl (hembed _ _ _)
  case deleted => exact absurd rfl (hdelete _ _)
  all_goals rfl

/-- Only the object store's own operations touch objects. -/
theorem Effect.objects_eq (h : w.Effect P d c w') (hput : ∀ key body, c ≠ .storagePut key body)
    (hdelete : ∀ key, c ≠ .storageDelete key) : w'.objects = w.objects := by
  rcases h with _ | _ | _ | _ | _ | _ | _ | _ | _ | _
  case stored => exact absurd rfl (hput _ _)
  case removed => exact absurd rfl (hdelete _)
  all_goals rfl

/-- Only a deletion takes a document away. -/
theorem Effect.document_kept (h : w.Effect P d c w') {doc : Document} (hdoc : doc ∈ w.documents) :
    (∃ tenantId documentId, c = .deleteDocument tenantId documentId) ∨
      ∃ doc' ∈ w'.documents, doc'.file = doc.file := by
  have hupdate : ∀ (v : World) (p : Document → Bool) (f : Document → Document),
      (∀ doc, (f doc).file = doc.file) → doc ∈ v.documents →
      ∃ doc' ∈ (v.updateDocuments p f).documents, doc'.file = doc.file := by
    intro v p f hfile hdoc
    refine ⟨_, Table.mem_updateMany_of_mem hdoc, ?_⟩
    split
    · exact hfile doc
    · rfl
  rcases h with _ | ⟨_, p, f, hfile, hstatus⟩ | _ | _ | ⟨t, id, us⟩ | ⟨data, hfresh, hparent⟩ |
    ⟨t, id⟩ | _ | _ | _
  case documents => exact .inr (hupdate w p f hfile hdoc)
  case embedded =>
    exact .inr (hupdate (w.embedChunks t us) (·.visible t id)
      (fun doc => { doc with updatedAt := d.now }) (fun _ => rfl) hdoc)
  case created => exact .inr ⟨doc, List.mem_append_left _ hdoc, rfl⟩
  case deleted => exact .inl ⟨t, id, rfl⟩
  all_goals exact .inr ⟨doc, hdoc, rfl⟩

/-- Ids handed out stay handed out. -/
theorem Effect.issued_subset (h : w.Effect P d c w') : w.issued ⊆ w'.issued := by
  rcases h with _ | _ | _ | _ | _ | _ | _ | _ | _ | _
  case saved | created => exact List.subset_append_left _ _
  all_goals exact List.Subset.refl _

/-! ## What a resolved call says -/

/-- A call that resolved went through. -/
theorem exec_of_handle_ok {v : c.Res} (h : w.handle P c d = some (.ok v, w')) :
    w.exec P c d = some (.ok v, w') :=
  Fault.eq_of_through_ok h

/-- The chunks reported as pending are rows of the document. -/
theorem mem_of_getUnembeddedChunks {documentId tenantId : Uuid} {pending : List PendingChunk}
    (h : w.handle P (.getUnembeddedChunks documentId tenantId) d = some (.ok pending, w')) :
    w' = w ∧ ∀ p, p ∈ pending ↔ ∃ row ∈ w.chunks, row.documentId = documentId ∧
      row.tenantId = tenantId ∧ row.embedding = none ∧ p = ⟨row.id, row.content⟩ := by
  have hexec := exec_of_handle_ok h
  simp only [exec, Option.some.injEq, Prod.mk.injEq, Except.ok.injEq] at hexec
  obtain ⟨rfl, rfl⟩ := hexec
  refine ⟨rfl, fun p => ?_⟩
  simp only [List.mem_map, List.mem_mergeSort, List.mem_filter, Bool.and_eq_true, beq_iff_eq,
    Bool.not_eq_true', Chunk.embedded, Option.isSome_eq_false_iff, Option.isNone_iff_eq_none]
  constructor
  · rintro ⟨row, ⟨hrow, ⟨hdoc, ht⟩, hnone⟩, rfl⟩
    exact ⟨row, hrow, hdoc, ht, hnone, rfl⟩
  · rintro ⟨row, hrow, hdoc, ht, hnone, rfl⟩
    exact ⟨row, ⟨hrow, ⟨hdoc, ht⟩, hnone⟩, rfl⟩

/-- The vectors of an answer are the asked model's. -/
theorem model_of_embed {model : JsString} {texts : List JsString} {vectors : List Embedding}
    (h : w.handle P (.embed model texts) d = some (.ok vectors, w')) :
    w' = w ∧ ∀ e ∈ vectors, e.model = model := by
  have hexec := exec_of_handle_ok h
  simp only [exec, Option.some.injEq, Prod.mk.injEq, Except.ok.injEq] at hexec
  obtain ⟨rfl, rfl⟩ := hexec
  refine ⟨rfl, fun e he => ?_⟩
  obtain ⟨v, -, rfl⟩ := List.mem_map.mp he
  rfl

/-- A claim that succeeds leaves its model recorded, if the assistant is there. -/
theorem claimed_of_ensureEmbeddingModel {tenantId assistantId : Uuid} {model : JsString}
    (h : w.handle P (.ensureEmbeddingModel tenantId assistantId model) d = some (.ok (), w'))
    {a : Assistant} (ha : w'.findAssistant tenantId assistantId = some a) :
    a.embeddingModel = some model := by
  have hexec := exec_of_handle_ok h
  simp only [exec] at hexec
  split at hexec
  case h_1 a' ha' =>
    split at hexec
    case isTrue => simp at hexec
    case isFalse hm =>
      obtain ⟨-, rfl⟩ := Prod.mk.inj (Option.some.inj hexec)
      obtain rfl := Option.some.inj (ha'.symm.trans ha)
      simpa using hm
  case h_2 hnone =>
    obtain ⟨-, rfl⟩ := Prod.mk.inj (Option.some.inj hexec)
    simp [hnone] at ha

/-- A document created is there, under an id that was not in use. -/
theorem created_of_createDocument {data : NewDocument}
    (h : w.handle P (.createDocument data) d = some (.ok (), w')) : data.id ∉ w.issued ∧
      w' = { w with
        documents := w.documents ++ [data.row d.now], issued := w.issued ++ [data.id] } := by
  have hexec := exec_of_handle_ok h
  simp only [exec] at hexec
  split at hexec
  case isTrue => simp at hexec
  case isFalse hfresh =>
    split at hexec
    · exact ⟨hfresh, (congrArg Prod.snd (Option.some.inj hexec)).symm⟩
    · simp at hexec

/-- What `getStatus` reads. -/
theorem status_of_getStatus {documentId tenantId : Uuid} {status : Option DocumentStatus}
    (h : w.handle P (.getStatus documentId tenantId) d = some (.ok status, w')) :
    w' = w ∧ status = (w.findDocument tenantId documentId).map (·.status) := by
  have hexec := exec_of_handle_ok h
  simp only [exec, Option.some.injEq, Prod.mk.injEq, Except.ok.injEq] at hexec
  exact ⟨hexec.2.symm, hexec.1.symm⟩

/-- What `getRef` reads. -/
theorem ref_of_getRef {documentId tenantId : Uuid} {ref : Option DocumentRef}
    (h : w.handle P (.getRef documentId tenantId) d = some (.ok ref, w')) :
    w' = w ∧ ref = (w.findDocument tenantId documentId).map fun doc =>
      ⟨doc.storageKey, doc.sourceType⟩ := by
  have hexec := exec_of_handle_ok h
  simp only [exec, Option.some.injEq, Prod.mk.injEq, Except.ok.injEq] at hexec
  exact ⟨hexec.2.symm, hexec.1.symm⟩

/-- An object put is there. -/
theorem object_of_storagePut {key : ObjectKey} {body : Bytes}
    (h : w.handle P (.storagePut key body) d = some (.ok (), w')) : w'.objects key = some body := by
  have hexec := exec_of_handle_ok h
  simp only [exec] at hexec
  split at hexec
  case isTrue => simp at hexec
  case isFalse =>
    obtain ⟨-, rfl⟩ := Prod.mk.inj (Option.some.inj hexec)
    exact Function.update_self key (some body) w.objects

/-- What a deletion that found its document did. -/
theorem removed_of_deleteDocument {tenantId documentId : Uuid} {key : ObjectKey}
    (h : w.handle P (.deleteDocument tenantId documentId) d = some (.ok (some key), w')) :
    ∃ doc, w.findDocument tenantId documentId = some doc ∧ key = doc.storageKey ∧
      w' = w.deleteDocument tenantId documentId := by
  have hexec := exec_of_handle_ok h
  simp only [exec] at hexec
  split at hexec
  case h_1 => simp at hexec
  case h_2 doc hdoc =>
    simp only [Option.some.injEq, Prod.mk.injEq, Except.ok.injEq] at hexec
    exact ⟨doc, hdoc, hexec.1.symm, hexec.2.symm⟩

/-- What the object store returns. -/
theorem object_of_storageGet {key : ObjectKey} {body : Bytes}
    (h : w.handle P (.storageGet key) d = some (.ok body, w')) :
    w' = w ∧ w.objects key = some body := by
  have hexec := exec_of_handle_ok h
  simp only [exec] at hexec
  split at hexec
  case h_1 body' hbody =>
    simp only [Option.some.injEq, Prod.mk.injEq, Except.ok.injEq] at hexec
    obtain ⟨rfl, rfl⟩ := hexec
    exact ⟨rfl, hbody⟩
  case h_2 => simp at hexec

/-- What a save that succeeded inserted. -/
theorem saved_of_saveChunks {documentId tenantId assistantId : Uuid} {chunks : List ChunkDraft}
    {saved : SavedChunks}
    (h : w.handle P (.saveChunks documentId tenantId assistantId chunks) d = some (.ok saved, w')) :
    d.ids.length = chunks.length ∧ d.ids.Nodup ∧ (∀ i ∈ d.ids, i ∉ w.issued) ∧
      w'.chunks = Table.createMany Chunk.conflicts w.chunks
        (List.zipWith (chunkRow P documentId tenantId assistantId) d.ids chunks) := by
  have hexec := exec_of_handle_ok h
  simp only [exec] at hexec
  split at hexec
  case isFalse => simp at hexec
  case isTrue hids =>
    split at hexec
    case isFalse => simp at hexec
    case isTrue =>
      obtain ⟨-, rfl⟩ := Prod.mk.inj (Option.some.inj hexec)
      exact ⟨hids.1, hids.2.1, hids.2.2, insertChunks_eq _ _⟩

/-- What a write of vectors that succeeded leaves of the chunks. -/
theorem chunks_of_setChunkEmbeddings {tenantId documentId : Uuid}
    {updates : List (Uuid × Embedding)}
    (h : w.handle P (.setChunkEmbeddings tenantId documentId updates) d = some (.ok (), w')) :
    w'.chunks = w.chunks.map (Chunk.embedIn tenantId updates) := by
  have hexec := exec_of_handle_ok h
  simp only [exec] at hexec
  split at hexec
  · exact (congrArg (fun v : World => v.chunks) (Prod.mk.inj (Option.some.inj hexec)).2).symm
  · simp at hexec

/-- What `findAssistant` finds. -/
theorem found_of_findAssistant {tenantId assistantId : Uuid} {a : Option Assistant}
    (h : w.handle P (.findAssistant tenantId assistantId) d = some (.ok a, w')) :
    w' = w ∧ a = w.findAssistant tenantId assistantId := by
  have hexec := exec_of_handle_ok h
  simp only [exec, Option.some.injEq, Prod.mk.injEq, Except.ok.injEq] at hexec
  exact ⟨hexec.2.symm, hexec.1.symm⟩

/-- The rows of a scan are embedded chunks of the assistant. -/
theorem scored_of_scanChunks {tenantId assistantId : Uuid} {query : Embedding} {k : ℕ}
    {checked : Option JsString} {hits : List ChunkHit}
    (h : w.handle P (.scanChunks tenantId assistantId query k checked) d = some (.ok hits, w')) :
    w' = w ∧ ∀ hit ∈ hits, ∃ row ∈ w.chunks, row.tenantId = tenantId ∧
      row.assistantId = assistantId ∧ row.embedding = some hit.scored := by
  have hexec := exec_of_handle_ok h
  simp only [exec, Option.some.injEq, Prod.mk.injEq, Except.ok.injEq] at hexec
  obtain ⟨rfl, rfl⟩ := hexec
  refine ⟨rfl, fun hit hhit => ?_⟩
  obtain ⟨r, hr, rfl⟩ := List.mem_map.mp hhit
  have hmem := List.mem_mergeSort.mp (List.mem_of_mem_take hr)
  obtain ⟨row, hrow, hsome⟩ := List.mem_filterMap.mp hmem
  split at hsome
  case isFalse => simp at hsome
  case isTrue htenant =>
    obtain ⟨ht, ha⟩ := Bool.and_eq_true_iff.mp htenant
    split at hsome
    case h_2 => simp at hsome
    case h_1 e doc he hdoc =>
      obtain rfl := Option.some.inj hsome
      exact ⟨row, hrow, beq_iff_eq.mp ht, beq_iff_eq.mp ha, he⟩

/-- A call that resolved met no fault. -/
theorem fault_of_handle_ok {v : c.Res} (h : w.handle P c d = some (.ok v, w')) :
    d.fault = none := by
  unfold handle Fault.through at h
  split at h
  case h_1 hf => exact hf
  case h_2 => simp at h
  case h_3 => simp at h

/-- A call rejected by the store changes nothing. -/
theorem eq_of_exec_error {e : JsError} (h : w.exec P c d = some (.error e, w')) : w' = w := by
  have hsame : ∀ {r : Except JsError c.Res}, some (r, w) = some (Except.error e, w') → w' = w :=
    fun h => (Prod.mk.inj (Option.some.inj h)).2.symm
  cases c with
  | setStatus | setParseResult | setChunkEmbeddings | storageGet =>
    simp only [exec] at h
    split at h
    · simp at h
    · exact hsame h
  | saveChunks | createDocument =>
    simp only [exec] at h
    split at h
    all_goals try split at h
    all_goals first | exact hsame h | simp at h
  | ensureEmbeddingModel =>
    simp only [exec] at h
    split at h
    all_goals try split at h
    all_goals first | exact hsame h | simp at h
  | storagePut | enqueue | deleteDocument =>
    simp only [exec] at h
    split at h <;> simp at h
  | _ => simp [exec] at h

/-- An update reaches the rows it names. -/
theorem updateFor_eq_none_iff {updates : List (Uuid × Embedding)} {row : Chunk} :
    updateFor updates row = none ↔ row.id ∉ updates.map (·.1) := by
  rw [updateFor, Option.map_eq_none_iff, List.find?_eq_none, List.mem_map]
  constructor
  · rintro h ⟨u, hu, hid⟩
    exact h u hu (beq_iff_eq.mpr hid)
  · intro h u hu hid
    exact h ⟨u, hu, beq_iff_eq.mp hid⟩

/-- The update that reaches a row names it. -/
theorem mem_of_updateFor {updates : List (Uuid × Embedding)} {row : Chunk} {e : Embedding}
    (h : updateFor updates row = some e) : (row.id, e) ∈ updates := by
  obtain ⟨u, hu, rfl⟩ := Option.map_eq_some_iff.mp h
  have hid : u.1 = row.id := by simpa using List.find?_some hu
  exact hid ▸ List.mem_of_find?_eq_some hu

end World

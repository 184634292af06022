import SupportAgent.Store.Effects
import Mathlib.Data.List.Nodup

/-!
# Store/Constraints — the database keeps its keys

`World.WellFormed` collects the primary keys, the unique key of chunks and the composite foreign
keys of the schema, and `WellFormed.step` says that no call breaks them.
-/

/-- Chunks conflict by key columns alone. -/
theorem Chunk.conflicts_bare {c c' b b' : Chunk} (h : b.bare = c.bare) (h' : b'.bare = c'.bare) :
    b.conflicts b' = c.conflicts c' := by
  change b.bare.conflicts b'.bare = c.bare.conflicts c'.bare
  rw [h, h']

/-- Chunks reference documents by key columns alone. -/
theorem Chunk.references_bare {c b : Chunk} {doc doc' : Document} (h : b.bare = c.bare)
    (hdoc : doc'.file = doc.file) : b.references doc' = c.references doc := by
  change (b.bare.documentId == doc'.file.id && b.bare.tenantId == doc'.file.tenantId &&
    b.bare.assistantId == doc'.file.assistantId) = _
  rw [h, hdoc]
  rfl

namespace World

/-- **The keys of the schema.** -/
structure WellFormed (P : Platform) (w : World) : Prop where
  assistantIds : (w.assistants.map (·.id)).Nodup
  documentIds : (w.documents.map (·.id)).Nodup
  documentIssued : ∀ doc ∈ w.documents, doc.id ∈ w.issued
  documentParent : ∀ doc ∈ w.documents, ∃ a ∈ w.assistants, a.id = doc.assistantId ∧
    a.tenantId = doc.tenantId
  chunkUnique : w.chunks.Pairwise fun c c' => c.conflicts c' = false
  chunkIssued : ∀ c ∈ w.chunks, c.id ∈ w.issued
  chunkParent : ∀ c ∈ w.chunks, ∃ doc ∈ w.documents, c.references doc = true
  chunkHash : ∀ c ∈ w.chunks, c.contentHash = P.hashChunkContent c.content

variable {P : Platform} {w w' : World} {c : Call} {d : Decision}

/-- Before anything is ingested. -/
theorem WellFormed.of_empty (hassistants : (w.assistants.map (·.id)).Nodup)
    (hdocs : w.documents = []) (hchunks : w.chunks = []) : w.WellFormed P where
  assistantIds := hassistants
  documentIds := by simp [hdocs]
  documentIssued := by simp [hdocs]
  documentParent := by simp [hdocs]
  chunkUnique := by simp [hchunks]
  chunkIssued := by simp [hchunks]
  chunkParent := by simp [hchunks]
  chunkHash := by simp [hchunks]

/-- Rows with one id are one row. -/
theorem WellFormed.document_eq (h : w.WellFormed P) {doc doc' : Document} (hdoc : doc ∈ w.documents)
    (hdoc' : doc' ∈ w.documents) (hid : doc.id = doc'.id) : doc = doc' :=
  List.inj_on_of_nodup_map h.documentIds hdoc hdoc' hid

theorem WellFormed.assistant_eq (h : w.WellFormed P) {a a' : Assistant} (ha : a ∈ w.assistants)
    (ha' : a' ∈ w.assistants) (hid : a.id = a'.id) : a = a' :=
  List.inj_on_of_nodup_map h.assistantIds ha ha' hid

/-- Rows that conflict are one row. -/
theorem WellFormed.chunk_eq (h : w.WellFormed P) {row row' : Chunk} (hrow : row ∈ w.chunks)
    (hrow' : row' ∈ w.chunks) (hconf : row.conflicts row' = true) : row = row' := by
  by_contra hne
  have hsymm : Std.Symm fun c c' : Chunk => c.conflicts c' = false := ⟨fun c c' hcc => by
    rw [← Bool.not_eq_true] at hcc ⊢
    exact fun hc => hcc (c'.conflicts_symm c hc)⟩
  exact Bool.false_ne_true ((h.chunkUnique.forall hrow hrow' hne).symm.trans hconf)

/-- A chunk belongs to its document's tenant and assistant. -/
theorem WellFormed.references_of_documentId (h : w.WellFormed P) {row : Chunk} {doc : Document}
    (hrow : row ∈ w.chunks) (hdoc : doc ∈ w.documents) (hid : row.documentId = doc.id) :
    row.references doc = true := by
  obtain ⟨doc', hdoc', href⟩ := h.chunkParent row hrow
  rwa [h.document_eq hdoc hdoc' (hid.symm.trans (Chunk.references_iff.mp href).1)]

/-- **A document found by id and tenant is the row with them.** -/
theorem WellFormed.findDocument_eq_some (h : w.WellFormed P) {tenantId id : Uuid} {doc : Document} :
    w.findDocument tenantId id = some doc ↔ doc ∈ w.documents ∧ doc.id = id ∧
      doc.tenantId = tenantId := by
  refine ⟨fun hf => ⟨List.mem_of_find?_eq_some hf, ?_⟩, fun ⟨hmem, hid, ht⟩ => ?_⟩
  · exact Document.visible_iff.mp (List.find?_some hf :)
  · obtain ⟨doc', hdoc'⟩ : ∃ doc', w.findDocument tenantId id = some doc' :=
      Option.isSome_iff_exists.mp
        (List.find?_isSome.mpr ⟨doc, hmem, Document.visible_iff.mpr ⟨hid, ht⟩⟩)
    have hvis := Document.visible_iff.mp (List.find?_some hdoc' :)
    rw [hdoc', h.document_eq (List.mem_of_find?_eq_some hdoc') hmem (hvis.1.trans hid.symm)]

theorem WellFormed.findAssistant_eq_some (h : w.WellFormed P) {tenantId id : Uuid} {a : Assistant} :
    w.findAssistant tenantId id = some a ↔ a ∈ w.assistants ∧ a.id = id ∧
      a.tenantId = tenantId := by
  refine ⟨fun hf => ⟨List.mem_of_find?_eq_some hf, ?_⟩, fun ⟨hmem, hid, ht⟩ => ?_⟩
  · exact Assistant.visible_iff.mp (List.find?_some hf :)
  · obtain ⟨a', ha'⟩ : ∃ a', w.findAssistant tenantId id = some a' :=
      Option.isSome_iff_exists.mp
        (List.find?_isSome.mpr ⟨a, hmem, Assistant.visible_iff.mpr ⟨hid, ht⟩⟩)
    have hvis := Assistant.visible_iff.mp (List.find?_some ha' :)
    rw [ha', h.assistant_eq (List.mem_of_find?_eq_some ha') hmem (hvis.1.trans hid.symm)]

/-! ## No call breaks a key -/

theorem Effect.assistantIds (h : w.Effect P d c w') :
    w'.assistants.map (·.id) = w.assistants.map (·.id) := by
  rcases h with _ | _ | _ | _ | _ | _ | _ | _ | _ | _
  case claimed t id model =>
    exact Table.map_updateMany (f := fun a : Assistant => { a with embeddingModel := some model })
      (fun _ => rfl) w.assistants
  all_goals rfl

theorem Effect.documentIds (h : w.Effect P d c w') (hw : w.WellFormed P) :
    (w'.documents.map (·.id)).Nodup := by
  rcases h with _ | ⟨_, p, f, hfile, hstatus⟩ | _ | _ | ⟨t, id, us⟩ | ⟨data, hfresh, hparent⟩ |
    ⟨t, id⟩ | _ | _ | _
  case documents =>
    have hids : (w.updateDocuments p f).documents.map (·.id) = w.documents.map (·.id) :=
      Table.map_updateMany (fun doc => (congrArg DocumentFile.id (hfile doc) :)) w.documents
    rw [hids]
    exact hw.documentIds
  case embedded =>
    have hids : ((w.embedChunks t us).updateDocuments (·.visible t id) fun doc =>
        { doc with updatedAt := d.now }).documents.map (·.id) = w.documents.map (·.id) :=
      Table.map_updateMany (f := fun doc : Document => { doc with updatedAt := d.now })
        (fun _ => rfl) w.documents
    rw [hids]
    exact hw.documentIds
  case created =>
    rw [List.map_append]
    refine List.nodup_append'.mpr
      ⟨hw.documentIds, by simp, List.disjoint_singleton.mpr fun hmem => ?_⟩
    obtain ⟨doc, hdoc, hid⟩ := List.mem_map.mp hmem
    have hdata : doc.id = data.id := hid
    exact hfresh (hdata ▸ hw.documentIssued doc hdoc)
  case deleted => exact hw.documentIds.sublist (List.filter_sublist.map _)
  all_goals exact hw.documentIds

theorem Effect.chunkUnique (h : w.Effect P d c w') (hw : w.WellFormed P) :
    w'.chunks.Pairwise fun c c' => c.conflicts c' = false := by
  rcases h with _ | _ | ⟨id, t, a, chunks, hlen, hnodup, hfresh, hparent⟩ | _ | ⟨t, id, us⟩ | _ |
    ⟨t, id⟩ | _ | _ | _
  case saved =>
    dsimp only
    rw [insertChunks_eq]
    exact Table.pairwise_createMany Chunk.conflicts_symm _ hw.chunkUnique
  case embedded =>
    refine List.pairwise_map.mpr (hw.chunkUnique.imp fun {row row'} hrow => ?_)
    rwa [Chunk.conflicts_bare (embedIn_cases t us row).1 (embedIn_cases t us row').1]
  case deleted => exact hw.chunkUnique.sublist List.filter_sublist
  all_goals exact hw.chunkUnique

theorem Effect.chunkParent (h : w.Effect P d c w') (hw : w.WellFormed P) :
    ∀ row ∈ w'.chunks, ∃ doc ∈ w'.documents, row.references doc = true := by
  intro row' hrow'
  obtain ⟨row, doc, hbare, hdoc, href⟩ : ∃ (row : Chunk) (doc : Document),
      row'.bare = row.bare ∧ doc ∈ w.documents ∧ row.references doc = true := by
    rcases h.chunk_origin hrow' with ⟨row, hrow, hbare, -⟩ |
      ⟨-, -, -, -, -, -, -, -, -, -, -, doc, hdoc, href⟩
    · obtain ⟨doc, hdoc, href⟩ := hw.chunkParent row hrow
      exact ⟨row, doc, hbare, hdoc, href⟩
    · exact ⟨row', doc, rfl, hdoc, href⟩
  rcases h.document_kept hdoc with ⟨t, id, rfl⟩ | ⟨doc', hdoc', hfile⟩
  case inr => exact ⟨doc', hdoc', by rwa [Chunk.references_bare hbare hfile]⟩
  case inl =>
    rcases h with _ | _ | _ | _ | _ | _ | _ | _ | _ | _
    case nothing => exact hw.chunkParent row' hrow'
    case documents p f hfile hstatus =>
      refine ⟨_, Table.mem_updateMany_of_mem hdoc, ?_⟩
      rw [Chunk.references_bare hbare (show _ = doc.file by split <;> simp [hfile])]
      exact href
    case deleted =>
      -- a chunk the deletion left references no document it took
      obtain ⟨hmem, hleft⟩ := List.mem_filter.mp hrow'
      refine ⟨doc, List.mem_filter.mpr ⟨hdoc, ?_⟩, ?_⟩
      · have hkept := List.any_eq_false.mp (Bool.not_eq_true' _ |>.mp hleft) doc hdoc
        have href' := (Chunk.references_bare hbare (rfl : doc.file = doc.file)).trans href
        simpa only [href', Bool.and_true, Bool.not_eq_true, Bool.not_eq_true'] using hkept
      · rwa [Chunk.references_bare hbare rfl]

/-- **No call breaks a key.** -/
theorem WellFormed.step (hw : w.WellFormed P) (h : w.Effect P d c w') : w'.WellFormed P where
  assistantIds := by rw [h.assistantIds]; exact hw.assistantIds
  documentIds := h.documentIds hw
  documentIssued := by
    intro doc' hdoc'
    rcases h.document_origin hdoc' with ⟨doc, hdoc, hfile, -⟩ | ⟨data, -, -, hissued, rfl, -⟩
    · rw [show doc'.id = doc.id from (congrArg DocumentFile.id hfile :)]
      exact h.issued_subset (hw.documentIssued doc hdoc)
    · exact hissued
  documentParent := by
    intro doc' hdoc'
    rcases h.document_origin hdoc' with ⟨doc, hdoc, hfile, -⟩ | ⟨data, -, -, -, rfl, a, ha, hvis⟩
    · obtain ⟨a, ha, haid, hat⟩ := hw.documentParent doc hdoc
      obtain ⟨a', ha', hsame, -⟩ := h.assistant_kept ha
      refine ⟨a', ha', ?_, ?_⟩
      · rw [show a'.id = a.id from (congrArg Assistant.id hsame :), haid]
        exact (congrArg DocumentFile.assistantId hfile :).symm
      · rw [show a'.tenantId = a.tenantId from (congrArg Assistant.tenantId hsame :), hat]
        exact (congrArg DocumentFile.tenantId hfile :).symm
    · obtain ⟨a', ha', hsame, -⟩ := h.assistant_kept ha
      obtain ⟨haid, hat⟩ := Assistant.visible_iff.mp hvis
      exact ⟨a', ha', (congrArg Assistant.id hsame :).trans haid,
        (congrArg Assistant.tenantId hsame :).trans hat⟩
  chunkUnique := h.chunkUnique hw
  chunkIssued := by
    intro row' hrow'
    rcases h.chunk_origin hrow' with ⟨row, hrow, hbare, -⟩ |
      ⟨_, _, _, _, -, i, -, hissued, x, -, rfl, -⟩
    · rw [show row'.id = row.id from (congrArg Chunk.id hbare :)]
      exact h.issued_subset (hw.chunkIssued row hrow)
    · exact hissued
  chunkParent := h.chunkParent hw
  chunkHash := by
    intro row' hrow'
    rcases h.chunk_origin hrow' with ⟨row, hrow, hbare, -⟩ | ⟨_, _, _, _, -, i, -, -, x, -, rfl, -⟩
    · rw [show row'.contentHash = row.contentHash from (congrArg Chunk.contentHash hbare :),
        show row'.content = row.content from (congrArg Chunk.content hbare :)]
      exact hw.chunkHash row hrow
    · rfl

/-! ## What is there after a save -/

/-- **Every content offered is there after a save**, if contents do not collide. -/
theorem exists_of_saveChunks (hinj : Function.Injective P.hashChunkContent) (hw : w.WellFormed P)
    {documentId tenantId assistantId : Uuid} {chunks : List Ingestion.ChunkDraft}
    {saved : SavedChunks}
    (h : w.handle P (.saveChunks documentId tenantId assistantId chunks) d = some (.ok saved, w')) :
    ∀ x ∈ chunks, ∃ row ∈ w'.chunks, row.tenantId = tenantId ∧ row.assistantId = assistantId ∧
      row.content = x.content := by
  obtain ⟨hlen, hnodup, hfresh, hchunks⟩ := saved_of_saveChunks h
  set offer := chunkRow P documentId tenantId assistantId
  have hids : (List.zipWith offer d.ids chunks).map (·.id) = d.ids :=
    List.ext_getElem (by simp [hlen]) fun n h₁ h₂ => by simp [offer, chunkRow]
  intro x hx
  obtain ⟨n, hn, rfl⟩ := List.getElem_of_mem hx
  have hn' : n < d.ids.length := hlen ▸ hn
  have hrow : offer d.ids[n] chunks[n] ∈ List.zipWith offer d.ids chunks :=
    List.mem_iff_getElem.mpr ⟨n, by simp [hlen, hn], by simp⟩
  obtain ⟨row', hrow', hsame⟩ := Table.exists_mem_createMany (t := w.chunks) hrow
  rw [← hchunks] at hrow'
  rcases hsame with rfl | hconf
  · exact ⟨_, hrow', rfl, rfl, rfl⟩
  rcases Chunk.conflicts_iff.mp hconf with hid | ⟨ht, ha, hhash⟩
  · rw [hchunks] at hrow'
    rcases Table.mem_of_mem_createMany hrow' with hold | hnew
    · exact absurd (hid ▸ hw.chunkIssued row' hold) (hfresh _ (List.getElem_mem _))
    · have heq := List.inj_on_of_nodup_map (hids.symm ▸ hnodup) hrow hnew hid
      exact ⟨row', hchunks ▸ hrow', heq ▸ rfl, heq ▸ rfl, heq ▸ rfl⟩
  · refine ⟨row', hrow', ht.symm, ha.symm, hinj ?_⟩
    rw [← (hw.step (effect_of_handle h)).chunkHash row' hrow']
    exact hhash.symm

end World

import SupportAgent.Store.Constraints

/-!
# Store/Evolves — what a task may count on while others run

Between two calls of one task the tables may change under it, but not arbitrarily: `World.Evolves`
collects what every call keeps.  An id never comes back for another row, and an embedding model once
claimed stays.
-/

namespace World

/-- **A later state of the store**, as far as any task can count on it. -/
structure Evolves (w w' : World) : Prop where
  issued : w.issued ⊆ w'.issued
  documents : ∀ doc' ∈ w'.documents, doc'.id ∈ w.issued →
    ∃ doc ∈ w.documents, doc'.file = doc.file
  chunks : ∀ row' ∈ w'.chunks, row'.id ∈ w.issued → ∃ row ∈ w.chunks, row'.bare = row.bare
  assistants : ∀ a ∈ w.assistants, ∃ a' ∈ w'.assistants, a'.unclaimed = a.unclaimed ∧
    ∀ model, a.embeddingModel = some model → a'.embeddingModel = some model

theorem Evolves.refl (w : World) : w.Evolves w where
  issued := List.Subset.refl _
  documents doc hdoc _ := ⟨doc, hdoc, rfl⟩
  chunks row hrow _ := ⟨row, hrow, rfl⟩
  assistants a ha := ⟨a, ha, rfl, fun _ h => h⟩

theorem Evolves.trans {u v w : World} (h : u.Evolves v) (h' : v.Evolves w) : u.Evolves w where
  issued := List.Subset.trans h.issued h'.issued
  documents doc'' hdoc'' hid := by
    obtain ⟨doc', hdoc', hfile'⟩ := h'.documents doc'' hdoc'' (h.issued hid)
    rw [show doc''.id = doc'.id from (congrArg DocumentFile.id hfile' :)] at hid
    obtain ⟨doc, hdoc, hfile⟩ := h.documents doc' hdoc' hid
    exact ⟨doc, hdoc, hfile'.trans hfile⟩
  chunks row'' hrow'' hid := by
    obtain ⟨row', hrow', hbare'⟩ := h'.chunks row'' hrow'' (h.issued hid)
    rw [show row''.id = row'.id from (congrArg Chunk.id hbare' :)] at hid
    obtain ⟨row, hrow, hbare⟩ := h.chunks row' hrow' hid
    exact ⟨row, hrow, hbare'.trans hbare⟩
  assistants a ha := by
    obtain ⟨a', ha', hsame, hkept⟩ := h.assistants a ha
    obtain ⟨a'', ha'', hsame', hkept'⟩ := h'.assistants a' ha'
    exact ⟨a'', ha'', hsame'.trans hsame, fun model hm => hkept' model (hkept model hm)⟩

/-- **Every call leads to a later state.** -/
theorem Effect.evolves {P : Platform} {w w' : World} {c : Call} {d : Decision}
    (h : w.Effect P d c w') : w.Evolves w' where
  issued := h.issued_subset
  documents doc' hdoc' hid := by
    rcases h.document_origin hdoc' with ⟨doc, hdoc, hfile, -⟩ | ⟨data, -, hfresh, -, rfl, -⟩
    · exact ⟨doc, hdoc, hfile⟩
    · exact absurd hid hfresh
  chunks row' hrow' hid := by
    rcases h.chunk_origin hrow' with
      ⟨row, hrow, hbare, -⟩ | ⟨_, _, _, _, -, i, hfresh, -, x, -, rfl, -⟩
    · exact ⟨row, hrow, hbare⟩
    · exact absurd hid hfresh
  assistants _ ha := h.assistant_kept ha

/-! ## Facts that survive -/

end World

/-- A job speaks of the document it was made for, whether or not that is still there. -/
structure IngestJobData.Fits (job : IngestJobData) (w : World) : Prop where
  issued : job.documentId ∈ w.issued
  document : ∀ doc ∈ w.documents, doc.id = job.documentId →
    doc.tenantId = job.tenantId ∧ doc.assistantId = job.assistantId

theorem IngestJobData.Fits.evolves {job : IngestJobData} {w w' : World} (h : job.Fits w)
    (hw : w.Evolves w') : job.Fits w' where
  issued := hw.issued h.issued
  document doc' hdoc' hid := by
    obtain ⟨doc, hdoc, hfile⟩ := hw.documents doc' hdoc' (hid ▸ h.issued)
    obtain ⟨ht, ha⟩ := h.document doc hdoc ((congrArg DocumentFile.id hfile :).symm.trans hid)
    exact ⟨(congrArg DocumentFile.tenantId hfile :).trans ht,
      (congrArg DocumentFile.assistantId hfile :).trans ha⟩

namespace World

/-- The assistant is there and has claimed a model. -/
def Claimed (tenantId assistantId : Uuid) (model : JsString) (w : World) : Prop :=
  ∃ a ∈ w.assistants, a.id = assistantId ∧ a.tenantId = tenantId ∧ a.embeddingModel = some model

theorem Claimed.evolves {tenantId assistantId : Uuid} {model : JsString} {w w' : World}
    (h : Claimed tenantId assistantId model w) (hw : w.Evolves w') :
    Claimed tenantId assistantId model w' := by
  obtain ⟨a, ha, hid, ht, hm⟩ := h
  obtain ⟨a', ha', hsame, hkept⟩ := hw.assistants a ha
  exact ⟨a', ha', (congrArg Assistant.id hsame :).trans hid,
    (congrArg Assistant.tenantId hsame :).trans ht, hkept model hm⟩

/-- An assistant claims one model. -/
theorem Claimed.unique {P : Platform} {tenantId assistantId : Uuid} {model model' : JsString}
    {w : World} (hw : w.WellFormed P) (h : Claimed tenantId assistantId model w)
    (h' : Claimed tenantId assistantId model' w) : model = model' := by
  obtain ⟨a, ha, hid, -, hm⟩ := h
  obtain ⟨a', ha', hid', -, hm'⟩ := h'
  obtain rfl := hw.assistant_eq ha ha' (hid.trans hid'.symm)
  exact Option.some.inj (hm.symm.trans hm')

end World

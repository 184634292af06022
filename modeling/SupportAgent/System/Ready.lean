import SupportAgent.Store.Evolves
import SupportAgent.System.Retrievable

/-!
# System/Ready — what READY says about retrieval

An execution reports READY when its document's own chunks all have a vector.  The contents it did
not save itself, because another document of the assistant holds them already, are that document's
business: `ReadyCovered` asks that their vectors be there by then, and under it READY means
retrievable.  The argument follows one execution through its stages (`Holds`): the bytes it read are
the document's for good, their chunks are saved once `saveChunks` returns, and from then on the
document's own rows only gain vectors.
-/

open Async Ingestion World

/-! ## Saved and retrievable -/

/-- Every content of the document has a row of its assistant. -/
def Saved (P : Platform) (w : World) (doc : Document) : Prop :=
  ∃ drafts, w.chunksOf P doc = .ok drafts ∧ ∀ x ∈ drafts, ∃ row ∈ w.chunks,
    row.tenantId = doc.tenantId ∧ row.assistantId = doc.assistantId ∧ row.content = x.content

/-- **Every content of the document is retrievable.** -/
def Retrievable (P : Platform) (w : World) (doc : Document) : Prop :=
  ∃ drafts, w.chunksOf P doc = .ok drafts ∧
    ∀ x ∈ drafts, w.hasVector doc.tenantId doc.assistantId x.content = true

/-- The document's own rows without a vector are among `ids`. -/
def OwnRemaining (ids : List Uuid) (w : World) (doc : Document) : Prop :=
  ∀ row ∈ w.chunks, row.documentId = doc.id → row.embedding = none → row.id ∈ ids

/-- The contents the document shares with others have their vectors. -/
def SharedEmbedded (P : Platform) (w : World) (doc : Document) : Prop :=
  ∀ drafts, w.chunksOf P doc = .ok drafts → ∀ x ∈ drafts, ∀ row ∈ w.chunks,
    row.tenantId = doc.tenantId → row.assistantId = doc.assistantId → row.content = x.content →
    row.documentId ≠ doc.id → row.embedding ≠ none

/-- **No deletion, and no READY before the shared contents have their vectors.** -/
def ReadyCovered (P : Platform) (w : World) (c : Call) (d : Decision) : Prop :=
  (∀ tenantId documentId, c ≠ .deleteDocument tenantId documentId) ∧
    (d.Performed → ∀ documentId tenantId, c = .setStatus documentId tenantId .READY →
      ∀ doc ∈ w.documents, doc.id = documentId → doc.tenantId = tenantId → SharedEmbedded P w doc)

/-- A saved document whose own rows and shared contents all have vectors is retrievable. -/
theorem Saved.retrievable {P : Platform} {w : World} {doc : Document} (h : Saved P w doc)
    (hown : OwnRemaining [] w doc) (hshared : SharedEmbedded P w doc) : Retrievable P w doc := by
  obtain ⟨drafts, hdrafts, hsaved⟩ := h
  refine ⟨drafts, hdrafts, fun x hx => ?_⟩
  obtain ⟨row, hrow, ht, ha, hcontent⟩ := hsaved x hx
  have hvec : row.embedding ≠ none := by
    by_cases hid : row.documentId = doc.id
    · exact fun hnone => List.not_mem_nil (hown row hrow hid hnone)
    · exact hshared drafts hdrafts x hx row hrow ht ha hcontent hid
  exact hasVector_iff.mpr ⟨row, hrow, ht, ha, hcontent, Option.isSome_iff_ne_none.mpr hvec⟩

/-! ## What accrues while nothing is deleted -/

/-- **A later state without deletions**: documents, their bytes and their chunks stay, vectors stay,
and a saved document gets no further rows. -/
structure Accrues (P : Platform) (w w' : World) : Prop extends w.Evolves w' where
  document_kept : ∀ doc ∈ w.documents, ∃ doc' ∈ w'.documents, doc'.file = doc.file
  chunk_kept : ∀ row ∈ w.chunks, ∃ row' ∈ w'.chunks, row'.bare = row.bare ∧
    (row.embedded → row'.embedded)
  object_kept : ∀ doc ∈ w.documents, w'.objects doc.storageKey = w.objects doc.storageKey
  settled : ∀ doc ∈ w.documents, Saved P w doc → ∀ row' ∈ w'.chunks, row'.documentId = doc.id →
    ∃ row ∈ w.chunks, row'.bare = row.bare ∧ (row.embedded → row'.embedded)

section

variable {P : Platform} {w w' : World} {doc doc' : Document}

/-- The chunks of a document are its file's and its object's. -/
theorem chunksOf_kept (hfile : doc'.file = doc.file)
    (hobj : w'.objects doc.storageKey = w.objects doc.storageKey) :
    w'.chunksOf P doc' = w.chunksOf P doc := by
  have hkey : doc'.storageKey = doc.storageKey := (congrArg DocumentFile.storageKey hfile :)
  have htype : doc'.sourceType = doc.sourceType := (congrArg DocumentFile.sourceType hfile :)
  rw [chunksOf, chunksOf, hkey, htype, hobj]

theorem Accrues.chunksOf (h : Accrues P w w') (hdoc : doc ∈ w.documents)
    (hfile : doc'.file = doc.file) : w'.chunksOf P doc' = w.chunksOf P doc :=
  chunksOf_kept hfile (h.object_kept doc hdoc)

/-- A row with a content of the document keeps its place and its vector. -/
theorem Accrues.row_kept (h : Accrues P w w') (hfile : doc'.file = doc.file) {row : Chunk}
    {content : JsString} (hrow : row ∈ w.chunks) (ht : row.tenantId = doc.tenantId)
    (ha : row.assistantId = doc.assistantId) (hcontent : row.content = content) :
    ∃ row' ∈ w'.chunks, row'.tenantId = doc'.tenantId ∧ row'.assistantId = doc'.assistantId ∧
      row'.content = content ∧ (row.embedded → row'.embedded) := by
  obtain ⟨row', hrow', hbare, hkept⟩ := h.chunk_kept row hrow
  refine ⟨row', hrow', ?_, ?_, (congrArg Chunk.content hbare :).trans hcontent, hkept⟩
  · exact ((congrArg Chunk.tenantId hbare :).trans ht).trans
      (congrArg DocumentFile.tenantId hfile :).symm
  · exact ((congrArg Chunk.assistantId hbare :).trans ha).trans
      (congrArg DocumentFile.assistantId hfile :).symm

theorem Saved.accrues (hs : Saved P w doc) (h : Accrues P w w') (hdoc : doc ∈ w.documents)
    (hfile : doc'.file = doc.file) : Saved P w' doc' := by
  obtain ⟨drafts, hdrafts, hsaved⟩ := hs
  refine ⟨drafts, (h.chunksOf hdoc hfile).trans hdrafts, fun x hx => ?_⟩
  obtain ⟨row, hrow, ht, ha, hcontent⟩ := hsaved x hx
  obtain ⟨row', hrow', ht', ha', hcontent', -⟩ := h.row_kept hfile hrow ht ha hcontent
  exact ⟨row', hrow', ht', ha', hcontent'⟩

theorem Retrievable.accrues (hs : Retrievable P w doc) (h : Accrues P w w')
    (hdoc : doc ∈ w.documents) (hfile : doc'.file = doc.file) : Retrievable P w' doc' := by
  obtain ⟨drafts, hdrafts, hvector⟩ := hs
  refine ⟨drafts, (h.chunksOf hdoc hfile).trans hdrafts, fun x hx => ?_⟩
  obtain ⟨row, hrow, ht, ha, hcontent, hvec⟩ := hasVector_iff.mp (hvector x hx)
  obtain ⟨row', hrow', ht', ha', hcontent', hkept⟩ := h.row_kept hfile hrow ht ha hcontent
  exact hasVector_iff.mpr ⟨row', hrow', ht', ha', hcontent', hkept hvec⟩

/-- What remains to be embedded of a saved document never grows. -/
theorem OwnRemaining.accrues {ids : List Uuid} (hr : OwnRemaining ids w doc) (hs : Saved P w doc)
    (h : Accrues P w w') (hdoc : doc ∈ w.documents) (hfile : doc'.file = doc.file) :
    OwnRemaining ids w' doc' := by
  intro row' hrow' hid hnone
  have hid' : row'.documentId = doc.id := hid.trans (congrArg DocumentFile.id hfile :)
  obtain ⟨row, hrow, hbare, hkept⟩ := h.settled doc hdoc hs row' hrow' hid'
  rw [show row'.id = row.id from (congrArg Chunk.id hbare :)]
  refine hr row hrow ((congrArg Chunk.documentId hbare :).symm.trans hid') ?_
  by_contra hne
  simpa [Chunk.embedded, hnone] using hkept (Option.isSome_iff_ne_none.mpr hne)

end

theorem Accrues.refl (P : Platform) (w : World) : Accrues P w w where
  toEvolves := Evolves.refl w
  document_kept doc hdoc := ⟨doc, hdoc, rfl⟩
  chunk_kept row hrow := ⟨row, hrow, rfl, fun h => h⟩
  object_kept _ _ := rfl
  settled _ _ _ row' hrow' _ := ⟨row', hrow', rfl, fun h => h⟩

theorem Accrues.trans {P : Platform} {u v w : World} (h : Accrues P u v) (h' : Accrues P v w) :
    Accrues P u w where
  toEvolves := h.toEvolves.trans h'.toEvolves
  document_kept doc hdoc := by
    obtain ⟨doc', hdoc', hfile⟩ := h.document_kept doc hdoc
    obtain ⟨doc'', hdoc'', hfile'⟩ := h'.document_kept doc' hdoc'
    exact ⟨doc'', hdoc'', hfile'.trans hfile⟩
  chunk_kept row hrow := by
    obtain ⟨row', hrow', hbare, hkept⟩ := h.chunk_kept row hrow
    obtain ⟨row'', hrow'', hbare', hkept'⟩ := h'.chunk_kept row' hrow'
    exact ⟨row'', hrow'', hbare'.trans hbare, fun he => hkept' (hkept he)⟩
  object_kept doc hdoc := by
    obtain ⟨doc', hdoc', hfile⟩ := h.document_kept doc hdoc
    have hkey : doc'.storageKey = doc.storageKey := (congrArg DocumentFile.storageKey hfile :)
    exact hkey ▸ (h'.object_kept doc' hdoc').trans (hkey ▸ h.object_kept doc hdoc)
  settled doc hdoc hs row'' hrow'' hid := by
    obtain ⟨doc', hdoc', hfile⟩ := h.document_kept doc hdoc
    have hid' : doc'.id = doc.id := (congrArg DocumentFile.id hfile :)
    obtain ⟨row', hrow', hbare', hkept'⟩ :=
      h'.settled doc' hdoc' (hs.accrues h hdoc hfile) row'' hrow'' (hid.trans hid'.symm)
    obtain ⟨row, hrow, hbare, hkept⟩ := h.settled doc hdoc hs row' hrow'
      ((congrArg Chunk.documentId hbare' :).symm.trans hid)
    exact ⟨row, hrow, hbare'.trans hbare, fun he => hkept' (hkept he)⟩

/-! ## The agreement -/

/-- The document of a job, with something known about it. -/
def Holds (job : IngestJobData) (Φ : World → Document → Prop) (w : World) : Prop :=
  ∃ doc ∈ w.documents, doc.id = job.documentId ∧ doc.tenantId = job.tenantId ∧
    doc.assistantId = job.assistantId ∧ Φ w doc

/-- A fact about a document that stays while nothing is deleted. -/
def Lasting (P : Platform) (Φ : World → Document → Prop) : Prop :=
  ∀ w w' doc doc', Φ w doc → Accrues P w w' → doc ∈ w.documents → doc'.file = doc.file → Φ w' doc'

/-- The document is there. -/
abbrev Documented (job : IngestJobData) : World → Prop := Holds job fun _ _ => True

section

variable {P : Platform} {job : IngestJobData} {Φ Ψ : World → Document → Prop} {w w' : World}

theorem Holds.accrues (hΦ : Lasting P Φ) (h : Holds job Φ w) (hw : Accrues P w w') :
    Holds job Φ w' := by
  obtain ⟨doc, hdoc, hid, ht, ha, hfact⟩ := h
  obtain ⟨doc', hdoc', hfile⟩ := hw.document_kept doc hdoc
  exact ⟨doc', hdoc', (congrArg DocumentFile.id hfile :).trans hid,
    (congrArg DocumentFile.tenantId hfile :).trans ht,
    (congrArg DocumentFile.assistantId hfile :).trans ha, hΦ w w' doc doc' hfact hw hdoc hfile⟩

theorem Holds.imp (h : Holds job Φ w) (hΦ : ∀ doc ∈ w.documents, Φ w doc → Ψ w doc) :
    Holds job Ψ w := by
  obtain ⟨doc, hdoc, hid, ht, ha, hfact⟩ := h
  exact ⟨doc, hdoc, hid, ht, ha, hΦ doc hdoc hfact⟩

/-- The document of a job is the row a store call on the job finds. -/
theorem Holds.of_mem (hw : w.WellFormed P) (h : Holds job Φ w) {doc : Document}
    (hdoc : doc ∈ w.documents) (hid : doc.id = job.documentId) :
    doc.tenantId = job.tenantId ∧ doc.assistantId = job.assistantId ∧ Φ w doc := by
  obtain ⟨doc', hdoc', hid', ht, ha, hfact⟩ := h
  obtain rfl := hw.document_eq hdoc hdoc' (hid.trans hid'.symm)
  exact ⟨ht, ha, hfact⟩

end

/-- **READY documents are retrievable**, with what the tasks need to keep it so. -/
structure ReadyInv (P : Platform) (w : World) : Prop where
  wellFormed : w.WellFormed P
  jobs : ∀ job ∈ w.jobs, Documented job w
  storage : ∀ doc ∈ w.documents, doc.storageKey.documentId ∈ w.issued
  saved : ∀ doc ∈ w.documents, doc.status = .EMBEDDING ∨ doc.status = .READY → Saved P w doc
  ready : ∀ doc ∈ w.documents, doc.status = .READY → Retrievable P w doc

/-- What a call must bring along to keep the invariant. -/
def ReadySafe (P : Platform) (w : World) : Call → Prop
  | .createDocument data => data.storageKey.documentId = data.id ∧ data.status = .UPLOADED
  | .enqueue job => Documented job w
  | .saveChunks documentId _ _ chunks =>
    ∀ doc ∈ w.documents, doc.id = documentId → w.chunksOf P doc = .ok chunks
  | .setStatus documentId _ status => ∀ doc ∈ w.documents, doc.id = documentId →
    (status = .EMBEDDING ∨ status = .READY → Saved P w doc) ∧
      (status = .READY → OwnRemaining [] w doc)
  | .deleteDocument .. | .storageDelete .. => False
  | _ => True

section

variable {P : Platform} {w w' : World} {c : Call} {d : Decision}

/-- **What a call adds to.** -/
theorem Effect.accrues (hi : ReadyInv P w) (h : w.Effect P d c w') (hsafe : ReadySafe P w c) :
    Accrues P w w' where
  toEvolves := h.evolves
  document_kept doc hdoc := by
    rcases h.document_kept hdoc with ⟨t, id, rfl⟩ | hkept
    · exact hsafe.elim
    · exact hkept
  chunk_kept row hrow := by
    rcases h.chunk_kept hrow with ⟨t, id, rfl⟩ | hkept
    · exact hsafe.elim
    · exact hkept
  object_kept doc hdoc := by
    rcases h.object_kept (hi.storage doc hdoc) with rfl | hkept
    · exact hsafe.elim
    · exact hkept
  settled doc hdoc hs row' hrow' hid := by
    rcases h.chunk_origin hrow' with ⟨row, hrow, hbare, hemb⟩ |
      ⟨documentId, tenantId, assistantId, chunks, rfl, i, -, -, x, hx, rfl, doc₀, hdoc₀, href⟩
    · refine ⟨row, hrow, hbare, fun he => ?_⟩
      rcases hemb with hsame | ⟨_, _, e, -, -, he'⟩
      · rwa [Chunk.embedded, hsame]
      · simp [Chunk.embedded, he']
    · -- a row saved anew would conflict with the row its content already has
      obtain ⟨hid₀, ht₀, ha₀⟩ := Chunk.references_iff.mp href
      obtain rfl := hi.wellFormed.document_eq hdoc hdoc₀ (hid.symm.trans hid₀)
      obtain ⟨drafts, hdrafts, hrows⟩ := hs
      obtain rfl : drafts = chunks :=
        Except.ok.inj (hdrafts.symm.trans (hsafe doc hdoc hid₀.symm))
      obtain ⟨row, hrow, ht, ha, hcontent⟩ := hrows x hx
      rcases h.chunk_kept hrow with ⟨_, _, hdel⟩ | ⟨row'', hrow'', hbare, hkept⟩
      · cases hdel
      · obtain rfl := (hi.wellFormed.step h).chunk_eq_of_content hrow'' hrow'
          (((congrArg Chunk.tenantId hbare :).trans ht).trans ht₀.symm)
          (((congrArg Chunk.assistantId hbare :).trans ha).trans ha₀.symm)
          ((congrArg Chunk.content hbare :).trans hcontent)
        exact ⟨row, hrow, hbare, hkept⟩

theorem lasting_true : Lasting P fun _ _ => True := fun _ _ _ _ _ _ _ _ => trivial

theorem lasting_saved : Lasting P (Saved P) := fun _ _ _ _ hs hw hdoc hfile =>
  hs.accrues hw hdoc hfile

/-- **What a call keeps.** -/
theorem ReadyInv.step (hi : ReadyInv P w) (h : w.Effect P d c w') (hsafe : ReadySafe P w c)
    (hcovered : ∀ documentId tenantId, c = .setStatus documentId tenantId .READY →
      ∀ doc ∈ w.documents, doc.id = documentId → doc.tenantId = tenantId → SharedEmbedded P w doc) :
    ReadyInv P w' := by
  have hw := Effect.accrues hi h hsafe
  refine ⟨hi.wellFormed.step h, fun job hjob => ?_, fun doc' hdoc' => ?_, fun doc' hdoc' hst => ?_,
    fun doc' hdoc' hst => ?_⟩
  case refine_1 =>
    rcases h.job_origin hjob with hjob | rfl
    · exact (hi.jobs job hjob).accrues lasting_true hw
    · exact Holds.accrues lasting_true hsafe hw
  all_goals
    rcases h.document_origin hdoc' with ⟨doc, hdoc, hfile, hleave⟩ |
      ⟨data, rfl, -, hissued, rfl, -⟩
  case refine_2.inl =>
    rw [show doc'.storageKey = doc.storageKey from (congrArg DocumentFile.storageKey hfile :)]
    exact h.issued_subset (hi.storage doc hdoc)
  case refine_2.inr =>
    rw [show (data.row d.now).storageKey.documentId = data.id from hsafe.1]
    exact hissued
  case refine_3.inl =>
    refine Saved.accrues ?_ hw hdoc hfile
    rcases hleave with hsame | rfl | ⟨-, hfailed⟩
    · exact hi.saved doc hdoc (hsame ▸ hst)
    · exact (hsafe doc hdoc rfl).1 hst
    · rw [hfailed] at hst
      rcases hst with hst | hst <;> cases hst
  case refine_3.inr =>
    rw [show (data.row d.now).status = .UPLOADED from hsafe.2] at hst
    rcases hst with hst | hst <;> cases hst
  case refine_4.inl =>
    refine Retrievable.accrues ?_ hw hdoc hfile
    rcases hleave with hsame | hset | ⟨-, hfailed⟩
    · exact hi.ready doc hdoc (hsame ▸ hst)
    · rw [hst] at hset
      subst hset
      obtain ⟨hsaved, hown⟩ := hsafe doc hdoc rfl
      exact (hsaved (.inr rfl)).retrievable (hown rfl) (hcovered _ _ rfl doc hdoc rfl rfl)
    · rw [hfailed] at hst
      cases hst
  case refine_4.inr =>
    rw [show (data.row d.now).status = .UPLOADED from hsafe.2] at hst
    cases hst

end

/-- **The agreement of the tasks** while nothing is deleted. -/
def readyContract (P : Platform) : Contract backend JsError Decision World where
  handler := World.handle P
  meets := ReadyCovered P
  inv := ReadyInv P
  rely := Accrues P
  guar := Accrues P
  rely_refl := Accrues.refl P
  rely_trans := Accrues.trans

section

variable {P : Platform}

/-- **A safe call honours the agreement.** -/
theorem ready_call {c : Call} {s s' : World} {d : Decision} {r : Except JsError c.Res}
    (hi : ReadyInv P s) (hm : ReadyCovered P s c d) (h : s.handle P c d = some (r, s'))
    (hsafe : ReadySafe P s c) : ReadyInv P s' ∧ Accrues P s s' := by
  by_cases hd : d.Performed
  · exact ⟨hi.step (effect_of_handle h) hsafe (hm.2 hd),
      Effect.accrues hi (effect_of_handle h) hsafe⟩
  · obtain rfl := eq_of_not_performed hd h
    exact ⟨hi, Accrues.refl P _⟩

/-- A call that needs nothing to be safe, or that the runs in question never make. -/
def ReadyHarmless (P : Platform) (c : Call) : Prop :=
  ∀ w d, ReadyCovered P w c d → ReadySafe P w c

theorem ready_of_harmless {α : Type} {J : World → Prop}
    (hJ : ∀ w w', J w → Accrues P w w' → J w') {p : Service α} (hp : p.Only (ReadyHarmless P))
    {w : World} (hw : J w) : (readyContract P).Safe (fun _ t => J t) p w :=
  Contract.Safe.of_only (fun _ hc _ _ _ _ hi hj hm h => by
    obtain ⟨hi', hs'⟩ := ready_call hi hm h (hc _ _ hm)
    exact ⟨hi', hs', hJ _ _ hj hs'⟩) hJ hp hw

/-- What is known of a job's document when a body has returned. -/
def OnReturn (F : World → Prop) {α : Type} (o : Except JsError α) (t : World) : Prop :=
  ∀ a, o = .ok a → F t

theorem onReturn_error {F : World → Prop} {α : Type} (e : JsError) (t : World) :
    OnReturn F (.error e : Except JsError α) t := fun _ h => nomatch h

/-- What a body without a value returns with; its errors are nobody's business. -/
theorem OnReturn.ends {F : World → Prop} (o : Except JsError Unit) (t : World)
    (h : OnReturn F o t) : (o = .ok () → F t) ∧ ∀ e, o = .error e → True :=
  ⟨h (), fun _ _ => trivial⟩

end

/-! ## The parse stage -/

/-- **One call**, made from wherever the other tasks left the state. -/
theorem ready_await {P : Platform} {c : Call} {Q : Except JsError c.Res → World → Prop} {w : World}
    (hsafe : ∀ s, Accrues P w s → ReadyInv P s → ReadySafe P s c)
    (hQ : ∀ s d r s', Accrues P w s → ReadyInv P s → s.handle P c d = some (r, s') →
      Accrues P s s' → Q r s') :
    (readyContract P).Safe Q (Proc.call (S := backend) c : Service c.Res) w := by
  refine Contract.Safe.call fun s hs hi d r s' hm hh => ?_
  obtain ⟨hi', hs'⟩ := ready_call hi hm hh (hsafe s hs hi)
  exact ⟨hi', hs', hQ s d r s' hs hi hh hs'⟩

section

variable {P : Platform} {job : IngestJobData} {w : World}

/-- Where a document's bytes are stays known. -/
theorem lasting_ref (key : ObjectKey) (sourceType : SourceType) :
    Lasting P fun _ doc => doc.storageKey = key ∧ doc.sourceType = sourceType := by
  rintro w w' doc doc' ⟨hkey, htype⟩ - - hfile
  exact ⟨(congrArg DocumentFile.storageKey hfile :).trans hkey,
    (congrArg DocumentFile.sourceType hfile :).trans htype⟩

/-- What a document's bytes hold stays known. -/
theorem lasting_chunksOf (r : Except JsError (List ChunkDraft)) :
    Lasting P fun w doc => w.chunksOf P doc = r :=
  fun _ _ _ _ hr hw hdoc hfile => (hw.chunksOf hdoc hfile).trans hr

/-- Once its chunks are saved, the document is. -/
theorem Holds.saved_of_saveChunks (hinj : Function.Injective P.hashChunkContent) {w' : World}
    (hw : w.WellFormed P) {chunks : List ChunkDraft} {d : Decision} {saved : SavedChunks}
    (hh : w.handle P (.saveChunks job.documentId job.tenantId job.assistantId chunks) d =
      some (.ok saved, w'))
    (h : Holds job (fun w doc => w.chunksOf P doc = .ok chunks) w') : Holds job (Saved P) w' := by
  obtain ⟨doc, hdoc, hid, ht, ha, hchunks⟩ := h
  refine ⟨doc, hdoc, hid, ht, ha, chunks, hchunks, fun x hx => ?_⟩
  obtain ⟨row, hrow, hrt, hra, hcontent⟩ := exists_of_saveChunks hinj hw hh x hx
  exact ⟨row, hrow, hrt.trans ht.symm, hra.trans ha.symm, hcontent⟩

/-- **The parse stage saves the chunks of its document.** -/
theorem ready_parseStage (hinj : Function.Injective P.hashChunkContent) (hw : Documented job w) :
    (readyContract P).Safe (OnReturn (Holds job (Saved P))) ((parseStage P).run job) w := by
  dsimp only [parseStage]
  refine Contract.Safe.bind (ready_await (fun _ _ _ => trivial) fun s d r s' hs hi hh hs' => ?_)
  rcases r with e | ref
  · exact onReturn_error e s'
  obtain ⟨rfl, rfl⟩ := ref_of_getRef hh
  obtain ⟨doc, hdoc, hid, ht, ha, -⟩ := hw.accrues lasting_true hs
  have hfind := hi.wellFormed.findDocument_eq_some.mpr ⟨hdoc, hid, ht⟩
  have href : Holds job (fun _ doc' => doc'.storageKey = doc.storageKey ∧
      doc'.sourceType = doc.sourceType) s' := ⟨doc, hdoc, hid, ht, ha, rfl, rfl⟩
  rw [hfind]
  dsimp only [Option.map_some]
  refine Contract.Safe.bind (ready_await (fun _ _ _ => trivial) fun u d r u' hu _ hh _ => ?_)
  rcases r with e | bytes
  · exact onReturn_error e u'
  obtain ⟨rfl, hbytes⟩ := object_of_storageGet hh
  -- from here on the document's chunks are those of these bytes
  have hknown : Holds job (fun w doc' => w.chunksOf P doc' = do
      let parsed ← parseDocument P.formats bytes doc.sourceType
      chunkDocument P.tokenizer DEFAULT_CHUNK_OPTIONS parsed) u' := by
    refine (href.accrues (lasting_ref _ _) hu).imp ?_
    rintro doc' - ⟨hkey, htype⟩
    rw [chunksOf, hkey, hbytes, htype]
  refine Contract.Safe.ofExcept_bind (fun parsed hparsed => ?_) fun e _ => onReturn_error e u'
  split
  · exact onReturn_error _ u'
  refine Contract.Safe.bind ((ready_of_harmless
    (fun _ _ h hw => h.accrues (lasting_chunksOf _) hw)
    (Proc.only_call (by exact fun _ _ _ => trivial)) hknown).imp ?_)
  rintro (e | _) v hv
  · exact onReturn_error e v
  refine Contract.Safe.ofExcept_bind (fun chunks hchunks => ?_) fun e _ => onReturn_error e v
  split
  · exact onReturn_error _ v
  have hv' : Holds job (fun w doc' => w.chunksOf P doc' = .ok chunks) v := by
    refine hv.imp fun doc' _ h => h.trans ?_
    rw [hparsed]
    exact hchunks
  refine Contract.Safe.bind (ready_await (fun x hx hi doc' hdoc' hid' => ?_)
    fun x d r x' hx hi hh hx' => ?_)
  · exact ((hv'.accrues (lasting_chunksOf _) hx).of_mem hi.wellFormed hdoc' hid').2.2
  rcases r with e | saved
  · exact onReturn_error e x'
  rintro - -
  exact (hv'.accrues (lasting_chunksOf _) (hx.trans hx')).saved_of_saveChunks hinj
    hi.wellFormed hh

/-! ## The embed stage -/

/-- A saved document whose own rows without a vector are among `ids`. -/
def Pending (P : Platform) (ids : List Uuid) (w : World) (doc : Document) : Prop :=
  Saved P w doc ∧ OwnRemaining ids w doc

theorem lasting_pending (ids : List Uuid) : Lasting P (Pending P ids) :=
  fun _ _ _ _ h hw hdoc hfile => ⟨h.1.accrues hw hdoc hfile, h.2.accrues h.1 hw hdoc hfile⟩

/-- **A written batch is off the list.** -/
theorem ownRemaining_of_written {ids rest : List Uuid} {documentId : Uuid}
    {updates : List (Uuid × Embedding)} {d : Decision} {w' : World} {doc doc' : Document}
    (hi : w.WellFormed P) (hdoc : doc ∈ w.documents) (ht : doc.tenantId = job.tenantId)
    (hr : OwnRemaining (ids ++ rest) w doc) (hids : updates.map (·.1) = ids)
    (h : w.handle P (.setChunkEmbeddings job.tenantId documentId updates) d = some (.ok (), w'))
    (hid : doc'.id = doc.id) : OwnRemaining rest w' doc' := by
  intro row' hrow' hid' hnone
  rw [chunks_of_setChunkEmbeddings h] at hrow'
  obtain ⟨row, hrow, rfl⟩ := List.mem_map.mp hrow'
  obtain ⟨hbare, -⟩ := embedIn_cases job.tenantId updates row
  have hrowdoc : row.documentId = doc.id :=
    (congrArg Chunk.documentId hbare :).symm.trans (hid'.trans hid)
  have hrowt : row.tenantId = job.tenantId :=
    (Chunk.references_iff.mp (hi.references_of_documentId hrow hdoc hrowdoc)).2.1.trans ht
  rcases hu : updateFor updates row with _ | e
  case some => simp [Chunk.embedIn, hu, hrowt] at hnone
  case none =>
    rw [Chunk.embedIn, hu] at hnone ⊢
    rcases List.mem_append.mp (hr row hrow hrowdoc hnone) with hmem | hmem
    · exact absurd (hids ▸ hmem) (updateFor_eq_none_iff.mp hu)
    · exact hmem

/-- One batch. -/
theorem ready_embedBatch {embedder : Embedder} {batch : List PendingChunk} {rest : List Uuid}
    (hw : Holds job (Pending P (batch.map (·.id) ++ rest)) w) :
    (readyContract P).Safe (OnReturn (Holds job (Pending P rest))) (embedBatch embedder job batch)
      w := by
  refine Contract.Safe.bind (safe_withRetry hw (fun _ h => h) (fun s hs => ?_)
    fun s e _ => onReturn_error e s)
  refine ready_await (fun _ _ _ => trivial) fun u d r u' hu _ hh hu' => ?_
  have hin := (hs.accrues (lasting_pending _) hu).accrues (lasting_pending _) hu'
  rcases r with e | vectors
  · exact hin
  dsimp only
  split
  case isTrue => exact onReturn_error _ u'
  case isFalse hlen =>
    refine Contract.Safe.ofExcept_bind (fun updates hupdates => ?_) fun e _ => onReturn_error e u'
    obtain ⟨-, rfl⟩ := mapM_embeddingUpdate_eq_ok.mp hupdates
    refine ready_await (fun _ _ _ => trivial) fun x d r x' hx hi hh hx' => ?_
    rcases r with e | _
    · exact onReturn_error e x'
    rintro - -
    obtain ⟨doc, hdoc, hid, ht, ha, hsaved, hown⟩ := hin.accrues (lasting_pending _) hx
    obtain ⟨doc', hdoc', hfile⟩ := hx'.document_kept doc hdoc
    have hid' : doc'.id = doc.id := (congrArg DocumentFile.id hfile :)
    refine ⟨doc', hdoc', hid'.trans hid, (congrArg DocumentFile.tenantId hfile :).trans ht,
      (congrArg DocumentFile.assistantId hfile :).trans ha, hsaved.accrues hx' hdoc hfile, ?_⟩
    have hids := map_fst_updates (not_not.mp hlen).symm
    exact ownRemaining_of_written hi.wellFormed hdoc ht hown hids hh hid'

/-- The loop over the batches. -/
theorem ready_embedBatches {embedder : Embedder} {batches : List (List PendingChunk)}
    (hw : Holds job (Pending P (batches.flatten.map (·.id))) w) :
    (readyContract P).Safe (OnReturn (Holds job (Pending P []))) (embedBatches embedder job batches)
      w := by
  induction batches generalizing w with
  | nil => exact fun _ _ => hw
  | cons batch batches ih =>
    rw [List.flatten_cons, List.map_append] at hw
    refine Contract.Safe.bind ((ready_embedBatch hw).imp ?_)
    rintro (e | _) t ht
    · exact onReturn_error e t
    · exact ih (ht () rfl)

/-- **The embed stage leaves none of its document's rows without a vector.** -/
theorem ready_embedStage {embedder : Embedder} (hw : Holds job (Saved P) w) :
    (readyContract P).Safe (OnReturn (Holds job (Pending P []))) ((embedStage embedder).run job)
      w := by
  dsimp only [embedStage]
  split
  · exact onReturn_error _ w
  refine Contract.Safe.bind (ready_await (fun _ _ _ => trivial) fun s d r s' hs hi hh _ => ?_)
  rcases r with e | pending
  · exact onReturn_error e s'
  obtain ⟨rfl, hpending⟩ := mem_of_getUnembeddedChunks hh
  have hin : Holds job (Pending P (pending.map (·.id))) s' := by
    obtain ⟨doc, hdoc, hid, ht, ha, hsaved⟩ := hw.accrues lasting_saved hs
    refine ⟨doc, hdoc, hid, ht, ha, hsaved, fun row hrow hrowdoc hnone => ?_⟩
    obtain ⟨-, hpt, -⟩ :=
      Chunk.references_iff.mp (hi.wellFormed.references_of_documentId hrow hdoc hrowdoc)
    exact List.mem_map.mpr ⟨_, (hpending _).mpr
      ⟨row, hrow, hrowdoc.trans hid, hpt.trans ht, hnone, rfl⟩, rfl⟩
  dsimp only
  split
  case isTrue hnil =>
    subst hnil
    exact fun _ _ => hin
  case isFalse =>
    refine Contract.Safe.bind ((ready_of_harmless
      (fun _ _ h hw => h.accrues (lasting_pending _) hw)
      (Proc.only_call (by exact fun _ _ _ => trivial)) hin).imp ?_)
    rintro (e | _) t ht
    · exact onReturn_error e t
    · refine ready_embedBatches ?_
      rwa [Table.flatten_slices (show 0 < EMBED_BATCH_SIZE by decide)]

end

/-! ## The tasks -/

section

variable {P : Platform} {job : IngestJobData} {w : World}

/-- A status is written by an execution that knows what it stands for. -/
theorem ready_setStatus {Φ : World → Document → Prop} (hΦ : Lasting P Φ) (status : DocumentStatus)
    (hsaved : status = .EMBEDDING ∨ status = .READY → ∀ w doc, Φ w doc → Saved P w doc)
    (hown : status = .READY → ∀ w doc, Φ w doc → OwnRemaining [] w doc) (hw : Holds job Φ w) :
    (readyContract P).Safe (OnReturn (Holds job Φ))
      (prismaDocumentStatusStore.setStatus job.documentId job.tenantId status) w := by
  refine ready_await (fun s hs hi doc hdoc hid => ?_) fun s d r s' hs _ _ hs' _ _ => ?_
  · obtain ⟨-, -, hfact⟩ := (hw.accrues hΦ hs).of_mem hi.wellFormed hdoc hid
    exact ⟨fun hst => hsaved hst s doc hfact, fun hst => hown hst s doc hfact⟩
  · exact hw.accrues hΦ (hs.trans hs')

/-- From the embed stage on: READY is written once no row of the document lacks a vector. -/
theorem ready_embedding {embedder : Embedder} {curRank : ℕ} (hw : Holds job (Saved P) w) :
    (readyContract P).Safe (fun _ _ => True)
      (runStages prismaDocumentStatusStore job [embedStage embedder] curRank) w := by
  refine safe_runStages_cons (fun hskip => ?_)
    (fun _ => (ready_setStatus lasting_saved .EMBEDDING (fun _ _ _ h => h)
      (fun hst => (nomatch hst)) hw).imp OnReturn.ends)
    hw (fun t ht => (ready_embedStage ht).imp OnReturn.ends)
    (fun t ht => (ready_setStatus (lasting_pending []) .READY (fun _ _ _ h => h.1)
      (fun _ _ _ h => h.2) ht).imp OnReturn.ends) fun t _ => ?_
  · rw [runStages, if_neg (show ¬curRank < rank .READY from Nat.not_lt.mpr hskip)]
    trivial
  · rw [runStages, if_neg (by decide)]
    trivial

/-- The rank that skips the parse stage is a status that follows it. -/
theorem parsed_of_rank {status : DocumentStatus} (h : rank .EMBEDDING ≤ rank status) :
    status = .EMBEDDING ∨ status = .READY := by
  cases status <;> first | exact .inl rfl | exact .inr rfl | exact absurd h (by decide)

/-- **An ingest job.**  The status it reads tells whether its document's chunks are saved. -/
theorem ready_processJob (hinj : Function.Injective P.hashChunkContent) {embedder : Embedder}
    (hw : Documented job w) :
    (readyContract P).Safe (fun _ _ => True) (processJob P embedder job) w := by
  refine Contract.Safe.bind (ready_await (fun _ _ _ => trivial) fun s d r s' hs hi hh _ => ?_)
  rcases r with e | current
  · trivial
  obtain ⟨rfl, rfl⟩ := status_of_getStatus hh
  obtain ⟨doc, hdoc, hid, ht, ha, -⟩ := hw.accrues lasting_true hs
  rw [hi.wellFormed.findDocument_eq_some.mpr ⟨hdoc, hid, ht⟩]
  have hw' : Documented job s' := ⟨doc, hdoc, hid, ht, ha, trivial⟩
  dsimp only [Option.map_some, DEFAULT_STAGES]
  refine safe_runStages_cons (fun hskip => ?_)
    (fun _ => (ready_setStatus lasting_true .PARSING ?_ (fun hst => (nomatch hst)) hw').imp
      OnReturn.ends)
    hw' (fun t ht => (ready_parseStage hinj ht).imp OnReturn.ends)
    (fun t ht => (ready_setStatus lasting_saved .EMBEDDING (fun _ _ _ h => h)
      (fun hst => (nomatch hst)) ht).imp OnReturn.ends) fun t ht => ready_embedding ht
  · exact ready_embedding ⟨doc, hdoc, hid, ht, ha, hi.saved doc hdoc (parsed_of_rank hskip)⟩
  · rintro (h | h) <;> cases h

/-- A body that makes harmless calls only. -/
theorem ready_of_only {α : Type} {p : Service α} (hp : p.Only (ReadyHarmless P)) :
    (readyContract P).Safe (fun _ _ => True) p w :=
  ready_of_harmless (fun _ _ h _ => h) hp trivial

/-- An upload enqueues a job for the document it created. -/
theorem ready_storeUpload (u : Upload) :
    (readyContract P).Safe (fun _ _ => True) (storeUpload u) w := by
  refine Contract.Safe.bind
    ((ready_of_only (Proc.only_call (by exact fun _ _ _ => trivial))).imp ?_)
  rintro (e | assistant) t -
  · trivial
  dsimp only
  split
  · trivial
  refine Contract.Safe.bind
    ((ready_of_only (Proc.only_call (by exact fun _ _ _ => trivial))).imp ?_)
  rintro (e | _) t -
  · trivial
  refine Contract.Safe.bind (ready_await (fun _ _ _ => ⟨rfl, rfl⟩) fun s d r s' _ _ hh _ => ?_)
  rcases r with e | _
  · trivial
  have hdocumented : Documented u.job s' := by
    obtain ⟨-, rfl⟩ := created_of_createDocument hh
    exact ⟨_, List.mem_append_right _ (List.mem_singleton_self _), rfl, rfl, rfl, trivial⟩
  refine Contract.Safe.bind (ready_await (fun _ hs _ => hdocumented.accrues lasting_true hs)
    fun s d r s' _ _ _ _ => ?_)
  rcases r with e | _ <;> trivial

/-- No task of the run deletes, so the object store keeps what it has. -/
theorem ready_removeDocument (tenantId documentId : Uuid) :
    (readyContract P).Safe (fun _ _ => True) (removeDocument tenantId documentId) w := by
  refine Contract.Safe.bind (Contract.Safe.call fun s _ _ d r s' hm _ => ?_)
  exact absurd rfl (hm.1 tenantId documentId)

/-- **Every task of the system honours the agreement.** -/
theorem ready_launch (hinj : Function.Injective P.hashChunkContent) (w : World) (l : Launch)
    (p : Service TaskResult) (hi : ReadyInv P w) (h : Corpus.launch P w l = some p) :
    (readyContract P).Safe (fun _ _ => True) p w := by
  cases Corpus.starts_of_launch P h with
  | ingest hjob => exact (ready_processJob hinj (hi.jobs _ hjob)).then
  | failed => exact (ready_of_only (only_onFailed (by exact fun _ _ _ _ => trivial))).then
  | sweep => exact (ready_of_only (Proc.only_call (by exact fun _ _ _ => trivial))).then
  | upload => exact (ready_storeUpload _).then
  | delete => exact (ready_removeDocument _ _).then
  | retrieve =>
    exact (ready_of_only (only_retrieve (fun _ _ _ _ _ => trivial) (fun _ _ _ => trivial)
      fun _ _ _ _ _ _ => trivial)).then

end

/-! ## The results -/

theorem ready_initial {P : Platform} {c : Corpus.State} (h : Corpus.Initial c) :
    c.Ok (readyContract P) (fun _ _ => True) where
  inv :=
    { wellFormed := h.wellFormed P
      jobs := by simp [h.jobs]
      storage := by simp [h.documents]
      saved := by simp [h.documents]
      ready := by simp [h.documents] }
  safe := by simp [h.tasks]

/-- **READY means retrievable** — in a run without deletions that writes READY only once the
contents the document shares with others have their vectors. -/
theorem ready_is_retrievable {P : Platform} (hinj : Function.Injective P.hashChunkContent)
    {c : Corpus.State} (hc : Corpus.Reachable P (ReadyCovered P) Corpus.Initial c) :
    ∀ doc ∈ c.world.documents, doc.status = .READY → Retrievable P c.world doc :=
  (Pool.ok_of_reachable (K := readyContract P) (fun _ _ h => h) (fun _ _ _ h _ => h)
    (fun w l p hi h => ready_launch hinj w l p hi h) (fun _ h => ready_initial h) hc).inv.ready

section

open Corpus

/-- A call that deletes nothing, and writes READY only while every stored chunk has a vector. -/
def readyCovered (w : World) : Call → Bool
  | .deleteDocument .. => false
  | .setStatus _ _ .READY => w.chunks.all (·.embedded)
  | _ => true

theorem readyCovered_sound (w : World) (c : Call) (d : Decision) (h : readyCovered w c = true) :
    ReadyCovered samplePlatform w c d := by
  refine ⟨?_, ?_⟩
  · rintro t id rfl
    cases h
  · rintro - id t rfl doc - - - drafts - x - row hrow - - - -
    exact Option.isSome_iff_ne_none.mp (List.all_eq_true.mp h row hrow)

/-- The contents of a document that are retrievable, of those it has. -/
def retrievableCount (w : World) (doc : Document) : Option (ℕ × ℕ) :=
  match w.chunksOf samplePlatform doc with
  | .ok drafts => some (drafts.countP fun x => w.hasVector doc.tenantId doc.assistantId x.content,
      drafts.length)
  | .error _ => none

/-- Two documents with the same text, the second one taken up when the first one is complete. -/
theorem ready_is_retrievable_sameText : ∃ c : State,
    Corpus.Reachable samplePlatform (ReadyCovered samplePlatform) Initial c ∧
    (c.world.documents.map (·.status) = [.READY, .READY]) ∧
    ∀ doc ∈ c.world.documents, doc.status = .READY → Retrievable samplePlatform c.world doc := by
  obtain ⟨c, hc, hp⟩ := reachable_from Initial initial_sampleStart readyCovered readyCovered_sound
    sameText (fun c => c.world.documents.map (·.status) == [.READY, .READY]) (by decide +kernel)
  exact ⟨c, hc, by simpa using hp, ready_is_retrievable (fun _ _ h => h) hc⟩

/-- Document 10 is parsed and left there; document 11 has the same text. -/
def unfinishedTwin : List Move :=
  sampleUploading 0 10 [104, 105] ++ [sampleIngest (js "m") 10] ++ resumes 1 1 ++
    sampleParsing 1 20 ++
    sampleUploading 2 11 [104, 105] ++ [sampleIngest (js "m") 11] ++ resumes 3 1 ++
    sampleParsing 3 21 ++ resumes 3 2

/-- No deletion. -/
def NoDeletion : World → Call → Decision → Prop :=
  fun _ c _ => ∀ tenantId documentId, c ≠ .deleteDocument tenantId documentId

/-- A call that deletes nothing. -/
def deletesNothing (_ : World) : Call → Bool
  | .deleteDocument .. => false
  | _ => true

theorem noDeletion_of_deletesNothing (w : World) (c : Call) (d : Decision)
    (h : deletesNothing w c = true) : NoDeletion w c d := by
  rintro t id rfl
  cases h

/-- **A document becomes READY while its only content has no vector**: the row is another
document's, still to be embedded. -/
theorem not_ready_is_retrievable : ¬ ∀ P : Platform, Function.Injective P.hashChunkContent →
    ∀ c : State, Corpus.Reachable P NoDeletion Initial c →
      ∀ doc ∈ c.world.documents, doc.status = .READY → Retrievable P c.world doc := by
  intro hclaim
  obtain ⟨c, hc, hp⟩ := reachable_from Initial initial_sampleStart deletesNothing
    noDeletion_of_deletesNothing unfinishedTwin (fun c => c.world.documents.any
      fun doc => doc.status == .READY &&
      retrievableCount c.world doc == some (0, 1)) (by decide +kernel)
  obtain ⟨doc, hdoc, hp⟩ := List.any_eq_true.mp hp
  obtain ⟨hready, hcount⟩ := Bool.and_eq_true_iff.mp hp
  obtain ⟨drafts, hdrafts, hvector⟩ :=
    hclaim samplePlatform (fun _ _ h => h) c hc doc hdoc (beq_iff_eq.mp hready)
  have hall : drafts.countP (fun x => c.world.hasVector doc.tenantId doc.assistantId x.content)
      = drafts.length := List.countP_eq_length.mpr hvector
  have hcounts := beq_iff_eq.mp hcount
  rw [retrievableCount, hdrafts] at hcounts
  obtain ⟨hzero, hone⟩ := Prod.mk.inj (Option.some.inj hcounts)
  omega

end

import SupportAgent.Store.Evolves
import SupportAgent.System.Corpus

/-!
# System/Models — one embedding model per corpus

Vectors are computed, carried and written in separate calls by workers that may be configured with
different models.  What ties them together is the claim: from the moment `ensureEmbeddingModel`
succeeds the assistant's model is this worker's for good (`World.Claimed`), and the batches the
worker then writes reach chunks of that assistant only.  `modelsContract` is the agreement, and
every task of the system honours it.
-/

open Async Ingestion World

/-- **Every stored vector is its assistant's model's**, with what the tasks need to keep it so. -/
structure ModelsInv (P : Platform) (w : World) : Prop where
  wellFormed : w.WellFormed P
  jobs : ∀ job ∈ w.jobs, job.Fits w
  named : ∀ a ∈ w.assistants, a.embeddingModel ≠ some []
  produced : ∀ row ∈ w.chunks, ∀ e, row.embedding = some e →
    Claimed row.tenantId row.assistantId e.model w

/-- The chunks an update reaches belong to assistants that claimed its vectors' model. -/
def Writable (w : World) (tenantId : Uuid) (updates : List (Uuid × Embedding)) : Prop :=
  ∀ row ∈ w.chunks, row.tenantId = tenantId → ∀ e, updateFor updates row = some e →
    Claimed row.tenantId row.assistantId e.model w

/-- What a call must bring along to keep the invariant. -/
def ModelSafe (w : World) : Call → Prop
  | .setChunkEmbeddings tenantId _ updates => Writable w tenantId updates
  | .enqueue job => job.Fits w
  | .ensureEmbeddingModel _ _ model => model ≠ []
  | _ => True

section

variable {P : Platform} {w w' : World} {c : Call} {d : Decision}

/-- **What a call keeps.** -/
theorem ModelsInv.step (hi : ModelsInv P w) (h : w.Effect P d c w') (hsafe : ModelSafe w c) :
    ModelsInv P w' where
  wellFormed := hi.wellFormed.step h
  jobs job hjob := by
    rcases h.job_origin hjob with hjob | rfl
    · exact (hi.jobs job hjob).evolves h.evolves
    · exact IngestJobData.Fits.evolves hsafe h.evolves
  named a' ha' := by
    obtain ⟨a, ha, -, hsame | ⟨-, model, rfl, hclaim⟩⟩ := h.assistant_origin ha'
    · rw [hsame]
      exact hi.named a ha
    · rw [hclaim]
      exact fun hnil => hsafe (Option.some.inj hnil)
  produced row' hrow' e he := by
    have hclaimed : ∀ row ∈ w.chunks, row'.bare = row.bare →
        Claimed row.tenantId row.assistantId e.model w →
        Claimed row'.tenantId row'.assistantId e.model w' := by
      intro row _ hbare hc
      rw [show row'.tenantId = row.tenantId from (congrArg Chunk.tenantId hbare :),
        show row'.assistantId = row.assistantId from (congrArg Chunk.assistantId hbare :)]
      exact hc.evolves h.evolves
    rcases h.chunk_origin hrow' with ⟨row, hrow, hbare, hsame | ⟨_, updates, e', rfl, hu, he'⟩⟩ |
      ⟨_, _, _, _, -, _, -, -, _, -, rfl, -⟩
    · exact hclaimed row hrow hbare (hi.produced row hrow e (hsame ▸ he))
    · obtain rfl : e' = e := Option.some.inj (he'.symm.trans he)
      exact hclaimed row hrow hbare (hsafe row hrow rfl e' hu)
    · simp [chunkRow] at he

end

variable (P : Platform) (meets : World → Call → Decision → Prop)

/-- **The agreement of the tasks.** -/
def modelsContract : Contract backend JsError Decision World where
  handler := World.handle P
  meets := meets
  inv := ModelsInv P
  rely := Evolves
  guar := Evolves
  rely_refl := Evolves.refl
  rely_trans := Evolves.trans

/-- A call that is safe in every state. -/
def Harmless (c : Call) : Prop := ∀ w, ModelSafe w c

section

variable {P meets}

/-- Harmless calls honour the agreement. -/
theorem harmless_call {c : Call} (hc : Harmless c) (s : World) (d : Decision)
    (r : Except JsError c.Res)
    (s' : World) (hi : ModelsInv P s) (_ : meets s c d) (h : s.handle P c d = some (r, s')) :
    ModelsInv P s' ∧ s.Evolves s' :=
  ⟨hi.step (effect_of_handle h) (hc s), (effect_of_handle h).evolves⟩

/-- **A body of harmless calls is safe.** -/
theorem safe_of_harmless {α : Type} {J : World → Prop} (hJ : ∀ w w', J w → w.Evolves w' → J w')
    {p : Service α} (hp : p.Only Harmless) {w : World} (hw : J w) :
    (modelsContract P meets).Safe (fun _ t => J t) p w :=
  Contract.Safe.of_only (fun _ hc s d r s' hi hj hm h => by
    obtain ⟨hi', hev⟩ := harmless_call hc s d r s' hi hm h
    exact ⟨hi', hev, hJ s s' hj hev⟩) hJ hp hw

/-! ## The embed stage -/

/-- What an execution of the embed stage knows once its model is claimed: its pending chunks are
chunks of its assistant, wherever they are. -/
structure Embedding.InFlight (job : IngestJobData) (model : JsString) (pending : List PendingChunk)
    (w : World) : Prop where
  fits : job.Fits w
  claimed : Claimed job.tenantId job.assistantId model w
  issued : ∀ p ∈ pending, p.id ∈ w.issued
  owned : ∀ p ∈ pending, ∀ row ∈ w.chunks, row.id = p.id → row.tenantId = job.tenantId ∧
    row.assistantId = job.assistantId

/-- The chunks of a pending list keep their tenant and assistant. -/
theorem owned_evolves {job : IngestJobData} {pending : List PendingChunk} {w w' : World}
    (hissued : ∀ p ∈ pending, p.id ∈ w.issued)
    (howned : ∀ p ∈ pending, ∀ row ∈ w.chunks, row.id = p.id → row.tenantId = job.tenantId ∧
      row.assistantId = job.assistantId) (h : w.Evolves w') :
    ∀ p ∈ pending, ∀ row ∈ w'.chunks, row.id = p.id → row.tenantId = job.tenantId ∧
      row.assistantId = job.assistantId := by
  intro p hp row' hrow' hid
  obtain ⟨row, hrow, hbare⟩ := h.chunks row' hrow' (hid ▸ hissued p hp)
  obtain ⟨ht, ha⟩ := howned p hp row hrow ((congrArg Chunk.id hbare :).symm.trans hid)
  exact ⟨(congrArg Chunk.tenantId hbare :).trans ht, (congrArg Chunk.assistantId hbare :).trans ha⟩

theorem Embedding.InFlight.evolves {job : IngestJobData} {model : JsString}
    {pending : List PendingChunk} {w w' : World} (h : InFlight job model pending w)
    (hw : w.Evolves w') : InFlight job model pending w' where
  fits := h.fits.evolves hw
  claimed := h.claimed.evolves hw
  issued p hp := hw.issued (h.issued p hp)
  owned := owned_evolves h.issued h.owned hw

/-- One batch. -/
theorem safe_embedBatch {embedder : Embedder} {job : IngestJobData}
    {pending batch : List PendingChunk}
    (hsub : batch ⊆ pending) {w : World} (hw : Embedding.InFlight job embedder.model pending w) :
    (modelsContract P meets).Safe (fun _ t => Embedding.InFlight job embedder.model pending t)
      (embedBatch embedder job batch) w := by
  refine Contract.Safe.bind (safe_withRetry hw (fun _ h => h)
    (fun s hs => Contract.Safe.call ?_) fun _ _ h => h)
  intro s₁ hs₁ hi d r s₂ hm hh
  have heff := effect_of_handle hh
  have hin := (hs.evolves hs₁).evolves heff.evolves
  refine ⟨hi.step heff trivial, heff.evolves, ?_⟩
  rcases r with e | vectors
  · exact hin
  · -- the vectors are the embedder's, the ids are the batch's
    have hmodel := (model_of_embed hh).2
    dsimp only
    split
    case isTrue => exact hin
    case isFalse =>
      refine Contract.Safe.ofExcept_bind (fun updates hupdates => ?_) fun _ _ => hin
      obtain ⟨-, rfl⟩ := mapM_embeddingUpdate_eq_ok.mp hupdates
      refine Contract.Safe.call fun s₃ hs₃ hi₃ d r s₄ hm hh => ?_
      have heff₄ := effect_of_handle hh
      have hin₃ := hin.evolves hs₃
      refine ⟨hi₃.step heff₄ fun row hrow ht e hu => ?_, heff₄.evolves,
        hin₃.evolves heff₄.evolves⟩
      obtain ⟨x, hx, hpair⟩ := List.mem_map.mp (mem_of_updateFor hu)
      obtain ⟨hid, rfl⟩ := Prod.mk.inj hpair
      obtain ⟨hp, hv⟩ := List.of_mem_zip hx
      obtain ⟨ht', ha'⟩ := hin₃.owned x.1 (hsub hp) row hrow hid.symm
      rw [ht', ha', hmodel x.2 hv]
      exact hin₃.claimed

/-- The loop over the batches. -/
theorem safe_embedBatches {embedder : Embedder} {job : IngestJobData} {pending : List PendingChunk}
    {batches : List (List PendingChunk)} (hsub : ∀ batch ∈ batches, batch ⊆ pending) {w : World}
    (hw : Embedding.InFlight job embedder.model pending w) :
    (modelsContract P meets).Safe (fun _ t => Embedding.InFlight job embedder.model pending t)
      (embedBatches embedder job batches) w := by
  induction batches generalizing w with
  | nil => exact hw
  | cons batch batches ih =>
    obtain ⟨hbatch, hbatches⟩ := List.forall_mem_cons.mp hsub
    refine Contract.Safe.bind ((safe_embedBatch hbatch hw).imp fun o t ht => ?_)
    rcases o with e | _
    · exact ht
    · exact ih hbatches ht

section

variable {job : IngestJobData} {pending : List PendingChunk} {w : World}

/-- The chunks found to embed are of the job's document, so of its tenant and assistant. -/
theorem owned_of_pending (hw : w.WellFormed P) (hfits : job.Fits w)
    (hpending : ∀ p, p ∈ pending ↔ ∃ row ∈ w.chunks, row.documentId = job.documentId ∧
      row.tenantId = job.tenantId ∧ row.embedding = none ∧ p = ⟨row.id, row.content⟩) :
    ∀ p ∈ pending, p.id ∈ w.issued ∧ ∀ row ∈ w.chunks, row.id = p.id →
      row.tenantId = job.tenantId ∧ row.assistantId = job.assistantId := by
  intro p hp
  obtain ⟨row₀, hrow₀, hdoc, ht, -, rfl⟩ := (hpending p).mp hp
  refine ⟨hw.chunkIssued row₀ hrow₀, fun row hrow hid => ?_⟩
  obtain rfl := hw.chunk_eq hrow hrow₀ (Chunk.conflicts_iff.mpr (.inl hid))
  obtain ⟨doc, hdoc', href⟩ := hw.chunkParent row hrow
  obtain ⟨hid', -, ha'⟩ := Chunk.references_iff.mp href
  exact ⟨ht, ha'.trans (hfits.document doc hdoc' (hid'.symm.trans hdoc)).2⟩

/-- Where there is a chunk to embed, there is the job's assistant. -/
theorem assistant_of_pending (hw : w.WellFormed P) (hfits : job.Fits w)
    (hpending : ∀ p, p ∈ pending ↔ ∃ row ∈ w.chunks, row.documentId = job.documentId ∧
      row.tenantId = job.tenantId ∧ row.embedding = none ∧ p = ⟨row.id, row.content⟩)
    (hne : pending ≠ []) :
    ∃ a ∈ w.assistants, a.id = job.assistantId ∧ a.tenantId = job.tenantId := by
  obtain ⟨p, hp⟩ := List.exists_mem_of_ne_nil pending hne
  obtain ⟨row, hrow, -, ht, -, rfl⟩ := (hpending p).mp hp
  obtain ⟨doc, hdoc, href⟩ := hw.chunkParent row hrow
  obtain ⟨a, ha, haid, hat⟩ := hw.documentParent doc hdoc
  obtain ⟨-, ht', ha'⟩ := Chunk.references_iff.mp href
  have howned := (owned_of_pending hw hfits hpending _ hp).2 row hrow rfl
  exact ⟨a, ha, haid.trans (ha'.symm.trans howned.2), hat.trans (ht'.symm.trans ht)⟩

end

/-- **The embed stage honours the agreement**: it writes only after its claim succeeded. -/
theorem safe_embedStage {embedder : Embedder} (hmodel : embedder.model ≠ []) {job : IngestJobData}
    {w : World} (hw : job.Fits w) :
    (modelsContract P meets).Safe (fun _ t => job.Fits t) ((embedStage embedder).run job) w := by
  dsimp only [embedStage]
  split
  case isTrue => exact hw
  case isFalse =>
    refine Contract.Safe.bind (Contract.Safe.call fun s₁ hs₁ hi d r s₂ hm hh => ?_)
    have heff := effect_of_handle hh
    have hfits := (hw.evolves hs₁).evolves heff.evolves
    refine ⟨hi.step heff trivial, heff.evolves, ?_⟩
    rcases r with e | pending
    · exact hfits
    dsimp only
    split
    case isTrue => exact hfits
    case isFalse hne =>
      obtain ⟨rfl, hpending⟩ := mem_of_getUnembeddedChunks hh
      have howned := owned_of_pending hi.wellFormed hfits hpending
      obtain ⟨a, ha, haid, hat⟩ := assistant_of_pending hi.wellFormed hfits hpending hne
      refine Contract.Safe.bind (Contract.Safe.call fun s₃ hs₃ hi₃ d₃ r₃ s₄ hm₃ hh₃ => ?_)
      have heff₃ := effect_of_handle hh₃
      have hev := hs₃.trans heff₃.evolves
      refine ⟨hi₃.step heff₃ hmodel, heff₃.evolves, ?_⟩
      rcases r₃ with e | _
      · exact hfits.evolves hev
      obtain ⟨a', ha', hsame, -⟩ := hev.assistants a ha
      have haid' : a'.id = job.assistantId := (congrArg Assistant.id hsame :).trans haid
      have hat' : a'.tenantId = job.tenantId := (congrArg Assistant.tenantId hsame :).trans hat
      have hfind : s₄.findAssistant job.tenantId job.assistantId = some a' :=
        (hi₃.wellFormed.step heff₃).findAssistant_eq_some.mpr ⟨ha', haid', hat'⟩
      have hin : Embedding.InFlight job embedder.model pending s₄ :=
        { fits := hfits.evolves hev
          claimed := ⟨a', ha', haid', hat', claimed_of_ensureEmbeddingModel hh₃ hfind⟩
          issued := fun p hp => hev.issued (howned p hp).1
          owned := owned_evolves (fun p hp => (howned p hp).1) (fun p hp => (howned p hp).2) hev }
      refine (safe_embedBatches (fun batch hbatch p hp => ?_) hin).imp fun _ _ h => h.fits
      rw [← Table.flatten_slices (show 0 < EMBED_BATCH_SIZE by decide) pending]
      exact List.mem_flatten_of_mem hbatch hp

/-! ## The tasks -/

/-- An ingest job. -/
theorem safe_processJob {embedder : Embedder} (hmodel : embedder.model ≠ []) {job : IngestJobData}
    {w : World} (hw : job.Fits w) :
    (modelsContract P meets).Safe (fun _ t => job.Fits t) (processJob P embedder job) w := by
  have hJ : ∀ w w', job.Fits w → w.Evolves w' → job.Fits w' := fun _ _ h => h.evolves
  refine Contract.Safe.bind
    ((safe_of_harmless hJ (Proc.only_call (by exact fun _ => trivial)) hw).imp ?_)
  rintro (e | _ | current) t ht
  · exact ht
  · exact ht
  · refine safe_runStages
      (fun status s hs => safe_of_harmless hJ (Proc.only_call (by exact fun _ => trivial)) hs)
      (fun stage hstage s hs => ?_) _ ht
    rcases List.mem_pair.mp hstage with rfl | rfl
    · exact safe_of_harmless hJ (only_parseStage (by exact fun _ => trivial)
        (by exact fun _ _ => trivial) (by exact fun _ _ _ => trivial)
        (by exact fun _ _ => trivial)) hs
    · exact safe_embedStage hmodel hs

/-- A document just created fits its job. -/
theorem fits_of_createDocument {job : IngestJobData} {data : NewDocument} {w w' : World}
    (hw : w.WellFormed P) (hjob : job = ⟨data.id, data.tenantId, data.assistantId⟩) {d : Decision}
    (hh : w.handle P (.createDocument data) d = some (.ok (), w')) : job.Fits w' := by
  subst hjob
  obtain ⟨hfresh, rfl⟩ := created_of_createDocument hh
  refine ⟨List.mem_append_right _ (List.mem_singleton_self _), fun doc hdoc hid => ?_⟩
  rcases List.mem_append.mp hdoc with hdoc | hdoc
  · have hissued := hw.documentIssued doc hdoc
    rw [hid] at hissued
    exact absurd hissued hfresh
  · obtain rfl := List.mem_singleton.mp hdoc
    exact ⟨rfl, rfl⟩

/-- An upload enqueues a job for the document it created. -/
theorem safe_storeUpload (u : Upload) (w : World) :
    (modelsContract P meets).Safe (fun _ _ => True) (storeUpload u) w := by
  have htrue : ∀ {α : Type} {p : Service α} {w : World}, p.Only Harmless →
      (modelsContract P meets).Safe (fun _ _ => True) p w := fun hp =>
    safe_of_harmless (fun _ _ h _ => h) hp trivial
  refine Contract.Safe.bind ((htrue (Proc.only_call (by exact fun _ => trivial))).imp ?_)
  rintro (e | assistant) t -
  · trivial
  dsimp only
  split
  · trivial
  refine Contract.Safe.bind ((htrue (Proc.only_call (by exact fun _ => trivial))).imp ?_)
  rintro (e | _) t -
  · trivial
  refine Contract.Safe.bind (Contract.Safe.call fun s₁ hs₁ hi d r s₂ hm hh => ?_)
  have heff := effect_of_handle hh
  refine ⟨hi.step heff trivial, heff.evolves, ?_⟩
  rcases r with e | _
  · trivial
  have hfits : u.job.Fits s₂ := fits_of_createDocument hi.wellFormed rfl hh
  refine Contract.Safe.bind (Contract.Safe.call fun s₃ hs₃ hi₃ d r s₄ hm hh => ?_)
  have heff₃ := effect_of_handle hh
  refine ⟨hi₃.step heff₃ (hfits.evolves hs₃), heff₃.evolves, ?_⟩
  rcases r with e | _ <;> trivial

/-! ## Retrievals -/

end

/-- **No scan for another model's query**: where the check before a scan found no model recorded,
the assistant has by the time of the scan claimed none but the query's, or has no vector yet. -/
def ScansOwnModel (w : World) (c : Call) (d : Decision) : Prop :=
  d.fault = none → ∀ tenantId assistantId query k,
    c = .scanChunks tenantId assistantId query k none →
    ∀ model, Claimed tenantId assistantId model w → model = query.model ∨
      ∀ row ∈ w.chunks, row.tenantId = tenantId → row.assistantId = assistantId →
        row.embedding = none

/-- The hits of a finished retrieval were scored by vectors of its model. -/
def TaskResult.OwnModel : TaskResult → Prop
  | .hits model found => ∀ hit ∈ found, hit.scored.model = model
  | .done => True

/-- How tasks end: retrievals within their model, if no scan was for another's. -/
def endsWell (o : Except JsError TaskResult) (_ : World) : Prop :=
  (∀ w c d, meets w c d → ScansOwnModel w c d) → ∀ result, o = .ok result → result.OwnModel

section

variable {P meets}

/-- A check that passed found no model, or the query's. -/
theorem eq_of_checkEmbeddingModel {recorded : Option JsString} {model claimed : JsString}
    (h : checkEmbeddingModel recorded model = .ok ()) (hrec : recorded = some claimed)
    (hne : claimed ≠ []) : claimed = model := by
  subst hrec
  by_contra hmodel
  simp [checkEmbeddingModel, hne, hmodel, throw, throwThe, MonadExceptOf.throw] at h

/-- **The hits of a checked scan are of the query's model**: if the check found a model recorded,
that model stays and is the query's; if it found none, the condition on scans takes over. -/
theorem model_of_hit {w w' w'' : World} (hi : ModelsInv P w) (hi' : ModelsInv P w')
    (hev : w.Evolves w')
    {tenantId assistantId : Uuid} {query : Embedding} {k : ℕ} {d : Decision} {hits : List ChunkHit}
    (hcheck : checkEmbeddingModel ((w.findAssistant tenantId assistantId).bind (·.embeddingModel))
      query.model = .ok ())
    (hscan : ScansOwnModel w' (.scanChunks tenantId assistantId query k
      ((w.findAssistant tenantId assistantId).bind (·.embeddingModel))) d)
    (hh : w'.handle P (.scanChunks tenantId assistantId query k
      ((w.findAssistant tenantId assistantId).bind (·.embeddingModel))) d = some (.ok hits, w'')) :
    ∀ hit ∈ hits, hit.scored.model = query.model := by
  intro hit hhit
  obtain ⟨rfl, hscored⟩ := scored_of_scanChunks hh
  obtain ⟨row, hrow, ht, ha, he⟩ := hscored hit hhit
  have hclaimed : Claimed tenantId assistantId hit.scored.model w'' := by
    have hclaimed := hi'.produced row hrow _ he
    rwa [ht, ha] at hclaimed
  rcases hrec : (w.findAssistant tenantId assistantId).bind (·.embeddingModel) with _ | claimed
  · rw [hrec] at hscan hh
    rcases hscan (fault_of_handle_ok hh) _ _ _ _ rfl _ hclaimed with heq | hnone
    · exact heq
    · simp [hnone row hrow ht ha] at he
  · obtain ⟨a, hfind, hclaim⟩ := Option.bind_eq_some_iff.mp hrec
    obtain ⟨hamem, haid, hat⟩ := hi.wellFormed.findAssistant_eq_some.mp hfind
    have hne : claimed ≠ [] := fun hnil => hi.named a hamem (hnil ▸ hclaim)
    have hmodel := eq_of_checkEmbeddingModel hcheck hrec hne
    have hclaimed' : Claimed tenantId assistantId claimed w'' :=
      Claimed.evolves ⟨a, hamem, haid, hat, hclaim⟩ hev
    exact (hclaimed.unique hi'.wellFormed hclaimed').trans hmodel

/-- **A retrieval stays within its model.** -/
theorem safe_retrieve {embedder : Embedder} (tenantId : Uuid) (query : RetrievalQuery) (w : World) :
    (modelsContract P meets).Safe (endsWell meets) (retrieve embedder tenantId query >>=
      fun hits => pure (TaskResult.hits embedder.model hits)) w := by
  have hthrow : ∀ e t, endsWell meets (.error e) t := fun _ _ _ _ h => nomatch h
  refine Contract.Safe.bind ?_
  dsimp only [retrieve]
  split
  · exact hthrow _ w
  split
  · exact hthrow _ w
  refine Contract.Safe.bind (safe_withRetry (I := fun _ => True) trivial (fun _ h => h)
    (fun s _ => Contract.Safe.call fun s₁ hs₁ hi d r s₂ hm hh => ?_) fun _ _ _ => hthrow _ _)
  have heff := effect_of_handle hh
  refine ⟨hi.step heff trivial, heff.evolves, ?_⟩
  rcases r with e | vectors
  · trivial
  rcases vectors with _ | ⟨embedding, vectors⟩
  · exact hthrow _ s₂
  have hquery : embedding.model = embedder.model := (model_of_embed hh).2 embedding (by simp)
  refine Contract.Safe.ofExcept_bind (fun _ _ => ?_) fun _ _ => hthrow _ _
  refine Contract.Safe.ofExcept_bind (fun k _ => ?_) fun _ _ => hthrow _ _
  refine Contract.Safe.bind (Contract.Safe.call fun s₃ hs₃ hi₃ d₃ r₃ s₄ hm₃ hh₃ => ?_)
  have heff₃ := effect_of_handle hh₃
  refine ⟨hi₃.step heff₃ trivial, heff₃.evolves, ?_⟩
  rcases r₃ with e | assistant
  · exact hthrow _ _
  obtain ⟨rfl, rfl⟩ := found_of_findAssistant hh₃
  refine Contract.Safe.ofExcept_bind (fun _ hcheck => ?_) fun _ _ => hthrow _ _
  refine Contract.Safe.call fun s₅ hs₅ hi₅ d₅ r₅ s₆ hm₅ hh₅ => ?_
  have heff₅ := effect_of_handle hh₅
  refine ⟨hi₅.step heff₅ trivial, heff₅.evolves, ?_⟩
  rcases r₅ with e | hits
  · exact hthrow _ _
  rintro hscan result ⟨⟩ hit hhit
  rw [← hquery] at hcheck ⊢
  exact model_of_hit hi₃ hi₅ hs₅ hcheck (hscan _ _ _ hm₅) hh₅ hit hhit

/-- A body whose result nobody looks at. -/
theorem safe_done {α : Type} {p : Service α} {J : World → Prop} {w : World}
    (hp : (modelsContract P meets).Safe (fun _ t => J t) p w) :
    (modelsContract P meets).Safe (endsWell meets) (p >>= fun _ => pure TaskResult.done) w := by
  refine Contract.Safe.bind (hp.imp ?_)
  rintro (e | a) t -
  · exact fun _ _ h => nomatch h
  · rintro - result ⟨⟩
    trivial

/-- **Every task of the system honours the agreement.** -/
theorem safe_launch (w : World) (l : Launch) (p : Service TaskResult) (hi : ModelsInv P w)
    (h : Corpus.launch P w l = some p) : (modelsContract P meets).Safe (endsWell meets) p w := by
  have hharmless : ∀ {α : Type} {p : Service α}, p.Only Harmless →
      (modelsContract P meets).Safe (fun _ _ => True) p w := fun hp =>
    safe_of_harmless (fun _ _ h _ => h) hp trivial
  cases Corpus.starts_of_launch P h with
  | ingest hjob hmodel => exact safe_done (safe_processJob hmodel (hi.jobs _ hjob))
  | failed => exact safe_done (hharmless (only_onFailed (by exact fun _ _ => trivial)))
  | sweep => exact safe_done (hharmless (Proc.only_call (by exact fun _ => trivial)))
  | upload => exact safe_done (safe_storeUpload _ w)
  | delete =>
    exact safe_done (hharmless (only_removeDocument (by exact fun _ => trivial)
      (by exact fun _ _ => trivial)))
  | retrieve => exact safe_retrieve _ _ w

/-- **The agreement holds in every run.** -/
theorem ok_of_reachable {init : Corpus.State → Prop}
    (hinit : ∀ c, init c → c.Ok (modelsContract P meets) (endsWell meets)) {c : Corpus.State}
    (hc : Corpus.Reachable P meets init c) : c.Ok (modelsContract P meets) (endsWell meets) :=
  Pool.ok_of_reachable (K := modelsContract P meets) (fun _ _ h => h) (fun _ _ _ h _ => h)
    (fun w l p hi h => safe_launch w l p hi h) hinit hc

theorem ok_of_initial {c : Corpus.State} (h : Corpus.Initial c) :
    c.Ok (modelsContract P meets) (endsWell meets) where
  inv :=
    { wellFormed := h.wellFormed P
      jobs := by simp [h.jobs]
      named := fun a ha => by simp [h.embeddingModel a ha]
      produced := by simp [h.chunks] }
  safe := by simp [h.tasks]

end

/-! ## The results -/

section

variable {P : Platform}

/-- **No corpus mixes embedding models.**  Every stored vector was computed by the model its
assistant has recorded, and a recorded model never changes. -/
theorem corpus_has_one_model {c : Corpus.State}
    (hc : Corpus.Reachable P Corpus.anyCall Corpus.Initial c) :
    (∀ row ∈ c.world.chunks, ∀ e, row.embedding = some e → ∃ a ∈ c.world.assistants,
      a.id = row.assistantId ∧ a.tenantId = row.tenantId ∧ a.embeddingModel = some e.model) ∧
    ∀ c', Corpus.Reachable P Corpus.anyCall (· = c) c' →
      ∀ a ∈ c.world.assistants, ∀ model, a.embeddingModel = some model →
        ∀ a' ∈ c'.world.assistants, a'.id = a.id → a'.embeddingModel = some model := by
  have hok := ok_of_reachable (fun _ h => ok_of_initial h) hc
  refine ⟨fun row hrow e he => hok.inv.produced row hrow e he, fun c' hc' a ha model hm => ?_⟩
  intro a' ha' hid
  have hev : c.world.Evolves c'.world :=
    Pool.world_invariant (fun _ _ _ _ _ h _ hr => h.trans (effect_of_handle hr).evolves)
      (fun _ h => h ▸ Evolves.refl _) hc'
  have hw' : c'.world.WellFormed P :=
    Corpus.wellFormed_of_reachable P
      (fun c₀ (h : c₀ = c) => by rw [h]; exact hok.inv.wellFormed) hc'
  obtain ⟨a'', ha'', hsame, hkept⟩ := hev.assistants a ha
  obtain rfl := hw'.assistant_eq ha' ha'' (hid.trans (congrArg Assistant.id hsame :).symm)
  exact hkept model hm

/-- **A retrieval that returns hits returns its own model's**, in a run whose scans are all for
their own model. -/
theorem hits_have_own_model {c : Corpus.State}
    (hc : Corpus.Reachable P ScansOwnModel Corpus.Initial c) {p : Service TaskResult}
    (hp : p ∈ c.tasks) {model : JsString} {hits : List ChunkHit}
    (hdone : p.outcome = some (.ok (.hits model hits))) :
    ∀ hit ∈ hits, hit.scored.model = model := by
  have hsafe := (ok_of_reachable (fun _ h => ok_of_initial h) hc).safe p hp
  rcases p with result | e | ⟨call, k⟩
  · obtain rfl : result = .hits model hits := by simpa [Proc.outcome] using hdone
    exact hsafe (fun _ _ _ h => h) _ rfl
  · simp [Proc.outcome] at hdone
  · simp [Proc.outcome] at hdone

end

section

open Corpus

/-- One document embedded with model `m`; a worker with model `n` tries another and is refused. -/
def twoModels : List Move :=
  sampleUploading 0 10 [104, 105] ++ [sampleIngest (js "m") 10] ++ resumes 1 1 ++
    sampleParsing 1 20 ++ sampleEmbedding 1 ++
    sampleUploading 2 11 [106] ++ [sampleIngest (js "n") 11] ++ resumes 3 1 ++
    sampleParsing 3 21 ++ resumes 3 2

/-- The refused worker leaves the corpus to model `m`. -/
theorem corpus_has_one_model_twoModels :
    ∃ c : State, Corpus.Reachable samplePlatform anyCall Initial c ∧
    (c.world.chunks.map (·.embedded) = [true, false]) ∧
    ∀ row ∈ c.world.chunks, ∀ e, row.embedding = some e → ∃ a ∈ c.world.assistants,
      a.id = row.assistantId ∧ a.tenantId = row.tenantId ∧ a.embeddingModel = some e.model := by
  obtain ⟨c, hc, hp⟩ := reachable_sample twoModels
    (fun c => c.world.chunks.map (·.embedded) == [true, false]) (by decide +kernel)
  exact ⟨c, hc, by simpa using hp, (corpus_has_one_model hc).1⟩

/-- A question asked with model `model`. -/
def sampleQuestion (model : JsString) : Move :=
  .launch (.retrieve (sampleEmbedder model) 7 { assistantId := 1, question := js "hours?" })

/-- The model is checked before the corpus is claimed, the scan runs after it was embedded. -/
def lateScan : List Move :=
  sampleUploading 0 10 [104, 105] ++ [sampleIngest (js "n") 10] ++ resumes 1 1 ++
    sampleParsing 1 20 ++ [sampleQuestion (js "m"), .resume 2 { vectors := [sampleVector] }] ++
    resumes 2 1 ++ sampleEmbedding 1 ++ resumes 2 1

/-- A retrieval that returned a hit, and whether a hit is another model's. -/
def returnedHit (foreign : Bool) (p : Service TaskResult) : Bool :=
  match p.outcome with
  | some (.ok (.hits model found)) => found.any fun hit => (hit.scored.model != model) == foreign
  | _ => false

theorem exists_of_returnedHit {foreign : Bool} {p : Service TaskResult}
    (h : returnedHit foreign p = true) : ∃ model found, p.outcome = some (.ok (.hits model found)) ∧
      ∃ hit ∈ found, (hit.scored.model != model) = foreign := by
  unfold returnedHit at h
  split at h
  case h_1 model found hdone =>
    obtain ⟨hit, hhit, heq⟩ := List.any_eq_true.mp h
    exact ⟨model, found, hdone, hit, hhit, beq_iff_eq.mp heq⟩
  case h_2 => simp at h

/-- **A query is scored against another model's vectors.** -/
theorem not_hits_have_own_model : ¬ ∀ (P : Platform) (c : State),
    Corpus.Reachable P anyCall Initial c → ∀ p ∈ c.tasks, ∀ model hits,
      p.outcome = some (.ok (.hits model hits)) → ∀ hit ∈ hits, hit.scored.model = model := by
  intro hclaim
  obtain ⟨c, hc, hp⟩ := reachable_sample lateScan (fun c => c.tasks.any (returnedHit true))
    (by decide +kernel)
  obtain ⟨p, hp, hforeign⟩ := List.any_eq_true.mp hp
  obtain ⟨model, found, hdone, hit, hhit, hne⟩ := exists_of_returnedHit hforeign
  simp [hclaim samplePlatform c hc p hp model found hdone hit hhit] at hne

/-- A call that is no scan whose check found no model. -/
def scansChecked (_ : World) : Call → Bool
  | .scanChunks _ _ _ _ none => false
  | _ => true

theorem scansOwnModel_of_scansChecked (w : World) (c : Call) (d : Decision)
    (h : scansChecked w c = true) : ScansOwnModel w c d := by
  rintro - tenantId assistantId query k rfl
  cases h

/-- A question asked once the corpus is claimed. -/
def checkedScan : List Move :=
  sampleUploading 0 10 [104, 105] ++ [sampleIngest (js "m") 10] ++ resumes 1 1 ++
    sampleParsing 1 20 ++ sampleEmbedding 1 ++
    [sampleQuestion (js "m"), .resume 2 { vectors := [sampleVector] }] ++ resumes 2 2

/-- The hit it returns is of its own model. -/
theorem hits_have_own_model_checkedScan : ∃ c : State,
    Corpus.Reachable samplePlatform ScansOwnModel Initial c ∧ ∃ p ∈ c.tasks, ∃ model hits,
      p.outcome = some (.ok (.hits model hits)) ∧ hits ≠ [] ∧
      ∀ hit ∈ hits, hit.scored.model = model := by
  obtain ⟨c, hc, hp⟩ := reachable_from Initial initial_sampleStart scansChecked
    scansOwnModel_of_scansChecked checkedScan (fun c => c.tasks.any (returnedHit false))
      (by decide +kernel)
  obtain ⟨p, hp, hown⟩ := List.any_eq_true.mp hp
  obtain ⟨model, found, hdone, hit, hhit, -⟩ := exists_of_returnedHit hown
  exact ⟨c, hc, p, hp, model, found, hdone, List.ne_nil_of_mem hhit,
    hits_have_own_model hc hp hdone⟩

end

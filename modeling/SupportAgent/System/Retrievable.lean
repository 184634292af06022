import SupportAgent.System.Corpus

/-!
# System/Retrievable — which contents an assistant can answer from, and what a deletion takes

A chunk row belongs to the document that first saved its content, but serves every document of the
assistant that holds it.  Deleting the owner takes the row along: `retrievable_after_delete_iff`
says for which documents that matters.
-/

open Async Ingestion

/-- A content the vector scan can find: a row of the assistant with it and a vector. -/
def World.hasVector (w : World) (tenantId assistantId : Uuid) (content : JsString) : Bool :=
  w.chunks.any fun row => row.tenantId == tenantId && row.assistantId == assistantId &&
    row.content == content && row.embedded

theorem World.hasVector_iff {w : World} {tenantId assistantId : Uuid} {content : JsString} :
    w.hasVector tenantId assistantId content = true ↔ ∃ row ∈ w.chunks, row.tenantId = tenantId ∧
      row.assistantId = assistantId ∧ row.content = content ∧ row.embedded = true := by
  simp [hasVector, and_assoc]

/-- Rows of one assistant with one content are one row. -/
theorem World.WellFormed.chunk_eq_of_content {P : Platform} {w : World} (hw : w.WellFormed P)
    {row row' : Chunk} (hrow : row ∈ w.chunks) (hrow' : row' ∈ w.chunks)
    (ht : row.tenantId = row'.tenantId) (ha : row.assistantId = row'.assistantId)
    (hcontent : row.content = row'.content) : row = row' := by
  refine hw.chunk_eq hrow hrow' (Chunk.conflicts_iff.mpr (.inr ⟨ht, ha, ?_⟩))
  rw [hw.chunkHash row hrow, hw.chunkHash row' hrow', hcontent]

/-- What a deletion leaves: every chunk of another document. -/
theorem World.WellFormed.mem_deleteDocument {P : Platform} {w : World} (hw : w.WellFormed P)
    {doc : Document} (hdoc : doc ∈ w.documents) {row : Chunk} :
    row ∈ (w.deleteDocument doc.tenantId doc.id).chunks ↔
    row ∈ w.chunks ∧ row.documentId ≠ doc.id := by
  refine List.mem_filter.trans (and_congr_right fun hrow => ?_)
  rw [Bool.not_eq_true', ← Bool.not_eq_true, not_iff_not, List.any_eq_true]
  constructor
  · rintro ⟨doc', -, htaken⟩
    obtain ⟨hvis, href⟩ := Bool.and_eq_true_iff.mp htaken
    exact (Chunk.references_iff.mp href).1.trans (Document.visible_iff.mp hvis).1
  · intro hid
    exact ⟨doc, hdoc, by simp [hw.references_of_documentId hrow hdoc hid]⟩

/-- **What another document's deletion leaves retrievable.**  The contents of a completed document
stay retrievable exactly when the deleted document owns no chunk with one of them. -/
theorem retrievable_after_delete_iff {P : Platform} {c : Corpus.State}
    (hc : Corpus.Reachable P Corpus.anyCall Corpus.Initial c) {A B : Document}
    (hA : A ∈ c.world.documents) (_ : B ∈ c.world.documents) (_ : A.id ≠ B.id)
    (ht : A.tenantId = B.tenantId) (ha : A.assistantId = B.assistantId) (_ : B.status = .READY)
    {drafts : List ChunkDraft} (_ : c.world.chunksOf P B = .ok drafts)
    (hvector : ∀ x ∈ drafts, c.world.hasVector B.tenantId B.assistantId x.content = true) :
    (∀ x ∈ drafts, (c.world.deleteDocument A.tenantId A.id).hasVector B.tenantId B.assistantId
      x.content = true) ↔
    ∀ row ∈ c.world.chunks, row.documentId = A.id → ∀ x ∈ drafts, row.content ≠ x.content := by
  have hw := Corpus.wellFormed_of_reachable P (fun _ h => h.wellFormed P) hc
  constructor
  · intro hafter row hrow hid x hx hcontent
    -- the row left with this content would be the deleted one
    obtain ⟨row', hrow', ht', ha', hcontent', -⟩ := World.hasVector_iff.mp (hafter x hx)
    obtain ⟨hmem, hne⟩ := (hw.mem_deleteDocument hA).mp hrow'
    obtain ⟨-, hrt, hra⟩ := Chunk.references_iff.mp (hw.references_of_documentId hrow hA hid)
    obtain rfl := hw.chunk_eq_of_content hmem hrow (ht'.trans (ht.symm.trans hrt.symm))
      (ha'.trans (ha.symm.trans hra.symm)) (hcontent'.trans hcontent.symm)
    exact hne hid
  · intro hown x hx
    obtain ⟨row, hrow, hrt, hra, hcontent, hvec⟩ := World.hasVector_iff.mp (hvector x hx)
    have hne : row.documentId ≠ A.id := fun hid => hown row hrow hid x hx hcontent
    exact World.hasVector_iff.mpr
      ⟨row, (hw.mem_deleteDocument hA).mpr ⟨hrow, hne⟩, hrt, hra, hcontent, hvec⟩

section

open Corpus

/-- Document 10 is ingested, then document 11 with the same text. -/
def sameText : List Move :=
  sampleUploading 0 10 [104, 105] ++ [sampleIngest (js "m") 10] ++ resumes 1 1 ++
    sampleParsing 1 20 ++ sampleEmbedding 1 ++
    sampleUploading 2 11 [104, 105] ++ [sampleIngest (js "m") 11] ++ resumes 3 1 ++
    sampleParsing 3 21 ++ resumes 3 2

/-- Two documents of one assistant, the second one completed with all its contents retrievable. -/
def coveredPair (c : State) (A B : Document) : Bool :=
  A.id != B.id && A.tenantId == B.tenantId && A.assistantId == B.assistantId &&
    B.status == .READY && match c.world.chunksOf samplePlatform B with
      | .ok drafts => !drafts.isEmpty &&
        drafts.all fun x => c.world.hasVector B.tenantId B.assistantId x.content
      | .error _ => false

theorem drafts_of_coveredPair {c : State} {A B : Document} (h : coveredPair c A B = true) :
    A.id ≠ B.id ∧ A.tenantId = B.tenantId ∧ A.assistantId = B.assistantId ∧ B.status = .READY ∧
      ∃ drafts, c.world.chunksOf samplePlatform B = .ok drafts ∧ drafts ≠ [] ∧
        ∀ x ∈ drafts, c.world.hasVector B.tenantId B.assistantId x.content = true := by
  simp only [coveredPair, Bool.and_eq_true, bne_iff_ne, beq_iff_eq] at h
  obtain ⟨⟨⟨⟨hne, ht⟩, ha⟩, hready⟩, hmatch⟩ := h
  split at hmatch
  case h_1 drafts hdrafts =>
    obtain ⟨hnonempty, hvector⟩ := Bool.and_eq_true_iff.mp hmatch
    exact ⟨hne, ht, ha, hready, drafts, hdrafts, by simpa using hnonempty,
      List.all_eq_true.mp hvector⟩
  case h_2 => simp at hmatch

/-- The second document owns nothing: deleting it leaves the first one whole. -/
theorem retrievable_after_delete_copy : ∃ (c : State) (A B : Document) (drafts : List ChunkDraft),
    A ∈ c.world.documents ∧ B ∈ c.world.documents ∧ A.id = 11 ∧ B.id = 10 ∧ drafts ≠ [] ∧
    ∀ x ∈ drafts, (c.world.deleteDocument A.tenantId A.id).hasVector B.tenantId B.assistantId
      x.content = true := by
  obtain ⟨c, hc, hp⟩ := reachable_sample sameText (fun c => c.world.documents.any fun A =>
    c.world.documents.any fun B => A.id == 11 && B.id == 10 && coveredPair c A B &&
      c.world.chunks.all fun row => row.documentId != A.id) (by decide +kernel)
  obtain ⟨A, hA, hp⟩ := List.any_eq_true.mp hp
  obtain ⟨B, hB, hp⟩ := List.any_eq_true.mp hp
  simp only [Bool.and_eq_true, beq_iff_eq] at hp
  obtain ⟨⟨⟨hA11, hB10⟩, hcovered⟩, hown⟩ := hp
  obtain ⟨hne, ht, ha, hready, drafts, hdrafts, hnonempty, hvector⟩ :=
    drafts_of_coveredPair hcovered
  refine ⟨c, A, B, drafts, hA, hB, hA11, hB10, hnonempty, ?_⟩
  refine (retrievable_after_delete_iff hc hA hB hne ht ha hready hdrafts hvector).mpr ?_
  exact fun row hrow hid => absurd hid (by simpa using List.all_eq_true.mp hown row hrow)

/-- **Deleting the first of two copies takes the second one's content out of retrieval.** -/
theorem not_retrievable_after_delete : ¬ ∀ (P : Platform) (c : State),
    Corpus.Reachable P anyCall Initial c → ∀ A ∈ c.world.documents, ∀ B ∈ c.world.documents,
      A.id ≠ B.id → A.tenantId = B.tenantId → A.assistantId = B.assistantId → B.status = .READY →
      ∀ drafts, c.world.chunksOf P B = .ok drafts →
      (∀ x ∈ drafts, c.world.hasVector B.tenantId B.assistantId x.content = true) →
      ∀ x ∈ drafts, (c.world.deleteDocument A.tenantId A.id).hasVector B.tenantId B.assistantId
        x.content = true := by
  intro hclaim
  obtain ⟨c, hc, hp⟩ := reachable_sample sameText (fun c => c.world.documents.any fun A =>
    c.world.documents.any fun B => coveredPair c A B &&
      (c.world.deleteDocument A.tenantId A.id).chunks.isEmpty) (by decide +kernel)
  obtain ⟨A, hA, hp⟩ := List.any_eq_true.mp hp
  obtain ⟨B, hB, hp⟩ := List.any_eq_true.mp hp
  obtain ⟨hcovered, hempty⟩ := Bool.and_eq_true_iff.mp hp
  obtain ⟨hne, ht, ha, hready, drafts, hdrafts, hnonempty, hvector⟩ :=
    drafts_of_coveredPair hcovered
  obtain ⟨x, hx⟩ := List.exists_mem_of_ne_nil drafts hnonempty
  have hafter := hclaim samplePlatform c hc A hA B hB hne ht ha hready drafts hdrafts hvector x hx
  obtain ⟨row, hrow, -⟩ := World.hasVector_iff.mp hafter
  simp [List.isEmpty_iff.mp hempty] at hrow

end

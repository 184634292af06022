import SupportAgent.Store.Constraints

/-!
# Store/Saves — saving chunks is a union

What `saveChunks` leaves for an assistant is the union of what was there and what it was passed
(`mem_contents_of_saveChunks`), each content in one row; so calls made one after the other may be
repeated and reordered (`saveChunks_union`).
-/

open Ingestion

/-- The arguments of a call of `saveChunks`. -/
structure Save where
  documentId : Uuid
  tenantId : Uuid
  assistantId : Uuid
  chunks : List ChunkDraft

def Save.call (s : Save) : Call := .saveChunks s.documentId s.tenantId s.assistantId s.chunks

/-- The call passes this content for this assistant. -/
def Save.Passes (s : Save) (tenantId assistantId : Uuid) (content : JsString) : Prop :=
  s.tenantId = tenantId ∧ s.assistantId = assistantId ∧ ∃ x ∈ s.chunks, x.content = content

namespace World

variable {P : Platform} {w w' w₁ : World} {d : Decision} {s : Save} {saved : SavedChunks}
  {tenantId assistantId : Uuid} {content : JsString}

/-- The contents stored for an assistant, row by row. -/
def contents (w : World) (tenantId assistantId : Uuid) : List JsString :=
  (w.chunks.filter fun c => c.tenantId == tenantId && c.assistantId == assistantId).map (·.content)

theorem mem_contents : content ∈ w.contents tenantId assistantId ↔ ∃ row ∈ w.chunks,
    row.tenantId = tenantId ∧ row.assistantId = assistantId ∧ row.content = content := by
  simp [contents, and_assoc]

/-- **No content is stored twice.** -/
theorem WellFormed.nodup_contents (hw : w.WellFormed P) (tenantId assistantId : Uuid) :
    (w.contents tenantId assistantId).Nodup := by
  refine List.pairwise_map.mpr ?_
  refine (hw.chunkUnique.filter _).imp_of_mem fun {row row'} hrow hrow' hconf heq => ?_
  obtain ⟨hmem, hkey⟩ := List.mem_filter.mp hrow
  obtain ⟨hmem', hkey'⟩ := List.mem_filter.mp hrow'
  obtain ⟨ht, ha⟩ := Bool.and_eq_true_iff.mp hkey
  obtain ⟨ht', ha'⟩ := Bool.and_eq_true_iff.mp hkey'
  have hhash : row.contentHash = row'.contentHash := by
    rw [hw.chunkHash row hmem, hw.chunkHash row' hmem', heq]
  have hsame : row.conflicts row' = true := Chunk.conflicts_iff.mpr
    (.inr ⟨(beq_iff_eq.mp ht).trans (beq_iff_eq.mp ht').symm,
      (beq_iff_eq.mp ha).trans (beq_iff_eq.mp ha').symm, hhash⟩)
  exact Bool.false_ne_true (hconf.symm.trans hsame)

/-! ## One call -/

/-- The rows a call offers. -/
def offered (P : Platform) (s : Save) (ids : List Uuid) : List Chunk :=
  List.zipWith (chunkRow P s.documentId s.tenantId s.assistantId) ids s.chunks

/-- What a call that returned has done, and what it said. -/
theorem eq_of_saveChunks (h : w.handle P s.call d = some (.ok saved, w')) :
    w' = { w with
      chunks := Table.createMany Chunk.conflicts w.chunks (offered P s d.ids)
      issued := w.issued ++ d.ids } ∧
    saved = ⟨w'.chunks.length - w.chunks.length, s.chunks.length⟩ := by
  have hexec := exec_of_handle_ok h
  simp only [Save.call, exec, insertChunks_eq] at hexec
  split at hexec
  case isFalse => simp at hexec
  case isTrue =>
    split at hexec
    case isFalse => simp at hexec
    case isTrue =>
      obtain ⟨hsaved, rfl⟩ := Prod.mk.inj (Option.some.inj hexec)
      exact ⟨rfl, (Except.ok.inj hsaved).symm⟩

/-- **Rows already there stay as they are.** -/
theorem prefix_of_saveChunks (h : w.handle P s.call d = some (.ok saved, w')) :
    w.chunks <+: w'.chunks := by
  rw [(eq_of_saveChunks h).1]
  exact Table.prefix_createMany _ _ _

/-- **What a save returns**: the number of rows it added, and that of the chunks it was passed. -/
theorem counts_of_saveChunks (h : w.handle P s.call d = some (.ok saved, w')) :
    w'.chunks.length = w.chunks.length + saved.inserted ∧ saved.total = s.chunks.length := by
  have hle := (prefix_of_saveChunks h).length_le
  rw [(eq_of_saveChunks h).2]
  exact ⟨by dsimp only; omega, rfl⟩

/-- **A save adds what it is passed**, and nothing else. -/
theorem mem_contents_of_saveChunks (hinj : Function.Injective P.hashChunkContent)
    (hw : w.WellFormed P) (h : w.handle P s.call d = some (.ok saved, w')) :
    content ∈ w'.contents tenantId assistantId ↔
      content ∈ w.contents tenantId assistantId ∨ s.Passes tenantId assistantId content := by
  constructor
  · intro hmem
    obtain ⟨row, hrow, ht, ha, hcontent⟩ := mem_contents.mp hmem
    rw [(eq_of_saveChunks h).1] at hrow
    rcases Table.mem_of_mem_createMany hrow with hrow | hrow
    · exact .inl (mem_contents.mpr ⟨row, hrow, ht, ha, hcontent⟩)
    · obtain ⟨i, -, x, hx, rfl⟩ := mem_zipWith_chunkRow hrow
      exact .inr ⟨ht, ha, x, hx, hcontent⟩
  · rintro (hmem | ⟨rfl, rfl, x, hx, rfl⟩)
    · obtain ⟨row, hrow, hfields⟩ := mem_contents.mp hmem
      exact mem_contents.mpr ⟨row, (prefix_of_saveChunks h).subset hrow, hfields⟩
    · exact mem_contents.mpr (exists_of_saveChunks hinj hw h x hx)

/-- **A save of contents already there changes no row.** -/
theorem saveChunks_again (hw : w.WellFormed P)
    (hall : ∀ x ∈ s.chunks, x.content ∈ w.contents s.tenantId s.assistantId)
    (h : w.handle P s.call d = some (.ok saved, w')) :
    saved.inserted = 0 ∧ w' = { w with issued := w.issued ++ d.ids } := by
  obtain ⟨hw', hsaved⟩ := eq_of_saveChunks h
  have hsame : Table.createMany Chunk.conflicts w.chunks (offered P s d.ids) = w.chunks := by
    refine Table.createMany_eq_self fun r hr => ?_
    obtain ⟨i, -, x, hx, rfl⟩ := mem_zipWith_chunkRow hr
    obtain ⟨row, hrow, ht, ha, hcontent⟩ := mem_contents.mp (hall x hx)
    refine List.any_eq_true.mpr ⟨row, hrow, Chunk.conflicts_iff.mpr (.inr ⟨ht.symm, ha.symm, ?_⟩)⟩
    rw [hw.chunkHash row hrow, hcontent]
    rfl
  rw [hsame] at hw'
  rw [hsaved, hw']
  exact ⟨Nat.sub_self _, rfl⟩

/-- The document a call names is there. -/
def HasDocument (w : World) (s : Save) : Prop :=
  ∃ doc ∈ w.documents, doc.id = s.documentId ∧ doc.tenantId = s.tenantId ∧
    doc.assistantId = s.assistantId

/-- **A save for a document that is there returns**, unless the store fails. -/
theorem saveChunks_returns (hdoc : w.HasDocument s) (hfault : d.fault = none)
    (hlen : d.ids.length = s.chunks.length) (hnodup : d.ids.Nodup)
    (hfresh : ∀ i ∈ d.ids, i ∉ w.issued) :
    ∃ saved w', w.handle P s.call d = some (.ok saved, w') := by
  obtain ⟨doc, hmem, hid, ht, ha⟩ := hdoc
  obtain ⟨added, hadded, hsub⟩ :=
    Table.exists_createMany_eq Chunk.conflicts w.chunks (offered P s d.ids)
  have hparents : (added.all fun c => w.documents.any c.references) = true := by
    refine List.all_eq_true.mpr fun row hrow => ?_
    obtain ⟨i, -, x, -, rfl⟩ := mem_zipWith_chunkRow (hsub.subset hrow)
    exact List.any_eq_true.mpr ⟨doc, hmem, Chunk.references_iff.mpr ⟨hid.symm, ht.symm, ha.symm⟩⟩
  refine ⟨⟨(w.chunks ++ added).length - w.chunks.length, s.chunks.length⟩,
    { w with chunks := w.chunks ++ added, issued := w.issued ++ d.ids }, ?_⟩
  rw [handle, hfault]
  change w.exec P s.call d = _
  simp only [Save.call, exec, insertChunks_eq]
  rw [if_pos ⟨hlen, hnodup, hfresh⟩, ← offered, hadded, List.drop_left, if_pos hparents]

/-! ## Calls one after the other -/

/-- Calls that all returned, with what each returned. -/
inductive Saves (P : Platform) : World → List (Save × SavedChunks) → World → Prop
  | nil (w : World) : Saves P w [] w
  | cons {w w₁ w' : World} {s : Save} {saved : SavedChunks} {rest : List (Save × SavedChunks)}
      {d : Decision} (first : w.handle P s.call d = some (.ok saved, w₁))
      (next : Saves P w₁ rest w') : Saves P w ((s, saved) :: rest) w'

variable {run run' : List (Save × SavedChunks)}

theorem Saves.wellFormed (h : Saves P w run w') (hw : w.WellFormed P) : w'.WellFormed P := by
  induction h with
  | nil => exact hw
  | cons first _ ih => exact ih (hw.step (effect_of_handle first))

theorem Saves.documents (h : Saves P w run w') : w'.documents = w.documents := by
  induction h with
  | nil => rfl
  | cons first _ ih => rw [ih, (eq_of_saveChunks first).1]

/-- Rows that were there stay as they are. -/
theorem Saves.prefix_chunks (h : Saves P w run w') : w.chunks <+: w'.chunks := by
  induction h with
  | nil => exact List.prefix_rfl
  | cons first _ ih => exact (prefix_of_saveChunks first).trans ih

/-- **The contents afterwards** are those before and those passed. -/
theorem Saves.mem_contents (hinj : Function.Injective P.hashChunkContent) (h : Saves P w run w')
    (hw : w.WellFormed P) : content ∈ w'.contents tenantId assistantId ↔
      content ∈ w.contents tenantId assistantId ∨
        ∃ s ∈ run.map (·.1), s.Passes tenantId assistantId content := by
  induction h with
  | nil => simp
  | cons first _ ih =>
    rw [ih (hw.step (effect_of_handle first)), mem_contents_of_saveChunks hinj hw first, or_assoc]
    simp only [List.map_cons, List.mem_cons, exists_eq_or_imp]

/-- **Saving chunks is an idempotent, order-independent union.**  After any calls made one after the
other: every assistant has the contents it had and those passed for it, none of them twice; the rows
that were there are as they were; and a further call keeps all rows, says how many it added and how
many chunks it was passed, returns if its document is there and, if it repeats an earlier call,
changes no row.  The same calls in another order leave the same contents. -/
theorem saveChunks_union (hinj : Function.Injective P.hashChunkContent) (hw : w.WellFormed P)
    (h : Saves P w run w') :
    (∀ tenantId assistantId content, content ∈ w'.contents tenantId assistantId ↔
      content ∈ w.contents tenantId assistantId ∨
        ∃ s ∈ run.map (·.1), s.Passes tenantId assistantId content) ∧
    (∀ tenantId assistantId, (w'.contents tenantId assistantId).Nodup) ∧
    w.chunks <+: w'.chunks ∧
    (∀ s d saved w₁, w'.handle P s.call d = some (.ok saved, w₁) →
      w'.chunks <+: w₁.chunks ∧ w₁.chunks.length = w'.chunks.length + saved.inserted ∧
      saved.total = s.chunks.length ∧
      (s ∈ run.map (·.1) → saved.inserted = 0 ∧ w₁ = { w' with issued := w'.issued ++ d.ids })) ∧
    (∀ s d, w.HasDocument s → d.fault = none → d.ids.length = s.chunks.length → d.ids.Nodup →
      (∀ i ∈ d.ids, i ∉ w'.issued) → ∃ saved w₁, w'.handle P s.call d = some (.ok saved, w₁)) ∧
    ∀ run' w₁, Saves P w run' w₁ → (run'.map (·.1)).Perm (run.map (·.1)) →
      ∀ tenantId assistantId content, content ∈ w₁.contents tenantId assistantId ↔
        content ∈ w'.contents tenantId assistantId := by
  refine ⟨fun _ _ _ => h.mem_contents hinj hw, (h.wellFormed hw).nodup_contents, h.prefix_chunks,
    fun s d saved w₁ hnext => ?_, fun s d hdoc => ?_, fun run' w₁ h' hperm t a content => ?_⟩
  · refine ⟨prefix_of_saveChunks hnext, (counts_of_saveChunks hnext).1,
      (counts_of_saveChunks hnext).2,
      fun hs => saveChunks_again (h.wellFormed hw) (fun x hx => ?_) hnext⟩
    exact (h.mem_contents hinj hw).mpr (.inr ⟨s, hs, rfl, rfl, x, hx, rfl⟩)
  · refine saveChunks_returns ?_
    rw [HasDocument, h.documents]
    exact hdoc
  · rw [h.mem_contents hinj hw, h'.mem_contents hinj hw]
    refine or_congr_right (exists_congr fun s => and_congr_left fun _ => ?_)
    exact hperm.mem_iff

/-! ## A save made twice -/

/-- A document with nothing saved yet. -/
def freshDocument : World where
  assistants := [sampleAssistant]
  documents := [NewDocument.row ⟨10, 7, 1, js "faq.txt", .TXT, ⟨7, 10⟩, .PARSING⟩ 0]
  issued := [10]

def hiDraft : ChunkDraft := ⟨js "hi", js "hi", 1, none, 0, 2, 1⟩

/-- Two chunks of one content. -/
def repeatedSave : Save := ⟨10, 7, 1, [hiDraft, hiDraft]⟩

/-- The document after one row was saved, with the ids drawn. -/
def savedDocument (issued : List Uuid) : World :=
  { freshDocument with
    chunks := [chunkRow samplePlatform 10 7 1 20 hiDraft]
    issued }

theorem wellFormed_freshDocument : freshDocument.WellFormed samplePlatform where
  assistantIds := by decide
  documentIds := by decide
  documentIssued := by simp [freshDocument, NewDocument.row]
  documentParent := by simp [freshDocument, NewDocument.row, sampleAssistant]
  chunkUnique := List.Pairwise.nil
  chunkIssued := by simp [freshDocument]
  chunkParent := by simp [freshDocument]
  chunkHash := by simp [freshDocument]

/-- Saved twice, two equal chunks are one row. -/
theorem saveChunks_union_twice :
    ((savedDocument [10, 20, 21, 22, 23]).contents 7 1).Nodup ∧
      freshDocument.chunks <+: (savedDocument [10, 20, 21, 22, 23]).chunks := by
  have hinj : Function.Injective samplePlatform.hashChunkContent := fun _ _ h => h
  have hfirst : freshDocument.handle samplePlatform repeatedSave.call { ids := [20, 21] } =
      some (.ok ⟨1, 2⟩, savedDocument [10, 20, 21]) := rfl
  have hsecond : (savedDocument [10, 20, 21]).handle samplePlatform repeatedSave.call
      { ids := [22, 23] } = some (.ok ⟨0, 2⟩, savedDocument [10, 20, 21, 22, 23]) := rfl
  have h := saveChunks_union hinj wellFormed_freshDocument (.cons hfirst (.cons hsecond (.nil _)))
  exact ⟨h.2.1 7 1, h.2.2.1⟩

end World

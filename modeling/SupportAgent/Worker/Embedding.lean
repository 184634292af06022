import SupportAgent.Store.Constraints
import SupportAgent.Worker.Pipeline

/-!
# Worker/Embedding — vectors written exactly once

The embed stage run again and again on one document, one attempt at a time, over a store and an
embedder that may fail at any call.  `Ledger` sets down the batches written.  Between two calls of
an attempt the chunks still to be embedded are those of the slices not yet written (`Remaining`); a
write takes the next slice off (`WrittenOnce.write`), and the attempt that runs out of slices has
left none.
-/

open Async World

/-- The world, with what the embed stage did to it: what the attempt at work found to embed, the
batches it wrote, the batches written in all attempts, and whether a call of the attempt failed. -/
structure Ledger where
  world : World
  pending : List PendingChunk := []
  written : List (List Uuid) := []
  persisted : List (List Uuid) := []
  failed : Bool := false

/-- An answer the embed stage takes: one vector per text, each fit for the column. -/
def answered (texts : List JsString) (vectors : List (List JsNumber)) : Bool :=
  vectors.length == texts.length && vectors.all fitsVectorColumn

namespace Ledger

/-- What a call that went through adds to the ledger. -/
def note (s : Ledger) (w : World) : (c : Call) → c.Res → Ledger
  | .getUnembeddedChunks .., pending =>
    { s with world := w, pending, written := [], failed := false }
  | .embed _ texts, vectors =>
    { s with world := w, failed := s.failed || !answered texts (vectors.map (·.vector)) }
  | .setChunkEmbeddings _ _ updates, _ =>
    { s with
      world := w
      written := s.written ++ [updates.map (·.1)]
      persisted := s.persisted ++ [updates.map (·.1)] }
  | _, _ => { s with world := w }

/-- A failed call. -/
def fail (s : Ledger) : Ledger := { s with failed := true }

/-- A call going through, or rejected by the store. -/
def exec (P : Platform) (s : Ledger) (c : Call) (d : Decision) :
    Option (Except JsError c.Res × Ledger) :=
  (s.world.exec P c d).map fun rw =>
    (rw.1, match rw.1 with
      | .ok v => s.note rw.2 c v
      | .error _ => { s with world := rw.2 })

/-- **A call, whatever happens to it.** -/
def handle (P : Platform) : Handler backend JsError Decision Ledger := fun s c d =>
  (Fault.through d.fault s (s.exec P c d)).map fun rs =>
    (rs.1, match rs.1 with
      | .ok _ => rs.2
      | .error _ => rs.2.fail)

end Ledger

/-- **The embedder**: an answer of the right count, width and finiteness holds a vector of each
text, in order.  Any other answer is a failure of the call, as a rejection is. -/
def EmbedderAnswers (R : JsString → List JsNumber → Prop) (_ : Ledger) (c : Call) (d : Decision) :
    Prop :=
  d.fault = none → ∀ model texts, c = .embed model texts → answered texts d.vectors = true →
    List.Forall₂ R texts d.vectors

namespace EmbedRuns

/-- The ledger, and the attempt at work. -/
abbrev State : Type := Solo backend JsError Unit Ledger

/-- A move: an attempt starts, goes on or is lost; nothing else happens. -/
abbrev Move : Type := Solo.Move Unit Decision Empty

/-- **One move.** -/
def step (P : Platform) (embedder : Embedder) (job : IngestJobData) : State → Move → Option State :=
  Solo.step (Ledger.handle P) (fun _ _ => some ((embedStage embedder).run job))
    (fun _ e => nomatch e)

/-- The start: any world, no attempt. -/
def Initial (P : Platform) (w₀ : World) (c : State) : Prop :=
  w₀.WellFormed P ∧ c = ⟨{ world := w₀ }, none⟩

/-- The states of the runs with an embedder. -/
abbrev Reachable (P : Platform) (R : JsString → List JsNumber → Prop) (embedder : Embedder)
    (job : IngestJobData) (init : State → Prop) : State → Prop :=
  Run.Reachable (step P embedder job) (Solo.Meets (EmbedderAnswers R)) init

end EmbedRuns

/-- The chunks that have a vector. -/
def World.embeddedIds (w : World) : List Uuid := (w.chunks.filter Chunk.embedded).map (·.id)

/-- **The ledger and the chunks agree**, given the chunks at the start: the chunks with a vector are
those that had one and those of the batches written, no chunk twice; every vector written is one of
its own chunk's content; and what the attempt wrote are slices of what it found, in order. -/
structure WrittenOnce (P : Platform) (R : JsString → List JsNumber → Prop) (model : JsString)
    (w₀ : World) (s : Ledger) : Prop where
  wellFormed : s.world.WellFormed P
  rows : s.world.chunks.map Chunk.bare = w₀.chunks.map Chunk.bare
  embedded_iff : ∀ row ∈ s.world.chunks,
    row.embedded = true ↔ row.id ∈ w₀.embeddedIds ++ s.persisted.flatten
  once : (w₀.embeddedIds ++ s.persisted.flatten).Nodup
  vectors : ∀ row ∈ s.world.chunks, ∀ e, row.embedding = some e →
    row ∈ w₀.chunks ∨ e.model = model ∧ R row.content e.vector
  whole : s.written <+: (Table.slices EMBED_BATCH_SIZE s.pending).map (·.map (·.id))
  recent : s.written <:+ s.persisted

/-- **What is left to an attempt**: its next slices hold the chunks of the document that have no
vector, and no others. -/
structure Remaining (job : IngestJobData) (rest : List (List PendingChunk)) (s : Ledger) :
    Prop where
  split : (Table.slices EMBED_BATCH_SIZE s.pending).map (·.map (·.id)) =
    s.written ++ rest.map (·.map (·.id))
  rows : ∀ p ∈ rest.flatten, ∃ row ∈ s.world.chunks, row.id = p.id ∧ row.content = p.content ∧
    row.tenantId = job.tenantId ∧ row.embedding = none
  nodup : (rest.flatten.map (·.id)).Nodup
  covers : ∀ row ∈ s.world.chunks, row.documentId = job.documentId → row.tenantId = job.tenantId →
    row.embedding = none → row.id ∈ rest.flatten.map (·.id)

/-- No vector is taken away or replaced: a chunk that has one stays as it is. -/
def KeepsVectors (s s' : Ledger) : Prop :=
  ∀ row ∈ s.world.chunks, row.embedded = true → row ∈ s'.world.chunks

section

variable {P : Platform} {R : JsString → List JsNumber → Prop} {model : JsString} {w₀ : World}
  {s : Ledger} {job : IngestJobData} {batch : List PendingChunk} {rest : List (List PendingChunk)}

theorem WrittenOnce.fail (h : WrittenOnce P R model w₀ s) : WrittenOnce P R model w₀ s.fail :=
  ⟨h.wellFormed, h.rows, h.embedded_iff, h.once, h.vectors, h.whole, h.recent⟩

theorem Remaining.fail (h : Remaining job rest s) : Remaining job rest s.fail :=
  ⟨h.split, h.rows, h.nodup, h.covers⟩

/-! ## A batch written -/

/-- An update leaves a row it does not name as it is. -/
theorem embedIn_of_notMem {tenantId : Uuid} {updates : List (Uuid × Embedding)} {row : Chunk}
    (h : row.id ∉ updates.map (·.1)) : row.embedIn tenantId updates = row := by
  rw [Chunk.embedIn, updateFor_eq_none_iff.mpr h]

/-- What a written batch makes of a row it names: a row without a vector gets one of its own
content. -/
theorem embedIn_of_mem (hw : s.world.WellFormed P) (hrem : Remaining job (batch :: rest) s)
    {vectors : List Embedding} (hmodel : ∀ e ∈ vectors, e.model = model)
    (hvectors : List.Forall₂ R (batch.map (·.content)) (vectors.map (·.vector))) {row : Chunk}
    (hrow : row ∈ s.world.chunks)
    (hmem : row.id ∈ ((batch.zip vectors).map fun x => (x.1.id, x.2)).map (·.1)) :
    row.embedding = none ∧ ∃ e,
      row.embedIn job.tenantId ((batch.zip vectors).map fun x => (x.1.id, x.2)) =
        { row with embedding := some e } ∧ e.model = model ∧ R row.content e.vector := by
  rcases hu : updateFor ((batch.zip vectors).map fun x => (x.1.id, x.2)) row with _ | e
  · exact absurd hmem (updateFor_eq_none_iff.mp hu)
  obtain ⟨x, hx, heq⟩ := List.mem_map.mp (mem_of_updateFor hu)
  obtain ⟨hid, rfl⟩ := Prod.mk.inj heq
  obtain ⟨hp, hv⟩ := List.of_mem_zip hx
  -- the row is the one the pending chunk was read from
  obtain ⟨row', hrow', hid', hcontent, ht, hnone⟩ :=
    hrem.rows x.1 (List.mem_append_left _ hp)
  obtain rfl := hw.chunk_eq hrow hrow' (Chunk.conflicts_iff.mpr (.inl (hid.symm.trans hid'.symm)))
  refine ⟨hnone, x.2, ?_, hmodel x.2 hv, ?_⟩
  · rw [Chunk.embedIn, hu]
    exact if_pos ht
  · rw [hcontent]
    have hzip : List.Forall₂ (fun p e => R p.content e.vector) batch vectors :=
      List.forall₂_map_left_iff.mp (List.forall₂_map_right_iff.mp hvectors)
    exact List.forall₂_iff_zip.mp hzip |>.2 hx

/-- **What the write of a batch does to the chunks**: those it names had no vector and get one of
their own content, the others stay. -/
structure BatchWritten (R : JsString → List JsNumber → Prop) (model : JsString) (ids : List Uuid)
    (write : Chunk → Chunk) (w w' : World) : Prop where
  chunks : w'.chunks = w.chunks.map write
  bare : ∀ row, (write row).bare = row.bare
  named : ∀ row ∈ w.chunks, row.id ∈ ids → row.embedding = none ∧ ∃ e,
    write row = { row with embedding := some e } ∧ e.model = model ∧ R row.content e.vector
  others : ∀ row, row.id ∉ ids → write row = row

theorem batchWritten (hw : s.world.WellFormed P) (hrem : Remaining job (batch :: rest) s)
    {vectors : List Embedding} (hmodel : ∀ e ∈ vectors, e.model = model)
    (hvectors : List.Forall₂ R (batch.map (·.content)) (vectors.map (·.vector))) {d : Decision}
    {w' : World} (hexec : s.world.exec P (.setChunkEmbeddings job.tenantId job.documentId
      ((batch.zip vectors).map fun x => (x.1.id, x.2))) d = some (.ok (), w')) :
    BatchWritten R model (batch.map (·.id))
      (Chunk.embedIn job.tenantId ((batch.zip vectors).map fun x => (x.1.id, x.2))) s.world w' := by
  have hids : ((batch.zip vectors).map fun x => (x.1.id, x.2)).map (·.1) = batch.map (·.id) :=
    map_fst_updates (by simpa using hvectors.length_eq)
  refine ⟨chunks_of_setChunkEmbeddings (P := P) (d := { d with fault := none }) hexec,
    fun row => (embedIn_cases _ _ row).1, fun row hrow hmem => ?_, fun row hmem => ?_⟩
  · exact embedIn_of_mem hw hrem hmodel hvectors hrow (hids.symm ▸ hmem)
  · exact embedIn_of_notMem (hids.symm ▸ hmem)

section

variable {ids : List Uuid} {write : Chunk → Chunk} {w w' : World} {row row' : Chunk}

theorem BatchWritten.embedded (h : BatchWritten R model ids write w w') (hrow : row ∈ w.chunks) :
    (write row).embedded = true ↔ row.embedded = true ∨ row.id ∈ ids := by
  by_cases hmem : row.id ∈ ids
  · obtain ⟨-, e, heq, -⟩ := h.named row hrow hmem
    rw [heq]
    exact ⟨fun _ => .inr hmem, fun _ => rfl⟩
  · rw [h.others row hmem]
    exact ⟨.inl, fun hor => hor.resolve_right hmem⟩

/-- A chunk that has a vector is not in the batch. -/
theorem BatchWritten.notMem (h : BatchWritten R model ids write w w') (hrow : row ∈ w.chunks)
    (he : row.embedded = true) : row.id ∉ ids := by
  intro hmem
  have hnone := (h.named row hrow hmem).1
  simp [Chunk.embedded, hnone] at he

/-- A vector there afterwards was there, or is of its own chunk's content. -/
theorem BatchWritten.vector (h : BatchWritten R model ids write w w') (hrow : row ∈ w.chunks)
    {e : Embedding} (he : (write row).embedding = some e) :
    write row = row ∨ e.model = model ∧ R (write row).content e.vector := by
  by_cases hmem : row.id ∈ ids
  · obtain ⟨-, e', heq, hm, hr⟩ := h.named row hrow hmem
    rw [heq] at he ⊢
    obtain rfl := Option.some.inj he
    exact .inr ⟨hm, hr⟩
  · exact .inl (h.others row hmem)

/-- A chunk without a vector afterwards had none and was not named. -/
theorem BatchWritten.unnamed (h : BatchWritten R model ids write w w') (hrow : row ∈ w.chunks)
    (hnone : (write row).embedding = none) : row.id ∉ ids ∧ write row = row := by
  have hmem : row.id ∉ ids := by
    intro hmem
    obtain ⟨-, e, heq, -⟩ := h.named row hrow hmem
    rw [heq] at hnone
    cases hnone
  exact ⟨hmem, h.others row hmem⟩

end

/-- **A batch written** keeps the ledger in agreement: no chunk of it had a vector. -/
theorem WrittenOnce.write (h : WrittenOnce P R model w₀ s) (hrem : Remaining job (batch :: rest) s)
    {updates : List (Uuid × Embedding)} {write : Chunk → Chunk} {w' : World} (hw' : w'.WellFormed P)
    (hids : updates.map (·.1) = batch.map (·.id))
    (hwrite : BatchWritten R model (batch.map (·.id)) write s.world w') : WrittenOnce P R model w₀
      (s.note w' (.setChunkEmbeddings job.tenantId job.documentId updates) ()) := by
  have hnodup := hrem.nodup
  rw [List.flatten_cons, List.map_append, List.nodup_append'] at hnodup
  have hnew : ∀ i ∈ batch.map (·.id), i ∉ w₀.embeddedIds ++ s.persisted.flatten := by
    intro i hi hold
    obtain ⟨p, hp, rfl⟩ := List.mem_map.mp hi
    obtain ⟨row, hrow, hid, -⟩ := hrem.rows p (List.mem_append_left _ hp)
    exact hwrite.notMem hrow ((h.embedded_iff row hrow).mpr (hid ▸ hold)) (hid ▸ hi)
  refine ⟨hw', ?rows, ?embedded, ?once, ?vectors, ?whole, ?recent⟩
  case rows =>
    dsimp only [Ledger.note]
    rw [hwrite.chunks, List.map_map, ← h.rows]
    exact List.map_congr_left fun row _ => hwrite.bare row
  case embedded =>
    intro row' hrow'
    dsimp only [Ledger.note] at hrow' ⊢
    rw [hwrite.chunks] at hrow'
    obtain ⟨row, hrow, rfl⟩ := List.mem_map.mp hrow'
    have hid : (write row).id = row.id := (congrArg Chunk.id (hwrite.bare row) :)
    rw [List.flatten_append, ← List.append_assoc, List.mem_append,
      List.flatten_singleton, hids, hid, hwrite.embedded hrow, h.embedded_iff row hrow]
  case once =>
    dsimp only [Ledger.note]
    rw [List.flatten_append, ← List.append_assoc, List.flatten_singleton, hids]
    exact List.nodup_append'.mpr ⟨h.once, hnodup.1, fun i hold hi => hnew i hi hold⟩
  case vectors =>
    intro row' hrow' e he
    dsimp only [Ledger.note] at hrow'
    rw [hwrite.chunks] at hrow'
    obtain ⟨row, hrow, rfl⟩ := List.mem_map.mp hrow'
    obtain heq | hnew := hwrite.vector hrow he
    · rw [heq] at he ⊢
      exact h.vectors row hrow e he
    · exact .inr hnew
  case whole =>
    dsimp only [Ledger.note]
    rw [hrem.split, hids, List.map_cons]
    exact ⟨rest.map (·.map (·.id)), by simp⟩
  case recent =>
    obtain ⟨before, hbefore⟩ := h.recent
    exact ⟨before, by rw [Ledger.note, ← hbefore, List.append_assoc]⟩

/-- The attempt goes on with the slices after it. -/
theorem Remaining.write (hrem : Remaining job (batch :: rest) s)
    {updates : List (Uuid × Embedding)} {write : Chunk → Chunk} {w' : World}
    (hids : updates.map (·.1) = batch.map (·.id))
    (hwrite : BatchWritten R model (batch.map (·.id)) write s.world w') : Remaining job rest
      (s.note w' (.setChunkEmbeddings job.tenantId job.documentId updates) ()) := by
  have hnodup := hrem.nodup
  rw [List.flatten_cons, List.map_append, List.nodup_append'] at hnodup
  obtain ⟨-, hnodup, hdisjoint⟩ := hnodup
  refine ⟨?split, ?rows, hnodup, ?covers⟩
  case split =>
    dsimp only [Ledger.note]
    rw [hrem.split, hids, List.map_cons]
    simp
  case rows =>
    intro p hp
    obtain ⟨row, hrow, hid, hcontent, ht, hnone⟩ := hrem.rows p (List.mem_append_right _ hp)
    refine ⟨row, ?_, hid, hcontent, ht, hnone⟩
    dsimp only [Ledger.note]
    rw [hwrite.chunks]
    refine List.mem_map.mpr ⟨row, hrow, hwrite.others row fun hmem => ?_⟩
    exact hdisjoint hmem (hid ▸ List.mem_map_of_mem hp)
  case covers =>
    intro row' hrow' hdoc ht hnone
    dsimp only [Ledger.note] at hrow'
    rw [hwrite.chunks] at hrow'
    obtain ⟨row, hrow, rfl⟩ := List.mem_map.mp hrow'
    obtain ⟨hmem, heq⟩ := hwrite.unnamed hrow hnone
    rw [heq] at hdoc ht hnone ⊢
    have hrest := hrem.covers row hrow hdoc ht hnone
    rw [List.flatten_cons, List.map_append, List.mem_append] at hrest
    exact hrest.resolve_left hmem

/-- No vector is replaced. -/
theorem BatchWritten.keepsVectors {ids : List Uuid} {write : Chunk → Chunk} {w' : World}
    (hwrite : BatchWritten R model ids write s.world w') {c : Call} {v : c.Res}
    (hnote : (s.note w' c v).world = w') : KeepsVectors s (s.note w' c v) := by
  intro row hrow he
  rw [hnote, hwrite.chunks]
  exact List.mem_map.mpr ⟨row, hrow, hwrite.others row (hwrite.notMem hrow he)⟩

end

/-! ## An attempt -/

/-- One attempt at a time: nothing else happens between its calls. -/
def embedContract (P : Platform) (R : JsString → List JsNumber → Prop) (model : JsString)
    (w₀ : World) : Contract backend JsError Decision Ledger where
  handler := Ledger.handle P
  meets := EmbedderAnswers R
  inv := WrittenOnce P R model w₀
  rely := Eq
  guar := KeepsVectors
  rely_refl := Eq.refl
  rely_trans := Eq.trans

theorem KeepsVectors.of_chunks_eq {s s' : Ledger} (h : s'.world.chunks = s.world.chunks) :
    KeepsVectors s s' := fun _ hrow _ => h ▸ hrow

theorem KeepsVectors.trans {s t u : Ledger} (h : KeepsVectors s t) (h' : KeepsVectors t u) :
    KeepsVectors s u := fun row hrow he => h' row (h row hrow he) he

section

variable {P : Platform} {R : JsString → List JsNumber → Prop} {w₀ : World} {s : Ledger}
  {embedder : Embedder} {job : IngestJobData} {batch : List PendingChunk}
  {rest : List (List PendingChunk)}

/-- **What may happen to a call**: rejected with nothing done, or done, its answer handed over or
lost. -/
theorem Ledger.handle_cases {c : Call} {d : Decision} {r : Except JsError c.Res} {t : Ledger}
    (h : s.handle P c d = some (r, t)) : (∃ e, r = .error e ∧ t = s.fail) ∨
      ∃ v w', s.world.exec P c d = some (.ok v, w') ∧
        ((d.fault = none ∧ r = .ok v ∧ t = s.note w' c v) ∨
          ∃ e, r = .error e ∧ t = (s.note w' c v).fail) := by
  obtain ⟨⟨r₁, s₁⟩, hthrough, heq⟩ := Option.map_eq_some_iff.mp h
  obtain ⟨rfl, rfl⟩ := Prod.mk.inj heq
  -- the call reached the store
  have hexec : ∀ {r₂ : Except JsError c.Res} {s₂ : Ledger}, s.exec P c d = some (r₂, s₂) →
      (∃ e, r₂ = .error e ∧ s₂ = s) ∨ ∃ v w', s.world.exec P c d = some (.ok v, w') ∧ r₂ = .ok v ∧
        s₂ = s.note w' c v := by
    intro r₂ s₂ hs₂
    obtain ⟨⟨r₃, w'⟩, hw', heq⟩ := Option.map_eq_some_iff.mp hs₂
    obtain ⟨rfl, rfl⟩ := Prod.mk.inj heq
    rcases r₃ with e | v
    · exact .inl ⟨e, rfl, by rw [eq_of_exec_error hw']⟩
    · exact .inr ⟨v, w', hw', rfl, rfl⟩
  unfold Fault.through at hthrough
  split at hthrough
  case h_1 hfault =>
    rcases hexec hthrough with ⟨e, rfl, rfl⟩ | ⟨v, w', hw', rfl, rfl⟩
    · exact .inl ⟨e, rfl, rfl⟩
    · exact .inr ⟨v, w', hw', .inl ⟨hfault, rfl, rfl⟩⟩
  case h_2 e hfault =>
    obtain ⟨rfl, rfl⟩ := Prod.mk.inj (Option.some.inj hthrough)
    exact .inl ⟨e, rfl, rfl⟩
  case h_3 e hfault =>
    obtain ⟨⟨r₂, s₂⟩, hs₂, heq⟩ := Option.map_eq_some_iff.mp hthrough
    obtain ⟨rfl, rfl⟩ := Prod.mk.inj heq
    rcases hexec hs₂ with ⟨e', rfl, rfl⟩ | ⟨v, w', hw', rfl, rfl⟩
    · exact .inl ⟨e, rfl, rfl⟩
    · exact .inr ⟨v, w', hw', .inr ⟨e, rfl, rfl⟩⟩

/-- **One call of an attempt.** -/
theorem embed_call {c : Call} {Q : Except JsError c.Res → Ledger → Prop}
    (hs : WrittenOnce P R embedder.model w₀ s) (hrefused : ∀ e, Q (.error e) s.fail)
    (hdone : ∀ d v w', s.world.exec P c d = some (.ok v, w') → EmbedderAnswers R s c d →
      WrittenOnce P R embedder.model w₀ (s.note w' c v) ∧ KeepsVectors s (s.note w' c v) ∧
        (d.fault = none → Q (.ok v) (s.note w' c v)) ∧ ∀ e, Q (.error e) (s.note w' c v).fail) :
    (embedContract P R embedder.model w₀).Safe Q
      (Proc.call (S := backend) c : Service c.Res) s := by
  refine Contract.Safe.call ?_
  rintro _ rfl - d r t hm hh
  rcases Ledger.handle_cases hh with ⟨e, rfl, rfl⟩ | ⟨v, w', hw', hor⟩
  · exact ⟨hs.fail, .of_chunks_eq rfl, hrefused e⟩
  · obtain ⟨hs', hkeeps, hok, herr⟩ := hdone d v w' hw' hm
    rcases hor with ⟨hfault, rfl, rfl⟩ | ⟨e, rfl, rfl⟩
    · exact ⟨hs', hkeeps, hok hfault⟩
    · exact ⟨hs'.fail, hkeeps, herr e⟩

/-- How a body of an attempt ends: with `F`, or with a failed call. -/
def EndsWith (I F : Ledger → Prop) {α : Type} (o : Except JsError α) (t : Ledger) : Prop :=
  I t ∧ match o with
    | .ok _ => F t
    | .error _ => t.failed = true

/-- A call that leaves the chunks and the batches alone. -/
theorem WrittenOnce.of_chunks_eq (hs : WrittenOnce P R embedder.model w₀ s) {w' : World}
    (hw' : w'.WellFormed P) (hchunks : w'.chunks = s.world.chunks) (failed : Bool) :
    WrittenOnce P R embedder.model w₀ { s with world := w', failed := failed } :=
  ⟨hw', hchunks ▸ hs.rows, hchunks ▸ hs.embedded_iff, hs.once, hchunks ▸ hs.vectors, hs.whole,
    hs.recent⟩

theorem Remaining.of_chunks_eq (hrem : Remaining job rest s) {w' : World}
    (hchunks : w'.chunks = s.world.chunks) (failed : Bool) :
    Remaining job rest { s with world := w', failed := failed } :=
  ⟨hrem.split, hchunks ▸ hrem.rows, hrem.nodup, hchunks ▸ hrem.covers⟩

/-- A batch whose checks fail was no answer. -/
theorem answered_of_mapM (model : JsString) {vectors : List (List JsNumber)}
    (hlen : vectors.length = batch.length) :
    answered (batch.map (·.content)) vectors = true ↔
      ∃ updates, (batch.zip (vectors.map (Embedding.mk model))).mapM embeddingUpdate =
        .ok updates := by
  have hzip : (∀ x ∈ batch.zip (vectors.map (Embedding.mk model)),
      fitsVectorColumn x.2.vector = true) ↔ ∀ v ∈ vectors, fitsVectorColumn v = true := by
    constructor
    · intro h v hv
      obtain ⟨n, hn, rfl⟩ := List.getElem_of_mem hv
      exact h (batch[n], ⟨model, vectors[n]⟩)
        (List.mem_iff_getElem.mpr ⟨n, by simp; omega, by simp⟩)
    · intro h x hx
      obtain ⟨v, hv, heq⟩ := List.mem_map.mp (List.of_mem_zip hx).2
      rw [← heq]
      exact h v hv
  rw [answered, Bool.and_eq_true, beq_iff_eq, List.length_map, List.all_eq_true, ← hzip]
  constructor
  · exact fun h => ⟨_, mapM_embeddingUpdate_eq_ok.mpr ⟨h.2, rfl⟩⟩
  · rintro ⟨updates, hupdates⟩
    exact ⟨hlen, (mapM_embeddingUpdate_eq_ok.mp hupdates).1⟩

/-- The write of a batch, once its vectors are there. -/
theorem attempt_write (hs : WrittenOnce P R embedder.model w₀ s)
    (hrem : Remaining job (batch :: rest) s) {vectors : List Embedding}
    (hmodel : ∀ e ∈ vectors, e.model = embedder.model)
    (hvectors : List.Forall₂ R (batch.map (·.content)) (vectors.map (·.vector))) :
    (embedContract P R embedder.model w₀).Safe
      (EndsWith (WrittenOnce P R embedder.model w₀) (Remaining job rest))
      (Proc.call (S := backend) (.setChunkEmbeddings job.tenantId job.documentId
        ((batch.zip vectors).map fun x => (x.1.id, x.2)))) s := by
  have hids := map_fst_updates (by simpa using hvectors.length_eq : batch.length = vectors.length)
  refine embed_call hs (fun e => ⟨hs.fail, rfl⟩) fun d v w' hw' _ => ?_
  have hwrite := batchWritten hs.wellFormed hrem hmodel hvectors hw'
  have hwritten := hs.write hrem (hs.wellFormed.step (effect_of_exec hw')) hids hwrite
  exact ⟨hwritten, hwrite.keepsVectors rfl, fun _ => ⟨hwritten, hrem.write hids hwrite⟩,
    fun e => ⟨hwritten.fail, rfl⟩⟩

/-- **One batch of an attempt.** -/
theorem attempt_embedBatch (hs : WrittenOnce P R embedder.model w₀ s)
    (hrem : Remaining job (batch :: rest) s) :
    (embedContract P R embedder.model w₀).Safe
      (EndsWith (WrittenOnce P R embedder.model w₀) (Remaining job rest))
      (embedBatch embedder job batch) s := by
  refine Contract.Safe.bind (safe_withRetry
    (I := fun t => WrittenOnce P R embedder.model w₀ t ∧ Remaining job (batch :: rest) t)
    (J := fun t => (WrittenOnce P R embedder.model w₀ t ∧ Remaining job (batch :: rest) t) ∧
      t.failed = true) ⟨hs, hrem⟩ (fun _ h => h.1) ?_ fun _ _ h => ⟨h.1.1, h.2⟩)
  rintro t ⟨ht, hrem⟩
  refine embed_call ht (fun e => ⟨⟨ht.fail, hrem.fail⟩, rfl⟩) fun d v w' hw' hm => ?_
  obtain ⟨hv, rfl⟩ := Prod.mk.inj (Option.some.inj hw')
  obtain rfl := Except.ok.inj hv
  have hvectors : (d.vectors.map (Embedding.mk embedder.model)).map (·.vector) = d.vectors := by
    rw [List.map_map]
    exact List.map_id'' (fun _ => rfl) _
  dsimp only [Ledger.note]
  rw [hvectors]
  have ht' := ht.of_chunks_eq ht.wellFormed rfl
    (t.failed || !answered (batch.map (·.content)) d.vectors)
  have hrem' := hrem.of_chunks_eq (show t.world.chunks = t.world.chunks from rfl)
    (t.failed || !answered (batch.map (·.content)) d.vectors)
  refine ⟨ht', .of_chunks_eq rfl, fun hfault => ?_, fun e => ⟨⟨ht'.fail, hrem'.fail⟩, rfl⟩⟩
  rw [List.length_map]
  split
  case isTrue hlen =>
    refine ⟨ht', ?_⟩
    have hnot : answered (batch.map (·.content)) d.vectors = false := by simp [answered, hlen]
    simp [hnot]
  case isFalse hlen =>
    have hanswered := answered_of_mapM embedder.model (not_not.mp hlen)
    refine Contract.Safe.ofExcept_bind (fun updates hupdates => ?_) fun e herror => ⟨ht', ?_⟩
    · have hR := hm hfault _ _ rfl (hanswered.mpr ⟨updates, hupdates⟩)
      obtain ⟨-, rfl⟩ := mapM_embeddingUpdate_eq_ok.mp hupdates
      have hmodel : ∀ e ∈ d.vectors.map (Embedding.mk embedder.model),
          e.model = embedder.model := by
        simp
      exact attempt_write ht' hrem' hmodel (hvectors.symm ▸ hR)
    · have hnot : answered (batch.map (·.content)) d.vectors ≠ true := by
        rw [ne_eq, hanswered, herror]
        rintro ⟨updates, hupdates⟩
        cases hupdates
      simp [Bool.eq_false_iff.mpr hnot]

/-- The loop over the batches. -/
theorem attempt_embedBatches {batches : List (List PendingChunk)}
    (hs : WrittenOnce P R embedder.model w₀ s) (hrem : Remaining job batches s) :
    (embedContract P R embedder.model w₀).Safe
      (EndsWith (WrittenOnce P R embedder.model w₀) (Remaining job []))
      (embedBatches embedder job batches) s := by
  induction batches generalizing s with
  | nil => exact ⟨hs, hrem⟩
  | cons batch batches ih =>
    refine Contract.Safe.bind ((attempt_embedBatch hs hrem).imp ?_)
    rintro (e | _) t ⟨ht, hends⟩
    · exact ⟨ht, hends⟩
    · exact ih ht hends

/-- Rows of a well-formed world have ids of their own. -/
theorem World.WellFormed.nodup_chunkIds {w : World} (hw : w.WellFormed P) :
    (w.chunks.map (·.id)).Nodup := by
  refine List.pairwise_map.mpr (hw.chunkUnique.imp fun {row row'} hfree hid => ?_)
  rw [Chunk.conflicts_iff.mpr (.inl hid)] at hfree
  cases hfree

/-- The chunks reported as pending are rows of the document, each once. -/
theorem nodup_of_getUnembeddedChunks {w w' : World} (hw : w.WellFormed P) {d : Decision}
    {documentId tenantId : Uuid} {pending : List PendingChunk}
    (h : w.exec P (.getUnembeddedChunks documentId tenantId) d = some (.ok pending, w')) :
    (pending.map (·.id)).Nodup := by
  obtain ⟨hv, -⟩ := Prod.mk.inj (Option.some.inj h)
  obtain rfl := Except.ok.inj hv
  rw [List.map_map]
  have hperm := List.mergeSort_perm (w.chunks.filter fun c =>
    c.documentId == documentId && c.tenantId == tenantId && !c.embedded) charStartLe
  refine (hperm.map Chunk.id).nodup_iff.mpr ?_
  exact hw.nodup_chunkIds.sublist (List.filter_sublist.map _)

/-- **An attempt that finds what there is to embed has all of it left.** -/
theorem Remaining.start (hs : WrittenOnce P R embedder.model w₀ s) {d : Decision} {w' : World}
    {pending : List PendingChunk}
    (h : s.world.exec P (.getUnembeddedChunks job.documentId job.tenantId) d
      = some (.ok pending, w')) :
    WrittenOnce P R embedder.model w₀
        (s.note w' (.getUnembeddedChunks job.documentId job.tenantId) pending) ∧
      Remaining job (Table.slices EMBED_BATCH_SIZE pending)
        (s.note w' (.getUnembeddedChunks job.documentId job.tenantId) pending) ∧
      w' = s.world := by
  have hflatten : (Table.slices EMBED_BATCH_SIZE pending).flatten = pending :=
    Table.flatten_slices (by decide) pending
  have hnodup := nodup_of_getUnembeddedChunks hs.wellFormed h
  obtain ⟨rfl, hpending⟩ := mem_of_getUnembeddedChunks (P := P) (d := { d with fault := none }) h
  refine ⟨⟨hs.wellFormed, hs.rows, hs.embedded_iff, hs.once, hs.vectors, List.nil_prefix,
    List.nil_suffix⟩, ⟨rfl, ?_, by rwa [hflatten], ?_⟩, rfl⟩
  · intro p hp
    obtain ⟨row, hrow, -, ht, hnone, rfl⟩ := (hpending p).mp (hflatten ▸ hp)
    exact ⟨row, hrow, rfl, rfl, ht, hnone⟩
  · intro row hrow hdoc ht hnone
    rw [hflatten]
    exact List.mem_map.mpr ⟨_, (hpending _).mpr ⟨row, hrow, hdoc, ht, hnone, rfl⟩, rfl⟩

/-- **An attempt** of an embedder as wide as the column. -/
theorem attempt_embedStage (hwidth : embedder.dimensions = EMBEDDING_DIMENSIONS)
    (hs : WrittenOnce P R embedder.model w₀ s) :
    (embedContract P R embedder.model w₀).Safe
      (EndsWith (WrittenOnce P R embedder.model w₀) (Remaining job []))
      ((embedStage embedder).run job) s := by
  dsimp only [embedStage]
  rw [if_neg (not_not.mpr hwidth)]
  refine Contract.Safe.bind (embed_call hs (fun e => ⟨hs.fail, rfl⟩) fun d pending w' hw' _ => ?_)
  obtain ⟨hfound, hrem, hsame⟩ := Remaining.start hs hw'
  refine ⟨hfound, .of_chunks_eq (congrArg World.chunks hsame), fun _ => ?_,
    fun e => ⟨hfound.fail, rfl⟩⟩
  dsimp only
  split
  case isTrue hnil =>
    subst hnil
    exact ⟨hfound, hrem⟩
  case isFalse =>
    refine Contract.Safe.bind (embed_call hfound (fun e => ⟨hfound.fail, rfl⟩)
      fun d _ w'' hw'' _ => ?_)
    have heff := effect_of_exec hw''
    have hchunks := heff.chunks_eq (by simp) (by simp) (by simp)
    have hclaimed := hfound.of_chunks_eq (hfound.wellFormed.step heff) hchunks false
    exact ⟨hclaimed, .of_chunks_eq hchunks, fun _ => attempt_embedBatches hclaimed
      (hrem.of_chunks_eq hchunks false), fun e => ⟨hclaimed.fail, rfl⟩⟩

/-! ## The result -/

/-- How an attempt ends: nothing left, or a reason. -/
def AttemptEnds (embedder : Embedder) (job : IngestJobData) (o : Except JsError Unit) (t : Ledger) :
    Prop :=
  (o = .ok () → Remaining job [] t) ∧
    ∀ e, o = .error e → t.failed = true ∨ embedder.dimensions ≠ EMBEDDING_DIMENSIONS

theorem attempt_ends (hs : WrittenOnce P R embedder.model w₀ s) :
    (embedContract P R embedder.model w₀).Safe (AttemptEnds embedder job)
      ((embedStage embedder).run job) s := by
  by_cases hwidth : embedder.dimensions = EMBEDDING_DIMENSIONS
  · refine (attempt_embedStage hwidth hs).imp ?_
    rintro (e | _) t ⟨-, hends⟩
    · exact ⟨nofun, fun _ _ => .inl hends⟩
    · exact ⟨fun _ => hends, nofun⟩
  · dsimp only [embedStage]
    rw [if_pos hwidth]
    exact ⟨nofun, fun _ _ => .inr hwidth⟩

/-- **The rules for runs of the stage.** -/
theorem attempt_launch (s : Ledger) (_ : Unit) (p : Service Unit)
    (hs : (embedContract P R embedder.model w₀).inv s)
    (hp : some ((embedStage embedder).run job) = some p) :
    (embedContract P R embedder.model w₀).Safe (AttemptEnds embedder job) p s :=
  Option.some.inj hp ▸ attempt_ends hs

theorem EmbedRuns.ok_of_reachable {c : EmbedRuns.State}
    (hc : EmbedRuns.Reachable P R embedder job (EmbedRuns.Initial P w₀) c) :
    c.Ok (embedContract P R embedder.model w₀) (AttemptEnds embedder job) := by
  refine Solo.ok_of_reachable (K := embedContract P R embedder.model w₀) (fun _ _ h _ => h)
    attempt_launch (fun _ e => nomatch e) ?_ hc
  rintro _ ⟨hw₀, rfl⟩
  refine ⟨⟨hw₀, rfl, fun row hrow => ?_, ?_, fun row hrow _ _ => .inl hrow, List.nil_prefix,
    List.nil_suffix⟩, by simp⟩
  · rw [List.flatten_nil, List.append_nil, embeddedIds, List.mem_map]
    constructor
    · exact fun he => ⟨row, List.mem_filter.mpr ⟨hrow, he⟩, rfl⟩
    · rintro ⟨row', hrow', hid⟩
      obtain ⟨hmem, he⟩ := List.mem_filter.mp hrow'
      obtain rfl := hw₀.chunk_eq hmem hrow (Chunk.conflicts_iff.mpr (.inl hid))
      exact he
  · rw [List.flatten_nil, List.append_nil]
    exact hw₀.nodup_chunkIds.sublist (List.filter_sublist.map _)

end

section

variable {P : Platform} {R : JsString → List JsNumber → Prop} {w₀ : World} {embedder : Embedder}
  {job : IngestJobData}

/-- **Embeddings are written exactly once and to the right chunk**, across any attempts.  The ledger
and the chunks agree; no vector is ever replaced; an attempt that returns leaves no chunk of the
document without one; and one that does not return had a call fail. -/
theorem embeddings_written_once {c : EmbedRuns.State}
    (hc : EmbedRuns.Reachable P R embedder job (EmbedRuns.Initial P w₀) c) :
    WrittenOnce P R embedder.model w₀ c.world ∧
    (∀ c', EmbedRuns.Reachable P R embedder job (· = c) c' → KeepsVectors c.world c'.world) ∧
    (c.task = some (.ret ()) → ∀ row ∈ c.world.world.chunks, row.documentId = job.documentId →
      row.tenantId = job.tenantId → row.embedded = true) ∧
    ∀ e, c.task = some (.throw e) →
      c.world.failed = true ∨ embedder.dimensions ≠ EMBEDDING_DIMENSIONS := by
  have hok := EmbedRuns.ok_of_reachable hc
  refine ⟨hok.inv, fun c' hc' => ?_, fun hdone row hrow hdoc ht => ?_, fun e hthrow => ?_⟩
  · exact Solo.guar_of_reachable (K := embedContract P R embedder.model w₀)
      (Q := AttemptEnds embedder job) (fun _ _ h _ => h) (fun _ _ _ h h' => h.trans h')
      attempt_launch (fun _ e => nomatch e) hok hc'
  · have hnone := ((hok.safe _ hdone).1 rfl).covers row hrow hdoc ht
    by_contra he
    simpa using hnone (by simpa [Chunk.embedded] using he)
  · exact (hok.safe _ hthrow).2 e rfl

end

section

open EmbedRuns

/-- A vector that tells texts of different lengths apart. -/
def lengthVector (text : JsString) : List JsNumber :=
  List.replicate EMBEDDING_DIMENSIONS (.finite text.length)

/-- The embedder's answers are `lengthVector`s, or none it takes. -/
def answersLengths (_ : Ledger) : Call → Decision → Bool
  | .embed _ texts, d => !answered texts d.vectors || d.vectors == texts.map lengthVector
  | _, _ => true

theorem embedderAnswers_of_answersLengths (s : Ledger) (c : Call) (d : Decision)
    (h : answersLengths s c d = true) :
    EmbedderAnswers (fun text v => v = lengthVector text) s c d := by
  rintro - model texts rfl hanswered
  simp only [answersLengths, hanswered, Bool.not_true, Bool.false_or, beq_iff_eq] at h
  rw [h]
  exact List.forall₂_map_right_iff.mpr (List.forall₂_same.mpr fun _ _ => rfl)

/-- A document with two chunks, the first one embedded. -/
def sampleChunked : World where
  assistants := [sampleAssistant]
  documents := [{
    id := 10, tenantId := 7, assistantId := 1, title := js "faq.txt", sourceType := .TXT
    storageKey := ⟨7, 10⟩, pageCount := some 1, status := .EMBEDDING, error := none, warnings := []
    createdAt := 0, updatedAt := 0 }]
  chunks := [
    { chunkRow samplePlatform 10 7 1 20 ⟨js "a", js "a", 1, none, 0, 1, 1⟩ with
      embedding := some ⟨js "m", lengthVector (js "a")⟩ },
    chunkRow samplePlatform 10 7 1 21 ⟨js "bc", js "bc", 1, none, 2, 4, 2⟩]
  issued := [10, 20, 21]

theorem wellFormed_sampleChunked : sampleChunked.WellFormed samplePlatform :=
  ⟨by decide, by decide, by decide, by decide, by decide, by decide, by decide, by decide⟩

/-- The vector of the second chunk. -/
def secondVector : Decision := { vectors := [lengthVector (js "bc")] }

/-- An answer without a vector ends the first attempt, the write of the second is refused, the third
goes through. -/
def threeAttempts : List Move :=
  [.launch (), .resume {}, .resume {}, .resume {},
    .launch (), .resume {}, .resume {}, .resume secondVector,
    .resume { fault := some (.refused (.new (js "connection reset"))) },
    .launch (), .resume {}, .resume {}, .resume secondVector, .resume {}]

/-- An attempt that has returned. -/
def attemptReturned (c : State) : Bool :=
  match c.task with
  | some (.ret _) => true
  | _ => false

theorem task_of_attemptReturned {c : State} (h : attemptReturned c = true) :
    c.task = some (.ret ()) := by
  unfold attemptReturned at h
  split at h
  case h_1 htask => exact htask
  case h_2 => simp at h

/-- The third attempt embeds the chunk that had no vector. -/
theorem embeddings_written_once_threeAttempts : ∃ c : State,
    EmbedRuns.Reachable samplePlatform (fun text v => v = lengthVector text)
      ⟨js "m", EMBEDDING_DIMENSIONS⟩ ⟨10, 7, 1⟩ (Initial samplePlatform sampleChunked) c ∧
    c.world.persisted = [[21]] ∧
    ∀ row ∈ c.world.world.chunks, row.documentId = 10 → row.tenantId = 7 → row.embedded = true := by
  have hstart : EmbedRuns.Reachable samplePlatform (fun text v => v = lengthVector text)
      ⟨js "m", EMBEDDING_DIMENSIONS⟩ ⟨10, 7, 1⟩ (Initial samplePlatform sampleChunked)
      ⟨{ world := sampleChunked }, none⟩ := .start ⟨wellFormed_sampleChunked, rfl⟩
  obtain ⟨c, hc, hp⟩ := hstart.replay (Solo.passes answersLengths)
    (fun _ _ h => Solo.meets_of_passes embedderAnswers_of_answersLengths h) threeAttempts
    (fun c => attemptReturned c && c.world.persisted == [[21]]) (by decide +kernel)
  obtain ⟨hreturned, hpersisted⟩ := Bool.and_eq_true_iff.mp hp
  exact ⟨c, hc, beq_iff_eq.mp hpersisted,
    (embeddings_written_once hc).2.2.1 (task_of_attemptReturned hreturned)⟩

end

import SupportAgent.Store.Evolves
import SupportAgent.System.Corpus

/-!
# System/Consistency — rows, objects and deletions, whatever is interleaved or lost

An upload puts its object before it creates the row, a deletion takes the row before the object, and
the worker only updates rows or inserts chunks whose document is there.  Under `consistencyContract`
an object is deleted only when the row it belonged to is gone for good (`Gone`), and one that is put
for a row still to come is left alone.

* `corpus_consistent` — every row has its object, every chunk its document, and no id comes back.
-/

open Async Ingestion World

/-- **Every row has its object**, stored under its own id. -/
structure Consistent (P : Platform) (w : World) : Prop where
  wellFormed : w.WellFormed P
  ownKey : ∀ doc ∈ w.documents, doc.storageKey.documentId = doc.id
  stored : ∀ doc ∈ w.documents, (w.objects doc.storageKey).isSome

/-- A document id that was in use once and is not any more. -/
structure Gone (id : Uuid) (w : World) : Prop where
  issued : id ∈ w.issued
  document : ∀ doc ∈ w.documents, doc.id ≠ id

/-- A later state in which the objects put for rows still to come are there. -/
structure Preserves (w w' : World) : Prop extends w.Evolves w' where
  object : ∀ key, key.documentId ∉ w'.issued → (w.objects key).isSome → (w'.objects key).isSome

/-- What a call must bring along to keep the rows and the objects together. -/
def ConsistentSafe (w : World) : Call → Prop
  | .createDocument data => data.storageKey.documentId = data.id ∧
    (data.id ∉ w.issued → (w.objects data.storageKey).isSome)
  | .storageDelete key => Gone key.documentId w
  | _ => True

theorem Preserves.refl (w : World) : Preserves w w where
  toEvolves := Evolves.refl w
  object _ _ h := h

theorem Preserves.trans {u v w : World} (h : Preserves u v) (h' : Preserves v w) :
    Preserves u w where
  toEvolves := h.toEvolves.trans h'.toEvolves
  object key hkey hu := h'.object key hkey (h.object key (fun hv => hkey (h'.issued hv)) hu)

section

variable {P : Platform} {w w' : World} {c : Call} {d : Decision} {id : Uuid}

/-- **An id that is gone stays gone.** -/
theorem Gone.evolves (h : Gone id w) (hw : w.Evolves w') : Gone id w' where
  issued := hw.issued h.issued
  document doc' hdoc' hid := by
    obtain ⟨doc, hdoc, hfile⟩ := hw.documents doc' hdoc' (hid ▸ h.issued)
    exact h.document doc hdoc ((congrArg DocumentFile.id hfile :).symm.trans hid)

/-- No chunk is left of a document that is gone. -/
theorem Gone.chunk (h : Gone id w) (hw : w.WellFormed P) :
    ∀ row ∈ w.chunks, row.documentId ≠ id := by
  intro row hrow hid
  obtain ⟨doc, hdoc, href⟩ := hw.chunkParent row hrow
  exact h.document doc hdoc ((Chunk.references_iff.mp href).1.symm.trans hid)

/-- **What a call preserves.** -/
theorem Effect.preserves (h : w.Effect P d c w') (hsafe : ConsistentSafe w c) : Preserves w w' where
  toEvolves := h.evolves
  object key hkey hobject := by
    rcases h with _ | _ | _ | _ | _ | _ | _ | ⟨key', body, hfresh⟩ | ⟨key'⟩ | _
    case stored =>
      change (Function.update w.objects key' (some body) key).isSome
      by_cases heq : key = key'
      · subst heq
        rw [Function.update_self]
        rfl
      · rwa [Function.update_of_ne heq]
    case removed =>
      change (Function.update w.objects key' none key).isSome
      rwa [Function.update_of_ne]
      rintro rfl
      exact hkey hsafe.issued
    all_goals exact hobject

/-- **What a call keeps.** -/
theorem Consistent.step (hi : Consistent P w) (h : w.Effect P d c w') (hsafe : ConsistentSafe w c) :
    Consistent P w' := by
  refine ⟨hi.wellFormed.step h, fun doc' hdoc' => ?_, fun doc' hdoc' => ?_⟩
  all_goals
    rcases h.document_origin hdoc' with ⟨doc, hdoc, hfile, -⟩ | ⟨data, rfl, hfresh, -, rfl, -⟩
  case refine_1.inl =>
    rw [show doc'.storageKey = doc.storageKey from (congrArg DocumentFile.storageKey hfile :),
      show doc'.id = doc.id from (congrArg DocumentFile.id hfile :)]
    exact hi.ownKey doc hdoc
  case refine_1.inr => exact hsafe.1
  case refine_2.inl =>
    rw [show doc'.storageKey = doc.storageKey from (congrArg DocumentFile.storageKey hfile :)]
    have hown := hi.ownKey doc hdoc
    rcases h.object_kept (hown ▸ hi.wellFormed.documentIssued doc hdoc) with rfl | hkept
    · exact absurd hown.symm (hsafe.document doc hdoc)
    · rw [hkept]
      exact hi.stored doc hdoc
  case refine_2.inr =>
    rw [h.objects_eq (fun _ _ hput => nomatch hput) fun _ hdelete => nomatch hdelete]
    exact hsafe.2 hfresh

/-- **A deletion that found its document leaves the id gone**, and its object to be deleted. -/
theorem gone_of_deleteDocument (hi : Consistent P w) {tenantId documentId : Uuid} {key : ObjectKey}
    (h : w.handle P (.deleteDocument tenantId documentId) d = some (.ok (some key), w')) :
    Gone key.documentId w' := by
  obtain ⟨doc, hfind, rfl, rfl⟩ := removed_of_deleteDocument h
  obtain ⟨hdoc, hid, ht⟩ := hi.wellFormed.findDocument_eq_some.mp hfind
  rw [hi.ownKey doc hdoc]
  refine ⟨hi.wellFormed.documentIssued doc hdoc, fun doc' hdoc' heq => ?_⟩
  obtain ⟨hmem, hleft⟩ := List.mem_filter.mp hdoc'
  obtain rfl := hi.wellFormed.document_eq hmem hdoc heq
  have hvis : doc'.visible tenantId documentId = true := Document.visible_iff.mpr ⟨hid, ht⟩
  simp [hvis] at hleft

end

/-! ## The agreement -/

/-- **The agreement of the tasks.** -/
def consistencyContract (P : Platform) : Contract backend JsError Decision World where
  handler := World.handle P
  meets := Corpus.anyCall
  inv := Consistent P
  rely := Preserves
  guar := Preserves
  rely_refl := Preserves.refl
  rely_trans := Preserves.trans

section

variable {P : Platform} {w : World}

/-- **One call**, made from wherever the other tasks left the state. -/
theorem consistent_await {c : Call} {Q : Except JsError c.Res → World → Prop}
    (hsafe : ∀ s, Preserves w s → Consistent P s → ConsistentSafe s c)
    (hQ : ∀ s d r s', Preserves w s → Consistent P s → s.handle P c d = some (r, s') →
      Preserves s s' → Q r s') :
    (consistencyContract P).Safe Q (Proc.call (S := backend) c : Service c.Res) w := by
  refine Contract.Safe.call fun s hs hi d r s' _ hh => ?_
  have heff := effect_of_handle hh
  have hkeep := Effect.preserves heff (hsafe s hs hi)
  exact ⟨hi.step heff (hsafe s hs hi), hkeep, hQ s d r s' hs hi hh hkeep⟩

/-- A body none of whose calls needs anything to be safe. -/
theorem consistent_of_only {α : Type} {p : Service α}
    (hp : p.Only fun c => ∀ w, ConsistentSafe w c) :
    (consistencyContract P).Safe (fun _ _ => True) p w :=
  Contract.Safe.of_only (J := fun _ => True)
    (fun _ hc s _ _ _ (hi : Consistent P s) _ _ hh => ⟨hi.step (effect_of_handle hh) (hc s),
      Effect.preserves (effect_of_handle hh) (hc s), trivial⟩)
    (fun _ _ _ _ => trivial) hp trivial

/-- The calls of the worker need nothing: they update rows, or insert under a foreign key. -/
theorem consistentSafe_of_ofJob {job : IngestJobData} (c : Call) (hc : c.OfJob job) (w : World) :
    ConsistentSafe w c := by
  cases c with
  | createDocument | storageDelete => exact hc.elim
  | _ => trivial

/-- **An upload** creates its row over the object it has put. -/
theorem consistent_storeUpload (u : Upload) :
    (consistencyContract P).Safe (fun _ _ => True) (storeUpload u) w := by
  refine Contract.Safe.bind
    ((consistent_of_only (Proc.only_call (by exact fun _ => trivial))).imp ?_)
  rintro (e | assistant) t -
  · trivial
  dsimp only
  split
  · trivial
  refine Contract.Safe.bind (consistent_await (fun _ _ _ => trivial) fun s d r s' _ _ hh _ => ?_)
  rcases r with e | _
  · trivial
  have hput : (s'.objects (tenantObjectKey u.tenantId u.documentId)).isSome := by
    rw [object_of_storagePut hh]
    rfl
  refine Contract.Safe.bind (consistent_await
    (fun v hv _ => ⟨rfl, fun hfresh => hv.object _ hfresh hput⟩) fun v d r v' _ _ _ _ => ?_)
  rcases r with e | _
  · trivial
  refine Contract.Safe.bind
    ((consistent_of_only (Proc.only_call (by exact fun _ => trivial))).imp ?_)
  rintro (e | _) t - <;> trivial

/-- **A deletion** deletes the object of a row that is gone. -/
theorem consistent_removeDocument (tenantId documentId : Uuid) :
    (consistencyContract P).Safe (fun _ _ => True) (removeDocument tenantId documentId) w := by
  refine Contract.Safe.bind (consistent_await (fun _ _ _ => trivial) fun s d r s' _ hi hh _ => ?_)
  rcases r with e | _ | key
  · trivial
  · trivial
  have hgone := gone_of_deleteDocument hi hh
  refine Contract.Safe.bind (Contract.Safe.tryCatch (consistent_await
    (fun v hv _ => hgone.evolves hv.toEvolves) fun v d r v' _ _ _ _ => ?_))
  rcases r with e | _ <;> trivial

/-- **Every task of the system honours the agreement.** -/
theorem consistent_launch (w : World) (l : Launch) (p : Service TaskResult)
    (h : Corpus.launch P w l = some p) : (consistencyContract P).Safe (fun _ _ => True) p w := by
  cases Corpus.starts_of_launch P h with
  | ingest => exact (consistent_of_only (only_processJob.imp consistentSafe_of_ofJob)).then
  | failed => exact (consistent_of_only (only_onFailed (by exact fun _ _ => trivial))).then
  | sweep => exact (consistent_of_only (Proc.only_call (by exact fun _ => trivial))).then
  | upload => exact (consistent_storeUpload _).then
  | delete => exact (consistent_removeDocument _ _).then
  | retrieve =>
    exact (consistent_of_only (only_retrieve (by exact fun _ _ _ => trivial)
      (by exact fun _ => trivial) (by exact fun _ _ _ _ => trivial))).then

end

/-! ## The result -/

section

open Corpus

theorem consistent_initial {P : Platform} {c : State} (h : Initial c) :
    c.Ok (consistencyContract P) (fun _ _ => True) where
  inv :=
    { wellFormed := h.wellFormed P
      ownKey := by simp [h.documents]
      stored := by simp [h.documents] }
  safe := by simp [h.tasks]

theorem consistent_of_reachable {P : Platform} {c : State}
    (hc : Corpus.Reachable P anyCall Initial c) : Consistent P c.world :=
  (Pool.ok_of_reachable (K := consistencyContract P) (fun _ _ h => h) (fun _ _ _ h _ => h)
    (fun w l p _ h => consistent_launch w l p h) (fun _ h => consistent_initial h) hc).inv

/-- **Rows, objects and deletions stay consistent**, whatever the uploads, deletions, executions,
failure handlers, sweeps and retrievals interleaved, failing or lost at any call: every row has its
object, every chunk its document with the same tenant and assistant, and once a document has been
deleted there is no row and no chunk with its id again. -/
theorem corpus_consistent {P : Platform} {c : State} (hc : Corpus.Reachable P anyCall Initial c) :
    (∀ doc ∈ c.world.documents, (c.world.objects doc.storageKey).isSome) ∧
    (∀ row ∈ c.world.chunks, ∃ doc ∈ c.world.documents, row.documentId = doc.id ∧
      row.tenantId = doc.tenantId ∧ row.assistantId = doc.assistantId) ∧
    ∀ doc ∈ c.world.documents, ∀ c', Corpus.Reachable P anyCall (· = c) c' →
      (∀ doc' ∈ c'.world.documents, doc'.id ≠ doc.id) →
      ∀ c'', Corpus.Reachable P anyCall (· = c') c'' →
        (∀ doc'' ∈ c''.world.documents, doc''.id ≠ doc.id) ∧
          ∀ row ∈ c''.world.chunks, row.documentId ≠ doc.id := by
  have hinv := consistent_of_reachable hc
  refine ⟨hinv.stored, fun row hrow => ?_, fun doc hdoc c' hc' hdeleted c'' hc'' => ?_⟩
  · obtain ⟨doc, hdoc, href⟩ := hinv.wellFormed.chunkParent row hrow
    exact ⟨doc, hdoc, Chunk.references_iff.mp href⟩
  have hlater : ∀ {a b : State}, Corpus.Reachable P anyCall (· = a) b → a.world.WellFormed P →
      b.world.WellFormed P ∧ a.world.Evolves b.world := by
    intro a b hab hw
    refine Pool.world_invariant (P := fun w => w.WellFormed P ∧ a.world.Evolves w) ?_ ?_ hab
    · rintro s call d r s' ⟨hs, hev⟩ - hh
      exact ⟨hs.step (effect_of_handle hh), hev.trans (effect_of_handle hh).evolves⟩
    · rintro b rfl
      exact ⟨hw, Evolves.refl _⟩
  obtain ⟨hw', hev'⟩ := hlater hc' hinv.wellFormed
  obtain ⟨hw'', hev''⟩ := hlater hc'' hw'
  have hgone : Gone doc.id c'.world :=
    ⟨hev'.issued (hinv.wellFormed.documentIssued doc hdoc), hdeleted⟩
  exact ⟨(hgone.evolves hev'').document, (hgone.evolves hev'').chunk hw''⟩

/-- Document 10 is uploaded and taken up by an execution, which reads its bytes. -/
def reading : List Move :=
  sampleUploading 0 10 [104, 105] ++ [sampleIngest (js "m") 10] ++ resumes 1 4

/-- Document 10 is deleted, row and object. -/
def deletion : List Move := .launch (.delete 7 10) :: resumes 2 2

/-- The moves, from a state on. -/
def replayed (moves : List Move) (c : State) : Option State :=
  moves.foldlM (Run.tested (Pool.passes passAll) (Corpus.step samplePlatform)) c

/-- The document is deleted under the execution, which goes on to its next call. -/
theorem corpus_consistent_midway : ∃ c c' c'' : State,
    Corpus.Reachable samplePlatform anyCall Initial c ∧
    Corpus.Reachable samplePlatform anyCall (· = c) c' ∧
    Corpus.Reachable samplePlatform anyCall (· = c') c'' ∧ c''.tasks.length = 3 ∧
    (∃ doc ∈ c.world.documents, doc.id = 10 ∧ (c.world.objects doc.storageKey).isSome) ∧
    ∀ doc'' ∈ c''.world.documents, doc''.id ≠ 10 := by
  obtain ⟨c, hc, hp⟩ := reachable_sample reading (fun c => c.world.documents.any (·.id == 10) &&
    (replayed deletion c).any fun c' => c'.world.documents.isEmpty &&
      (replayed (resumes 1 1) c').any (·.tasks.length == 3)) (by decide +kernel)
  obtain ⟨hthere, hp⟩ := Bool.and_eq_true_iff.mp hp
  obtain ⟨c', hc', hp⟩ := reachable_from (· = c) rfl passAll (fun _ _ _ _ => trivial) deletion _ hp
  obtain ⟨hdeleted, hp⟩ := Bool.and_eq_true_iff.mp hp
  obtain ⟨c'', hc'', htasks⟩ :=
    reachable_from (· = c') rfl passAll (fun _ _ _ _ => trivial) (resumes 1 1) _ hp
  obtain ⟨doc, hdoc, hid⟩ := List.any_eq_true.mp hthere
  have hnone : ∀ doc' ∈ c'.world.documents, doc'.id ≠ doc.id := by
    simp [List.isEmpty_iff.mp hdeleted]
  obtain ⟨hstored, -, hnever⟩ := corpus_consistent hc
  refine ⟨c, c', c'', hc, hc', hc'', by simpa using htasks,
    ⟨doc, hdoc, beq_iff_eq.mp hid, hstored doc hdoc⟩, ?_⟩
  rw [← beq_iff_eq.mp hid]
  exact (hnever doc hdoc c' hc' hnone c'' hc'').1

end

import SupportAgent.System.Corpus

/-!
# System/Lifecycle — a completed document and the FAILED status

`markFailed` and the reconciler never touch a READY document, but `setStatus` writes whatever it is
told: an execution that read the status before another one completed the document takes it back to
PARSING or EMBEDDING, and from there it can fail.  `KeepsReady` says that no call does this; under
it READY is final.
-/

open Async

/-- **No status other than READY is written on a READY document.** -/
def KeepsReady (w : World) (c : Call) (d : Decision) : Prop :=
  d.Performed → ∀ documentId tenantId status, c = .setStatus documentId tenantId status →
    status ≠ .READY → ∀ doc ∈ w.documents, doc.id = documentId → doc.tenantId = tenantId →
      doc.status ≠ .READY

/-- A document id that is in use by READY rows only, and not up for use again. -/
structure Completed (id : Uuid) (w : World) : Prop where
  issued : id ∈ w.issued
  ready : ∀ doc ∈ w.documents, doc.id = id → doc.status = .READY

section

variable {P : Platform}

/-- Calls that leave READY documents alone keep a completed document completed. -/
theorem Completed.step {id : Uuid} {w w' : World} {c : Call} {d : Decision}
    {r : Except JsError c.Res} (h : Completed id w) (hmeets : KeepsReady w c d)
    (hr : w.handle P c d = some (r, w')) : Completed id w' := by
  by_cases hd : d.Performed
  case neg => exact (World.eq_of_not_performed hd hr).symm ▸ h
  case pos =>
    have heff := World.effect_of_handle hr
    refine ⟨heff.issued_subset h.issued, fun doc' hdoc' hid => ?_⟩
    rcases heff.document_origin hdoc' with ⟨doc, hdoc, hfile, hleave⟩ | ⟨data, -, hfresh, -, rfl, -⟩
    · have hdocid : doc.id = id := (congrArg DocumentFile.id hfile :).symm.trans hid
      have hready := h.ready doc hdoc hdocid
      rcases hleave with hsame | hset | ⟨hne, -⟩
      · rw [hsame, hready]
      · by_contra hne
        exact hmeets hd _ _ _ hset hne doc hdoc rfl rfl hready
      · exact absurd hready hne
    · -- ids are not handed out twice
      exact absurd ((show data.id = id from hid) ▸ h.issued) hfresh

/-- A READY document is completed: its id is its own. -/
theorem completed_of_ready {w : World} (hw : w.WellFormed P) {doc : Document}
    (hdoc : doc ∈ w.documents) (hready : doc.status = .READY) : Completed doc.id w :=
  ⟨hw.documentIssued doc hdoc, fun _ hdoc' hid => hw.document_eq hdoc' hdoc hid ▸ hready⟩

end

/-- **A completed document is never failed** — in a run that, once the document is READY, writes no
other status on READY documents.  The document may be deleted; while it is there it is not
FAILED. -/
theorem ready_never_failed {P : Platform} {c c' : Corpus.State}
    (hc : Corpus.Reachable P Corpus.anyCall Corpus.Initial c) {doc : Document}
    (hdoc : doc ∈ c.world.documents) (hready : doc.status = .READY)
    (hc' : Corpus.Reachable P KeepsReady (· = c) c') :
    ∀ doc' ∈ c'.world.documents, doc'.id = doc.id → doc'.status ≠ .FAILED := by
  have hw := Corpus.wellFormed_of_reachable P (fun _ h => h.wellFormed P) hc
  have hcompleted : Completed doc.id c'.world := by
    refine Pool.world_invariant (fun _ _ _ _ _ h hm hr => h.step hm hr) (fun _ h => ?_) hc'
    rw [h]
    exact completed_of_ready hw hdoc hready
  intro doc' hdoc' hid
  rw [hcompleted.ready doc' hdoc' hid]
  decide

section

open Corpus

/-- Document 10 is uploaded; its job runs, stalls and is delivered again, and both executions have
read UPLOADED when the first one completes the document. -/
def completing : List Move :=
  sampleUploading 0 10 [104, 105] ++ [sampleIngest (js "m") 10, sampleIngest (js "m") 10] ++
    resumes 1 1 ++ resumes 2 1 ++ sampleParsing 1 20 ++ sampleEmbedding 1

/-- The second execution sets PARSING, loses the object store, and was the last attempt. -/
def failing : List Move :=
  resumes 2 2 ++ [.resume 2 { fault := some (.refused (.new (js "connection reset"))) },
    .launch (.failed (sampleUpload 10 []).job 3 3 (.new (js "connection reset"))), .resume 3 {}]

/-- The status of document 10. -/
def sampleStatusIs (status : DocumentStatus) (c : State) : Bool :=
  c.world.documents.any fun doc => doc.id == 10 && doc.status == status

/-- A sweep comes by, a long time later. -/
def sweeping : List Move := [.launch (.sweep 900), .resume 3 { now := 100000 }]

/-- A call that writes no status. -/
def writesNoStatus (_ : World) : Call → Bool
  | .setStatus .. => false
  | _ => true

theorem keepsReady_of_writesNoStatus (w : World) (c : Call) (d : Decision)
    (h : writesNoStatus w c = true) : KeepsReady w c d := by
  rintro - id t status rfl
  cases h

/-- The sweep leaves the completed document alone. -/
theorem ready_never_failed_sweep :
    ∃ c c' : State, Corpus.Reachable samplePlatform anyCall Initial c ∧
    sampleStatusIs .READY c = true ∧ Corpus.Reachable samplePlatform KeepsReady (· = c) c' ∧
    c'.tasks.length = 4 ∧ ∀ doc ∈ c'.world.documents, doc.id = 10 → doc.status ≠ .FAILED := by
  obtain ⟨c, hc, hp⟩ := reachable_sample completing (fun c => sampleStatusIs .READY c &&
    (sweeping.foldlM (Run.tested (Pool.passes writesNoStatus)
      (Corpus.step samplePlatform)) c).any
      (·.tasks.length == 4)) (by decide +kernel)
  obtain ⟨hready, hsweeping⟩ := Bool.and_eq_true_iff.mp hp
  obtain ⟨c', hc', htasks⟩ := reachable_from (· = c) rfl writesNoStatus
    keepsReady_of_writesNoStatus sweeping _ hsweeping
  obtain ⟨doc, hdoc, hdoc10⟩ := List.any_eq_true.mp hready
  simp only [Bool.and_eq_true, beq_iff_eq] at hdoc10
  refine ⟨c, c', hc, hready, hc', by simpa using htasks, ?_⟩
  have hnever := ready_never_failed hc hdoc hdoc10.2 hc'
  rwa [hdoc10.1] at hnever

/-- **A late execution takes a completed document to FAILED.** -/
theorem not_ready_never_failed : ¬ ∀ (P : Platform) (c c' : State),
    Corpus.Reachable P anyCall Initial c → ∀ doc ∈ c.world.documents, doc.status = .READY →
      Corpus.Reachable P anyCall (· = c) c' →
        ∀ doc' ∈ c'.world.documents, doc'.id = doc.id → doc'.status ≠ .FAILED := by
  intro hclaim
  obtain ⟨c, hc, hp⟩ := reachable_sample completing (fun c => sampleStatusIs .READY c &&
    (failing.foldlM (Run.tested (Pool.passes passAll) (Corpus.step samplePlatform)) c).any
      (sampleStatusIs .FAILED)) (by decide +kernel)
  obtain ⟨hready, hfailing⟩ := Bool.and_eq_true_iff.mp hp
  obtain ⟨c', hc', hfailed⟩ := reachable_from (· = c) rfl passAll
    (fun _ _ _ _ => trivial) failing _ hfailing
  obtain ⟨doc, hdoc, hdoc10⟩ := List.any_eq_true.mp hready
  obtain ⟨doc', hdoc', hdoc10'⟩ := List.any_eq_true.mp hfailed
  simp only [Bool.and_eq_true, beq_iff_eq] at hdoc10 hdoc10'
  exact hclaim samplePlatform c c' hc doc hdoc hdoc10.2 hc' doc' hdoc'
    (hdoc10'.1.trans hdoc10.1.symm) hdoc10'.2

end

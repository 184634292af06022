import SupportAgent.Documents.Documents
import SupportAgent.Store.Constraints
import SupportAgent.Worker.Pipeline

/-!
# System/Reconcile — the sweep of stuck documents beside the queue and its workers

One clock runs under uploads, the ingest queue, any number of workers and the sweeps of
`reconcile_stuck_documents`.  A job waits, is executed under a lock, fails, is delayed by its
backoff and waits again, up to its attempts; an execution may be lost, or go on after its lock was
given to another.

The sweep takes `updated_at` for a sign of life.  `heard` records when the upload of a document or
an execution of its job last wrote the row, and `Stamped` says that the two are the same for every
row the sweep looks at.

* `sweeps_spare_live_iff` — the sweeps of a run leave the documents with a job in the queue alone
  exactly when each of these was heard of within the age.
-/

open Async Ingestion

/-! ## The queue -/

/-- `attempts` of a job. -/
def ATTEMPTS : ℕ := 3

/-- `backoff.delay` of a job, in seconds. -/
def BACKOFF_DELAY_SECONDS : ℕ := 2

/-- How often a job may lose its worker. -/
def MAX_STALLED_COUNT : ℕ := 1

/-- The age from which a document counts as stuck. -/
def STUCK_AGE_SECONDS : ℕ := 15 * 60

/-- Where a job is; an active one is locked by the execution with the token. -/
inductive JobPhase
  | waiting
  | delayed (readyAt : ℕ)
  | active (token : ℕ)
  | completed
  | failed
  deriving DecidableEq

structure QueuedJob where
  phase : JobPhase := .waiting
  attemptsMade : ℕ := 0
  stalledCounter : ℕ := 0

/-- The exponential backoff before the next attempt. -/
def backoffSeconds (attemptsMade : ℕ) : ℕ := 2 ^ (attemptsMade - 1) * BACKOFF_DELAY_SECONDS

/-- The job is still to be taken by a worker. -/
def JobPhase.pending : JobPhase → Bool
  | waiting | delayed _ => true
  | active _ | completed | failed => false

/-! ## The system -/

inductive TaskKind
  | upload
  | execution (job : IngestJobData) (token : ℕ)
  | failureHandler

structure IngestTask where
  kind : TaskKind
  body : Service Unit

/-- The task is an execution of the document's job. -/
def IngestTask.executes (documentId : Uuid) (task : IngestTask) : Bool :=
  match task.kind with
  | .execution job _ => job.documentId == documentId
  | _ => false

/-- The task is an execution under the token. -/
def IngestTask.holds (token : ℕ) (task : IngestTask) : Bool :=
  match task.kind with
  | .execution _ token' => token' == token
  | _ => false

/-- **The shared state under one clock**, with what the queue keeps of its jobs, the tasks at work
and when each document was last heard of. -/
structure IngestSystem where
  world : World
  clock : ℕ := 0
  queue : Uuid → QueuedJob := fun _ => {}
  tasks : List IngestTask := []
  heard : Uuid → ℕ := fun _ => 0

inductive IngestMove
  | tick (seconds : ℕ)
  | upload (u : Upload)
  /-- A worker takes a waiting job. -/
  | deliver (job : IngestJobData) (embedder : Embedder) (token : ℕ)
  /-- The pending call of a task. -/
  | call (n : ℕ) (d : Decision)
  /-- The queue takes the result of an execution. -/
  | settle (n : ℕ)
  | crash (n : ℕ)
  /-- A delayed job is due. -/
  | promote (documentId : Uuid)
  /-- The lock of an active job has expired. -/
  | stalled (documentId : Uuid)
  | sweep

def IngestMove.isSweep : IngestMove → Bool
  | sweep => true
  | _ => false

/-- The document whose row the call writes for its upload or its job. -/
def World.signOfLife (w : World) : Call → Option Uuid
  | .createDocument data => some data.id
  | .setStatus id t _ | .setParseResult id t _ _ | .setChunkEmbeddings t id _ =>
    (w.findDocument t id).map (·.id)
  | _ => none

/-- A document is heard of. -/
def stamp (heard : Uuid → ℕ) (now : ℕ) : Option Uuid → Uuid → ℕ
  | some id => Function.update heard id now
  | none => heard

/-- The call reaches the store and is not rejected there, whether or not its caller hears of it. -/
def World.goesThrough (P : Platform) (w : World) (c : Call) (d : Decision) : Bool :=
  match d.fault with
  | some (.refused _) => false
  | _ => (w.exec P c d).any (·.1.isOk)

namespace IngestSystem

variable (P : Platform) (s : IngestSystem)

/-- When the documents were last heard of, after a call. -/
def heardAfter (c : Call) (d : Decision) : Uuid → ℕ :=
  if s.world.goesThrough P c d then stamp s.heard d.now (s.world.signOfLife c) else s.heard

def setJob (documentId : Uuid) (job : QueuedJob) : IngestSystem :=
  { s with queue := Function.update s.queue documentId job }

def start (kind : TaskKind) (body : Service Unit) : IngestSystem :=
  { s with tasks := s.tasks ++ [⟨kind, body⟩] }

/-- The result of an execution that holds the lock of its job. -/
def settled (job : IngestJobData) : Except JsError Unit → IngestSystem
  | .ok () => s.setJob job.documentId { s.queue job.documentId with phase := .completed }
  | .error err =>
    let attemptsMade := (s.queue job.documentId).attemptsMade + 1
    let phase : JobPhase :=
      if attemptsMade < ATTEMPTS then .delayed (s.clock + backoffSeconds attemptsMade) else .failed
    (s.setJob job.documentId { s.queue job.documentId with phase, attemptsMade }).start
      .failureHandler (onFailed job attemptsMade ATTEMPTS err)

/-- **One move of the system.** -/
def step : IngestMove → Option IngestSystem
  | .tick seconds => some { s with clock := s.clock + seconds }
  | .upload u => some (s.start .upload (storeUpload u >>= fun _ => pure ()))
  | .deliver job embedder token =>
    if job ∈ s.world.jobs ∧ (s.queue job.documentId).phase = .waiting ∧
        s.tasks.any (·.holds token) = false then
      some ((s.setJob job.documentId { s.queue job.documentId with phase := .active token }).start
        (.execution job token) (processJob P embedder job))
    else none
  | .call n d =>
    match s.tasks[n]? with
    | some ⟨kind, .await c k⟩ =>
      let d := { d with now := s.clock }
      (s.world.handle P c d).map fun (r, world) =>
        { s with world, heard := s.heardAfter P c d, tasks := s.tasks.set n ⟨kind, k r⟩ }
    | _ => none
  | .settle n =>
    match s.tasks[n]? with
    | some ⟨.execution job token, body⟩ => body.outcome.map fun result =>
      let s := { s with tasks := s.tasks.eraseIdx n }
      -- without the lock, the result is not taken
      if (s.queue job.documentId).phase = .active token then s.settled job result else s
    | _ => none
  | .crash n => if n < s.tasks.length then some { s with tasks := s.tasks.eraseIdx n } else none
  | .promote id =>
    match (s.queue id).phase with
    | .delayed readyAt =>
      if readyAt ≤ s.clock then some (s.setJob id { s.queue id with phase := .waiting }) else none
    | _ => none
  | .stalled id =>
    match (s.queue id).phase with
    | .active _ =>
      let stalledCounter := (s.queue id).stalledCounter + 1
      let phase : JobPhase := if stalledCounter ≤ MAX_STALLED_COUNT then .waiting else .failed
      some (s.setJob id { s.queue id with phase, stalledCounter })
    | _ => none
  | .sweep =>
    (s.world.handle P (.reconcileStuckDocuments STUCK_AGE_SECONDS) { now := s.clock }).map
      fun (_, world) => { s with world }

/-- **The document's job is waiting, delayed, or being executed.** -/
def live (id : Uuid) : Bool :=
  s.world.jobs.any (fun job => job.documentId == id && (s.queue id).phase.pending) ||
    s.tasks.any (·.executes id)

/-- **The start**: assistants with nothing ingested yet, and no task. -/
structure Initial : Prop where
  tasks : s.tasks = []
  documents : s.world.documents = []
  chunks : s.world.chunks = []
  jobs : s.world.jobs = []
  assistants : (s.world.assistants.map (·.id)).Nodup

/-! ## The property and its condition -/

/-- **A sweep spares the documents with work left**: one it sets to FAILED has no live job. -/
def SparesLive : Prop :=
  ∀ s' ∈ s.step P .sweep, ∀ doc ∈ s.world.documents, ∀ doc' ∈ s'.world.documents,
    doc'.id = doc.id → doc.status ≠ .FAILED → doc'.status = .FAILED → s.live doc.id = false

/-- **Every unfinished document with a live job was heard of within the age**: its upload or an
execution of its job wrote its row. -/
def Timely : Prop :=
  ∀ doc ∈ s.world.documents, doc.status.unfinished = true → s.live doc.id = true →
    s.clock ≤ s.heard doc.id + STUCK_AGE_SECONDS

/-- The sweeps of a run each find a state as `Q` says. -/
def AtSweeps (Q : IngestSystem → Prop) : IngestSystem → List IngestMove → Prop
  | _, [] => True
  | s, m :: moves =>
    (m.isSweep = true → Q s) ∧ ∀ s' ∈ s.step P m, AtSweeps Q s' moves

instance : Decidable (s.SparesLive P) :=
  inferInstanceAs (Decidable (∀ s' ∈ s.step P .sweep, ∀ doc ∈ s.world.documents,
    ∀ doc' ∈ s'.world.documents, doc'.id = doc.id → doc.status ≠ .FAILED → doc'.status = .FAILED →
      s.live doc.id = false))

instance : Decidable s.Timely :=
  inferInstanceAs (Decidable (∀ doc ∈ s.world.documents, doc.status.unfinished = true →
    s.live doc.id = true → s.clock ≤ s.heard doc.id + STUCK_AGE_SECONDS))

instance decidableAtSweeps (Q : IngestSystem → Prop) [DecidablePred Q] :
    (s : IngestSystem) → (moves : List IngestMove) → Decidable (AtSweeps P Q s moves)
  | _, [] => inferInstanceAs (Decidable True)
  | s, m :: moves =>
    have (s' : IngestSystem) := decidableAtSweeps Q s' moves
    inferInstanceAs
      (Decidable ((m.isSweep = true → Q s) ∧ ∀ s' ∈ s.step P m, AtSweeps P Q s' moves))

end IngestSystem

/-! ## The row is stamped when its document is heard of -/

/-- **`updated_at` tells when an unfinished document was last heard of.** -/
def World.Stamped (heard : Uuid → ℕ) (w : World) : Prop :=
  ∀ doc ∈ w.documents, doc.status.unfinished = true → doc.updatedAt = heard doc.id

namespace World

variable {P : Platform} {w w' : World} {c : Call} {d : Decision} {heard : Uuid → ℕ}

/-- An update of the row an id and a tenant name stamps it, and no other. -/
theorem Stamped.update (hs : w.Stamped heard) (hw : w.WellFormed P) {t id : Uuid} {now : ℕ}
    {f : Document → Document} (hid : ∀ doc, (f doc).id = doc.id)
    (hstamp : ∀ doc, (f doc).updatedAt = now) :
    (w.updateDocuments (·.visible t id) f).Stamped
      (stamp heard now ((w.findDocument t id).map (·.id))) := by
  intro doc' hdoc' hunfinished
  obtain ⟨doc, hdoc, rfl⟩ := Table.mem_updateMany.mp hdoc'
  by_cases hvis : doc.visible t id = true
  · have hfind : w.findDocument t id = some doc :=
      hw.findDocument_eq_some.mpr ⟨hdoc, Document.visible_iff.mp hvis⟩
    rw [if_pos hvis, hstamp, hid, hfind]
    exact (Function.update_self doc.id now heard).symm
  · rw [if_neg hvis] at hunfinished ⊢
    cases hfind : w.findDocument t id with
    | none => exact hs doc hdoc hunfinished
    | some found =>
      obtain ⟨hmem, hfound⟩ := hw.findDocument_eq_some.mp hfind
      have hne : doc.id ≠ found.id := fun heq =>
        hvis (hw.document_eq hdoc hmem heq ▸ Document.visible_iff.mpr hfound)
      change doc.updatedAt = Function.update heard found.id now doc.id
      rw [Function.update_of_ne hne]
      exact hs doc hdoc hunfinished

/-- An update to FAILED leaves no unfinished row behind. -/
theorem Stamped.fail (hs : w.Stamped heard) {p : Document → Bool} {f : Document → Document}
    (hf : ∀ doc, (f doc).status = .FAILED) : (w.updateDocuments p f).Stamped heard := by
  intro doc' hdoc' hunfinished
  obtain ⟨doc, hdoc, rfl⟩ := Table.mem_updateMany.mp hdoc'
  split at hunfinished
  · rw [hf] at hunfinished
    cases hunfinished
  · rw [if_neg ‹_›]
    exact hs doc hdoc hunfinished

/-- **A call that goes through stamps the row it gives a sign of life for**, with the time it
has. -/
theorem Stamped.exec (hs : w.Stamped heard) (hw : w.WellFormed P) {v : c.Res}
    (h : w.exec P c d = some (.ok v, w')) : w'.Stamped (stamp heard d.now (w.signOfLife c)) := by
  cases c with
  | getStatus | getRef | getUnembeddedChunks | findAssistant | scanChunks | embed =>
    obtain ⟨-, rfl⟩ := Prod.mk.inj (Option.some.inj h)
    exact hs
  | setStatus | setParseResult | setChunkEmbeddings =>
    simp only [World.exec] at h
    split at h
    case isFalse => simp at h
    obtain ⟨-, rfl⟩ := Prod.mk.inj (Option.some.inj h)
    exact hs.update hw (fun _ => rfl) fun _ => rfl
  | markFailed | reconcileStuckDocuments =>
    obtain ⟨-, rfl⟩ := Prod.mk.inj (Option.some.inj h)
    exact hs.fail fun _ => rfl
  | createDocument data =>
    simp only [World.exec] at h
    split at h
    case isTrue => simp at h
    case isFalse hfresh =>
      split at h
      case isFalse => simp at h
      obtain ⟨-, rfl⟩ := Prod.mk.inj (Option.some.inj h)
      intro doc hdoc hunfinished
      obtain hdoc | hdoc := List.mem_append.mp hdoc
      · have hne : doc.id ≠ data.id := fun heq => hfresh (heq ▸ hw.documentIssued doc hdoc)
        exact (hs doc hdoc hunfinished).trans (Function.update_of_ne hne _ _).symm
      · obtain rfl := List.mem_singleton.mp hdoc
        exact (Function.update_self data.id d.now heard).symm
  | deleteDocument t id =>
    simp only [World.exec] at h
    split at h <;> obtain ⟨-, rfl⟩ := Prod.mk.inj (Option.some.inj h)
    · exact hs
    · exact fun doc hdoc => hs doc (List.mem_of_mem_filter hdoc)
  | saveChunks =>
    simp only [World.exec] at h
    split at h
    case isFalse => simp at h
    split at h
    case isFalse => simp at h
    obtain ⟨-, rfl⟩ := Prod.mk.inj (Option.some.inj h)
    exact hs
  | ensureEmbeddingModel =>
    simp only [World.exec] at h
    split at h
    · split at h
      · simp at h
      · obtain ⟨-, rfl⟩ := Prod.mk.inj (Option.some.inj h)
        exact hs
    · obtain ⟨-, rfl⟩ := Prod.mk.inj (Option.some.inj h)
      exact hs
  | storagePut =>
    simp only [World.exec] at h
    split at h
    case isTrue => simp at h
    obtain ⟨-, rfl⟩ := Prod.mk.inj (Option.some.inj h)
    exact hs
  | storageGet =>
    simp only [World.exec] at h
    split at h
    case h_2 => simp at h
    obtain ⟨-, rfl⟩ := Prod.mk.inj (Option.some.inj h)
    exact hs
  | storageDelete =>
    obtain ⟨-, rfl⟩ := Prod.mk.inj (Option.some.inj h)
    exact hs
  | enqueue =>
    simp only [World.exec] at h
    split at h <;> obtain ⟨-, rfl⟩ := Prod.mk.inj (Option.some.inj h)
    · exact hs
    · exact hs

/-- **A call, whatever happens to it**, keeps the rows stamped. -/
theorem Stamped.handle {s : IngestSystem} {r : Except JsError c.Res} (hs : s.world.Stamped s.heard)
    (hw : s.world.WellFormed P) (h : s.world.handle P c d = some (r, w')) :
    w'.Stamped (s.heardAfter P c d) := by
  have hexec : ∀ r', s.world.exec P c d = some (r', w') → w'.Stamped
      (if (s.world.exec P c d).any (·.1.isOk) then stamp s.heard d.now (s.world.signOfLife c)
        else s.heard) := by
    intro r' hr'
    rw [hr']
    rcases r' with e | v
    · rw [eq_of_exec_error hr']
      exact hs
    · exact hs.exec hw hr'
  unfold World.handle Fault.through at h
  rw [IngestSystem.heardAfter, goesThrough]
  generalize d.fault = fault at h ⊢
  rcases fault with _ | e | e
  · exact hexec r h
  · obtain ⟨-, rfl⟩ := Prod.mk.inj (Option.some.inj h)
    exact hs
  · obtain ⟨⟨r', w''⟩, hr', heq⟩ := Option.map_eq_some_iff.mp h
    obtain ⟨-, rfl⟩ := Prod.mk.inj heq
    exact hexec r' hr'

end World

/-! ## Runs -/

namespace IngestSystem

variable {P : Platform} {s s' : IngestSystem}

/-- **What every move keeps**: the keys of the database, and the rows stamped. -/
structure Consistent (P : Platform) (s : IngestSystem) : Prop where
  wellFormed : s.world.WellFormed P
  stamped : s.world.Stamped s.heard

theorem Initial.consistent (h : s.Initial) : s.Consistent P where
  wellFormed := .of_empty h.assistants h.documents h.chunks
  stamped := by simp [World.Stamped, h.documents]

/-- A move that makes no call leaves the rows and what is known of them alone. -/
theorem Consistent.of_eq (hs : s.Consistent P) (hworld : s'.world = s.world)
    (hheard : s'.heard = s.heard) : s'.Consistent P :=
  ⟨hworld ▸ hs.wellFormed, by rw [hworld, hheard]; exact hs.stamped⟩

/-- What a sweep does. -/
theorem step_sweep (s : IngestSystem) : s.step P .sweep = some { s with
    world := s.world.updateDocuments
      (fun doc => doc.status.unfinished && decide (doc.updatedAt + STUCK_AGE_SECONDS < s.clock))
      fun doc => { doc with status := .FAILED, error := some (js "ingestion timed out") } } := rfl

theorem Consistent.step (hs : s.Consistent P) {m : IngestMove} (h : s.step P m = some s') :
    s'.Consistent P := by
  cases m with
  | tick | upload =>
    obtain rfl := Option.some.inj h
    exact hs.of_eq rfl rfl
  | deliver | crash =>
    simp only [IngestSystem.step] at h
    split at h
    case isFalse => simp at h
    obtain rfl := Option.some.inj h
    exact hs.of_eq rfl rfl
  | call n d =>
    simp only [IngestSystem.step] at h
    split at h
    case h_2 => simp at h
    obtain ⟨⟨r, w⟩, hr, rfl⟩ := Option.map_eq_some_iff.mp h
    exact ⟨hs.wellFormed.step (World.effect_of_handle hr), hs.stamped.handle hs.wellFormed hr⟩
  | settle n =>
    simp only [IngestSystem.step] at h
    split at h
    case h_2 => simp at h
    obtain ⟨result, -, rfl⟩ := Option.map_eq_some_iff.mp h
    split
    · rcases result with e | _
      · exact hs.of_eq rfl rfl
      · exact hs.of_eq rfl rfl
    · exact hs.of_eq rfl rfl
  | promote id =>
    simp only [IngestSystem.step] at h
    split at h
    case h_2 => simp at h
    split at h
    case isFalse => simp at h
    obtain rfl := Option.some.inj h
    exact hs.of_eq rfl rfl
  | stalled id =>
    simp only [IngestSystem.step] at h
    split at h
    case h_2 => simp at h
    obtain rfl := Option.some.inj h
    exact hs.of_eq rfl rfl
  | sweep =>
    obtain rfl := Option.some.inj ((step_sweep s).symm.trans h)
    exact ⟨hs.wellFormed.step (World.effect_of_exec (P := P) (d := { now := s.clock })
      (c := .reconcileStuckDocuments STUCK_AGE_SECONDS) rfl), hs.stamped.fail fun _ => rfl⟩

/-- **A sweep spares the live jobs exactly when their documents were heard of in time.** -/
theorem Consistent.sparesLive_iff (hs : s.Consistent P) : s.SparesLive P ↔ s.Timely := by
  constructor
  · intro hspares doc hdoc hunfinished hlive
    by_contra hlate
    have hstuck : (doc.status.unfinished &&
        decide (doc.updatedAt + STUCK_AGE_SECONDS < s.clock)) = true := by
      rw [hs.stamped doc hdoc hunfinished, hunfinished, Bool.true_and]
      exact decide_eq_true (Nat.lt_of_not_le hlate)
    have hfailed := Table.mem_updateMany_of_mem (p := fun doc : Document => doc.status.unfinished &&
        decide (doc.updatedAt + STUCK_AGE_SECONDS < s.clock))
      (f := fun doc => { doc with
        status := .FAILED, error := some (js "ingestion timed out") }) hdoc
    rw [if_pos hstuck] at hfailed
    have hstatus : doc.status ≠ .FAILED :=
      fun heq => by simp [heq, DocumentStatus.unfinished] at hunfinished
    have hdead := hspares _ (step_sweep s) doc hdoc _ hfailed rfl hstatus rfl
    exact Bool.false_ne_true (hdead.symm.trans hlive)
  · intro htimely s' hs' doc hdoc doc' hdoc' hid hstatus hfailed
    obtain rfl := Option.some.inj ((step_sweep s).symm.trans hs')
    obtain ⟨row, hrow, rfl⟩ := Table.mem_updateMany.mp hdoc'
    by_cases hstuck : (row.status.unfinished &&
        decide (row.updatedAt + STUCK_AGE_SECONDS < s.clock)) = true
    · rw [if_pos hstuck] at hid
      obtain rfl : row = doc := hs.wellFormed.document_eq hrow hdoc hid
      obtain ⟨hunfinished, hold⟩ := Bool.and_eq_true_iff.mp hstuck
      have hlate : s.heard row.id + STUCK_AGE_SECONDS < s.clock :=
        hs.stamped row hdoc hunfinished ▸ of_decide_eq_true hold
      by_contra hlive
      have hrecent := htimely row hdoc hunfinished (by simpa using hlive)
      omega
    · rw [if_neg hstuck] at hid hfailed
      obtain rfl : row = doc := hs.wellFormed.document_eq hrow hdoc hid
      exact absurd hfailed hstatus

/-- What two conditions have in common in every state a run may reach, they have at its sweeps. -/
theorem atSweeps_congr {Q Q' : IngestSystem → Prop} (hQ : ∀ s, s.Consistent P → (Q s ↔ Q' s))
    (hs : s.Consistent P) (moves : List IngestMove) :
    AtSweeps P Q s moves ↔ AtSweeps P Q' s moves := by
  induction moves generalizing s with
  | nil => exact Iff.rfl
  | cons m moves ih =>
    have hnext : ∀ s', s.step P m = some s' → (AtSweeps P Q s' moves ↔ AtSweeps P Q' s' moves) :=
      fun s' h => ih (hs.step h)
    exact and_congr (imp_congr Iff.rfl (hQ s hs)) (forall₂_congr hnext)

/-- **The sweeps of a run spare the documents with work left exactly when these are heard of in
time** — whatever the uploads, the backlog, the workers, the retries and the losses: no sweep sets a
document to FAILED whose job is waiting, delayed or being executed if and only if at each sweep
every unfinished document with such a job had its row written by its upload or an execution of its
job within the age. -/
theorem sweeps_spare_live_iff {s : IngestSystem} (h : s.Initial) (moves : List IngestMove) :
    AtSweeps P (SparesLive P) s moves ↔ AtSweeps P Timely s moves :=
  atSweeps_congr (fun _ hs => hs.sparesLive_iff) h.consistent moves

/-! ## Runs to try -/

/-- One assistant, nothing ingested. -/
def sampleIngestStart : IngestSystem where
  world := { assistants := [sampleAssistant] }

theorem initial_sampleIngestStart : sampleIngestStart.Initial :=
  ⟨rfl, rfl, rfl, rfl, List.nodup_singleton _⟩

def sampleText : Upload := ⟨7, 1, 10, js "faq.txt", .TXT, [104, 105]⟩

/-- An upload, up to its job in the queue. -/
def sampleUploaded : List IngestMove :=
  .upload sampleText :: List.replicate 4 (.call 0 {})

/-- An execution of the job, up to its request for the bytes. -/
def sampleTaken : List IngestMove :=
  [.deliver sampleText.job ⟨js "m", EMBEDDING_DIMENSIONS⟩ 0, .call 1 {}, .call 1 {}, .call 1 {}]

/-- A sweep after ten minutes in the queue, and another ten minutes into the parsing. -/
theorem sweeps_spare_live_prompt :
    (List.foldlM (step samplePlatform) sampleIngestStart
      (sampleUploaded ++ [.tick 600, .sweep] ++ sampleTaken ++
        [.call 1 {}, .tick 600, .sweep])).isSome ∧
    AtSweeps samplePlatform (SparesLive samplePlatform) sampleIngestStart
      (sampleUploaded ++ [.tick 600, .sweep] ++ sampleTaken ++ [.call 1 {}, .tick 600, .sweep]) :=
  ⟨by decide +kernel, (sweeps_spare_live_iff initial_sampleIngestStart _).mpr (by decide +kernel)⟩

/-- **Documents are timed out with work left**: while their job waits in the queue, while it is
delayed after an attempt that took as long as the age, and while it is parsed for longer. -/
theorem not_sweeps_spare_live :
    (¬ AtSweeps samplePlatform (SparesLive samplePlatform) sampleIngestStart
      (sampleUploaded ++ [.tick 901, .sweep])) ∧
    (¬ AtSweeps samplePlatform (SparesLive samplePlatform) sampleIngestStart
      (sampleUploaded ++ sampleTaken ++
        [.tick 900, .call 1 { fault := some (.refused (.new (js "timeout"))) }, .settle 1, .tick 1,
          .sweep])) ∧
    ¬ AtSweeps samplePlatform (SparesLive samplePlatform) sampleIngestStart
      (sampleUploaded ++ sampleTaken ++ [.call 1 {}, .tick 901, .sweep]) := by
  decide +kernel

end IngestSystem

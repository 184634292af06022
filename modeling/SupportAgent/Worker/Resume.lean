import SupportAgent.Worker.Pipeline

/-!
# Worker/Resume — the status as a checkpoint

`runIngestion` over stages that make whatever calls they like, one attempt at a time on one
document: an attempt may throw or be lost at any await, and FAILED may be written before the next.
Two marks around each stage's body set down what ran (`observed`), so the history of all attempts
can be held against the status.  The loop carries one fact from stage to stage (`Reached`): what the
current rank says has completed, and nothing beyond it has run in this attempt.
-/

open Async

/-! ## The machine -/

/-- The calls of a pipeline whose stages make the calls of `S`. -/
inductive PipelineCall (S : Signature)
  | getStatus
  | setStatus (status : DocumentStatus)
  | began (stage : ℕ)
  | completed (stage : ℕ)
  | work (c : S.Call)

/-- What a call resolves to. -/
abbrev PipelineCall.Res {S : Signature} : PipelineCall S → Type
  | getStatus => Option DocumentStatus
  | setStatus _ | began _ | completed _ => Unit
  | work c => S.Res c

/-- The calls as a signature. -/
abbrev pipeline (S : Signature) : Signature := ⟨PipelineCall S, PipelineCall.Res⟩

/-- What a stage's body did. -/
inductive StageEvent
  | began (stage : ℕ)
  | completed (stage : ℕ)
  deriving DecidableEq

/-- An attempt, from the status it read: the statuses recorded, that one first, and the stages whose
bodies began and completed. -/
structure Attempt where
  initial : DocumentStatus
  recorded : List DocumentStatus
  began : List ℕ
  completed : List ℕ

/-- The document's status, the state the stages work on, what the stages did in all attempts so far
and what the last attempt did. -/
structure Checkpoint (σ : Type) where
  status : DocumentStatus
  inner : σ
  history : List StageEvent
  attempt : Attempt

section

variable {S : Signature} {δ σ : Type}

/-- A stage's own body, its calls among the pipeline's. -/
def Async.Proc.work {α : Type} : Proc S JsError α → Proc (pipeline S) JsError α
  | .ret a => .ret a
  | .throw e => .throw e
  | .await c k => .await (.work c) fun r => (k r).work

/-- The status store of the one document. -/
def statusStore (S : Signature) : DocumentStatusStore (pipeline S) where
  getStatus _ _ := Proc.call (S := pipeline S) .getStatus
  setStatus _ _ status := Proc.call (S := pipeline S) (.setStatus status)

/-- A stage with marks around its body. -/
def observed (i : ℕ) (stage : IngestStage S) : IngestStage (pipeline S) where
  name := stage.name
  startStatus := stage.startStatus
  run job := do
    Proc.call (S := pipeline S) (.began i)
    (stage.run job).work
    Proc.call (S := pipeline S) (.completed i)

/-- Stages numbered from `i` on. -/
def observedFrom (i : ℕ) : List (IngestStage S) → List (IngestStage (pipeline S))
  | [] => []
  | stage :: rest => observed i stage :: observedFrom (i + 1) rest

namespace Checkpoint

/-- An attempt reads the status. -/
def read (s : Checkpoint σ) : Checkpoint σ :=
  { s with attempt := ⟨s.status, [s.status], [], []⟩ }

/-- An attempt records a status. -/
def record (s : Checkpoint σ) (status : DocumentStatus) : Checkpoint σ :=
  { s with
    status := status
    attempt := { s.attempt with recorded := s.attempt.recorded ++ [status] } }

/-- A stage's body begins. -/
def begin (s : Checkpoint σ) (stage : ℕ) : Checkpoint σ :=
  { s with
    history := s.history ++ [.began stage]
    attempt := { s.attempt with began := s.attempt.began ++ [stage] } }

/-- A stage's body has returned. -/
def complete (s : Checkpoint σ) (stage : ℕ) : Checkpoint σ :=
  { s with
    history := s.history ++ [.completed stage]
    attempt := { s.attempt with completed := s.attempt.completed ++ [stage] } }

/-- A stage's own call. -/
def work (s : Checkpoint σ) (inner : σ) : Checkpoint σ := { s with inner := inner }

/-- **One call.**  The status calls may fail as any store call, the marks never do, and what the
stages' calls do is up to them. -/
def handle (H : Handler S JsError δ σ) :
    Handler (pipeline S) JsError (Option Fault × δ) (Checkpoint σ)
  | s, .getStatus, d => Fault.through d.1 s (some (.ok (some s.status), s.read))
  | s, .setStatus status, d => Fault.through d.1 s (some (.ok (), s.record status))
  | s, .began stage, _ => some (.ok (), s.begin stage)
  | s, .completed stage, _ => some (.ok (), s.complete stage)
  | s, .work c, d => (H s.inner c d.2).map fun rs => (rs.1, s.work rs.2)

end Checkpoint

/-- The document, and the attempt at work on it. -/
abbrev Resume.State (S : Signature) (σ : Type) : Type :=
  Solo (pipeline S) JsError Unit (Checkpoint σ)

/-- A move: an attempt starts, goes on or is lost, or FAILED is written between two attempts. -/
abbrev Resume.Move (δ : Type) : Type := Solo.Move IngestJobData (Option Fault × δ) Unit

/-- **One move.**  FAILED may be written whatever the status: `markFailed` and the reconciler spare
READY, which only takes runs away. -/
def Resume.step (H : Handler S JsError δ σ) (stages : List (IngestStage S)) :
    Resume.State S σ → Resume.Move δ → Option (Resume.State S σ) :=
  Solo.step (Checkpoint.handle H)
    (fun _ job => some (runIngestion (statusStore S) job (observedFrom 0 stages)))
    (fun s _ => some { s with status := .FAILED })

/-- A document that nothing has been done to. -/
structure Resume.Initial (c : Resume.State S σ) : Prop where
  task : c.task = none
  status : c.world.status = .QUEUED ∨ c.world.status = .UPLOADED
  history : c.world.history = []
  attempt : c.world.attempt = ⟨c.world.status, [], [], []⟩

/-- The states of all runs. -/
abbrev Resume.Reachable (H : Handler S JsError δ σ) (stages : List (IngestStage S)) :
    Resume.State S σ → Prop :=
  Run.Reachable (Resume.step H stages) Run.anyMove Resume.Initial

/-- The status that means stage `i` is finished. -/
def doneAt (stages : List (IngestStage S)) (i : ℕ) : DocumentStatus :=
  doneStatus (stages.drop (i + 1))

/-- **Start statuses that rise**, above UPLOADED. -/
structure Rising (stages : List (IngestStage S)) : Prop where
  above : ∀ stage ∈ stages, rank .UPLOADED < rank stage.startStatus
  increasing : stages.Pairwise fun s s' => rank s.startStatus < rank s'.startStatus

/-- **What the status and the history say of each other**: the status vouches for the stages it says
are finished, no stage began before the ones before it had completed, and an attempt never takes the
status back. -/
structure Sound (stages : List (IngestStage S)) (s : Checkpoint σ) : Prop where
  vouched : ∀ i < stages.length, rank (doneAt stages i) ≤ rank s.status → .completed i ∈ s.history
  ordered : ∀ past i, past ++ [.began i] <+: s.history → ∀ j < i, .completed j ∈ past
  monotone : (s.attempt.recorded.map rank).Pairwise (· ≤ ·)

/-- An attempt that did not throw: READY, after the stages it found unfinished, in order. -/
def Finished (stages : List (IngestStage S)) (s : Checkpoint σ) : Prop :=
  s.status = .READY ∧ s.attempt.began = s.attempt.completed ∧
    s.attempt.completed = (List.range stages.length).filter fun i =>
      rank s.attempt.initial < rank (doneAt stages i)

end

/-! ## What the calls keep -/

section

variable {S : Signature} {δ σ : Type} {stages : List (IngestStage S)} {s : Checkpoint σ}

/-- A prefix that ends in one event is there before another is added. -/
theorem StageEvent.isPrefix_of_ne {past history : List StageEvent} {e e' : StageEvent}
    (hne : e ≠ e') (h : past ++ [e] <+: history ++ [e']) : past ++ [e] <+: history := by
  rcases List.prefix_concat_iff.mp h with heq | hpre
  · exact absurd (List.append_inj' heq rfl).2 (by simpa using hne)
  · exact hpre

theorem Sound.read (h : Sound stages s) : Sound stages s.read :=
  ⟨h.vouched, h.ordered, List.pairwise_singleton _ _⟩

theorem Sound.work (h : Sound stages s) (inner : σ) : Sound stages (s.work inner) :=
  ⟨h.vouched, h.ordered, h.monotone⟩

/-- A status may be recorded that vouches for completed stages only, and takes nothing back. -/
theorem Sound.record (h : Sound stages s) {status : DocumentStatus}
    (hvouched : ∀ i < stages.length, rank (doneAt stages i) ≤ rank status →
      .completed i ∈ s.history)
    (hle : ∀ st ∈ s.attempt.recorded, rank st ≤ rank status) : Sound stages (s.record status) := by
  refine ⟨hvouched, h.ordered, ?_⟩
  dsimp only [Checkpoint.record]
  rw [List.map_append]
  refine List.pairwise_append.mpr ⟨h.monotone, List.pairwise_singleton _ _, ?_⟩
  intro a ha b hb
  obtain ⟨st, hst, rfl⟩ := List.mem_map.mp ha
  obtain rfl := List.mem_singleton.mp hb
  exact hle st hst

/-- A stage may begin once the stages before it have completed. -/
theorem Sound.begin (h : Sound stages s) {k : ℕ} (hk : ∀ j < k, .completed j ∈ s.history) :
    Sound stages (s.begin k) := by
  refine ⟨fun i hi hr => List.mem_append_left _ (h.vouched i hi hr), ?_, h.monotone⟩
  intro past i hpast
  by_cases hik : i = k
  · subst hik
    rcases List.prefix_concat_iff.mp hpast with heq | hpre
    · exact (List.append_inj' heq rfl).1 ▸ hk
    · exact h.ordered past i hpre
  · exact h.ordered past i (StageEvent.isPrefix_of_ne (by simpa using hik) hpast)

theorem Sound.complete (h : Sound stages s) (k : ℕ) : Sound stages (s.complete k) := by
  refine ⟨fun i hi hr => List.mem_append_left _ (h.vouched i hi hr), ?_, h.monotone⟩
  intro past i hpast
  exact h.ordered past i (StageEvent.isPrefix_of_ne (by simp) hpast)

/-! ## How the ranks lie -/

theorem doneAt_eq (stages : List (IngestStage S)) (i : ℕ) :
    doneAt stages i = (stages[i + 1]?.map (·.startStatus)).getD .READY := by
  rw [doneAt, ← List.head?_drop]
  cases stages.drop (i + 1) <;> rfl

/-- **The done status of a stage ranks above the start of every stage up to it.** -/
theorem Rising.lt_doneAt (h : Rising stages)
    (hbelow : ∀ stage ∈ stages, rank stage.startStatus < rank .READY) {k i : ℕ}
    (hk : k < stages.length) (hki : k ≤ i) :
    rank stages[k].startStatus < rank (doneAt stages i) := by
  rw [doneAt_eq]
  rcases hnext : stages[i + 1]? with _ | next
  · exact hbelow _ (List.getElem_mem hk)
  · obtain ⟨hi, rfl⟩ := List.getElem?_eq_some_iff.mp hnext
    exact List.pairwise_iff_getElem.mp h.increasing k (i + 1) hk hi (by omega)

theorem eq_ready_of_rank {status : DocumentStatus} (h : rank .READY ≤ rank status) :
    status = .READY := by
  cases status <;> first | rfl | exact absurd h (by decide)

/-! ## The loop -/

/-- **Where the loop stands** before stage `k`: the stages before it have completed, this attempt
has run those of them it found unfinished, and the current rank is what it read or what stage `k`
starts from. -/
structure Reached (stages : List (IngestStage S)) (k curRank : ℕ) (s : Checkpoint σ) : Prop where
  sound : Sound stages s
  rank_eq : rank s.status = curRank
  before : ∀ j < k, .completed j ∈ s.history
  began_eq : s.attempt.began = s.attempt.completed
  ran : s.attempt.completed = (List.range k).filter fun i =>
    rank s.attempt.initial < rank (doneAt stages i)
  initial_le : rank s.attempt.initial ≤ curRank
  here : curRank = rank s.attempt.initial ∨ curRank = rank (doneStatus (stages.drop k))
  recorded_le : ∀ status ∈ s.attempt.recorded, rank status ≤ curRank

variable (H : Handler S JsError δ σ)

/-- One attempt at a time: nothing else happens between its calls. -/
def resumeContract (stages : List (IngestStage S)) :
    Contract (pipeline S) JsError (Option Fault × δ) (Checkpoint σ) where
  handler := Checkpoint.handle H
  meets := fun _ _ _ => True
  inv := Sound stages
  rely := Eq
  guar := fun _ _ => True
  rely_refl := Eq.refl
  rely_trans := Eq.trans

variable {H}

/-- **One call of an attempt.** -/
theorem resume_call {c : (pipeline S).Call} {Q : Except JsError ((pipeline S).Res c) →
    Checkpoint σ → Prop}
    (h : ∀ d r t, Checkpoint.handle H s c d = some (r, t) → Sound stages t ∧ Q r t) :
    (resumeContract H stages).Safe Q (Proc.call c) s := by
  refine Contract.Safe.call ?_
  rintro s₁ rfl - d r t - hh
  obtain ⟨hsound, hq⟩ := h d r t hh
  exact ⟨hsound, trivial, hq⟩

/-- A status written, or an error. -/
theorem safe_setStatus {status : DocumentStatus} {job : IngestJobData} (hs : Sound stages s)
    (hrecord : Sound stages (s.record status)) :
    (resumeContract H stages).Safe (fun o t => o = .ok () → t = s.record status)
      ((statusStore S).setStatus job.documentId job.tenantId status) s := by
  refine resume_call fun d r t hh => ?_
  dsimp only [Checkpoint.handle, Fault.through] at hh
  split at hh
  · obtain ⟨rfl, rfl⟩ := Prod.mk.inj (Option.some.inj hh)
    exact ⟨hrecord, fun _ => rfl⟩
  · obtain ⟨rfl, rfl⟩ := Prod.mk.inj (Option.some.inj hh)
    exact ⟨hs, nofun⟩
  · obtain ⟨rfl, rfl⟩ := Prod.mk.inj (Option.some.inj hh)
    exact ⟨hrecord, nofun⟩

/-- A stage's own body touches neither status nor history. -/
theorem safe_work {α : Type} (hs : Sound stages s) (p : Proc S JsError α) :
    (resumeContract H stages).Safe (fun _ t => ∃ inner, t = s.work inner) p.work s := by
  induction p generalizing s with
  | ret a => exact ⟨s.inner, rfl⟩
  | throw e => exact ⟨s.inner, rfl⟩
  | await c k ih =>
    rintro s₁ rfl - d r t - hh
    obtain ⟨rs, -, heq⟩ := Option.map_eq_some_iff.mp hh
    obtain ⟨rfl, rfl⟩ := Prod.mk.inj heq
    refine ⟨hs.work _, trivial, (ih rs.1 (hs.work rs.2)).imp ?_⟩
    rintro o t ⟨inner, rfl⟩
    exact ⟨inner, rfl⟩

theorem doneStatus_observedFrom (k : ℕ) (rest : List (IngestStage S)) :
    doneStatus (observedFrom k rest) = doneStatus rest := by
  cases rest <;> rfl

/-- The stages before `k` vouch for any status below what stage `k` makes of it. -/
theorem Reached.vouched {k curRank : ℕ} (h : Reached stages k curRank s) (status : DocumentStatus)
    (hlt : ∀ i, k ≤ i → i < stages.length → rank status < rank (doneAt stages i)) :
    ∀ i < stages.length, rank (doneAt stages i) ≤ rank status → .completed i ∈ s.history := by
  intro i hi hr
  refine h.before i ?_
  by_contra hik
  have := hlt i (by omega) hi
  omega

/-- A stage the status vouches for is passed over. -/
theorem Reached.skip {k curRank : ℕ} (hrising : Rising stages)
    (hbelow : ∀ stage ∈ stages, rank stage.startStatus < rank .READY) (hk : k < stages.length)
    (h : Reached stages k curRank s) (hdone : rank (doneAt stages k) ≤ curRank) :
    Reached stages (k + 1) curRank s := by
  have hcur : curRank = rank s.attempt.initial := by
    rcases h.here with hcur | hcur
    · exact hcur
    · -- the start of a stage does not vouch for it
      rw [List.drop_eq_getElem_cons hk] at hcur
      have := hrising.lt_doneAt hbelow hk (Nat.le_refl k)
      simp only [doneStatus] at hcur
      omega
  refine { h with before := fun j hj => ?_, ran := ?_, here := .inl hcur }
  · rcases Nat.lt_succ_iff_lt_or_eq.mp hj with hj | rfl
    · exact h.before j hj
    · exact h.sound.vouched j hk (h.rank_eq.symm ▸ hdone)
  · rw [h.ran, List.range_succ, List.filter_append]
    have hnot : ¬rank s.attempt.initial < rank (doneAt stages k) := by omega
    simp [hnot]

/-- A stage's start status is recorded. -/
theorem Reached.start {k curRank : ℕ} (hrising : Rising stages)
    (hbelow : ∀ stage ∈ stages, rank stage.startStatus < rank .READY) (hk : k < stages.length)
    (h : Reached stages k curRank s) (hlt : curRank < rank stages[k].startStatus) :
    Reached stages k (rank stages[k].startStatus) (s.record stages[k].startStatus) := by
  have hvouched := h.vouched stages[k].startStatus
    fun i hi _ => hrising.lt_doneAt hbelow hk hi
  have hle : ∀ st ∈ s.attempt.recorded, rank st ≤ rank stages[k].startStatus := fun st hst =>
    (h.recorded_le st hst).trans hlt.le
  refine ⟨h.sound.record hvouched hle, rfl, h.before, h.began_eq, h.ran,
    h.initial_le.trans hlt.le, .inr ?_, ?_⟩
  · rw [List.drop_eq_getElem_cons hk, doneStatus]
  · intro st hst
    rcases List.mem_append.mp hst with hst | hst
    · exact hle st hst
    · rw [List.mem_singleton.mp hst]

/-- A stage's body has run and its done status is recorded. -/
theorem Reached.next {k curRank : ℕ} (hrising : Rising stages)
    (hbelow : ∀ stage ∈ stages, rank stage.startStatus < rank .READY) (hk : k < stages.length)
    (h : Reached stages k curRank s) (hlt : curRank < rank (doneAt stages k)) (inner : σ) :
    Reached stages (k + 1) (rank (doneAt stages k))
      ((((s.begin k).work inner).complete k).record (doneAt stages k)) := by
  have hsound : Sound stages (((s.begin k).work inner).complete k) :=
    ((h.sound.begin h.before).work inner).complete k
  have hbefore : ∀ j < k + 1, .completed j ∈ (((s.begin k).work inner).complete k).history := by
    intro j hj
    rcases Nat.lt_succ_iff_lt_or_eq.mp hj with hj | rfl
    · exact List.mem_append_left _ (List.mem_append_left _ (h.before j hj))
    · exact List.mem_append_right _ (List.mem_singleton_self _)
  have hle : ∀ st ∈ s.attempt.recorded, rank st ≤ rank (doneAt stages k) := fun st hst =>
    (h.recorded_le st hst).trans hlt.le
  refine ⟨hsound.record (fun i hi hr => hbefore i ?_) hle, rfl, hbefore, ?_, ?_,
    h.initial_le.trans hlt.le, .inr rfl, ?_⟩
  · -- a later stage's done status ranks higher
    by_contra hik
    have hk' : k + 1 < stages.length := by omega
    have := hrising.lt_doneAt hbelow hk' (show k + 1 ≤ i by omega)
    rw [doneAt_eq stages k, List.getElem?_eq_getElem hk'] at hr
    simp only [Option.map_some, Option.getD_some] at hr
    omega
  · exact congrArg (· ++ [k]) h.began_eq
  · have hran : rank s.attempt.initial < rank (doneAt stages k) := h.initial_le.trans_lt hlt
    change s.attempt.completed ++ [k] = (List.range (k + 1)).filter fun i =>
      rank s.attempt.initial < rank (doneAt stages i)
    rw [h.ran, List.range_succ, List.filter_append,
      List.filter_cons_of_pos (by simpa using hran), List.filter_nil]
  · intro st hst
    rcases List.mem_append.mp hst with hst | hst
    · exact hle st hst
    · rw [List.mem_singleton.mp hst]

/-- One stage: its body, its done status, and the stages after. -/
theorem safe_stage {job : IngestJobData} (hrising : Rising stages)
    (hbelow : ∀ stage ∈ stages, rank stage.startStatus < rank .READY) {k : ℕ}
    (hlt : k < stages.length) {stage : IngestStage S} {later : List (IngestStage (pipeline S))}
    (hlater : ∀ u, Reached stages (k + 1) (rank (doneAt stages k)) u →
      (resumeContract H stages).Safe (fun o t => o = .ok () → Finished stages t)
        (runStages (statusStore S) job later (rank (doneAt stages k))) u)
    {curRank : ℕ} {t : Checkpoint σ} (ht : Reached stages k curRank t)
    (hcur : curRank < rank (doneAt stages k)) :
    (resumeContract H stages).Safe (fun o t => o = .ok () → Finished stages t)
      ((observed k stage).run job >>= fun _ => do
        (statusStore S).setStatus job.documentId job.tenantId (doneAt stages k)
        runStages (statusStore S) job later (rank (doneAt stages k))) t := by
  refine Contract.Safe.bind (Contract.Safe.bind (resume_call fun d r u hu => ?_))
  obtain ⟨rfl, rfl⟩ := Prod.mk.inj (Option.some.inj hu)
  have hbegun := ht.sound.begin ht.before
  refine ⟨hbegun, Contract.Safe.bind ((safe_work hbegun _).imp ?_)⟩
  rintro (e | _) v ⟨inner, rfl⟩
  · exact nofun
  refine resume_call fun d r u hu => ?_
  obtain ⟨rfl, rfl⟩ := Prod.mk.inj (Option.some.inj hu)
  have hnext := ht.next hrising hbelow hlt hcur inner
  refine ⟨(hbegun.work inner).complete k, Contract.Safe.bind
    ((safe_setStatus ((hbegun.work inner).complete k) hnext.sound).imp ?_)⟩
  rintro (e | _) v hv
  · exact nofun
  · obtain rfl := hv rfl
    exact hlater _ hnext

/-- **The loop**, from stage `k` on. -/
theorem safe_loop {job : IngestJobData} (hrising : Rising stages)
    (hbelow : ∀ stage ∈ stages, rank stage.startStatus < rank .READY)
    {rest : List (IngestStage S)} {k curRank : ℕ} (hk : k ≤ stages.length)
    (hrest : stages.drop k = rest) (hs : Reached stages k curRank s) :
    (resumeContract H stages).Safe (fun o t => o = .ok () → Finished stages t)
      (runStages (statusStore S) job (observedFrom k rest) curRank) s := by
  induction rest generalizing k curRank s with
  | nil =>
    obtain rfl : k = stages.length := by
      have := List.drop_eq_nil_iff.mp hrest
      omega
    rw [observedFrom, runStages]
    split
    case isTrue hlt =>
      have hvouched := hs.vouched .READY fun i hi hi' => by omega
      refine (safe_setStatus hs.sound (hs.sound.record hvouched fun st hst =>
        (hs.recorded_le st hst).trans hlt.le)).imp ?_
      rintro o t ht rfl
      rw [ht rfl]
      exact ⟨rfl, hs.began_eq, hs.ran⟩
    case isFalse hge =>
      rintro -
      exact ⟨eq_ready_of_rank (hs.rank_eq ▸ Nat.not_lt.mp hge), hs.began_eq, hs.ran⟩
  | cons stage rest ih =>
    have hlt : k < stages.length := by
      by_contra hge
      rw [List.drop_eq_nil_of_le (by omega)] at hrest
      cases hrest
    obtain ⟨hstage, hrest'⟩ := List.cons.inj ((List.drop_eq_getElem_cons hlt).symm.trans hrest)
    have hdone : doneStatus (observedFrom (k + 1) rest) = doneAt stages k := by
      rw [doneStatus_observedFrom, doneAt, hrest']
    have hafter : ∀ u, Reached stages (k + 1) (rank (doneAt stages k)) u →
        (resumeContract H stages).Safe (fun o t => o = .ok () → Finished stages t)
          (runStages (statusStore S) job (observedFrom (k + 1) rest) (rank (doneAt stages k))) u :=
      fun u hu => ih hlt hrest' hu
    rw [observedFrom, runStages, hdone]
    split
    case isTrue hle => exact ih hlt hrest' (hs.skip hrising hbelow hlt hle)
    case isFalse hgt =>
      have hstart : (observed k stage).startStatus = stages[k].startStatus := by rw [hstage]; rfl
      split
      case isTrue hcur =>
        rw [hstart] at hcur ⊢
        have hstarted := hs.start hrising hbelow hlt hcur
        refine Contract.Safe.bind ((safe_setStatus hs.sound hstarted.sound).imp ?_)
        rintro (e | _) t ht
        · intro herror
          cases herror
        · obtain rfl := ht rfl
          have hcur' := hrising.lt_doneAt hbelow hlt (Nat.le_refl k)
          exact safe_stage hrising hbelow hlt hafter hstarted hcur'
      case isFalse => exact safe_stage hrising hbelow hlt hafter hs (Nat.not_le.mp hgt)

end

/-! ## The results -/

section

variable {S : Signature} {δ σ : Type} {stages : List (IngestStage S)} {H : Handler S JsError δ σ}

/-- An attempt, from its reading of the status on. -/
theorem safe_attempt {job : IngestJobData} (hrising : Rising stages)
    (hbelow : ∀ stage ∈ stages, rank stage.startStatus < rank .READY) {s : Checkpoint σ}
    (hs : Sound stages s) :
    (resumeContract H stages).Safe (fun o t => o = .ok () → Finished stages t)
      (runIngestion (statusStore S) job (observedFrom 0 stages)) s := by
  refine Contract.Safe.bind (resume_call fun d r t hh => ?_)
  dsimp only [Checkpoint.handle, Fault.through] at hh
  split at hh
  · obtain ⟨rfl, rfl⟩ := Prod.mk.inj (Option.some.inj hh)
    refine ⟨hs.read, safe_loop hrising hbelow (Nat.zero_le _) rfl ⟨hs.read, rfl, ?_, rfl, rfl,
      Nat.le_refl _, .inl rfl, ?_⟩⟩
    · intro j hj
      omega
    · intro st hst
      rw [List.mem_singleton.mp hst]
  · obtain ⟨rfl, rfl⟩ := Prod.mk.inj (Option.some.inj hh)
    exact ⟨hs, nofun⟩
  · obtain ⟨rfl, rfl⟩ := Prod.mk.inj (Option.some.inj hh)
    exact ⟨hs.read, nofun⟩

/-- FAILED vouches for nothing. -/
theorem Sound.failed {s : Checkpoint σ} (hs : Sound stages s) :
    Sound stages { s with status := .FAILED } := by
  refine ⟨fun i hi hr => hs.vouched i hi ?_, hs.ordered, hs.monotone⟩
  have hzero : rank .FAILED = 0 := by decide
  have hle : rank (doneAt stages i) ≤ 0 := hzero ▸ hr
  omega

theorem sound_initial (hrising : Rising stages)
    (hbelow : ∀ stage ∈ stages, rank stage.startStatus < rank .READY) {c : Resume.State S σ}
    (hc : Resume.Initial c) : Sound stages c.world := by
  refine ⟨fun i hi hr => ?_, fun past i hpast => ?_, ?_⟩
  · have hzero : rank c.world.status = 0 := by
      rcases hc.status with hst | hst <;> rw [hst] <;> decide
    have := hrising.lt_doneAt hbelow hi (Nat.le_refl i)
    omega
  · rw [hc.history] at hpast
    simp at hpast
  · rw [hc.attempt]
    exact List.Pairwise.nil

/-- **The pipeline resumes correctly**, whatever its stages do and wherever attempts end: the status
vouches for completed stages only, no stage begins before the ones before it have completed, an
attempt never takes the status back, and one that does not throw ends READY having run the stages it
found unfinished, in order. -/
theorem pipeline_resumes (hrising : Rising stages)
    (hbelow : ∀ stage ∈ stages, rank stage.startStatus < rank .READY) {c : Resume.State S σ}
    (hc : Resume.Reachable H stages c) :
    Sound stages c.world ∧ (c.task = some (.ret ()) → Finished stages c.world) := by
  have hok := Solo.ok_of_reachable (K := resumeContract H stages)
    (Q := fun o t => o = .ok () → Finished stages t) (fun _ => trivial)
    (fun s job p hs hp => Option.some.inj hp ▸ safe_attempt hrising hbelow hs)
    (fun s _ s' hs hp => ⟨Option.some.inj hp ▸ hs.failed, trivial⟩)
    (fun c hinit => ⟨sound_initial hrising hbelow hinit, by simp [hinit.task]⟩)
    (hc.mono fun _ m _ => Solo.meets_of_forall (fun _ _ _ => trivial) m)
  exact ⟨hok.inv, fun hdone => hok.safe _ hdone rfl⟩

end

section

/-- Stages that do nothing. -/
def idleStages (statuses : List DocumentStatus) : List (IngestStage backend) :=
  statuses.map fun status => ⟨js "idle", status, fun _ => pure ()⟩

/-- An uploaded document. -/
def uploaded : Resume.State backend Unit where
  world := ⟨.UPLOADED, (), [], ⟨.UPLOADED, [], [], []⟩⟩
  task := none

theorem initial_uploaded : Resume.Initial uploaded := ⟨rfl, .inr rfl, rfl, rfl⟩

/-- The stages' calls never happen. -/
def noWork : Handler backend JsError Unit Unit := fun _ _ _ => none

/-- A run on the uploaded document that ends as a test says. -/
theorem reachable_uploaded (statuses : List DocumentStatus) (moves : List (Resume.Move Unit))
    (p : Resume.State backend Unit → Bool)
    (hp : (moves.foldlM (Run.tested (fun _ _ => true) (Resume.step noWork (idleStages statuses)))
      uploaded).any p = true) :
    ∃ c, Resume.Reachable noWork (idleStages statuses) c ∧ p c = true := by
  have hstart : Resume.Reachable noWork (idleStages statuses) uploaded := .start initial_uploaded
  exact hstart.replay (fun _ _ => true) (fun _ _ _ => trivial) moves p hp

/-- An attempt on the sample job. -/
def attemptStarts : Resume.Move Unit := .launch ⟨10, 7, 1⟩

/-- `count` calls, each going through. -/
def goesOn (count : ℕ) : List (Resume.Move Unit) := List.replicate count (.resume (none, ()))

/-- The first attempt is lost in its second stage, FAILED is written, the second attempt
completes. -/
def lostThenFailed : List (Resume.Move Unit) :=
  attemptStarts :: goesOn 6 ++ [.crash, .between (), attemptStarts] ++ goesOn 8

/-- An attempt that has returned. -/
def returned (c : Resume.State backend Unit) : Bool :=
  match c.task with
  | some (.ret _) => true
  | _ => false

theorem task_of_returned {c : Resume.State backend Unit} (h : returned c = true) :
    c.task = some (.ret ()) := by
  unfold returned at h
  split at h
  case h_1 htask => exact htask
  case h_2 => simp at h

/-- The second attempt runs both stages again. -/
theorem pipeline_resumes_lostThenFailed :
    ∃ c, Resume.Reachable noWork (idleStages [.PARSING, .EMBEDDING]) c ∧
      c.world.history = [.began 0, .completed 0, .began 1, .began 0, .completed 0, .began 1,
        .completed 1] ∧ c.world.status = .READY ∧ c.world.attempt.completed = [0, 1] := by
  obtain ⟨c, hc, hp⟩ := reachable_uploaded [.PARSING, .EMBEDDING] lostThenFailed
    (fun c => returned c && c.world.attempt.initial == .FAILED && c.world.history ==
      [.began 0, .completed 0, .began 1, .began 0, .completed 0, .began 1, .completed 1])
    (by decide +kernel)
  simp only [Bool.and_eq_true, beq_iff_eq] at hp
  obtain ⟨⟨hreturned, hinitial⟩, hhistory⟩ := hp
  obtain ⟨-, hfinished⟩ := pipeline_resumes ⟨by decide, by decide⟩ (by decide) hc
  obtain ⟨hready, -, hcompleted⟩ := hfinished (task_of_returned hreturned)
  rw [hinitial] at hcompleted
  exact ⟨c, hc, hhistory, hready, hcompleted.trans (by decide)⟩

/-- **A stage that starts from READY is vouched for before it has run.** -/
theorem not_pipeline_resumes : ¬ ∀ (S : Signature) (δ σ : Type) (H : Handler S JsError δ σ)
    (stages : List (IngestStage S)), Rising stages → ∀ c : Resume.State S σ,
      Resume.Reachable H stages c →
        Sound stages c.world ∧ (c.task = some (.ret ()) → Finished stages c.world) := by
  intro hclaim
  obtain ⟨c, hc, hp⟩ := reachable_uploaded [.READY] (attemptStarts :: goesOn 2)
    (fun c => c.world.status == .READY && c.world.history.isEmpty) (by decide +kernel)
  obtain ⟨hready, hempty⟩ := Bool.and_eq_true_iff.mp hp
  obtain ⟨hsound, -⟩ := hclaim _ _ _ noWork (idleStages [.READY]) ⟨by decide, by decide⟩ c hc
  have hmem := hsound.vouched 0 (by decide) (by rw [beq_iff_eq.mp hready]; decide)
  simp [List.isEmpty_iff.mp hempty] at hmem

end

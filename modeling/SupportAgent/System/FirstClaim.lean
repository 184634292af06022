import SupportAgent.Machinery.Sequential
import SupportAgent.System.Models

/-!
# System/FirstClaim — when an assistant's embedding model is recorded

The embed stage records its model in a transaction of its own, before it asks the provider for a
vector.  A run with its past tells whether an assistant has been given a vector yet.

* `NullUntilEmbedded` — a recorded model has embedded a chunk of its assistant.
* `null_until_embedded_iff` — that is so as long as no step records a model where there is none, and
  every such step breaks it; a stage by itself leaves the model unrecorded exactly when it stops
  before.
-/

open Async Ingestion World

/-! ## The claim -/

section

variable {P : Platform} {w w' : World} {d : Decision} {tenantId assistantId : Uuid}
  {model : JsString} {a : Assistant}

/-- The call records a model for an assistant that has none. -/
def FirstClaim (w : World) (c : Call) (d : Decision) : Prop :=
  d.Performed ∧ ∃ tenantId assistantId model, c = .ensureEmbeddingModel tenantId assistantId model ∧
    ∃ a, w.findAssistant tenantId assistantId = some a ∧ a.embeddingModel = none

/-- The assistant found after a claim is the one found before. -/
theorem findAssistant_claimModel (ha : w.findAssistant tenantId assistantId = some a)
    (hnull : a.embeddingModel = none) :
    (w.claimModel tenantId assistantId model).findAssistant tenantId assistantId =
      some { a with embeddingModel := some model } := by
  have hvisible : a.visible tenantId assistantId = true := List.find?_some ha
  have hsame : ∀ b : Assistant, (if b.visible tenantId assistantId && b.embeddingModel.isNone then
      { b with embeddingModel := some model } else b).visible tenantId assistantId =
        b.visible tenantId assistantId := by
    intro b
    split <;> rfl
  have hfind : (w.claimModel tenantId assistantId model).findAssistant tenantId assistantId =
      (w.findAssistant tenantId assistantId).map fun b =>
        if b.visible tenantId assistantId && b.embeddingModel.isNone then
          { b with embeddingModel := some model } else b := by
    rw [World.findAssistant, World.claimModel, Table.updateMany, List.find?_map]
    exact congrArg (fun p => (w.assistants.find? p).map _) (funext hsame)
  rw [hfind, ha, Option.map_some, if_pos (by rw [hvisible, hnull]; rfl)]

/-- **A first claim goes through**, unless it is refused. -/
theorem handle_firstClaim (ha : w.findAssistant tenantId assistantId = some a)
    (hnull : a.embeddingModel = none) (hd : d.Performed) :
    ∃ r, w.handle P (.ensureEmbeddingModel tenantId assistantId model) d =
      some (r, w.claimModel tenantId assistantId model) := by
  have hexec : w.exec P (.ensureEmbeddingModel tenantId assistantId model) d =
      some (.ok (), w.claimModel tenantId assistantId model) := by
    simp only [World.exec]
    rw [findAssistant_claimModel ha hnull]
    exact if_neg (not_not.mpr rfl)
  rw [World.handle, hexec]
  rcases hfault : d.fault with _ | e | e
  · exact ⟨_, rfl⟩
  · exact absurd hfault (hd e)
  · exact ⟨_, rfl⟩

/-- **Without a first claim** every assistant keeps the model it has, or has not. -/
theorem embeddingModel_eq_of_not_firstClaim {c : Call} {r : Except JsError c.Res}
    (hw : w.WellFormed P)
    (hc : ¬FirstClaim w c d) (h : w.handle P c d = some (r, w')) {a' : Assistant}
    (ha' : a' ∈ w'.assistants) :
    ∃ a ∈ w.assistants, a'.unclaimed = a.unclaimed ∧ a'.embeddingModel = a.embeddingModel := by
  by_cases hd : d.Performed
  · obtain ⟨a, ha, hsame, heq | ⟨hnull, model, rfl, -⟩⟩ := (effect_of_handle h).assistant_origin ha'
    · exact ⟨a, ha, hsame, heq⟩
    · have hfind := hw.findAssistant_eq_some.mpr ⟨ha, rfl, rfl⟩
      exact absurd ⟨hd, _, _, _, rfl, a, hfind, hnull⟩ hc
  · obtain rfl := eq_of_not_performed hd h
    exact ⟨a', ha', rfl, rfl⟩

end

/-! ## Runs with their past -/

/-- A chunk of the assistant has a vector of this model. -/
def Embedded (w : World) (a : Assistant) (model : JsString) : Prop :=
  ∃ row ∈ w.chunks, row.tenantId = a.tenantId ∧ row.assistantId = a.id ∧
    ∃ e, row.embedding = some e ∧ e.model = model

/-- **Null until the first chunk is embedded**: a recorded model has embedded a chunk of its
assistant, now or at some time before. -/
def NullUntilEmbedded (h : Corpus.State × List Corpus.State) : Prop :=
  ∀ a ∈ h.1.world.assistants, ∀ model, a.embeddingModel = some model →
    ∃ c ∈ h.1 :: h.2, Embedded c.world a model

/-- **A start**: a corpus in order, no task at work on it, and every recorded model in use. -/
structure InUse (P : Platform) (c : Corpus.State) : Prop where
  tasks : c.tasks = []
  inv : ModelsInv P c.world
  used : NullUntilEmbedded (c, [])

/-- An empty corpus is one. -/
theorem Corpus.Initial.inUse {P : Platform} {c : Corpus.State} (h : Corpus.Initial c) :
    InUse P c where
  tasks := h.tasks
  inv :=
    have hok : c.Ok (modelsContract P Corpus.anyCall) (endsWell Corpus.anyCall) := ok_of_initial h
    hok.inv
  used a ha model hm := by simp [h.embeddingModel a ha] at hm

/-- The calls that are no first claim. -/
def noFirstClaim (w : World) (c : Call) (d : Decision) : Prop := ¬FirstClaim w c d

section

variable {P : Platform} {h h' : Corpus.State × List Corpus.State} {m : Corpus.Move}

theorem Embedded.of_unclaimed {w : World} {a a' : Assistant} {model : JsString}
    (h : Embedded w a model) (hsame : a'.unclaimed = a.unclaimed) : Embedded w a' model := by
  obtain ⟨row, hrow, ht, ha, he⟩ := h
  exact ⟨row, hrow, ht.trans (congrArg Assistant.tenantId hsame :).symm,
    ha.trans (congrArg Assistant.id hsame :).symm, he⟩

/-- **A move without a first claim** records no model. -/
theorem NullUntilEmbedded.step (hw : h.1.world.WellFormed P) (hused : NullUntilEmbedded h)
    (hm : h.1.Meets noFirstClaim m) (hs : Run.recorded (Corpus.step P) h m = some h') :
    NullUntilEmbedded h' := by
  obtain ⟨s, hstep, rfl⟩ := Option.map_eq_some_iff.mp hs
  intro a' ha' model hmodel
  obtain ⟨a, ha, hsame, heq⟩ : ∃ a ∈ h.1.world.assistants, a'.unclaimed = a.unclaimed ∧
      a'.embeddingModel = a.embeddingModel := by
    obtain hworld | ⟨c, d, r, hc, hr⟩ := Pool.world_step hm hstep
    · exact ⟨a', hworld ▸ ha', rfl, rfl⟩
    · exact embeddingModel_eq_of_not_firstClaim hw hc hr ha'
  obtain ⟨c, hc, hembedded⟩ := hused a ha model (heq ▸ hmodel)
  exact ⟨c, List.mem_cons_of_mem _ hc, hembedded.of_unclaimed hsame⟩

/-- What holds all along a run: the corpus is in order, and the states before led up to it. -/
theorem inv_of_recorded {meets : World → Call → Decision → Prop}
    (hr : Run.Recorded (Corpus.step P) (Pool.Meets meets) (InUse P) h) :
    h.1.Ok (modelsContract P meets) (endsWell meets) ∧
      ∀ c ∈ h.2, c.Ok (modelsContract P meets) (endsWell meets) ∧ c.world.Evolves h.1.world := by
  refine Run.Recorded.invariant (J := fun c => c.Ok (modelsContract P meets) (endsWell meets))
    (R := fun c c' => c.world.Evolves c'.world)
    (fun _ _ _ hs ht => hs.trans ht) hr (fun c hc => ⟨hc.inv, by simp [hc.tasks]⟩) ?_
  intro c m c' hc hm hs
  exact hc.step (fun _ _ h => h) (fun _ _ _ h _ => h)
    (fun w l p hi h => safe_launch w l p hi h) hm hs

/-- **A recorded model stays in use** in a run without first claims. -/
theorem nullUntilEmbedded_of_recorded
    (hr : Run.Recorded (Corpus.step P) (Pool.Meets noFirstClaim) (InUse P) h) :
    NullUntilEmbedded h := by
  have hboth : h.1.world.WellFormed P ∧ NullUntilEmbedded h := by
    refine Run.Reachable.invariant (P := fun h => h.1.world.WellFormed P ∧
      NullUntilEmbedded h) hr ?_ ?_
    · rintro ⟨c, past⟩ ⟨hc, rfl⟩
      exact ⟨hc.inv.wellFormed, hc.used⟩
    · rintro h m h' ⟨hw, hused⟩ hm hs
      refine ⟨?_, hused.step hw hm hs⟩
      obtain ⟨s, hstep, rfl⟩ := Option.map_eq_some_iff.mp hs
      obtain hworld | ⟨c, d, r, -, hr⟩ := Pool.world_step hm hstep
      · exact hworld ▸ hw
      · exact hw.step (effect_of_handle hr)
  exact hboth.2

/-- An assistant without a model has no vector in any state before. -/
theorem not_embedded_of_null {w w' : World} (hi : ModelsInv P w) (hw : w'.WellFormed P)
    (hev : w.Evolves w') {a : Assistant} (ha : a ∈ w'.assistants) (hnull : a.embeddingModel = none)
    {model : JsString} : ¬Embedded w a model := by
  rintro ⟨row, hrow, ht, hid, e, he, -⟩
  obtain ⟨b, hb, hbid, -, hmodel⟩ := (hi.produced row hrow e he).evolves hev
  obtain rfl := hw.assistant_eq hb ha (hbid.trans hid)
  cases hnull.symm.trans hmodel

/-- **A first claim breaks it**: the corpus has no vector yet. -/
theorem not_nullUntilEmbedded_of_firstClaim
    (hr : Run.Recorded (Corpus.step P) (Pool.Meets Corpus.anyCall) (InUse P) h)
    (hs : Run.recorded (Corpus.step P) h m = some h') (hm : ¬h.1.Meets noFirstClaim m) :
    ¬NullUntilEmbedded h' := by
  obtain ⟨hok, hpast⟩ := inv_of_recorded hr
  obtain ⟨s, hstep, rfl⟩ := Option.map_eq_some_iff.mp hs
  rcases m with l | ⟨n, d⟩ | n
  · exact absurd trivial hm
  · simp only [Pool.Meets, noFirstClaim, not_forall, not_not] at hm
    obtain ⟨call, k, htask, hd, tenantId, assistantId, model, rfl, a, hfind, hnull⟩ := hm
    obtain ⟨r, hhandle⟩ : ∃ r,
        h.1.world.handle P (.ensureEmbeddingModel tenantId assistantId model) d =
        some (r, h.1.world.claimModel tenantId assistantId model) :=
          handle_firstClaim hfind hnull hd
    obtain ⟨ha, -, -⟩ := hok.inv.wellFormed.findAssistant_eq_some.mp hfind
    obtain rfl : s = ⟨h.1.world.claimModel tenantId assistantId model, h.1.tasks.set n (k r)⟩ := by
      rw [Corpus.step, Pool.step, htask] at hstep
      dsimp only at hstep
      rw [hhandle] at hstep
      exact (Option.some.inj hstep).symm
    intro hused
    have hrecorded : { a with embeddingModel := some model } ∈
        (h.1.world.claimModel tenantId assistantId model).assistants :=
      List.mem_of_find?_eq_some (findAssistant_claimModel hfind hnull)
    obtain ⟨c, hc, hembedded⟩ := hused _ hrecorded model rfl
    replace hembedded : Embedded c.world a model := hembedded
    rcases List.mem_cons.mp hc with rfl | hc
    · -- the claim itself embeds nothing
      exact not_embedded_of_null hok.inv hok.inv.wellFormed (.refl _) ha hnull hembedded
    rcases List.mem_cons.mp hc with rfl | hc
    · exact not_embedded_of_null hok.inv hok.inv.wellFormed (.refl _) ha hnull hembedded
    · obtain ⟨hok', hev⟩ := hpast c hc
      exact not_embedded_of_null hok'.inv hok.inv.wellFormed hev ha hnull hembedded
  · exact absurd trivial hm

end

/-! ## The stage by itself -/

/-- The embed stage ends before it records a model: the embedder is of the wrong width, the chunks
cannot be read, all of them have a vector, or the claim is turned away. -/
def StopsBeforeClaim (embedder : Embedder) (job : IngestJobData) (w : World)
    (d : ℕ → Decision) : Prop :=
  embedder.dimensions ≠ EMBEDDING_DIMENSIONS ∨ (d 0).fault ≠ none ∨
    (∀ row ∈ w.chunks, row.documentId = job.documentId → row.tenantId = job.tenantId →
      row.embedding ≠ none) ∨ ¬(d 1).Performed

section

variable {P : Platform} {embedder : Embedder} {job : IngestJobData} {w w' : World}
  {d : ℕ → Decision}

/-- Reading the chunks to embed changes nothing, and fails under a fault only. -/
theorem read_of_getUnembeddedChunks {documentId tenantId : Uuid} {e : Decision}
    {r : Except JsError (List PendingChunk)}
    (h : w.handle P (.getUnembeddedChunks documentId tenantId) e = some (r, w')) :
    w' = w ∧ ((∃ err, r = .error err) ↔ e.fault ≠ none) := by
  rw [World.handle, World.exec] at h
  rcases hfault : e.fault with _ | err | err
  · rw [hfault] at h
    obtain ⟨rfl, rfl⟩ := Prod.mk.inj (Option.some.inj h)
    refine ⟨rfl, iff_of_false (fun herror => ?_) (not_not.mpr rfl)⟩
    obtain ⟨err, herr⟩ := herror
    cases herr
  · rw [hfault] at h
    obtain ⟨rfl, rfl⟩ := Prod.mk.inj (Option.some.inj h)
    exact ⟨rfl, iff_of_true ⟨err, rfl⟩ (Option.some_ne_none _)⟩
  · rw [hfault] at h
    obtain ⟨rfl, rfl⟩ := Prod.mk.inj (Option.some.inj h)
    exact ⟨rfl, iff_of_true ⟨err, rfl⟩ (Option.some_ne_none _)⟩

/-- **No chunk is left to embed** exactly if every chunk of the document has a vector. -/
theorem pending_eq_nil_iff {documentId tenantId : Uuid} {e : Decision} {pending : List PendingChunk}
    (h : w.handle P (.getUnembeddedChunks documentId tenantId) e = some (.ok pending, w')) :
    pending = [] ↔ ∀ row ∈ w.chunks, row.documentId = documentId → row.tenantId = tenantId →
      row.embedding ≠ none := by
  obtain ⟨-, hpending⟩ := mem_of_getUnembeddedChunks h
  rw [List.eq_nil_iff_forall_not_mem]
  constructor
  · intro hnil row hrow hdoc ht he
    exact hnil _ ((hpending ⟨row.id, row.content⟩).mpr ⟨row, hrow, hdoc, ht, he, rfl⟩)
  · intro hall p hp
    obtain ⟨row, hrow, hdoc, ht, he, -⟩ := (hpending p).mp hp
    exact hall row hrow hdoc ht he

/-- The batches leave the assistants as they are. -/
theorem assistants_of_embedBatches {batches : List (List PendingChunk)} {r : Except JsError Unit}
    (h : (embedBatches embedder job batches).run (World.handle P) d w = some (r, w')) :
    w'.assistants = w.assistants := by
  have honly : (embedBatches embedder job batches).Only
      fun c : Call => ∀ tenantId assistantId model,
        c ≠ .ensureEmbeddingModel tenantId assistantId model :=
    only_embedBatches (by exact fun _ _ _ _ _ heq => by cases heq)
      (by exact fun _ _ _ _ heq => by cases heq) batches
  refine (Proc.run_keeps (R := fun u v => v.assistants = u.assistants) (I := fun _ => True)
    (fun _ => rfl)
    (fun {a b c} (hab : b.assistants = a.assistants) (hbc : c.assistants = b.assistants) =>
      hbc.trans hab) (fun c e u r v hc _ hcall => ⟨?_, trivial⟩) honly trivial h).1
  rcases effect_of_handle hcall with _ | _ | _ | _ | _ | _ | _ | _ | _ | _
  case claimed => exact absurd rfl (hc _ _ _)
  all_goals rfl

/-- **The stage by itself** leaves the model unrecorded exactly when it stops before the claim. -/
theorem null_after_embedStage_iff {a : Assistant} {r : Except JsError Unit}
    (ha : w.findAssistant job.tenantId job.assistantId = some a) (hnull : a.embeddingModel = none)
    (h : ((embedStage embedder).run job).run (World.handle P) d w = some (r, w')) :
    (∃ a', w'.findAssistant job.tenantId job.assistantId = some a' ∧ a'.embeddingModel = none) ↔
      StopsBeforeClaim embedder job w d := by
  dsimp only [embedStage] at h
  split at h
  case isTrue hdims =>
    obtain ⟨-, rfl⟩ := Prod.mk.inj (Option.some.inj h)
    exact iff_of_true ⟨a, ha, hnull⟩ (.inl hdims)
  case isFalse hdims =>
    obtain ⟨⟨pending, w₀⟩, hread, h⟩ := Option.bind_eq_some_iff.mp h
    obtain ⟨rfl, hfault⟩ := read_of_getUnembeddedChunks hread
    rcases pending with e | pending
    · obtain ⟨-, rfl⟩ := Prod.mk.inj (Option.some.inj h)
      exact iff_of_true ⟨a, ha, hnull⟩ (.inr (.inl (hfault.mp ⟨e, rfl⟩)))
    have hnone := pending_eq_nil_iff hread
    simp only [Proc.bind] at h
    split at h
    case isTrue hnil =>
      obtain ⟨-, rfl⟩ := Prod.mk.inj (Option.some.inj h)
      exact iff_of_true ⟨a, ha, hnull⟩ (.inr (.inr (.inl (hnone.mp hnil))))
    case isFalse hne =>
      obtain ⟨⟨r₁, w₁⟩, hclaim, h⟩ := Option.bind_eq_some_iff.mp h
      replace hclaim : w₀.handle P
          (.ensureEmbeddingModel job.tenantId job.assistantId embedder.model) (d 1) =
            some (r₁, w₁) := hclaim
      by_cases hd : (d 1).Performed
      · obtain ⟨r₂, hfirst⟩ : ∃ r, w₀.handle P
            (.ensureEmbeddingModel job.tenantId job.assistantId embedder.model) (d 1) =
              some (r, w₀.claimModel job.tenantId job.assistantId embedder.model) :=
          handle_firstClaim ha hnull hd
        obtain ⟨rfl, rfl⟩ := Prod.mk.inj (Option.some.inj (hclaim.symm.trans hfirst))
        have hsame : w'.assistants =
            (w₀.claimModel job.tenantId job.assistantId embedder.model).assistants := by
          rcases r₁ with e | _
          · obtain ⟨-, rfl⟩ := Prod.mk.inj (Option.some.inj h)
            rfl
          · exact assistants_of_embedBatches h
        have hrecorded : w'.findAssistant job.tenantId job.assistantId =
            some { a with embeddingModel := some embedder.model } := by
          rw [← findAssistant_claimModel ha hnull, World.findAssistant, hsame]
          rfl
        refine iff_of_false ?_ ?_
        · rintro ⟨a', ha', hnull'⟩
          obtain rfl := Option.some.inj (hrecorded.symm.trans ha')
          cases hnull'
        · rintro (hwidth | hread' | hall | hrefused)
          · exact hdims hwidth
          · obtain ⟨e, he⟩ := hfault.mpr hread'
            cases he
          · exact hne (hnone.mpr hall)
          · exact hrefused hd
      · obtain rfl := eq_of_not_performed hd hclaim
        have hrefused : w' = w₁ := by
          rcases r₁ with e | _
          · exact (Prod.mk.inj (Option.some.inj h)).2.symm
          · refine absurd (fun e he => ?_) hd
            rw [fault_of_handle_ok hclaim] at he
            cases he
        rw [hrefused]
        exact iff_of_true ⟨a, ha, hnull⟩ (.inr (.inr (.inr hd)))

end

/-! ## The result -/

/-- **A model is recorded before a vector is written.**  A recorded model has embedded a chunk in
every state of a run without first claims, and every first claim makes a state where it has not; the
embed stage by itself leaves a model unrecorded, whatever becomes of its embed calls, exactly when
it stops before. -/
theorem null_until_embedded_iff (P : Platform) :
    (∀ h, Run.Recorded (Corpus.step P) (Pool.Meets noFirstClaim) (InUse P) h →
      NullUntilEmbedded h) ∧
    (∀ h h' m, Run.Recorded (Corpus.step P) (Pool.Meets Corpus.anyCall) (InUse P) h →
      Run.recorded (Corpus.step P) h m = some h' → ¬h.1.Meets noFirstClaim m →
      ¬NullUntilEmbedded h') ∧
    ∀ (embedder : Embedder) (job : IngestJobData) (w w' : World) (d : ℕ → Decision) (a : Assistant)
      (r : Except JsError Unit), w.findAssistant job.tenantId job.assistantId = some a →
      a.embeddingModel = none → ((embedStage embedder).run job).run (World.handle P) d w =
      some (r, w') →
      ((∃ a', w'.findAssistant job.tenantId job.assistantId = some a' ∧ a'.embeddingModel = none) ↔
        StopsBeforeClaim embedder job w d) :=
  ⟨fun _ => nullUntilEmbedded_of_recorded, fun _ _ _ => not_nullUntilEmbedded_of_firstClaim,
    fun _ _ _ _ _ _ _ => null_after_embedStage_iff⟩

section

open Corpus

/-- A run with its past, replayed. -/
theorem recorded_from {meets : World → Call → Decision → Prop} (init : State → Prop) {c : State}
    (hc : init c) (ok : World → Call → Bool) (hok : ∀ w call d, ok w call = true → meets w call d)
    (moves : List Move) (p : State × List State → Bool)
    (hp : (moves.foldlM (Run.tested (fun h => Pool.passes ok h.1)
      (Run.recorded (step samplePlatform))) (c, [])).any p = true) :
    ∃ h, Run.Recorded (step samplePlatform) (Pool.Meets meets) init h ∧ p h = true := by
  have hstart : Run.Recorded (step samplePlatform) (Pool.Meets meets) init (c, []) :=
    .start ⟨hc, rfl⟩
  exact hstart.replay (fun h => Pool.passes ok h.1)
    (fun _ _ h => Pool.meets_of_passes hok h) moves p hp

/-- A call that records no model where there is none. -/
def claimsAgain (w : World) : Call → Bool
  | .ensureEmbeddingModel tenantId assistantId _ =>
    (w.findAssistant tenantId assistantId).all (·.embeddingModel.isSome)
  | _ => true

theorem noFirstClaim_of_claimsAgain (w : World) (c : Call) (d : Decision)
    (h : claimsAgain w c = true) : noFirstClaim w c d := by
  rintro ⟨-, tenantId, assistantId, model, rfl, a, ha, hnull⟩
  rw [claimsAgain, ha, Option.all_some, hnull] at h
  cases h

/-- One document embedded with model `m`, and its tasks gone. -/
def oneEmbedded : List Move :=
  sampleUploading 0 10 [104, 105] ++ [sampleIngest (js "m") 10] ++ resumes 1 1 ++
    sampleParsing 1 20 ++ sampleEmbedding 1 ++ [.crash 1, .crash 0]

/-- A second document for the same model. -/
def secondEmbedded : List Move :=
  sampleUploading 0 11 [106] ++ [sampleIngest (js "m") 11] ++ resumes 1 1 ++ sampleParsing 1 21 ++
    sampleEmbedding 1

/-- No task is at work, and every assistant's model has embedded a chunk. -/
def usedAndIdle (c : State) : Bool :=
  c.tasks.isEmpty && c.world.assistants.all fun a => a.embeddingModel.all fun model =>
    c.world.chunks.any fun row => row.tenantId == a.tenantId && row.assistantId == a.id &&
      row.embedding.any (·.model == model)

theorem inUse_of_usedAndIdle {P : Platform} {c : State} (hi : ModelsInv P c.world)
    (h : usedAndIdle c = true) : InUse P c := by
  rw [usedAndIdle, Bool.and_eq_true, List.isEmpty_iff, List.all_eq_true] at h
  refine ⟨h.1, hi, fun a ha model hmodel => ⟨c, List.mem_cons_self, ?_⟩⟩
  have hused := h.2 a ha
  rw [hmodel, Option.all_some, List.any_eq_true] at hused
  obtain ⟨row, hrow, hvector⟩ := hused
  simp only [Bool.and_eq_true, beq_iff_eq, Option.any_eq_true] at hvector
  obtain ⟨⟨ht, hid⟩, e, he, hm⟩ := hvector
  exact ⟨row, hrow, ht, hid, e, he, hm⟩

/-- A run that embeds more with the model in use. -/
theorem null_until_embedded_iff_secondEmbedded : ∃ h : State × List State,
    Run.Recorded (step samplePlatform) (Pool.Meets noFirstClaim) (InUse samplePlatform) h ∧
      h.1.world.chunks.map (·.embedded) = [true, true] ∧ NullUntilEmbedded h := by
  obtain ⟨c, hc, htest⟩ := reachable_sample oneEmbedded (fun c => usedAndIdle c &&
    (secondEmbedded.foldlM (Run.tested (fun h => Pool.passes claimsAgain h.1)
      (Run.recorded (step samplePlatform))) (c, [])).any fun h =>
        h.1.world.chunks.map (·.embedded) == [true, true]) (by decide +kernel)
  obtain ⟨hidle, hsecond⟩ := Bool.and_eq_true_iff.mp htest
  have hinUse := inUse_of_usedAndIdle (ok_of_reachable (fun _ h => ok_of_initial h) hc).inv hidle
  obtain ⟨h, hr, hembedded⟩ := recorded_from (InUse samplePlatform) hinUse claimsAgain
    noFirstClaim_of_claimsAgain secondEmbedded _ hsecond
  exact ⟨h, hr, beq_iff_eq.mp hembedded, (null_until_embedded_iff samplePlatform).1 h hr⟩

/-- The provider turns the key of the worker down. -/
def unauthorized : Decision := { fault := some (.refused ⟨js "unauthorized", some 401⟩) }

/-- A document whose only embed call is turned down. -/
def turnedDown : List Move :=
  sampleUploading 0 10 [104, 105] ++ [sampleIngest (js "m") 10] ++ resumes 1 1 ++
    sampleParsing 1 20 ++ resumes 1 2 ++ [.resume 1 unauthorized]

/-- Every task has ended, the model is recorded, and no state of the run has a vector. -/
def lockedWithoutVectors (h : State × List State) : Bool :=
  (h.1.tasks.all fun p => p.outcome.isSome) &&
    h.1.world.assistants.any (·.embeddingModel == some (js "m")) &&
      (h.1 :: h.2).all fun c => c.world.chunks.all fun row => !row.embedded

/-- **A failed ingestion locks its assistant to a model.** -/
theorem not_null_until_embedded : ¬ ∀ (P : Platform) (h : State × List State),
    Run.Recorded (step P) (Pool.Meets anyCall) Initial h → NullUntilEmbedded h := by
  intro hclaim
  obtain ⟨h, hr, hlocked⟩ := recorded_from Initial initial_sampleStart passAll
    (fun _ _ _ _ => (trivial : anyCall _ _ _)) turnedDown lockedWithoutVectors (by decide +kernel)
  rw [lockedWithoutVectors, Bool.and_eq_true, Bool.and_eq_true, List.any_eq_true] at hlocked
  obtain ⟨⟨-, a, ha, hmodel⟩, hnone⟩ := hlocked
  obtain ⟨c, hc, row, hrow, -, -, e, he, -⟩ :=
    hclaim samplePlatform h hr a ha _ (beq_iff_eq.mp hmodel)
  have hchunks := List.all_eq_true.mp (List.all_eq_true.mp hnone c hc) row hrow
  simp [Chunk.embedded, he] at hchunks

end

import SupportAgent.Machinery.Sequential
import SupportAgent.Routes.Handlers

/-!
# Routes/Uploads — what an upload leaves behind

`POST /documents` looks its assistant up, puts the object, creates the row and enqueues the job,
each in a store of its own, with one handler around the four that answers a failure.

* `Settled` — the object, the row and the job are there and the answer is 201, or the answer is an
  error and there is no row and no job.
* `upload_settled_iff` — an upload is settled exactly when nothing fails from its row on.
-/

open Async Ingestion

/-! ## A route around a service -/

section

variable {α : Type} {P : Platform}

/-- What a route sends for the outcome of its service. -/
def sent (status : ℕ) (error : JsString) (answer : α → Response) : Except JsError α → Response
  | .ok a => answer a
  | .error _ => errorResponse status error

/-- A call of a service, made by a route. -/
theorem handle_service (s : ApiState) (c : Call) (d : ApiDecision) :
    s.handle P (.service c) d =
      (s.world.handle P c d.toDecision).map fun x => (x.1, { s with world := x.2 }) := by
  rw [ApiState.handle, ApiState.exec, World.handle]
  rcases d.fault with _ | e | e
  · rfl
  · rfl
  · rw [Fault.through, Fault.through, Option.map_map, Option.map_map]
    rfl

/-- **A route that answers for its service** runs as the service does, and always answers. -/
theorem run_catching (p : Service α) (status : ℕ) (error : JsString) (answer : α → Response)
    (d : ℕ → ApiDecision) (s : ApiState) :
    (catching status error (Service.toRoute p >>= fun a => .ret (answer a))).run
      (ApiState.handle P) d s =
      (p.run (World.handle P) (fun n => (d n).toDecision) s.world).map fun x =>
        (.ok (sent status error answer x.1), { s with world := x.2 }) := by
  induction p generalizing d s with
  | ret a => rfl
  | throw e => rfl
  | await c k ih =>
    have hroute :
        (catching status error (Service.toRoute (.await c k) >>= fun a => .ret (answer a))).run
        (ApiState.handle P) d s = (s.handle P (.service c) (d 0)).bind fun x =>
          (catching status error (Service.toRoute (k x.1) >>= fun a => .ret (answer a))).run
            (ApiState.handle P) (fun n => d (n + 1)) x.2 := rfl
    rw [hroute, handle_service, Proc.run]
    rcases s.world.handle P c (d 0).toDecision with _ | ⟨r, w⟩
    · rfl
    · exact ih r _ _

/-- **A call that would go through**, at the front of a body: it does, it is refused, or its answer
is lost. -/
theorem run_call_cases {c : Call} {f : c.Res → Service α} {d : ℕ → Decision}
    {w w₁ : World} {v : c.Res} (hexec : w.exec P c (d 0) = some (.ok v, w₁)) :
    ((d 0).fault = none ∧ (Proc.call (S := backend) c >>= f).run (World.handle P) d w =
      (f v).run (World.handle P) (fun n => d (n + 1)) w₁) ∨
    (∃ e, (d 0).fault = some (.refused e) ∧
      (Proc.call (S := backend) c >>= f).run (World.handle P) d w = some (.error e, w)) ∨
    ∃ e, (d 0).fault = some (.lost e) ∧
      (Proc.call (S := backend) c >>= f).run (World.handle P) d w = some (.error e, w₁) := by
  have hhandle : w.handle P c (d 0) = Fault.through (d 0).fault w (some (.ok v, w₁)) := by
    rw [World.handle, hexec]
  rcases hfault : (d 0).fault with _ | e | e
  · rw [hfault] at hhandle
    exact .inl ⟨rfl, (Proc.run_await hhandle).trans rfl⟩
  · rw [hfault] at hhandle
    exact .inr (.inl ⟨e, rfl, (Proc.run_await hhandle).trans rfl⟩)
  · rw [hfault] at hhandle
    exact .inr (.inr ⟨e, rfl, (Proc.run_await hhandle).trans rfl⟩)

end

/-! ## The coroutine of an upload -/

/-- The upload gets as far as its row: the assistant is looked up and found, the object is put, and
the creation is not turned away. -/
def WritesRow (w : World) (tenantId assistantId : Uuid) (d : ℕ → Decision) : Prop :=
  (d 0).fault = none ∧ (w.findAssistant tenantId assistantId).isSome ∧ (d 1).fault = none ∧
  (d 2).Performed

/-- The data of an upload's row. -/
def Upload.document (u : Upload) : NewDocument where
  id := u.documentId
  tenantId := u.tenantId
  assistantId := u.assistantId
  title := JsString.slice u.originalname 0 MAX_TITLE_LENGTH
  sourceType := u.sourceType
  storageKey := tenantObjectKey u.tenantId u.documentId
  status := .UPLOADED

section

variable {P : Platform} {u : Upload} {w : World} {d : ℕ → Decision}

theorem error_ne_ok (e : JsError) (a : Bool) : (Except.error e : Except JsError Bool) ≠ .ok a :=
  fun h => by cases h

theorem performed_of_none (h : (d 0).fault = none) : (d 0).Performed := fun e he => by
  cases h.symm.trans he

/-- The job of a document is in the queue once it was put there. -/
theorem exec_enqueue (w : World) (job : IngestJobData) (e : Decision) :
    ∃ w', w.exec P (.enqueue job) e = some (.ok (), w') ∧ w'.objects = w.objects ∧
      w'.documents = w.documents ∧ ∃ j ∈ w'.jobs, j.documentId = job.documentId := by
  by_cases hthere : (w.jobs.any fun j => j.documentId == job.documentId) = true
  · refine ⟨w, if_pos hthere, rfl, rfl, ?_⟩
    obtain ⟨j, hj, hid⟩ := List.any_eq_true.mp hthere
    exact ⟨j, hj, beq_iff_eq.mp hid⟩
  · refine ⟨{ w with jobs := w.jobs ++ [job] }, if_neg hthere, rfl, rfl, job, ?_, rfl⟩
    exact List.mem_append_right _ (List.mem_singleton_self job)

/-- **Up to the object**: a body that looks its assistant up and puts the object goes on behind the
two, or it stops there and leaves the tables as they were. -/
theorem run_lookup_put (tenantId assistantId : Uuid) {documentId : Uuid} (body : Bytes)
    (rest : Service Bool) (hfresh : documentId ∉ w.issued) :
    let service : Service Bool := Proc.call (S := backend) (.findAssistant tenantId assistantId) >>=
      fun assistant => if assistant.isNone then pure false else
        Proc.call (S := backend)
          (.storagePut (tenantObjectKey tenantId documentId) body) >>= fun _ => rest
    ((d 0).fault = none ∧ (w.findAssistant tenantId assistantId).isSome ∧ (d 1).fault = none) ∧
        service.run (World.handle P) d w = rest.run (World.handle P) (fun n => d (n + 2)) { w with
          objects := Function.update w.objects (tenantObjectKey tenantId documentId) (some body) } ∨
      ¬((d 0).fault = none ∧ (w.findAssistant tenantId assistantId).isSome ∧ (d 1).fault = none) ∧
        ∃ r w', service.run (World.handle P) d w = some (r, w') ∧ r ≠ .ok true ∧
          w'.documents = w.documents ∧ w'.jobs = w.jobs := by
  intro service
  have hfind : w.exec P (.findAssistant tenantId assistantId) (d 0) =
      some (.ok (w.findAssistant tenantId assistantId), w) := rfl
  obtain ⟨hd₀, hrun⟩ | ⟨e, hd₀, hrun⟩ | ⟨e, hd₀, hrun⟩ := run_call_cases hfind
  rotate_left
  · exact .inr ⟨fun h => (by cases hd₀.symm.trans h.1), _, _, hrun, error_ne_ok e true, rfl, rfl⟩
  · exact .inr ⟨fun h => (by cases hd₀.symm.trans h.1), _, _, hrun, error_ne_ok e true, rfl, rfl⟩
  rw [hrun]
  rcases hassistant : w.findAssistant tenantId assistantId with _ | a
  · exact .inr ⟨fun h => (by cases h.2.1), _, _, rfl, fun h => (by cases h), rfl, rfl⟩
  dsimp only [Option.isNone_some]
  rw [if_neg Bool.false_ne_true]
  have hput : w.exec P (.storagePut (tenantObjectKey tenantId documentId) body)
      (d 1) = some (.ok (), { w with
      objects := Function.update w.objects (tenantObjectKey tenantId documentId) (some body) }) :=
        if_neg hfresh
  obtain ⟨hd₁, hrun⟩ | ⟨e, hd₁, hrun⟩ | ⟨e, hd₁, hrun⟩ :=
    run_call_cases (d := fun n => d (n + 1)) hput
  · exact .inl ⟨⟨hd₀, rfl, hd₁⟩, hrun⟩
  · exact .inr ⟨fun h => (by cases hd₁.symm.trans h.2.2), _, _, hrun, error_ne_ok e true, rfl, rfl⟩
  · exact .inr ⟨fun h => (by cases hd₁.symm.trans h.2.2), _, _, hrun, error_ne_ok e true, rfl, rfl⟩

/-- **From the row on**: it is not created, something fails after it is, or the job is queued
too. -/
theorem run_row_and_job (data : NewDocument) (job : IngestJobData) (hfresh : data.id ∉ w.issued)
    (hparent : (w.assistants.any (·.visible data.tenantId data.assistantId)) = true) : ∃ r w',
    (Proc.call (S := backend) (.createDocument data) >>= fun _ =>
      Proc.call (S := backend) (.enqueue job) >>= fun _ => (pure true : Service Bool)).run
        (World.handle P) d w = some (r, w') ∧
    (¬(d 0).Performed ∧ r ≠ .ok true ∧ w'.documents = w.documents ∧ w'.jobs = w.jobs ∨
      (d 0).Performed ∧ ¬((d 0).fault = none ∧ (d 1).fault = none) ∧ r ≠ .ok true ∧
        w'.documents = w.documents ++ [data.row (d 0).now] ∨
      (d 0).Performed ∧ ((d 0).fault = none ∧ (d 1).fault = none) ∧ r = .ok true ∧
        w'.objects = w.objects ∧ w'.documents = w.documents ++ [data.row (d 0).now] ∧
        ∃ j ∈ w'.jobs, j.documentId = job.documentId) := by
  have hcreate : w.exec P (.createDocument data) (d 0) = some (.ok (), { w with
      documents := w.documents ++ [data.row (d 0).now], issued := w.issued ++ [data.id] }) := by
    rw [World.exec, if_neg hfresh, if_pos hparent]
  obtain ⟨hd₀, hrun⟩ | ⟨e, hd₀, hrun⟩ | ⟨e, hd₀, hrun⟩ := run_call_cases hcreate
  · obtain ⟨w₁, henqueue, hobjects, hdocs, hjob⟩ := exec_enqueue (P := P) { w with
      documents := w.documents ++ [data.row (d 0).now], issued := w.issued ++ [data.id] } job (d 1)
    rw [hrun]
    obtain ⟨hd₁, hrun⟩ | ⟨e, hd₁, hrun⟩ | ⟨e, hd₁, hrun⟩ :=
      run_call_cases (d := fun n => d (n + 1)) henqueue
    · exact ⟨_, _, hrun,
        .inr (.inr ⟨performed_of_none hd₀, ⟨hd₀, hd₁⟩, rfl, hobjects, hdocs, hjob⟩)⟩
    · refine ⟨_, _, hrun, .inr (.inl ⟨performed_of_none hd₀, fun h => ?_, error_ne_ok e true, rfl⟩)⟩
      cases h.2.symm.trans hd₁
    · refine ⟨_, _, hrun,
        .inr (.inl ⟨performed_of_none hd₀, fun h => ?_, error_ne_ok e true, hdocs⟩)⟩
      cases h.2.symm.trans hd₁
  · exact ⟨_, _, hrun, .inl ⟨fun h => h e hd₀, error_ne_ok e true, rfl, rfl⟩⟩
  · refine ⟨_, _, hrun, .inr (.inl ⟨fun e' he' => ?_, fun h => ?_, error_ne_ok e true, rfl⟩)⟩
    · cases hd₀.symm.trans he'
    · cases h.1.symm.trans hd₀

/-- **What storing an upload comes to**: it stops before its row and leaves the tables as they were,
it fails from its row on, or it is stored. -/
theorem run_storeUpload (hfresh : u.documentId ∉ w.issued) : ∃ r w',
    (storeUpload u).run (World.handle P) d w = some (r, w') ∧
    (¬WritesRow w u.tenantId u.assistantId d ∧ r ≠ .ok true ∧ w'.documents = w.documents ∧
        w'.jobs = w.jobs ∨
      WritesRow w u.tenantId u.assistantId d ∧ ¬((d 2).fault = none ∧ (d 3).fault = none) ∧
        r ≠ .ok true ∧ w'.documents = w.documents ++ [u.document.row (d 2).now] ∨
      WritesRow w u.tenantId u.assistantId d ∧ ((d 2).fault = none ∧ (d 3).fault = none) ∧
      r = .ok true ∧
        w'.objects (tenantObjectKey u.tenantId u.documentId) = some u.body ∧
        w'.documents = w.documents ++ [u.document.row (d 2).now] ∧
        ∃ job ∈ w'.jobs, job.documentId = u.documentId) := by
  rw [storeUpload]
  obtain ⟨⟨hd₀, hsome, hd₁⟩, hrun⟩ | ⟨hstop, r, w', hrun, hr, hdocs, hjobs⟩ :=
    run_lookup_put (P := P) (d := d) u.tenantId u.assistantId u.body _ hfresh
  rotate_left
  · exact ⟨r, w', hrun, .inl ⟨fun h => hstop ⟨h.1, h.2.1, h.2.2.1⟩, hr, hdocs, hjobs⟩⟩
  obtain ⟨a, hassistant⟩ := Option.isSome_iff_exists.mp hsome
  have hparent : (w.assistants.any (·.visible u.tenantId u.assistantId)) = true :=
    List.any_eq_true.mpr ⟨a, List.mem_of_find?_eq_some hassistant, (List.find?_some hassistant :)⟩
  have hrow : WritesRow w u.tenantId u.assistantId d ↔ (d 2).Performed :=
    ⟨fun h => h.2.2.2, fun h => ⟨hd₀, hsome, hd₁, h⟩⟩
  obtain ⟨r, w', hrest, hcases⟩ := run_row_and_job (P := P) (d := fun n => d (n + 2)) u.document
    u.job (w := { w with
      objects := Function.update w.objects (tenantObjectKey u.tenantId u.documentId)
        (some u.body) })
    hfresh hparent
  refine ⟨r, w', hrun.trans hrest, ?_⟩
  rw [hrow]
  obtain hstop | hfail | ⟨hperformed, hnone, hok, hobjects, hdocs, hjob⟩ := hcases
  · exact .inl hstop
  · exact .inr (.inl hfail)
  · refine .inr (.inr ⟨hperformed, hnone, hok, ?_, hdocs, hjob⟩)
    rw [hobjects]
    exact Function.update_self _ _ _

/-- A file that is no source leaves no row and no job. -/
theorem run_storeUnrecorded (tenantId assistantId : Uuid) {documentId : Uuid} (body : Bytes)
    (hfresh : documentId ∉ w.issued) : ∃ r w',
    (storeUnrecorded tenantId assistantId documentId body).run (World.handle P) d w = some (r, w') ∧
      r ≠ .ok true ∧ w'.documents = w.documents ∧ w'.jobs = w.jobs := by
  rw [storeUnrecorded]
  obtain ⟨-, hrun⟩ | ⟨-, r, w', hrun, hstop⟩ :=
    run_lookup_put (P := P) (d := d) tenantId assistantId body _ hfresh
  · exact ⟨_, _, hrun, error_ne_ok _ true, rfl, rfl⟩
  · exact ⟨r, w', hrun, hstop⟩

end

/-! ## The route -/

/-- What the route answers to an upload that was stored, or whose assistant is not there. -/
def uploadAnswer (documentId : Uuid) (stored : Bool) : Response :=
  if stored then ⟨201, .uploaded documentId, none⟩ else errorResponse 404 (js "assistant not found")

/-- **An upload is settled**: it answers 201 and the object, the UPLOADED row and the job are there,
or it answers an error and the tables of documents and jobs are as they were. -/
def Settled (documentId tenantId assistantId : Uuid) (file : UploadedFile) (s s' : ApiState)
    (answer : Except JsError Response) : Prop :=
  (answer = .ok ⟨201, .uploaded documentId, none⟩ ∧
    s'.world.objects (tenantObjectKey tenantId documentId) = some file.buffer ∧
    (∃ doc ∈ s'.world.documents, doc.id = documentId ∧ doc.tenantId = tenantId ∧
      doc.assistantId = assistantId ∧ doc.status = .UPLOADED) ∧
    ∃ job ∈ s'.world.jobs, job.documentId = documentId) ∨
  (∃ status error, 400 ≤ status ∧ answer = .ok (errorResponse status error)) ∧
    s'.world.documents = s.world.documents ∧ s'.world.jobs = s.world.jobs

section

variable {P : Platform} {env : Environment} {claims : TenantClaims} {s : ApiState}
  {form : Multipart} {assistantId : Uuid} {file : UploadedFile} {found : FoundType}

theorem run_postDocument (hform : checkUpload form = .ok (assistantId, file, found)) :
    (postDocument env claims form).run (ApiState.handle P) env.decisions s =
      ((storeFile claims.tenantId assistantId env.randomUUID file found).run (World.handle P)
        (fun n => (env.decisions n).toDecision) s.world).map fun x =>
          (.ok (sent 500 (js "internal error") (uploadAnswer env.randomUUID) x.1),
            { s with world := x.2 }) := by
  have hanswer : (fun stored : Bool => if stored then
      (.ret ⟨201, .uploaded env.randomUUID, none⟩ : Route Response)
        else .ret (errorResponse 404 (js "assistant not found"))) =
      fun stored => .ret (uploadAnswer env.randomUUID stored) := by
    funext stored
    cases stored <;> rfl
  rw [← run_catching, postDocument, hform, ← hanswer]

/-- An upload that was not stored is answered with an error. -/
theorem exists_sent_eq_error (documentId : Uuid) {r : Except JsError Bool} (h : r ≠ .ok true) :
    ∃ status error, 400 ≤ status ∧
      sent 500 (js "internal error") (uploadAnswer documentId) r = errorResponse status error := by
  rcases r with e | _ | _
  · exact ⟨500, _, by decide, rfl⟩
  · exact ⟨404, _, by decide, rfl⟩
  · exact absurd rfl h

/-- Without a row and a job, an upload that failed is settled. -/
theorem settled_of_stopped {documentId tenantId : Uuid} {w : World} {r : Except JsError Bool}
    (h : r ≠ .ok true) (hdocs : w.documents = s.world.documents) (hjobs : w.jobs = s.world.jobs) :
    Settled documentId tenantId assistantId file s { s with world := w }
      (.ok (sent 500 (js "internal error") (uploadAnswer documentId) r)) := by
  obtain ⟨status, error, hstatus, heq⟩ := exists_sent_eq_error documentId h
  exact .inr ⟨⟨status, error, hstatus, congrArg _ heq⟩, hdocs, hjobs⟩

/-- With its row there, an upload that failed is not. -/
theorem not_settled_of_failed {documentId tenantId : Uuid} {w : World} {r : Except JsError Bool}
    {row : Document} (h : r ≠ .ok true) (hdocs : w.documents = s.world.documents ++ [row]) :
    ¬Settled documentId tenantId assistantId file s { s with world := w }
      (.ok (sent 500 (js "internal error") (uploadAnswer documentId) r)) := by
  obtain ⟨status, error, hstatus, heq⟩ := exists_sent_eq_error documentId h
  rw [heq]
  rintro (⟨hanswer, -⟩ | ⟨-, hsame, -⟩)
  · have hcreated : status = 201 := congrArg Response.status (Except.ok.inj hanswer)
    omega
  · have hlength := congrArg List.length (hdocs.symm.trans hsame)
    rw [List.length_append, List.length_singleton] at hlength
    omega

end

/-- **An upload that reports an error leaves nothing to ingest**, exactly when nothing fails from
its row on: every checked upload under an unused id is answered, and it is settled unless the
creation of its row went through and its answer or the enqueueing failed. -/
theorem upload_settled_iff (P : Platform) (env : Environment) (claims : TenantClaims) (s : ApiState)
    (form : Multipart) (assistantId : Uuid) (file : UploadedFile) (found : FoundType)
    (hform : checkUpload form = .ok (assistantId, file, found))
    (hfresh : env.randomUUID ∉ s.world.issued) :
    ∃ answer s', (postDocument env claims form).run (ApiState.handle P) env.decisions s =
        some (answer, s') ∧
      (Settled env.randomUUID claims.tenantId assistantId file s s' answer ↔
        ((∃ sourceType, found = .source sourceType) ∧
            WritesRow s.world claims.tenantId assistantId (fun n => (env.decisions n).toDecision) →
          (env.decisions 2).fault = none ∧ (env.decisions 3).fault = none)) := by
  rcases found with sourceType | _
  · let u : Upload :=
      ⟨claims.tenantId, assistantId, env.randomUUID, file.originalname, sourceType, file.buffer⟩
    obtain ⟨r, w', hrun, hcases⟩ := run_storeUpload (P := P) (u := u)
      (d := fun n => (env.decisions n).toDecision) hfresh
    refine ⟨_, _, by rw [run_postDocument hform, storeFile, hrun]; rfl, ?_⟩
    rw [and_iff_right ⟨sourceType, rfl⟩]
    obtain ⟨hrow, hr, hdocs, hjobs⟩ | ⟨hrow, hfault, hr, hdocs⟩ |
        ⟨hrow, hnone, rfl, hobject, hdocs, hjob⟩ :=
      hcases
    · exact iff_of_true (settled_of_stopped hr hdocs hjobs) fun h => absurd h hrow
    · exact iff_of_false (not_settled_of_failed hr hdocs) fun h => hfault (h hrow)
    · have hrow : u.document.row (env.decisions 2).now ∈ w'.documents := by
        rw [hdocs]
        exact List.mem_append_right _ (List.mem_singleton_self _)
      exact iff_of_true (.inl ⟨rfl, hobject, ⟨_, hrow, rfl, rfl, rfl, rfl⟩, hjob⟩) fun _ => hnone
  · obtain ⟨r, w', hrun, hr, hdocs, hjobs⟩ := run_storeUnrecorded (P := P)
      (d := fun n => (env.decisions n).toDecision) claims.tenantId assistantId file.buffer hfresh
    refine ⟨_, _, by rw [run_postDocument hform, storeFile, hrun]; rfl, ?_⟩
    refine iff_of_true (settled_of_stopped hr hdocs hjobs) ?_
    rintro ⟨⟨sourceType, h⟩, -⟩
    cases h

/-! ## An upload to try -/

/-- The upload of a text file to the sample assistant, whose calls end as decided. -/
def sampleForm : Multipart :=
  .form (some (.str (js "00000000-0000-0000-0000-000000000001"))) (some ⟨js "faq.txt", [104, 105]⟩)

def beforeUpload : ApiState where
  world := { assistants := [sampleAssistant] }

theorem checkUpload_sampleForm :
    checkUpload sampleForm = .ok (1, ⟨js "faq.txt", [104, 105]⟩, .source .TXT) := rfl

theorem upload_settled_iff_sample : ∃ answer s',
    (postDocument { randomUUID := 11, decisions := fun _ => {} } ⟨7, some 1, none⟩ sampleForm).run
        (ApiState.handle samplePlatform) (fun _ => {}) beforeUpload = some (answer, s') ∧
      Settled 11 7 1 ⟨js "faq.txt", [104, 105]⟩ beforeUpload s' answer := by
  obtain ⟨answer, s', hrun, hsettled⟩ := upload_settled_iff samplePlatform
    { randomUUID := 11, decisions := fun _ => {} } ⟨7, some 1, none⟩ beforeUpload sampleForm 1 _ _
    checkUpload_sampleForm (by decide)
  exact ⟨answer, s', hrun, hsettled.mpr fun _ => ⟨rfl, rfl⟩⟩

/-- The queue is down. -/
def queueDown (n : ℕ) : ApiDecision :=
  if n = 3 then { fault := some (.refused (.new (js "connect ECONNREFUSED"))) } else {}

/-- **An upload that reports an error leaves its row.** -/
theorem not_upload_settled :
    ¬ ∀ (P : Platform) (env : Environment) (claims : TenantClaims) (s s' : ApiState)
    (form : Multipart) (assistantId : Uuid) (file : UploadedFile) (found : FoundType)
    (answer : Except JsError Response), checkUpload form = .ok (assistantId, file, found) →
      env.randomUUID ∉ s.world.issued →
      (postDocument env claims form).run (ApiState.handle P) env.decisions s = some (answer, s') →
      Settled env.randomUUID claims.tenantId assistantId file s s' answer := by
  intro hclaim
  let u : Upload := ⟨7, 1, 11, js "faq.txt", .TXT, [104, 105]⟩
  obtain ⟨r, w', hrun, hcases⟩ := run_storeUpload (P := samplePlatform) (u := u)
    (w := beforeUpload.world) (d := fun n => (queueDown n).toDecision) (by decide)
  have hsettled := hclaim samplePlatform { randomUUID := 11, decisions := queueDown }
    ⟨7, some 1, none⟩ beforeUpload { beforeUpload with world := w' } sampleForm 1 _ _ _
    checkUpload_sampleForm (by decide)
    (by rw [run_postDocument checkUpload_sampleForm, storeFile, hrun]; rfl)
  obtain ⟨hrow, -⟩ | ⟨-, -, hr, hdocs⟩ | ⟨-, ⟨-, hfault⟩, -⟩ := hcases
  · exact hrow ⟨rfl, rfl, rfl, fun e h => by cases h⟩
  · exact not_settled_of_failed hr hdocs hsettled
  · cases hfault

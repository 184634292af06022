import SupportAgent.Machinery.Js
import Mathlib.Data.List.Induction
import Mathlib.Logic.Function.Basic

/-!
# Mobile/ChatBloc — one chat conversation of the mobile app

The bloc runs one handler per question.  A new question cancels the emitter of the handler before it
and its HTTP stream, but that handler still runs to its end: what it emits is ignored.  A `Move` is
what the bloc does without interruption: the start of a handler, one stream event, the end of the
stream, and the handler going on after it.

* `transcript_faithful` — over every run, the transcript is each question followed by at most one
  answer, whose text is what was streamed for that question.
-/

namespace Mobile

/-! ## The state -/

/-- A cited source, as the `done` event gives it. -/
structure Citation where
  marker : ℤ
  documentId : JsString
  title : JsString
  page : Option ℤ
  sectionText : Option JsString
  snippet : JsString
  deriving DecidableEq

/-- One frame off the chat stream. -/
inductive ChatStreamEvent
  | tokenChunk (text : JsString)
  | streamDone (grounded : Bool) (citations : List Citation)
  | streamErrorFrame (message : JsString)

inductive Role
  | user
  | assistant
  deriving DecidableEq

/-- A completed turn in the transcript. -/
structure ChatMessage where
  role : Role
  text : JsString
  citations : List Citation := []
  grounded : Option Bool := none
  deriving DecidableEq

inductive ChatStatus
  | idle
  | streaming
  | done
  | error
  deriving DecidableEq

structure ChatState where
  status : ChatStatus := .idle
  /-- Completed turns. -/
  messages : List ChatMessage := []
  /-- The answer being streamed, empty when not streaming. -/
  streamingAnswer : JsString := []
  /-- Citations from the last completed answer. -/
  citations : List Citation := []
  grounded : Option Bool := none
  error : Option JsString := none
  deriving DecidableEq

/-- The arguments of `copyWith`; one left out is null. -/
structure ChatState.Patch where
  status : Option ChatStatus := none
  messages : Option (List ChatMessage) := none
  streamingAnswer : Option JsString := none
  citations : Option (List Citation) := none
  grounded : Option Bool := none
  error : Option JsString := none

/-- A null argument keeps the field. -/
def ChatState.copyWith (s : ChatState) (p : ChatState.Patch) : ChatState where
  status := p.status.getD s.status
  messages := p.messages.getD s.messages
  streamingAnswer := p.streamingAnswer.getD s.streamingAnswer
  citations := p.citations.getD s.citations
  grounded := p.grounded.or s.grounded
  error := p.error.or s.error

/-! ## The handlers -/

/-- What the stream of an answer throws. -/
inductive Thrown
  /-- A `DioException` that `CancelToken.isCancel` accepts. -/
  | cancelled
  | dio
  | other
  deriving DecidableEq

/-- How the stream of an answer ends. -/
inductive StreamEnd
  | closed
  | thrown (err : Thrown)
  deriving DecidableEq

/-- Where a handler of `SendMessage` stands. -/
inductive Phase
  /-- In `emit.forEach`, its stream open. -/
  | listening
  /-- About to go on after `emit.forEach`. -/
  | ended (how : StreamEnd)
  | returned
  deriving DecidableEq

/-- The locals of `_onSend`, and whether bloc has cancelled its emitter. -/
structure SendHandler where
  buffer : JsString := []
  citations : List Citation := []
  grounded : Bool := false
  completed : Bool := false
  phase : Phase := .listening
  canceled : Bool := false
  deriving DecidableEq

/-- `Emitter.cancel`: the subscription is dropped and `emit.forEach` returns. -/
def SendHandler.cancelEmitter (h : SendHandler) : SendHandler :=
  { h with canceled := true, phase := if h.phase = .listening then .ended .closed else h.phase }

/-- `_finished`. -/
def finished (state : ChatState) (answer : JsString) (citations : List Citation) (grounded : Bool) :
    ChatState :=
  state.copyWith {
    status := some .done
    messages := some (state.messages ++ [{
      role := .assistant, text := answer, citations, grounded := some grounded }])
    streamingAnswer := some []
    citations := some citations
    grounded := some grounded }

/-- The state `_onSend` emits first. -/
def asked (state : ChatState) (question : JsString) : ChatState :=
  state.copyWith {
    status := some .streaming
    messages := some (state.messages ++ [{ role := .user, text := question }])
    streamingAnswer := some []
    citations := some []
    error := none }

/-- The state emitted where an answer fails. -/
def failed (state : ChatState) (message : JsString) : ChatState :=
  state.copyWith { status := some .error, error := some message, streamingAnswer := some [] }

/-- `onData` of the `emit.forEach` in `_onSend`: the locals after it and the state to emit. -/
def onData (state : ChatState) (h : SendHandler) : ChatStreamEvent → SendHandler × ChatState
  | .tokenChunk text =>
    let buffer := h.buffer ++ text
    ({ h with buffer },
      state.copyWith { status := some .streaming, streamingAnswer := some buffer })
  | .streamDone grounded citations =>
    ({ h with completed := true, grounded, citations }, finished state h.buffer citations grounded)
  | .streamErrorFrame message => ({ h with completed := true }, failed state message)

/-- The rest of `_onSend` once its stream has ended: the state to emit, if any. -/
def afterStream (state : ChatState) (h : SendHandler) : StreamEnd → Option ChatState
  -- closed without a done or error frame: finalize what we have
  | .closed => if h.completed then none else some (finished state h.buffer h.citations h.grounded)
  -- an intentional cancel is a graceful stop
  | .thrown .cancelled => some (finished state h.buffer h.citations h.grounded)
  | .thrown .dio => some (failed state (js "Connection error."))
  | .thrown .other => some (failed state (js "Something went wrong."))

/-! ## The bloc -/

/-- **The bloc**: its state, its handlers in the order of their questions, each with the
`CancelToken` of its own index, and the tokens cancelled. -/
structure ChatBloc where
  state : ChatState := {}
  handlers : List SendHandler := []
  cancelToken : Option ℕ := none
  cancelledTokens : List ℕ := []
  closed : Bool := false
  deriving DecidableEq

/-- What happens next. -/
inductive Move
  | sendMessage (question : JsString)
  | cancelStream
  | close
  | data (handler : ℕ) (event : ChatStreamEvent)
  | streamEnds (handler : ℕ) (how : StreamEnd)
  | resume (handler : ℕ)

namespace ChatBloc

/-- `_cancelToken?.cancel()`. -/
def cancelCurrent (b : ChatBloc) : ChatBloc :=
  { b with cancelledTokens := b.cancelToken.toList ++ b.cancelledTokens }

/-- `restartable()` on a new question, and what `close` does to the handlers. -/
def cancelHandlers (b : ChatBloc) : ChatBloc :=
  { b with handlers := b.handlers.map SendHandler.cancelEmitter }

/-- The locals of a handler change, and it emits: a cancelled emitter ignores it. -/
def update (b : ChatBloc) (i : ℕ) (h : SendHandler) (emitted : Option ChatState) : ChatBloc :=
  { b with
    handlers := b.handlers.set i h
    state := if h.canceled then b.state else emitted.getD b.state }

/-- `_onSend` up to its stream. -/
def onSend (b : ChatBloc) (question : JsString) : ChatBloc :=
  let b := b.cancelCurrent.cancelHandlers
  { b with
    cancelToken := some b.handlers.length
    handlers := b.handlers ++ [{}]
    state := asked b.state question }

/-- **One move**, where it is possible.  A stream ends right after a done or error frame, and throws
a cancel only when its token is cancelled. -/
def step (b : ChatBloc) : Move → Option ChatBloc
  | .sendMessage question => if b.closed then none else some (b.onSend question)
  | .cancelStream => if b.closed then none else some b.cancelCurrent
  | .close => some { b.cancelCurrent.cancelHandlers with closed := true }
  | .data i event => do
    let h ← b.handlers[i]?
    if h.phase = .listening ∧ !h.completed then
      let (h, state) := onData b.state h event
      return b.update i h (some state)
    else none
  | .streamEnds i how => do
    let h ← b.handlers[i]?
    if h.phase = .listening ∧ (h.completed → how = .closed) ∧
        (how = .thrown .cancelled → i ∈ b.cancelledTokens) then
      return b.update i { h with phase := .ended how } none
    else none
  | .resume i => do
    let h ← b.handlers[i]?
    match h.phase with
    | .ended how => return b.update i { h with phase := .returned } (afterStream b.state h how)
    | _ => none

end ChatBloc

/-! ## The transcript a run should give -/

/-- The question a move asks. -/
def Move.question : Move → Option JsString
  | .sendMessage question => some question
  | _ => none

/-- The chunk a move receives for question `i`. -/
def Move.chunkFor (i : ℕ) : Move → JsString
  | .data j (.tokenChunk text) => if j = i then text else []
  | _ => []

/-- The questions of a run, in order. -/
def questions (moves : List Move) : List JsString := moves.filterMap Move.question

/-- The chunks received for question `i`, in order, put together. -/
def received (moves : List Move) (i : ℕ) : JsString := moves.flatMap (Move.chunkFor i)

/-- A question, and the answer to it if there is one. -/
def turn (question text : JsString) (answer : Option (List Citation × Bool)) : List ChatMessage :=
  { role := .user, text := question } :: answer.toList.map fun (citations, grounded) =>
    { role := .assistant, text, citations, grounded := some grounded }

/-- **The transcript**: every question once, in order, each followed by at most one answer. -/
def transcript (questions : List JsString) (texts : ℕ → JsString)
    (answers : ℕ → Option (List Citation × Bool)) : List ChatMessage :=
  (questions.mapIdx fun i question => turn question (texts i) (answers i)).flatten

theorem transcript_concat (questions : List JsString) (question : JsString) (texts : ℕ → JsString)
    (answers : ℕ → Option (List Citation × Bool)) :
    transcript (questions ++ [question]) texts answers = transcript questions texts answers ++
      turn question (texts questions.length) (answers questions.length) := by
  rw [transcript, List.mapIdx_concat, List.flatten_append, List.flatten_singleton]
  rfl

/-- A transcript has one message of the user for each question. -/
theorem countP_transcript (questions : List JsString) (texts : ℕ → JsString)
    (answers : ℕ → Option (List Citation × Bool)) :
    (transcript questions texts answers).countP (·.role = .user) = questions.length := by
  induction questions using List.reverseRecOn with
  | nil => rfl
  | append_singleton questions question ih =>
    rw [transcript_concat, List.countP_append, ih, List.length_append, turn]
    cases answers questions.length <;> rfl

/-- **An answer comes right after its question.** -/
theorem transcript_split {questions : List JsString} {texts : ℕ → JsString}
    {answers : ℕ → Option (List Citation × Bool)} {before after : List ChatMessage}
    {m : ChatMessage}
    (h : transcript questions texts answers = before ++ m :: after) (hrole : m.role = .assistant) :
    ∃ earlier question later citations grounded, questions = earlier ++ question :: later ∧
      before = transcript earlier texts answers ++ [{ role := .user, text := question }] ∧
      answers earlier.length = some (citations, grounded) ∧ m = {
        role := .assistant, text := texts earlier.length, citations,
          grounded := some grounded } := by
  induction questions using List.reverseRecOn generalizing after with
  | nil =>
    have hlength := congrArg List.length h
    rw [List.length_append, List.length_cons] at hlength
    cases hlength
  | append_singleton questions question ih =>
    have hnot : ∀ {text : JsString}, m ≠ { role := .user, text } := by
      rintro text rfl
      cases hrole
    rw [transcript_concat, turn, List.append_eq_append_iff] at h
    obtain ⟨_ | ⟨u, rest⟩, rfl, hturn⟩ | ⟨_ | ⟨m', rest⟩, hold, hturn⟩ := h
    · exact absurd (List.cons.inj hturn).1.symm hnot
    · obtain ⟨rfl, hanswer⟩ := List.cons.inj hturn
      have hanswer : _ = rest ++ m :: after := hanswer
      cases hsome : answers questions.length with
      | none => simp [hsome] at hanswer
      | some answer =>
        rw [hsome, Option.toList_some, List.map_singleton, List.singleton_eq_append_iff] at hanswer
        obtain ⟨rfl, hm⟩ | ⟨-, hm⟩ := hanswer
        · obtain ⟨rfl, -⟩ := List.cons.inj hm
          exact ⟨questions, question, [], answer.1, answer.2, rfl, rfl, hsome, rfl⟩
        · cases hm
    · exact absurd (List.cons.inj hturn).1 hnot
    · obtain ⟨rfl, -⟩ := List.cons.inj hturn
      obtain ⟨earlier, q, later, citations, grounded, rfl, hbefore, hanswer, hm⟩ := ih hold
      exact ⟨earlier, q, later ++ [question], citations, grounded, by simp, hbefore, hanswer, hm⟩

/-- Only the texts of the answers there are enter the transcript. -/
theorem transcript_congr {questions : List JsString} {texts texts' : ℕ → JsString}
    {answers answers' : ℕ → Option (List Citation × Bool)}
    (h : ∀ i < questions.length, answers i = answers' i ∧ (answers i ≠ none → texts i = texts' i)) :
    transcript questions texts answers = transcript questions texts' answers' := by
  induction questions using List.reverseRecOn with
  | nil => rfl
  | append_singleton questions question ih =>
    rw [List.length_append, List.length_singleton] at h
    obtain ⟨hanswer, htext⟩ := h questions.length (Nat.lt_succ_self _)
    rw [transcript_concat, transcript_concat, ← hanswer,
      ih fun i hi => h i (Nat.lt_succ_of_lt hi)]
    congr 1
    cases hnone : answers questions.length with
    | none => rfl
    | some answer => rw [htext (by simp [hnone])]

/-- **Answering the last question adds one message.** -/
theorem transcript_answer {questions : List JsString} {texts : ℕ → JsString}
    {answers : ℕ → Option (List Citation × Bool)} {i : ℕ} (hlast : i + 1 = questions.length)
    (hnone : answers i = none) (citations : List Citation) (grounded : Bool) :
    transcript questions texts (Function.update answers i (some (citations, grounded))) =
      transcript questions texts answers ++ [{
        role := .assistant, text := texts i, citations, grounded := some grounded }] := by
  obtain rfl | ⟨questions, question, rfl⟩ := questions.eq_nil_or_concat'
  · simp at hlast
  · obtain rfl : i = questions.length := by simpa using hlast
    have hbefore : transcript questions texts
        (Function.update answers questions.length (some (citations, grounded))) =
          transcript questions texts answers :=
      (transcript_congr fun i hi =>
        ⟨(Function.update_of_ne hi.ne _ _).symm, fun _ => rfl⟩).symm
    rw [transcript_concat, transcript_concat, hbefore, Function.update_self, hnone,
      List.append_assoc]
    rfl

/-! ## The invariant of a run -/

/-- An answer was finished or failed, or the handler is through. -/
def SendHandler.Over (h : SendHandler) : Prop := h.completed = true ∨ h.phase = .returned

theorem SendHandler.not_over {h : SendHandler} (hphase : h.phase = .listening)
    (hopen : h.completed = false) : ¬ h.Over := by
  rintro (hdone | hreturned)
  · rw [hopen] at hdone
    cases hdone
  · rw [hphase] at hreturned
    cases hreturned

/-- The handler is over, with the answer it gave. -/
structure SendHandler.Answered (h : SendHandler) (answer : List Citation × Bool) : Prop where
  ended : h.Over
  citations : h.citations = answer.1
  grounded : h.grounded = answer.2

/-- Handler `i` of `n`, with what was received for its question. -/
structure SendHandler.Fits (n i : ℕ) (text : JsString) (h : SendHandler) : Prop where
  buffer : h.buffer = text
  superseded : i + 1 < n → h.canceled = true
  dropped : h.canceled = true → h.phase ≠ .listening
  completed : h.completed = true → ∀ how, h.phase = .ended how → how = .closed

/-- **What a run keeps**, `asked` being the questions so far and `texts` what was received for
each. -/
structure ChatBloc.Faithful (asked : List JsString) (texts : ℕ → JsString) (b : ChatBloc) :
    Prop where
  count : b.handlers.length = asked.length
  unasked : ∀ i, asked.length ≤ i → texts i = []
  handlers : ∀ (i : ℕ) h, b.handlers[i]? = some h → h.Fits asked.length i (texts i)
  transcript : ∃ answers, b.state.messages = transcript asked texts answers ∧
    ∀ (i : ℕ) h, b.handlers[i]? = some h → ∀ answer ∈ answers i, h.Answered answer
  begun : b.state.status = .streaming → asked ≠ []
  answering : b.state.streamingAnswer =
    if b.state.status = .streaming then texts (asked.length - 1) else []

namespace ChatBloc

variable {asked : List JsString} {texts : ℕ → JsString} {b : ChatBloc}

/-! ## What a move does -/

section

variable {b' : ChatBloc} {i : ℕ}

theorem step_sendMessage {question : JsString} (h : b.step (.sendMessage question) = some b') :
    b.closed = false ∧ b' = b.onSend question := by
  obtain ⟨hopen, hsend⟩ := Option.ite_none_left_eq_some.1 h
  exact ⟨Bool.eq_false_of_not_eq_true hopen, (Option.some.inj hsend).symm⟩

theorem step_cancelStream (h : b.step .cancelStream = some b') :
    b.closed = false ∧ b' = b.cancelCurrent := by
  obtain ⟨hopen, hcancel⟩ := Option.ite_none_left_eq_some.1 h
  exact ⟨Bool.eq_false_of_not_eq_true hopen, (Option.some.inj hcancel).symm⟩

/-- An event reaches a handler that listens and has not completed. -/
theorem step_data {event : ChatStreamEvent} (hstep : b.step (.data i event) = some b') :
    ∃ h, b.handlers[i]? = some h ∧ h.phase = .listening ∧ h.completed = false ∧
      b' = b.update i (onData b.state h event).1 (some (onData b.state h event).2) := by
  obtain ⟨h, hi, hstep⟩ := Option.bind_eq_some_iff.1 hstep
  split at hstep
  case isFalse => cases hstep
  rename_i hguard
  exact ⟨h, hi, hguard.1, by simpa using hguard.2, (Option.some.inj hstep).symm⟩

/-- A stream ends for a handler that listens: closed if it has completed, and cancelled if it
was. -/
theorem step_streamEnds {how : StreamEnd} (hstep : b.step (.streamEnds i how) = some b') :
    ∃ h, b.handlers[i]? = some h ∧ h.phase = .listening ∧ (h.completed = true → how = .closed) ∧
      (how = .thrown .cancelled → i ∈ b.cancelledTokens) ∧
      b' = b.update i { h with phase := .ended how } none := by
  obtain ⟨h, hi, hstep⟩ := Option.bind_eq_some_iff.1 hstep
  split at hstep
  case isFalse => cases hstep
  rename_i hguard
  exact ⟨h, hi, hguard.1, hguard.2.1, hguard.2.2, (Option.some.inj hstep).symm⟩

/-- A handler goes on behind the end of its stream. -/
theorem step_resume (hstep : b.step (.resume i) = some b') :
    ∃ h how, b.handlers[i]? = some h ∧ h.phase = .ended how ∧
      b' = b.update i { h with phase := .returned } (afterStream b.state h how) := by
  obtain ⟨h, hi, hstep⟩ := Option.bind_eq_some_iff.1 hstep
  split at hstep
  case h_2 => cases hstep
  rename_i how hphase
  exact ⟨h, how, hi, hphase, (Option.some.inj hstep).symm⟩

end

/-! ## What the invariant keeps -/

theorem Faithful.start : Faithful [] (fun _ => []) {} where
  count := rfl
  unasked := fun _ _ => rfl
  handlers := fun _ _ hi => nomatch hi
  transcript := ⟨fun _ => none, rfl, fun _ _ hi => nomatch hi⟩
  begun := nofun
  answering := rfl

/-- A handler whose emitter still counts is the last one. -/
theorem Faithful.last (hb : b.Faithful asked texts) {i : ℕ} {h : SendHandler}
    (hi : b.handlers[i]? = some h) (hlive : h.canceled = false) : i + 1 = asked.length := by
  have hlt : i < b.handlers.length := (List.getElem?_eq_some_iff.1 hi).1
  rw [hb.count] at hlt
  refine le_antisymm hlt (le_of_not_gt fun hnext => ?_)
  rw [(hb.handlers i h hi).superseded hnext] at hlive
  cases hlive

/-- A handler after an update is the updated one or one that was there. -/
theorem getElem?_update {i j : ℕ} {h h' g : SendHandler} {emitted : Option ChatState}
    (hi : b.handlers[i]? = some h) (hj : (b.update i h' emitted).handlers[j]? = some g) :
    j = i ∧ g = h' ∨ j ≠ i ∧ b.handlers[j]? = some g := by
  have hlt : i < b.handlers.length := (List.getElem?_eq_some_iff.1 hi).1
  rw [update] at hj
  by_cases hji : j = i
  · subst hji
    rw [List.getElem?_set_self hlt] at hj
    exact .inl ⟨rfl, (Option.some.inj hj).symm⟩
  · rw [List.getElem?_set_ne (Ne.symm hji)] at hj
    exact .inr ⟨hji, hj⟩

theorem state_update {i : ℕ} {h h' : SendHandler} {s : ChatState} (hlive : h.canceled = false)
    (hcanceled : h'.canceled = h.canceled) : (b.update i h' (some s)).state = s := by
  rw [update, hcanceled, hlive]
  rfl

/-- **A chunk keeps the run faithful**: it is shown, and added to what its question received. -/
theorem Faithful.receive (hb : b.Faithful asked texts) {i : ℕ} {h : SendHandler}
    (hi : b.handlers[i]? = some h) (hphase : h.phase = .listening) (hopen : h.completed = false)
    (text : JsString) :
    (b.update i (onData b.state h (.tokenChunk text)).1
      (some (onData b.state h (.tokenChunk text)).2)).Faithful asked
        (Function.update texts i (texts i ++ text)) := by
  have hfits := hb.handlers i h hi
  have hlive : h.canceled = false := by
    cases hcanceled : h.canceled with
    | false => rfl
    | true => exact absurd hphase (hfits.dropped hcanceled)
  have hstate : (b.update i (onData b.state h (.tokenChunk text)).1
      (some (onData b.state h (.tokenChunk text)).2)).state =
        (onData b.state h (.tokenChunk text)).2 := state_update hlive rfl
  have hlast := hb.last hi hlive
  obtain ⟨answers, hmessages, hanswered⟩ := hb.transcript
  have hunanswered : answers i = none := Option.eq_none_iff_forall_ne_some.2 fun answer hanswer =>
    SendHandler.not_over hphase hopen (hanswered i h hi answer hanswer).ended
  refine ⟨?_, ?_, ?_, ⟨answers, ?_, ?_⟩, fun _ hnil => ?_, ?_⟩
  · simpa [update] using hb.count
  · intro j hj
    rw [Function.update_of_ne (by omega)]
    exact hb.unasked j hj
  · intro j g hj
    obtain ⟨rfl, rfl⟩ | ⟨hne, hj⟩ := getElem?_update hi hj
    · rw [Function.update_self, ← hfits.buffer]
      exact ⟨rfl, hfits.superseded, hfits.dropped, hfits.completed⟩
    · rw [Function.update_of_ne hne]
      exact hb.handlers j g hj
  · rw [hstate]
    refine hmessages.trans (transcript_congr fun j hj => ⟨rfl, fun hsome => ?_⟩)
    rw [Function.update_of_ne fun hji : j = i => hsome (by rw [hji, hunanswered])]
  · intro j g hj answer hanswer
    obtain ⟨rfl, rfl⟩ | ⟨-, hj⟩ := getElem?_update hi hj
    · rw [hunanswered] at hanswer
      cases hanswer
    · exact hanswered j g hj answer hanswer
  · rw [hnil] at hlast
    cases hlast
  · rw [hstate, ← hlast, Nat.add_sub_cancel, Function.update_self, ← hfits.buffer]
    rfl

/-- What the last state emitted for an answer may be, `h'` being the handler after it. -/
inductive Closes (s : ChatState) (h h' : SendHandler) : ChatState → Prop
  | failed (message : JsString) : Closes s h h' (failed s message)
  | finished : Closes s h h' (finished s h.buffer h'.citations h'.grounded)

/-- **The end of an answer keeps the run faithful**: a handler that was not over emits once, and is
over then. -/
theorem Faithful.close (hb : b.Faithful asked texts) {i : ℕ} {h h' : SendHandler}
    {emitted : Option ChatState} (hi : b.handlers[i]? = some h)
    (hfits : h'.Fits asked.length i (texts i)) (hcanceled : h'.canceled = h.canceled)
    (hover : ∀ answer, h.Answered answer → h'.Answered answer ∧ emitted = none)
    (hemits : ∀ s ∈ emitted, Closes b.state h h' s ∧ h'.Over) :
    (b.update i h' emitted).Faithful asked texts := by
  obtain ⟨answers, hmessages, hanswers⟩ := hb.transcript
  have hcount : (b.update i h' emitted).handlers.length = asked.length := by
    simpa [update] using hb.count
  have hhandlers : ∀ (j : ℕ) g, (b.update i h' emitted).handlers[j]? = some g →
      g.Fits asked.length j (texts j) := by
    intro j g hj
    obtain ⟨rfl, rfl⟩ | ⟨-, hj⟩ := getElem?_update hi hj
    · exact hfits
    · exact hb.handlers j g hj
  -- an answer that was there stays, with its handler over
  have hkept : ∀ (j : ℕ) g, (b.update i h' emitted).handlers[j]? = some g →
      ∀ answer ∈ answers j, g.Answered answer := by
    intro j g hj answer hanswer
    obtain ⟨rfl, rfl⟩ | ⟨-, hj⟩ := getElem?_update hi hj
    · exact (hover answer (hanswers _ h hi answer hanswer)).1
    · exact hanswers j g hj answer hanswer
  by_cases hquiet : (b.update i h' emitted).state = b.state
  · exact ⟨hcount, hb.unasked, hhandlers, ⟨answers, by rw [hquiet, hmessages], hkept⟩,
      by rw [hquiet]; exact hb.begun, by rw [hquiet, hb.answering]⟩
  have hlive : h'.canceled = false := by
    cases hgone : h'.canceled with
    | false => rfl
    | true => exact absurd (by rw [update, hgone]; rfl) hquiet
  cases hsome : emitted with
  | none => exact absurd (by rw [hsome, update, hlive]; rfl) hquiet
  | some s =>
    rw [hsome] at hcount hhandlers hkept
    obtain ⟨hcloses, hended⟩ := hemits s hsome
    cases hcloses with
    | failed message =>
      exact ⟨hcount, hb.unasked, hhandlers,
        ⟨answers, by rw [state_update hlive rfl]; exact hmessages, hkept⟩,
        by rw [state_update hlive rfl]; nofun, by rw [state_update hlive rfl]; rfl⟩
    | finished =>
      have hunanswered : answers i = none := by
        refine Option.eq_none_iff_forall_ne_some.2 fun answer hanswer => ?_
        rw [(hover answer (hanswers i h hi answer hanswer)).2] at hsome
        cases hsome
      refine ⟨hcount, hb.unasked, hhandlers,
        ⟨Function.update answers i (some (h'.citations, h'.grounded)), ?_,
          fun j g hj answer hanswer => ?_⟩,
        by rw [state_update hlive rfl]; nofun, by rw [state_update hlive rfl]; rfl⟩
      · rw [state_update hlive rfl, (hb.handlers i h hi).buffer]
        exact (congrArg (· ++ _) hmessages).trans (transcript_answer
          (hb.last hi (hcanceled ▸ hlive)) hunanswered h'.citations h'.grounded).symm
      · obtain ⟨rfl, rfl⟩ | ⟨hne, hj'⟩ := getElem?_update hi hj
        · rw [Function.update_self] at hanswer
          obtain rfl := Option.some.inj hanswer
          exact ⟨hended, rfl, rfl⟩
        · rw [Function.update_of_ne hne] at hanswer
          exact hkept j g hj answer hanswer

/-- Cancelling the handlers keeps the run faithful. -/
theorem Faithful.cancelHandlers (hb : b.Faithful asked texts) :
    b.cancelHandlers.Faithful asked texts := by
  have hmap : ∀ {i : ℕ} {g : SendHandler}, b.cancelHandlers.handlers[i]? = some g →
      ∃ h, b.handlers[i]? = some h ∧ h.cancelEmitter = g := by
    intro i g hi
    rw [ChatBloc.cancelHandlers, List.getElem?_map] at hi
    exact Option.map_eq_some_iff.1 hi
  obtain ⟨answers, hmessages, hanswered⟩ := hb.transcript
  refine ⟨?_, hb.unasked, ?_, ⟨answers, hmessages, ?_⟩, hb.begun, hb.answering⟩
  · simpa [ChatBloc.cancelHandlers] using hb.count
  · intro i g hi
    obtain ⟨h, hh, rfl⟩ := hmap hi
    obtain ⟨hbuffer, -, -, hcompleted⟩ := hb.handlers i h hh
    refine ⟨hbuffer, fun _ => rfl, fun _ => ?_, fun hdone how => ?_⟩
    · by_cases hphase : h.phase = .listening <;> simp [SendHandler.cancelEmitter, hphase]
    · by_cases hphase : h.phase = .listening
      · simp [SendHandler.cancelEmitter, hphase, eq_comm]
      · simpa [SendHandler.cancelEmitter, hphase] using hcompleted hdone how
  · intro i g hi answer hanswer
    obtain ⟨h, hh, rfl⟩ := hmap hi
    obtain ⟨hdone | hreturned, hcitations, hgrounded⟩ := hanswered i h hh answer hanswer
    · exact ⟨.inl hdone, hcitations, hgrounded⟩
    · exact ⟨.inr (by simp [SendHandler.cancelEmitter, hreturned]), hcitations, hgrounded⟩

/-- **A new question keeps the run faithful**: the handlers before it are cancelled, and it has
received nothing. -/
theorem Faithful.onSend (hb : b.Faithful asked texts) (question : JsString) :
    (b.onSend question).Faithful (asked ++ [question]) texts := by
  have hold := hb.cancelHandlers
  have hcanceled : ∀ (i : ℕ) h, b.cancelHandlers.handlers[i]? = some h → h.canceled = true := by
    intro i h hi
    rw [ChatBloc.cancelHandlers, List.getElem?_map] at hi
    obtain ⟨h, -, rfl⟩ := Option.map_eq_some_iff.1 hi
    rfl
  have hsplit : ∀ {i : ℕ} {h : SendHandler}, (b.onSend question).handlers[i]? = some h →
      b.cancelHandlers.handlers[i]? = some h ∧ i < asked.length ∨ i = asked.length ∧ h = {} := by
    intro i h hi
    change (b.cancelHandlers.handlers ++ [({} : SendHandler)])[i]? = some h at hi
    rw [List.getElem?_append, hold.count] at hi
    split at hi
    · rename_i hlt
      exact .inl ⟨hi, hlt⟩
    · rename_i hge
      obtain ⟨hlt, rfl⟩ := List.getElem?_eq_some_iff.1 hi
      rw [List.length_singleton] at hlt
      exact .inr ⟨by omega, by simp⟩
  obtain ⟨answers, hmessages, hanswered⟩ := hold.transcript
  refine ⟨?_, ?_, ?_, ⟨Function.update answers asked.length none, ?_, ?_⟩, fun _ => by simp, ?_⟩
  · change (b.cancelHandlers.handlers ++ [({} : SendHandler)]).length = _
    rw [List.length_append, List.length_append, hold.count]
    rfl
  · intro i hi
    rw [List.length_append] at hi
    exact hb.unasked i (by omega)
  · intro i h hi
    obtain ⟨hi, hlt⟩ | ⟨rfl, rfl⟩ := hsplit hi
    · obtain ⟨hbuffer, -, hdropped, hcompleted⟩ := hold.handlers i h hi
      exact ⟨hbuffer, fun _ => hcanceled i h hi, hdropped, hcompleted⟩
    · refine ⟨(hb.unasked _ le_rfl).symm, fun hnext => ?_, nofun, nofun⟩
      rw [List.length_append, List.length_singleton] at hnext
      exact absurd hnext (lt_irrefl _)
  · have hsame : Mobile.transcript asked texts (Function.update answers asked.length none) =
        Mobile.transcript asked texts answers :=
      (transcript_congr fun i hi =>
        ⟨(Function.update_of_ne hi.ne _ _).symm, fun _ => rfl⟩).symm
    rw [transcript_concat, hsame, Function.update_self, ← hmessages]
    rfl
  · intro i h hi answer hanswer
    obtain ⟨hi, hlt⟩ | ⟨rfl, rfl⟩ := hsplit hi
    · rw [Function.update_of_ne hlt.ne] at hanswer
      exact hanswered i h hi answer hanswer
    · rw [Function.update_self] at hanswer
      cases hanswer
  · rw [List.length_append, List.length_singleton, Nat.add_sub_cancel,
      hb.unasked _ le_rfl, ite_self]
    rfl

/-- The end of a stream and a handler's return, as handlers that are over emit nothing more. -/
theorem closes_afterStream {h : SendHandler} {how : StreamEnd} {s : ChatState}
    (hs : s ∈ afterStream b.state h how) :
    Closes b.state h { h with phase := .returned } s := by
  obtain _ | err := how
  · rw [afterStream] at hs
    split at hs
    · cases hs
    · cases hs
      exact .finished
  · cases err <;> cases hs
    · exact .finished
    · exact .failed _
    · exact .failed _

/-- A move that asks nothing and receives no chunk adds nothing to the transcript there should
be. -/
theorem Faithful.silent (hb : b.Faithful asked texts) (move : Move)
    (hquestion : move.question = none) (hchunk : ∀ i, move.chunkFor i = []) :
    b.Faithful (asked ++ move.question.toList) (fun i => texts i ++ move.chunkFor i) := by
  have htexts : (fun i => texts i ++ move.chunkFor i) = texts :=
    funext fun i => by rw [hchunk, List.append_nil]
  rw [hquestion, htexts, Option.toList_none, List.append_nil]
  exact hb

/-- A chunk for question `i`, as the texts received after it. -/
theorem texts_tokenChunk (i : ℕ) (text : JsString) :
    (fun j => texts j ++ Move.chunkFor j (.data i (.tokenChunk text))) =
      Function.update texts i (texts i ++ text) := by
  funext j
  by_cases hji : j = i
  · subst hji
    simp [Move.chunkFor]
  · simp [Move.chunkFor, hji, Ne.symm hji]

/-- A done or error frame closes the answer of a handler still listening. -/
theorem Faithful.finish (hb : b.Faithful asked texts) {i : ℕ} {h : SendHandler}
    (hi : b.handlers[i]? = some h) (hphase : h.phase = .listening) (hopen : h.completed = false)
    (citations : List Citation) (grounded : Bool) {s : ChatState}
    (hs : Closes b.state h { h with completed := true, citations, grounded } s) :
    (b.update i { h with completed := true, citations, grounded }
      (some s)).Faithful asked texts := by
  obtain ⟨hbuffer, hsuperseded, hdropped, -⟩ := hb.handlers i h hi
  refine hb.close hi ⟨hbuffer, hsuperseded, hdropped, ?_⟩ rfl
    (fun answer h => absurd h.ended (SendHandler.not_over hphase hopen)) fun s' hs' => ?_
  · intro _ how hended
    cases hphase.symm.trans hended
  · cases hs'
    exact ⟨hs, .inl rfl⟩

/-- **A stream event keeps the run faithful.** -/
theorem Faithful.data (hb : b.Faithful asked texts) {i : ℕ} {event : ChatStreamEvent}
    {b' : ChatBloc} (hstep : b.step (.data i event) = some b') :
    b'.Faithful (asked ++ (Move.data i event).question.toList)
      (fun j => texts j ++ (Move.data i event).chunkFor j) := by
  obtain ⟨h, hi, hphase, hopen, rfl⟩ := step_data hstep
  cases event with
  | tokenChunk text =>
    rw [texts_tokenChunk]
    change ChatBloc.Faithful (asked ++ []) _ _
    rw [List.append_nil]
    exact hb.receive hi hphase hopen text
  | streamDone grounded citations =>
    exact (hb.finish hi hphase hopen citations grounded .finished).silent
      (.data i (.streamDone grounded citations)) rfl fun _ => rfl
  | streamErrorFrame message =>
    exact (hb.finish hi hphase hopen h.citations h.grounded (.failed message)).silent
      (.data i (.streamErrorFrame message)) rfl fun _ => rfl

/-- The end of a stream keeps the run faithful. -/
theorem Faithful.streamEnds (hb : b.Faithful asked texts) {i : ℕ} {how : StreamEnd} {b' : ChatBloc}
    (hstep : b.step (.streamEnds i how) = some b') : b'.Faithful asked texts := by
  obtain ⟨h, hi, hphase, hclosed, -, rfl⟩ := step_streamEnds hstep
  obtain ⟨hbuffer, hsuperseded, -, -⟩ := hb.handlers i h hi
  refine hb.close hi ⟨hbuffer, hsuperseded, nofun, ?_⟩ rfl ?_ nofun
  · intro hdone how' hended
    cases hended
    exact hclosed hdone
  · rintro answer ⟨hdone | hreturned, hcitations, hgrounded⟩
    · exact ⟨⟨.inl hdone, hcitations, hgrounded⟩, rfl⟩
    · cases hphase.symm.trans hreturned

/-- The rest of a handler keeps the run faithful. -/
theorem Faithful.resume (hb : b.Faithful asked texts) {i : ℕ} {b' : ChatBloc}
    (hstep : b.step (.resume i) = some b') : b'.Faithful asked texts := by
  obtain ⟨h, how, hi, hphase, rfl⟩ := step_resume hstep
  obtain ⟨hbuffer, hsuperseded, -, hcompleted⟩ := hb.handlers i h hi
  refine hb.close hi ⟨hbuffer, hsuperseded, nofun, nofun⟩ rfl ?_
    fun s hs => ⟨closes_afterStream hs, .inr rfl⟩
  -- a completed stream is only ever closed, and then nothing more is emitted
  rintro answer ⟨hdone | hreturned, hcitations, hgrounded⟩
  · rw [hcompleted hdone how hphase, afterStream, if_pos hdone]
    exact ⟨⟨.inr rfl, hcitations, hgrounded⟩, rfl⟩
  · cases hphase.symm.trans hreturned

/-- **Every move keeps the run faithful.** -/
theorem Faithful.step (hb : b.Faithful asked texts) {move : Move} {b' : ChatBloc}
    (hstep : b.step move = some b') :
    b'.Faithful (asked ++ move.question.toList) (fun i => texts i ++ move.chunkFor i) := by
  cases move with
  | sendMessage question =>
    obtain ⟨-, rfl⟩ := step_sendMessage hstep
    have htexts : (fun i => texts i ++ []) = texts := funext fun i => List.append_nil _
    change (b.onSend question).Faithful (asked ++ [question]) fun i => texts i ++ []
    rw [htexts]
    exact hb.onSend question
  | cancelStream =>
    obtain ⟨-, rfl⟩ := step_cancelStream hstep
    have hcancelled : b.cancelCurrent.Faithful asked texts :=
      ⟨hb.count, hb.unasked, hb.handlers, hb.transcript, hb.begun, hb.answering⟩
    exact hcancelled.silent _ rfl fun _ => rfl
  | close =>
    cases hstep
    obtain ⟨hcount, hunasked, hhandlers, htranscript, hbegun, hanswering⟩ := hb.cancelHandlers
    have hclosed : { b.cancelCurrent.cancelHandlers with closed := true }.Faithful asked texts :=
      ⟨hcount, hunasked, hhandlers, htranscript, hbegun, hanswering⟩
    exact hclosed.silent .close rfl fun _ => rfl
  | data i event => exact hb.data hstep
  | streamEnds i how => exact (hb.streamEnds hstep).silent _ rfl fun _ => rfl
  | resume i => exact (hb.resume hstep).silent _ rfl fun _ => rfl

/-! ## Runs -/

theorem Faithful.run (hb : b.Faithful asked texts) {moves : List Move} {b' : ChatBloc}
    (hrun : moves.foldlM ChatBloc.step b = some b') :
    b'.Faithful (asked ++ questions moves) (fun i => texts i ++ received moves i) := by
  induction moves generalizing asked texts b with
  | nil =>
    cases hrun
    simpa [questions, received] using hb
  | cons move moves ih =>
    rw [List.foldlM_cons] at hrun
    obtain ⟨b₁, hstep, hrun⟩ := Option.bind_eq_some_iff.1 hrun
    have hnext := ih (hb.step hstep) hrun
    have hquestions : questions (move :: moves) = move.question.toList ++ questions moves := by
      rw [questions, List.filterMap_cons]
      cases move.question <;> rfl
    rw [hquestions, ← List.append_assoc]
    simpa [received, List.append_assoc] using hnext

theorem messages_onData (s : ChatState) (h : SendHandler) (event : ChatStreamEvent) :
    s.messages <+: (onData s h event).2.messages := by
  cases event with
  | tokenChunk text => exact List.prefix_rfl
  | streamDone grounded citations => exact List.prefix_append _ _
  | streamErrorFrame message => exact List.prefix_rfl

theorem Closes.messages {s s' : ChatState} {h h' : SendHandler} (hs : Closes s h h' s') :
    s.messages <+: s'.messages := by
  cases hs with
  | failed message => exact List.prefix_rfl
  | finished => exact List.prefix_append _ _

theorem messages_update {i : ℕ} {h : SendHandler} {emitted : Option ChatState}
    (hemits : ∀ s ∈ emitted, b.state.messages <+: s.messages) :
    b.state.messages <+: (b.update i h emitted).state.messages := by
  rw [update]
  split
  · exact List.prefix_rfl
  · cases emitted with
    | none => exact List.prefix_rfl
    | some s => exact hemits s rfl

/-- **The transcript only grows at its end.** -/
theorem messages_step {move : Move} {b' : ChatBloc} (hstep : b.step move = some b') :
    b.state.messages <+: b'.state.messages := by
  cases move with
  | sendMessage question =>
    obtain ⟨-, rfl⟩ := step_sendMessage hstep
    exact List.prefix_append _ _
  | cancelStream =>
    obtain ⟨-, rfl⟩ := step_cancelStream hstep
    exact List.prefix_rfl
  | close =>
    cases hstep
    exact List.prefix_rfl
  | data i event =>
    obtain ⟨h, -, -, -, rfl⟩ := step_data hstep
    exact messages_update fun s hs => Option.some.inj hs ▸ messages_onData _ _ _
  | streamEnds i how =>
    obtain ⟨h, -, -, -, -, rfl⟩ := step_streamEnds hstep
    exact messages_update nofun
  | resume i =>
    obtain ⟨h, how, -, -, rfl⟩ := step_resume hstep
    exact messages_update fun s hs => (closes_afterStream hs).messages

theorem messages_run {moves : List Move} {b' : ChatBloc}
    (hrun : moves.foldlM step b = some b') : b.state.messages <+: b'.state.messages := by
  induction moves generalizing b with
  | nil =>
    cases hrun
    exact List.prefix_rfl
  | cons move moves ih =>
    rw [List.foldlM_cons] at hrun
    obtain ⟨b₁, hstep, hrun⟩ := Option.bind_eq_some_iff.1 hrun
    exact (messages_step hstep).trans (ih hrun)

/-- **The transcript is faithful in every run.**  It only grows at its end; it is each question
once, in order, each followed by at most one answer, whose text is what was received for that
question; and what is shown as being streamed is what the last question has received so far, and
nothing once it is no longer streaming. -/
theorem transcript_faithful {moves later : List Move} {b b' : ChatBloc}
    (hrun : moves.foldlM step {} = some b) (hlater : later.foldlM step b = some b') :
    b.state.messages <+: b'.state.messages ∧
    (∃ answers, b.state.messages = transcript (questions moves) (received moves) answers) ∧
    (b.state.status = .streaming → questions moves ≠ [] ∧
      b.state.streamingAnswer = received moves ((questions moves).length - 1)) ∧
    (b.state.status ≠ .streaming → b.state.streamingAnswer = []) := by
  have hb := Faithful.start.run hrun
  obtain ⟨answers, hmessages, -⟩ := hb.transcript
  refine ⟨messages_run hlater, ⟨answers, hmessages⟩, fun hstreaming => ⟨hb.begun hstreaming, ?_⟩,
    fun hnot => ?_⟩
  · rw [hb.answering, if_pos hstreaming]
    rfl
  · rw [hb.answering, if_neg hnot]

/-- A question superseded while it is answered, and the next one stopped after two chunks. -/
theorem transcript_faithful_superseded : ∃ b b',
    [Move.sendMessage [1], .data 0 (.tokenChunk [10]), .sendMessage [2], .resume 0,
      .data 1 (.tokenChunk [20]), .cancelStream, .data 1 (.tokenChunk [21])].foldlM step {} =
        some b ∧
    [Move.streamEnds 1 (.thrown .cancelled), .resume 1].foldlM step b = some b' ∧
    b.state.messages <+: b'.state.messages ∧ b.state.streamingAnswer = [20, 21] := by
  refine ⟨_, _, rfl, rfl, ?_⟩
  obtain ⟨hgrows, -, hshown, -⟩ := transcript_faithful
    (show [Move.sendMessage [1], .data 0 (.tokenChunk [10]), .sendMessage [2], .resume 0,
      .data 1 (.tokenChunk [20]), .cancelStream, .data 1 (.tokenChunk [21])].foldlM step {} =
        some _ from rfl)
    (show [Move.streamEnds 1 (.thrown .cancelled), .resume 1].foldlM step _ = some _ from rfl)
  exact ⟨hgrows, (hshown rfl).2⟩

end ChatBloc

end Mobile

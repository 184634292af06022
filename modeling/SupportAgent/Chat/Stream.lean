import SupportAgent.Routes.Handlers

/-!
# Chat/Stream — the coroutine of `POST /chat` and the callbacks around it

Once the headers are written the coroutine shares its response with five callbacks: the heartbeat,
the 120 s timer, the client's close, a socket error and the reader's backpressure.  Any of them may
run at any of its awaits; `ChatStream.step` takes them one at a time.
-/

open Async Ingestion JsString

/-! ## The provider -/

/-- The Anthropic streaming events, as far as they are read. -/
inductive AnthropicStreamEvent
  | contentBlockDelta (deltaType : JsString) (text : Option JsString)
  | messageStart
  | messageDelta
  | other

/-- The text of a `text_delta`. -/
def AnthropicStreamEvent.textDelta : AnthropicStreamEvent → Option JsString
  | contentBlockDelta deltaType (some text) =>
    if deltaType = js "text_delta" then some text else none
  | _ => none

/-- `isRetryable` of the chat provider. -/
def isRetryableChat (err : JsError) : Bool :=
  match err.status with
  | some status => status == 429 || 500 ≤ status
  | none => false

/-- Where `ClaudeChat.stream` stands. -/
inductive Generator
  /-- awaits `messages.create` -/
  | creating
  /-- awaits the next upstream event -/
  | reading
  /-- has yielded its terminal event -/
  | ended

/-! ## The stream -/

/-- A frame on the wire. -/
inductive StreamFrame
  | ping
  | chat (frame : ChatFrame)
  | timeout

/-- A `done` or an `error` event. -/
def StreamFrame.terminal : StreamFrame → Bool
  | ping | chat (.token _) => false
  | chat _ | timeout => true

/-- Where the coroutine stands.  A promise may have resolved some time before the coroutine goes
on. -/
inductive ChatPhase
  | retrieving
  | retrieved (result : Except JsError (List ChunkHit))
  /-- `for await` waits for the generator -/
  | pulling (generator : Generator)
  | pulled (event : Option ChatStreamEvent) (generator : Generator)
  | draining (generator : Generator)
  | drained (generator : Generator)
  | finished

/-- **The stream of one request**: its flags and timers, what was written, the locals of the
coroutine, and what the upstream has left to send.  `cut` says that it was a lost connection that
closed it. -/
structure ChatStream where
  closed : Bool := false
  aborted : Bool := false
  heartbeat : Bool := true
  maxTimer : Bool := true
  written : List StreamFrame := []
  phase : ChatPhase := .retrieving
  hits : Option (List ChunkHit) := none
  sources : List AssembledSource := []
  answer : JsString := []
  unread : List AnthropicStreamEvent
  cut : Bool := false

/-- What may happen next. -/
inductive StreamMove
  /-- The retrieval resolves or rejects. -/
  | retrieve (result : Except JsError (List ChunkHit))
  /-- The upstream answers, sends its next event, comes to its end or breaks off. -/
  | created
  | event
  | ended
  | failed (err : JsError)
  /-- The generator returns. -/
  | returned
  /-- The coroutine goes on; `flushed` is what `res.write` returns. -/
  | resume (flushed : Bool) (latencyMs : ℕ)
  | drain
  | heartbeat
  | timeout
  | clientClose
  | socketError

namespace ChatStream

/-- `safeWrite`. -/
def safeWrite (s : ChatStream) (frame : StreamFrame) : ChatStream :=
  if s.closed then s else { s with written := s.written ++ [frame] }

/-- `end`. -/
def endStream (s : ChatStream) : ChatStream :=
  if s.closed then s else { s with closed := true, heartbeat := false, maxTimer := false }

/-- The callback of a lost connection. -/
def disconnect (s : ChatStream) : ChatStream :=
  { s with aborted := true, cut := s.cut || !s.closed }.endStream

/-- The callback of the 120 s timer. -/
def expire (s : ChatStream) : ChatStream :=
  { s.safeWrite .timeout with aborted := true }.endStream

def goto (s : ChatStream) (phase : ChatPhase) : ChatStream := { s with phase }

/-- The locals of the coroutine, and what is left to read. -/
def receive (s : ChatStream) (hits : List ChunkHit) : ChatStream := { s with hits := some hits }

def assemble (s : ChatStream) (sources : List AssembledSource) : ChatStream := { s with sources }

def hear (s : ChatStream) (text : JsString) : ChatStream := { s with answer := s.answer ++ text }

def leave (s : ChatStream) (unread : List AnthropicStreamEvent) : ChatStream := { s with unread }

/-- A last frame, and the end. -/
def conclude (s : ChatStream) (frame : StreamFrame) : ChatStream :=
  ((s.safeWrite frame).endStream).goto .finished

/-- `catch`, past the headers. -/
def fail (s : ChatStream) : ChatStream :=
  if s.closed then s.goto .finished else s.conclude (.chat .internalError)

section

variable (P : Platform) (deps : AppDeps) (assistant : Assistant) (question : JsString)

/-- From the hits that pass the gate to the first pull. -/
def generate (s : ChatStream) (hits : List ChunkHit) : ChatStream :=
  match assembled P deps hits with
  | .error _ => s.fail
  | .ok ctx =>
    match chatRequest assistant.model (buildGroundingSystem assistant.systemPrompt)
      question ctx.text deps.maxOutputTokens with
    | .error _ => s.fail
    | .ok _ => (s.assemble ctx.sources).goto (.pulling .creating)

/-- **The coroutine goes on** from an await that has resolved. -/
def resume (s : ChatStream) (flushed : Bool) (latencyMs : ℕ) : Option ChatStream :=
  match s.phase with
  | .retrieved result =>
    if s.closed then some (s.goto .finished)
    else
      match result with
      | .error _ => some s.fail
      | .ok hits =>
        if (evaluateThreshold hits assistant.refusalThreshold).refuse then
          some (((s.receive hits).safeWrite (.chat (.token REFUSAL_MESSAGE))).conclude
            (.chat (.done false [] latencyMs)))
        else some ((s.receive hits).generate P deps assistant question hits)
  | .pulled (some event) generator =>
    if s.closed then some (s.goto .finished)
    else
      match event with
      | .text text =>
        some (((s.hear text).safeWrite (.chat (.token text))).goto
          (if flushed then .pulling generator
          -- an abort has resolved the wait already
          else if s.aborted then .drained generator else .draining generator))
      | .error retryable => some (s.conclude (.chat (.generationFailed retryable)))
      | .done => some (s.goto (.pulling generator))
  | .pulled none _ =>
    if s.closed then some (s.goto .finished)
    else some (s.conclude (.chat (doneFrame s.sources latencyMs s.answer)))
  | .drained generator =>
    if s.closed then some (s.goto .finished) else some (s.goto (.pulling generator))
  | _ => none

/-- **One move.**  An aborted upstream may end wherever it is; a timer fires while it is set. -/
def step (s : ChatStream) : StreamMove → Option ChatStream
  | .retrieve result =>
    match s.phase with
    | .retrieving => some (s.goto (.retrieved result))
    | _ => none
  | .created =>
    match s.phase with
    | .pulling .creating => some (s.goto (.pulling .reading))
    | _ => none
  | .event =>
    match s.phase, s.unread with
    | .pulling .reading, event :: unread =>
      match event.textDelta with
      | some text => some ((s.leave unread).goto (.pulled (some (.text text)) .reading))
      | none => some (s.leave unread)
    | _, _ => none
  | .ended =>
    match s.phase with
    | .pulling .reading =>
      if s.unread.isEmpty || s.aborted then some (s.goto (.pulled (some .done) .ended)) else none
    | _ => none
  | .failed err =>
    match s.phase with
    | .pulling .creating | .pulling .reading =>
      some (s.goto (.pulled (some (.error (isRetryableChat err))) .ended))
    | _ => none
  | .returned =>
    match s.phase with
    | .pulling .ended => some (s.goto (.pulled none .ended))
    | _ => none
  | .resume flushed latencyMs => s.resume P deps assistant question flushed latencyMs
  | .drain =>
    match s.phase with
    | .draining generator => some (s.goto (.drained generator))
    | _ => none
  | .heartbeat => if s.heartbeat then some (s.safeWrite .ping) else none
  | .timeout => if s.maxTimer then some s.expire else none
  | .clientClose => some s.disconnect
  | .socketError => some s.disconnect

end

end ChatStream

import SupportAgent.Chat.Grounding
import SupportAgent.Chat.Stream
import SupportAgent.Machinery.Run

/-!
# Chat/Protocol — what a chat stream says, however it is interleaved

`closed` is set together with the last frame, so whoever closes the stream first has the last word:
`Open` says what is written while it is not set, and nothing visible happens to a stream once it is
(`visible_of_closed`).

* `chat_stream_protocol` — at most one terminal frame, at the end; exactly one unless the connection
  was lost; the tokens are the upstream's texts in order, all of them before a `done`.
* `chat_stream_answer` — with a `done` the stream is the one `answerFrames` makes of these texts.
-/

open Async Ingestion JsString

namespace ChatStream

/-! ## What is written -/

/-- The texts of the token frames. -/
def tokenTexts (frames : List StreamFrame) : List JsString :=
  frames.filterMap fun
    | .chat (.token text) => some text
    | _ => none

/-- The text deltas of an upstream. -/
def textDeltas (upstream : List AnthropicStreamEvent) : List JsString :=
  upstream.filterMap (·.textDelta)

/-- No terminal frame. -/
def Plain (frames : List StreamFrame) : Prop := ∀ frame ∈ frames, frame.terminal = false

/-- What the coroutine has relayed of what was read, by where it stands. -/
def Relayed (texts read : List JsString) (unread : List AnthropicStreamEvent) : ChatPhase → Prop
  | .pulling .ended | .pulled none _ => texts = read ∧ unread = []
  | .pulling _ => texts = read
  | .draining generator | .drained generator => texts = read ∧ generator = .reading
  | .pulled (some (.text text)) generator => texts ++ [text] = read ∧ generator = .reading
  | .pulled (some .done) generator => texts = read ∧ unread = [] ∧ generator = .ended
  | .pulled (some (.error _)) _ => texts = read
  | .retrieving | .retrieved _ | .finished => False

/-- **A stream not closed yet**: no terminal frame so far, both timers set, and the tokens are what
was read of the upstream. -/
structure Open (P : Platform) (deps : AppDeps) (threshold : ℚ)
    (upstream : List AnthropicStreamEvent) (s : ChatStream) : Prop where
  closed : s.closed = false
  aborted : s.aborted = false
  maxTimer : s.maxTimer = true
  cut : s.cut = false
  plain : Plain s.written
  phase : s.hits = none ∧ tokenTexts s.written = [] ∧ s.answer = [] ∧ s.unread = upstream ∧
      (s.phase = .retrieving ∨ ∃ result, s.phase = .retrieved result) ∨
    ∃ hits ctx read, s.hits = some hits ∧ Clears hits threshold ∧ assembled P deps hits = .ok ctx ∧
      s.sources = ctx.sources ∧ upstream = read ++ s.unread ∧
      s.answer = (tokenTexts s.written).flatten ∧
      Relayed (tokenTexts s.written) (textDeltas read) s.unread s.phase

/-- **A closed stream**: its last frame is the only terminal one, unless the connection was lost. -/
structure Closed (P : Platform) (deps : AppDeps) (threshold : ℚ)
    (upstream : List AnthropicStreamEvent) (body last : List StreamFrame) (s : ChatStream) :
    Prop where
  closed : s.closed = true
  maxTimer : s.maxTimer = false
  heartbeat : s.heartbeat = false
  written : s.written = body ++ last
  plain : Plain body
  ending : if s.cut then last = [] else ∃ frame, frame.terminal = true ∧ last = [frame]
  relayed : ∀ hits, s.hits = some hits → Clears hits threshold →
    tokenTexts body <+: textDeltas upstream ∧
    ∀ grounded citations latencyMs, last = [.chat (.done grounded citations latencyMs)] →
      tokenTexts body = textDeltas upstream ∧ ∃ ctx, assembled P deps hits = .ok ctx ∧
        ChatFrame.done grounded citations latencyMs =
          doneFrame ctx.sources latencyMs (textDeltas upstream).flatten

/-- What a closed stream shows of itself. -/
def visible (s : ChatStream) :
    Bool × Bool × Bool × List StreamFrame × Bool × Option (List ChunkHit) :=
  (s.closed, s.maxTimer, s.heartbeat, s.written, s.cut, s.hits)

section

variable {P : Platform} {deps : AppDeps} {assistant : Assistant} {question : JsString}
  {threshold : ℚ} {upstream : List AnthropicStreamEvent} {body last : List StreamFrame}
  {s t : ChatStream}

theorem safeWrite_of_closed (h : s.closed = true) (frame : StreamFrame) : s.safeWrite frame = s :=
  if_pos h

theorem endStream_of_closed (h : s.closed = true) : s.endStream = s := if_pos h

theorem safeWrite_of_open (h : s.closed = false) (frame : StreamFrame) :
    s.safeWrite frame = { s with written := s.written ++ [frame] } :=
  if_neg (by rw [h]; exact Bool.false_ne_true)

theorem endStream_of_open (h : s.closed = false) :
    s.endStream = { s with closed := true, heartbeat := false, maxTimer := false } :=
  if_neg (by rw [h]; exact Bool.false_ne_true)

theorem Plain.push (h : Plain s.written) {frame : StreamFrame} (hframe : frame.terminal = false) :
    Plain (s.written ++ [frame]) := by
  intro g hg
  obtain hg | hg := List.mem_append.1 hg
  · exact h g hg
  · rw [List.mem_singleton.1 hg, hframe]

/-- A ping is no token. -/
theorem tokenTexts_ping : tokenTexts (s.written ++ [.ping]) = tokenTexts s.written := by
  rw [tokenTexts, List.filterMap_append]
  exact List.append_nil _

theorem tokenTexts_token (text : JsString) :
    tokenTexts (s.written ++ [.chat (.token text)]) = tokenTexts s.written ++ [text] := by
  rw [tokenTexts, List.filterMap_append]
  rfl

/-! ## A closed stream -/

/-- **Nothing visible happens to a closed stream.** -/
theorem visible_of_closed (h : s.closed = true) {move : StreamMove}
    (hstep : s.step P deps assistant question move = some t) : t.visible = s.visible := by
  have hdisconnect : s.disconnect.visible = s.visible := by
    have hsame : s.disconnect = { s with aborted := true, cut := s.cut || !s.closed } :=
      endStream_of_closed h
    rw [hsame, visible, visible, h, Bool.not_true, Bool.or_false]
  cases move with
  | resume flushed latencyMs =>
    have hgo : s.phase = .retrieving ∨ s.resume P deps assistant question flushed latencyMs = none ∨
        s.resume P deps assistant question flushed latencyMs = some (s.goto .finished) := by
      rw [resume]
      split
      all_goals first | exact .inr (.inr (if_pos h)) | exact .inr (.inl rfl)
    change s.resume P deps assistant question flushed latencyMs = some t at hstep
    obtain hphase | hnone | hsome := hgo
    · rw [resume, hphase] at hstep
      cases hstep
    · rw [hnone] at hstep
      cases hstep
    · rw [hsome] at hstep
      obtain rfl := Option.some.inj hstep
      rfl
  | heartbeat =>
    rw [step, safeWrite_of_closed h] at hstep
    split at hstep
    · obtain rfl := Option.some.inj hstep
      rfl
    · cases hstep
  | timeout =>
    rw [step, expire, safeWrite_of_closed h,
      endStream_of_closed (s := { s with aborted := true }) h] at hstep
    split at hstep
    · obtain rfl := Option.some.inj hstep
      rfl
    · cases hstep
  | clientClose | socketError =>
    obtain rfl := Option.some.inj hstep
    exact hdisconnect
  | event =>
    rw [step] at hstep
    split at hstep
    · split at hstep <;> obtain rfl := Option.some.inj hstep <;> rfl
    · cases hstep
  | ended =>
    rw [step] at hstep
    split at hstep
    · split at hstep
      · obtain rfl := Option.some.inj hstep
        rfl
      · cases hstep
    · cases hstep
  | _ =>
    rw [step] at hstep
    split at hstep <;> first
      | (obtain rfl := Option.some.inj hstep; rfl)
      | cases hstep

theorem Closed.same (h : Closed P deps threshold upstream body last s)
    (ht : t.visible = s.visible) : Closed P deps threshold upstream body last t := by
  simp only [visible, Prod.mk.injEq] at ht
  obtain ⟨hclosed, hmax, hheart, hwritten, hcut, hhits⟩ := ht
  refine ⟨hclosed.trans h.closed, hmax.trans h.maxTimer, hheart.trans h.heartbeat,
    hwritten.trans h.written, h.plain, ?_, ?_⟩
  · rw [hcut]
    exact h.ending
  · rw [hhits]
    exact h.relayed

/-- **The last frame closes the stream.** -/
theorem closed_of_last (hclosed : s.closed = false) (hcut : s.cut = false)
    (hplain : Plain s.written) {frame : StreamFrame} (hframe : frame.terminal = true)
    (hrelayed : ∀ hits, s.hits = some hits → Clears hits threshold →
      tokenTexts s.written <+: textDeltas upstream ∧
      ∀ grounded citations latencyMs, frame = .chat (.done grounded citations latencyMs) →
        tokenTexts s.written = textDeltas upstream ∧ ∃ ctx, assembled P deps hits = .ok ctx ∧
          ChatFrame.done grounded citations latencyMs =
            doneFrame ctx.sources latencyMs (textDeltas upstream).flatten) :
    Closed P deps threshold upstream s.written [frame] (s.safeWrite frame).endStream := by
  rw [safeWrite_of_open hclosed, endStream_of_open (s := { s with written := s.written ++ [frame] })
    hclosed]
  refine ⟨rfl, rfl, rfl, rfl, hplain, ?_, fun hits hhits hclears => ?_⟩
  · change if s.cut then _ else _
    rw [hcut]
    exact ⟨frame, hframe, rfl⟩
  · obtain ⟨hbegins, hdone⟩ := hrelayed hits hhits hclears
    exact ⟨hbegins, fun g c l hlast => hdone g c l (List.singleton_inj.1 hlast)⟩

/-! ## An open stream -/

/-- What was relayed begins what was read. -/
theorem Relayed.isPrefix {texts read : List JsString} {unread : List AnthropicStreamEvent}
    {phase : ChatPhase} (h : Relayed texts read unread phase) : texts <+: read := by
  have hsame : texts = read → texts <+: read := fun heq => heq ▸ List.prefix_rfl
  cases phase with
  | retrieving | retrieved | finished => exact h.elim
  | draining | drained => exact hsame h.1
  | pulling generator =>
    cases generator with
    | ended => exact hsame h.1
    | _ => exact hsame h
  | pulled event =>
    obtain _ | text | _ | retryable := event
    · exact hsame h.1
    · exact h.1 ▸ List.prefix_append _ _
    · exact hsame h.1
    · exact hsame h

/-- The tokens so far begin the upstream's texts. -/
theorem Open.isPrefix (h : Open P deps threshold upstream s) :
    tokenTexts s.written <+: textDeltas upstream := by
  obtain ⟨-, hnil, -⟩ | ⟨-, -, read, -, -, -, -, rfl, -, hrelayed⟩ := h.phase
  · rw [hnil]
    exact List.nil_prefix
  · rw [textDeltas, List.filterMap_append]
    exact hrelayed.isPrefix.trans (List.prefix_append _ _)

/-- **A frame that ends an open stream**, other than a `done`. -/
theorem Open.closed_of_last (h : Open P deps threshold upstream s) {frame : StreamFrame}
    (hframe : frame.terminal = true)
    (hdone : ∀ grounded citations latencyMs, frame ≠ .chat (.done grounded citations latencyMs)) :
    Closed P deps threshold upstream s.written [frame] (s.safeWrite frame).endStream :=
  ChatStream.closed_of_last h.closed h.cut h.plain hframe fun _ _ _ =>
    ⟨h.isPrefix, fun g c l heq => absurd heq (hdone g c l)⟩

/-- A lost connection closes the stream where it is. -/
theorem Open.closed_of_disconnect (h : Open P deps threshold upstream s) :
    Closed P deps threshold upstream s.written [] s.disconnect := by
  have hsame : s.disconnect = { s with
      aborted := true, cut := true, closed := true, heartbeat := false, maxTimer := false } := by
    rw [disconnect, endStream_of_open (s := { s with aborted := true, cut := s.cut || !s.closed })
      h.closed, h.closed, h.cut]
    rfl
  rw [hsame]
  refine ⟨rfl, rfl, rfl, (List.append_nil _).symm, h.plain, rfl, fun _ _ _ => ?_⟩
  exact ⟨h.isPrefix, fun g c l hlast => absurd hlast.symm (List.cons_ne_nil _ _)⟩

/-- A heartbeat says nothing. -/
theorem Open.ping (h : Open P deps threshold upstream s) :
    Open P deps threshold upstream (s.safeWrite .ping) := by
  rw [safeWrite_of_open h.closed]
  refine ⟨h.closed, h.aborted, h.maxTimer, h.cut, h.plain.push rfl, ?_⟩
  change _ ∧ tokenTexts (s.written ++ [.ping]) = [] ∧ _ ∧ _ ∧ _ ∨ ∃ hits ctx read, _ ∧
    _ ∧ _ ∧ _ ∧ _ ∧
    s.answer = (tokenTexts (s.written ++ [.ping])).flatten ∧
    Relayed (tokenTexts (s.written ++ [.ping])) (textDeltas read) s.unread s.phase
  rw [tokenTexts_ping]
  exact h.phase

/-- The coroutine or its provider goes on without a frame. -/
theorem Open.goto (h : Open P deps threshold upstream s) {phase : ChatPhase}
    (hfirst : s.phase = .retrieving → ∃ result, phase = .retrieved result)
    (hthen : ∀ result, s.phase ≠ .retrieved result)
    (hrelayed : ∀ read, Relayed (tokenTexts s.written) read s.unread s.phase →
      Relayed (tokenTexts s.written) read s.unread phase) :
    Open P deps threshold upstream (s.goto phase) := by
  refine ⟨h.closed, h.aborted, h.maxTimer, h.cut, h.plain, ?_⟩
  obtain ⟨hhits, hnil, hanswer, hunread, hphase⟩ | ⟨hits, ctx, read, hhits, hclears, hctx, hsources,
    hread, hanswer, hrel⟩ := h.phase
  · obtain hphase | ⟨result, hphase⟩ := hphase
    · exact .inl ⟨hhits, hnil, hanswer, hunread, .inr (hfirst hphase)⟩
    · exact absurd hphase (hthen result)
  · exact .inr ⟨hits, ctx, read, hhits, hclears, hctx, hsources, hread, hanswer, hrelayed _ hrel⟩

/-- **Open, or closed for good.** -/
def Sound (P : Platform) (deps : AppDeps) (threshold : ℚ) (upstream : List AnthropicStreamEvent)
    (s : ChatStream) : Prop :=
  Open P deps threshold upstream s ∨ ∃ body last, Closed P deps threshold upstream body last s

/-- A concluded stream is closed. -/
theorem Closed.conclude {frame : StreamFrame}
    (h : Closed P deps threshold upstream body last (s.safeWrite frame).endStream) :
    Sound P deps threshold upstream (s.conclude frame) :=
  .inr ⟨body, last, h.same rfl⟩

theorem Open.fail (h : Open P deps threshold upstream s) :
    Sound P deps threshold upstream s.fail := by
  rw [ChatStream.fail, if_neg (by rw [h.closed]; exact Bool.false_ne_true)]
  refine (h.closed_of_last rfl fun g c l => ?_).conclude
  exact fun heq => nomatch heq

/-- An upstream event is read, and relayed if it is text. -/
theorem Open.read (h : Open P deps threshold upstream s) (hphase : s.phase = .pulling .reading)
    {event : AnthropicStreamEvent} {unread : List AnthropicStreamEvent}
    (hunread : s.unread = event :: unread)
    (hstep : s.step P deps assistant question .event = some t) :
    Open P deps threshold upstream t := by
  obtain ⟨-, -, -, -, hfirst⟩ | ⟨hits, ctx, read, hhits, hclears, hctx, hsources, hread, hanswer,
    hrelayed⟩ := h.phase
  · rw [hphase] at hfirst
    obtain hfirst | ⟨result, hfirst⟩ := hfirst <;> cases hfirst
  rw [hphase] at hrelayed
  have hsplit : upstream = (read ++ [event]) ++ unread := by
    rw [hread, hunread, List.append_assoc]
    rfl
  rw [ChatStream.step, hphase, hunread] at hstep
  dsimp only at hstep
  split at hstep
  · rename_i text htext
    obtain rfl := Option.some.inj hstep
    refine ⟨h.closed, h.aborted, h.maxTimer, h.cut, h.plain,
      .inr ⟨hits, ctx, read ++ [event], hhits, hclears, hctx, hsources, hsplit, hanswer, ?_, rfl⟩⟩
    change tokenTexts s.written ++ [text] = textDeltas (read ++ [event])
    rw [show tokenTexts s.written = textDeltas read from hrelayed, textDeltas, textDeltas,
      List.filterMap_append]
    rw [List.filterMap_cons_some htext]
    rfl
  · rename_i htext
    obtain rfl := Option.some.inj hstep
    refine ⟨h.closed, h.aborted, h.maxTimer, h.cut, h.plain,
      .inr ⟨hits, ctx, read ++ [event], hhits, hclears, hctx, hsources, hsplit, hanswer, ?_⟩⟩
    change Relayed (tokenTexts s.written) (textDeltas (read ++ [event])) unread s.phase
    have hnothing : textDeltas (read ++ [event]) = textDeltas read := by
      rw [textDeltas, List.filterMap_append, List.filterMap_cons_none htext, List.filterMap_nil,
        List.append_nil]
      rfl
    rw [hphase, hnothing]
    exact hrelayed

/-- **The hits have come**: they are refused, or the model is asked, or nothing can be made of
them. -/
theorem Open.answerHits (h : Open P deps assistant.refusalThreshold upstream s)
    {result : Except JsError (List ChunkHit)} (hphase : s.phase = .retrieved result)
    {flushed : Bool}
    {latencyMs : ℕ} (hstep : s.resume P deps assistant question flushed latencyMs = some t) :
    Sound P deps assistant.refusalThreshold upstream t := by
  obtain ⟨hhits, hnil, hanswer, hunread, -⟩ | ⟨_, _, _, _, _, _, _, _, _, hrelayed⟩ := h.phase
  swap
  · rw [hphase] at hrelayed
    exact hrelayed.elim
  rw [resume, hphase] at hstep
  dsimp only at hstep
  rw [if_neg (by rw [h.closed]; exact Bool.false_ne_true)] at hstep
  obtain err | hits := result
  · obtain rfl := Option.some.inj hstep
    exact h.fail
  dsimp only at hstep
  split at hstep
  case isTrue hrefuse =>
    obtain rfl := Option.some.inj hstep
    have hnot : ¬ Clears hits assistant.refusalThreshold := fun hclears => by
      rw [evaluateThreshold_refuse.2 hclears] at hrefuse
      cases hrefuse
    rw [safeWrite_of_open (s := s.receive hits) h.closed]
    have hplain : Plain (s.written ++ [.chat (.token REFUSAL_MESSAGE)]) := h.plain.push rfl
    refine Closed.conclude (ChatStream.closed_of_last (s := { s.receive hits with
      written := s.written ++ [.chat (.token REFUSAL_MESSAGE)] }) h.closed h.cut hplain rfl
      fun hits' hhits' hclears => ?_)
    obtain rfl := Option.some.inj hhits'
    exact absurd hclears hnot
  case isFalse hpass =>
    have hclears : Clears hits assistant.refusalThreshold :=
      evaluateThreshold_refuse.1 (Bool.not_eq_true _ ▸ hpass)
    obtain rfl := Option.some.inj hstep
    -- nothing was relayed so far
    have hfail : Sound P deps assistant.refusalThreshold upstream
        (s.receive hits).fail := by
      rw [ChatStream.fail, if_neg (by rw [receive, h.closed]; exact Bool.false_ne_true)]
      refine Closed.conclude (ChatStream.closed_of_last (s := s.receive hits) h.closed h.cut h.plain
        rfl fun _ _ _ => ⟨h.isPrefix, fun g c l => ?_⟩)
      exact fun heq => nomatch heq
    rw [generate]
    cases hctx : assembled P deps hits with
    | error e => exact hfail
    | ok ctx =>
      dsimp only
      split
      · exact hfail
      · refine .inl ⟨h.closed, h.aborted, h.maxTimer, h.cut, h.plain,
          .inr ⟨hits, ctx, [], rfl, hclears, hctx, rfl, hunread.symm, ?_, hnil⟩⟩
        change s.answer = (tokenTexts s.written).flatten
        rw [hanswer, hnil]
        rfl

/-- Past the gate, where the coroutine does not wait for the hits. -/
theorem Open.asked (h : Open P deps threshold upstream s) (hretrieving : s.phase ≠ .retrieving)
    (hretrieved : ∀ result, s.phase ≠ .retrieved result) :
    ∃ hits ctx read, s.hits = some hits ∧ Clears hits threshold ∧ assembled P deps hits = .ok ctx ∧
      s.sources = ctx.sources ∧ upstream = read ++ s.unread ∧
      s.answer = (tokenTexts s.written).flatten ∧
      Relayed (tokenTexts s.written) (textDeltas read) s.unread s.phase := by
  obtain ⟨-, -, -, -, hfirst⟩ | hasked := h.phase
  · obtain hfirst | ⟨result, hfirst⟩ := hfirst
    · exact absurd hfirst hretrieving
    · exact absurd hfirst (hretrieved result)
  · exact hasked

/-- **A text is relayed** as a token. -/
theorem Open.relay (h : Open P deps threshold upstream s) {text : JsString} {generator : Generator}
    (hphase : s.phase = .pulled (some (.text text)) generator) (flushed : Bool) :
    Open P deps threshold upstream (((s.hear text).safeWrite (.chat (.token text))).goto
      (if flushed then .pulling generator
      else if s.aborted then .drained generator else .draining generator)) := by
  obtain ⟨hits, ctx, read, hhits, hclears, hctx, hsources, hread, hanswer, hrelayed⟩ := h.asked
    (by rw [hphase]; exact nofun) (by rw [hphase]; exact fun _ => nofun)
  rw [hphase] at hrelayed
  obtain ⟨htexts, rfl⟩ := hrelayed
  have htokens : tokenTexts (s.written ++ [.chat (.token text)]) = textDeltas read :=
    (tokenTexts_token text).trans htexts
  rw [safeWrite_of_open (s := s.hear text) h.closed]
  refine ⟨h.closed, h.aborted, h.maxTimer, h.cut, h.plain.push rfl, .inr ⟨hits, ctx, read, hhits,
    hclears, hctx, hsources, hread, ?_, ?_⟩⟩
  · change s.answer ++ text = (tokenTexts (s.written ++ [.chat (.token text)])).flatten
    rw [hanswer, tokenTexts_token, List.flatten_append, List.flatten_singleton]
  · change Relayed (tokenTexts (s.written ++ [.chat (.token text)])) (textDeltas read) s.unread
      (if flushed then .pulling .reading else if s.aborted then .drained .reading
        else .draining .reading)
    rw [h.aborted, if_neg Bool.false_ne_true]
    split
    · exact htokens
    · exact ⟨htokens, rfl⟩

/-- **The answer is complete**: everything the upstream sent was relayed. -/
theorem Open.complete (h : Open P deps threshold upstream s) {generator : Generator}
    (hphase : s.phase = .pulled none generator) (latencyMs : ℕ) :
    Sound P deps threshold upstream
      (s.conclude (.chat (doneFrame s.sources latencyMs s.answer))) := by
  obtain ⟨hits, ctx, read, hhits, hclears, hctx, hsources, hread, hanswer, hrelayed⟩ := h.asked
    (by rw [hphase]; exact nofun) (by rw [hphase]; exact fun _ => nofun)
  rw [hphase] at hrelayed
  obtain ⟨htexts, hunread⟩ := hrelayed
  have hall : tokenTexts s.written = textDeltas upstream := by
    rw [htexts, hread, hunread, List.append_nil]
  refine (ChatStream.closed_of_last h.closed h.cut h.plain rfl fun hits' hhits' _ =>
    ⟨h.isPrefix, fun grounded citations latencyMs' hframe => ⟨hall, ctx, ?_, ?_⟩⟩).conclude
  · rw [Option.some.inj (hhits'.symm.trans hhits), hctx]
  · have hdone := StreamFrame.chat.inj hframe
    obtain ⟨-, -, rfl⟩ := ChatFrame.done.inj hdone
    rw [← hdone, hsources, hanswer, hall]

/-- **The coroutine of an open stream goes on.** -/
theorem Open.resume (h : Open P deps assistant.refusalThreshold upstream s) {flushed : Bool}
    {latencyMs : ℕ} (hstep : s.resume P deps assistant question flushed latencyMs = some t) :
    Sound P deps assistant.refusalThreshold upstream t := by
  have hopen : ¬ s.closed = true := by
    rw [h.closed]
    exact Bool.false_ne_true
  cases hphase : s.phase with
  | retrieved result => exact h.answerHits hphase hstep
  | pulled event generator =>
    rw [ChatStream.resume, hphase] at hstep
    obtain _ | text | _ | retryable := event
    all_goals
      dsimp only at hstep
      rw [if_neg hopen] at hstep
      obtain rfl := Option.some.inj hstep
    · exact h.complete hphase latencyMs
    · exact .inl (h.relay hphase flushed)
    · refine .inl (h.goto ?_ ?_ fun read hrelayed => ?_)
      · rw [hphase]
        exact nofun
      · rw [hphase]
        exact fun _ => nofun
      · rw [hphase] at hrelayed
        obtain ⟨htexts, hunread, rfl⟩ := hrelayed
        exact ⟨htexts, hunread⟩
    · refine (h.closed_of_last rfl fun g c l => ?_).conclude
      exact fun heq => nomatch heq
  | drained generator =>
    rw [ChatStream.resume, hphase] at hstep
    dsimp only at hstep
    rw [if_neg hopen] at hstep
    obtain rfl := Option.some.inj hstep
    refine .inl (h.goto ?_ ?_ fun read hrelayed => ?_)
    · rw [hphase]
      exact nofun
    · rw [hphase]
      exact fun _ => nofun
    · rw [hphase] at hrelayed
      obtain ⟨htexts, rfl⟩ := hrelayed
      exact htexts
  | retrieving | pulling | draining | finished =>
    rw [ChatStream.resume, hphase] at hstep
    cases hstep

/-- A wait of an open stream ends. -/
theorem Open.wait (h : Open P deps threshold upstream s) {before after : ChatPhase}
    (hphase : s.phase = before) (hfirst : before ≠ .retrieving)
    (hthen : ∀ result, before ≠ .retrieved result)
    (hrelayed : ∀ read, Relayed (tokenTexts s.written) read s.unread before →
      Relayed (tokenTexts s.written) read s.unread after) :
    Sound P deps threshold upstream (s.goto after) := by
  subst hphase
  exact .inl (h.goto (fun heq => absurd heq hfirst) hthen hrelayed)

/-- **Every move keeps an open stream sound.** -/
theorem Open.step (h : Open P deps assistant.refusalThreshold upstream s) {move : StreamMove}
    (hstep : s.step P deps assistant question move = some t) :
    Sound P deps assistant.refusalThreshold upstream t := by
  cases move with
  | retrieve result =>
    rw [ChatStream.step] at hstep
    split at hstep
    · rename_i hphase
      obtain rfl := Option.some.inj hstep
      refine .inl (h.goto (fun _ => ⟨result, rfl⟩) ?_ fun read hrelayed => ?_)
      · rw [hphase]
        exact fun _ => nofun
      · rw [hphase] at hrelayed
        exact hrelayed.elim
    · cases hstep
  | created | returned | drain =>
    rw [ChatStream.step] at hstep
    split at hstep
    · rename_i hphase
      obtain rfl := Option.some.inj hstep
      exact h.wait hphase nofun (fun _ => nofun) fun read hrelayed => hrelayed
    · cases hstep
  | event =>
    have hsplit := hstep
    rw [ChatStream.step] at hsplit
    split at hsplit
    · rename_i hphase hunread
      exact .inl (h.read hphase hunread hstep)
    · cases hsplit
  | ended =>
    rw [ChatStream.step] at hstep
    split at hstep
    · rename_i hphase
      split at hstep
      · rename_i hend
        obtain rfl := Option.some.inj hstep
        rw [h.aborted, Bool.or_false, List.isEmpty_iff] at hend
        exact h.wait hphase nofun (fun _ => nofun) fun read hrelayed => ⟨hrelayed, hend, rfl⟩
      · cases hstep
    · cases hstep
  | failed err =>
    rw [ChatStream.step] at hstep
    split at hstep
    · rename_i hphase
      obtain rfl := Option.some.inj hstep
      exact h.wait hphase nofun (fun _ => nofun) fun read hrelayed => hrelayed
    · rename_i hphase
      obtain rfl := Option.some.inj hstep
      exact h.wait hphase nofun (fun _ => nofun) fun read hrelayed => hrelayed
    · cases hstep
  | resume flushed latencyMs => exact h.resume hstep
  | heartbeat =>
    rw [ChatStream.step] at hstep
    split at hstep
    · obtain rfl := Option.some.inj hstep
      exact .inl h.ping
    · cases hstep
  | timeout =>
    rw [ChatStream.step] at hstep
    split at hstep
    · obtain rfl := Option.some.inj hstep
      have hlast : Closed P deps assistant.refusalThreshold upstream s.written [.timeout]
          (s.safeWrite .timeout).endStream :=
        h.closed_of_last rfl fun g c l heq => nomatch heq
      refine .inr ⟨_, _, hlast.same ?_⟩
      rw [expire, safeWrite_of_open h.closed, endStream_of_open (s := { s with
        written := s.written ++ [.timeout] }) h.closed, endStream_of_open (s := { s with
        written := s.written ++ [.timeout], aborted := true }) h.closed]
      rfl
    · cases hstep
  | clientClose | socketError =>
    obtain rfl := Option.some.inj hstep
    exact .inr ⟨_, _, h.closed_of_disconnect⟩

/-- **Every move keeps a stream sound.** -/
theorem Sound.step (h : Sound P deps assistant.refusalThreshold upstream s) {move : StreamMove}
    (hstep : s.step P deps assistant question move = some t) :
    Sound P deps assistant.refusalThreshold upstream t := by
  obtain h | ⟨body, last, h⟩ := h
  · exact h.step hstep
  · exact .inr ⟨body, last, h.same (visible_of_closed h.closed hstep)⟩

theorem sound_of_reachable
    (h : Run.Reachable (ChatStream.step P deps assistant question) Run.anyMove
    (· = { unread := upstream }) s) : Sound P deps assistant.refusalThreshold upstream s := by
  refine h.invariant (P := Sound P deps assistant.refusalThreshold upstream) ?_ ?_
  · rintro _ rfl
    exact .inl ⟨rfl, rfl, rfl, rfl, fun _ hf => absurd hf List.not_mem_nil,
      .inl ⟨rfl, rfl, rfl, rfl, .inl rfl⟩⟩
  · rintro u move v hu - hstep
    exact hu.step hstep

/-! ## The protocol -/

/-- The run is over: the coroutine has returned, or its timer is spent or cleared. -/
def Over (s : ChatStream) : Prop := s.phase = .finished ∨ s.maxTimer = false

/-- A move other than the loss of the connection. -/
def connected (_ : ChatStream) (move : StreamMove) : Prop :=
  move ≠ .clientClose ∧ move ≠ .socketError

/-- The events of the frames. -/
def sent (frames : List StreamFrame) : List ChatFrame :=
  frames.filterMap fun
    | .chat frame => some frame
    | _ => none

/-- Without a terminal frame there are only tokens. -/
theorem Plain.sent_eq {frames : List StreamFrame} (h : Plain frames) :
    sent frames = (tokenTexts frames).map .token := by
  induction frames with
  | nil => rfl
  | cons frame frames ih =>
    obtain ⟨hframe, hframes⟩ := List.forall_mem_cons.1 h
    have hrest := ih hframes
    obtain _ | (text | ⟨g, c, l⟩ | retryable | _) | _ := frame
    · exact hrest
    · exact congrArg (ChatFrame.token text :: ·) hrest
    all_goals cases hframe

/-- A terminal frame is no token. -/
theorem tokenTexts_of_terminal {frame : StreamFrame} (h : frame.terminal = true) :
    tokenTexts (body ++ [frame]) = tokenTexts body := by
  rw [tokenTexts, List.filterMap_append]
  obtain _ | (text | ⟨g, c, l⟩ | retryable | _) | _ := frame
  · cases h
  · cases h
  all_goals exact List.append_nil _

/-- While the timer is set the stream is open, and nothing terminal was written. -/
theorem Sound.of_not_over (h : Sound P deps threshold upstream s) (hover : ¬ s.Over) :
    Open P deps threshold upstream s := by
  obtain h | ⟨body, last, h⟩ := h
  · exact h
  · exact absurd (.inr h.maxTimer) hover

/-- A stream whose run is over is closed. -/
theorem Sound.of_over (h : Sound P deps threshold upstream s) (hover : s.Over) :
    ∃ body last, Closed P deps threshold upstream body last s := by
  obtain h | h := h
  swap
  · exact h
  obtain hfinished | htimer := hover
  · obtain ⟨hits, ctx, read, -, -, -, -, -, -, hrelayed⟩ :=
      h.asked (by rw [hfinished]; exact nofun) (by rw [hfinished]; exact fun _ => nofun)
    rw [hfinished] at hrelayed
    exact hrelayed.elim
  · rw [h.maxTimer] at htimer
    cases htimer

/-- **The timer ends every run.** -/
theorem over_or_timeout (h : Run.Reachable (ChatStream.step P deps assistant question) Run.anyMove
    (· = { unread := upstream }) s) :
    s.Over ∨ ∃ t, s.step P deps assistant question .timeout = some t ∧ t.Over := by
  by_cases hover : s.Over
  · exact .inl hover
  have hopen := (sound_of_reachable h).of_not_over hover
  refine .inr ⟨s.expire, if_pos hopen.maxTimer, .inr ?_⟩
  rw [expire, safeWrite_of_open hopen.closed, endStream_of_open (s := { s with
    written := s.written ++ [.timeout], aborted := true }) hopen.closed]

theorem cut_safeWrite (frame : StreamFrame) : (s.safeWrite frame).cut = s.cut := by
  rw [safeWrite]
  split <;> rfl

theorem cut_endStream : s.endStream.cut = s.cut := by
  rw [endStream]
  split <;> rfl

theorem cut_conclude (frame : StreamFrame) : (s.conclude frame).cut = s.cut :=
  cut_endStream.trans (cut_safeWrite frame)

theorem cut_fail : s.fail.cut = s.cut := by
  rw [fail]
  split
  · rfl
  · exact cut_conclude _

theorem cut_generate (hits : List ChunkHit) :
    (s.generate P deps assistant question hits).cut = s.cut := by
  rw [generate]
  split
  · exact cut_fail
  · split
    · exact cut_fail
    · rfl

theorem cut_resume {flushed : Bool} {latencyMs : ℕ}
    (hstep : s.resume P deps assistant question flushed latencyMs = some t) : t.cut = s.cut := by
  rw [resume] at hstep
  split at hstep
  case h_5 => cases hstep
  all_goals
    split at hstep
    · obtain rfl := Option.some.inj hstep
      rfl
  · split at hstep
    · obtain rfl := Option.some.inj hstep
      exact cut_fail
    · split at hstep <;> obtain rfl := Option.some.inj hstep
      · exact (cut_conclude _).trans (cut_safeWrite _)
      · exact cut_generate _
  · split at hstep <;> obtain rfl := Option.some.inj hstep
    · exact cut_safeWrite _
    · exact cut_conclude _
    · rfl
  · obtain rfl := Option.some.inj hstep
    exact cut_conclude _
  · obtain rfl := Option.some.inj hstep
    rfl

/-- **Only the loss of the connection cuts a stream.** -/
theorem cut_of_step {move : StreamMove} (hmove : connected s move)
    (hstep : s.step P deps assistant question move = some t) : t.cut = s.cut := by
  cases move with
  | clientClose => exact absurd rfl hmove.1
  | socketError => exact absurd rfl hmove.2
  | resume => exact cut_resume hstep
  | heartbeat =>
    rw [step] at hstep
    split at hstep
    · obtain rfl := Option.some.inj hstep
      exact cut_safeWrite _
    · cases hstep
  | timeout =>
    rw [step] at hstep
    split at hstep
    · obtain rfl := Option.some.inj hstep
      exact cut_endStream.trans (cut_safeWrite _)
    · cases hstep
  | event =>
    rw [step] at hstep
    split at hstep
    · split at hstep <;> obtain rfl := Option.some.inj hstep <;> rfl
    · cases hstep
  | ended =>
    rw [step] at hstep
    split at hstep
    · split at hstep
      · obtain rfl := Option.some.inj hstep
        rfl
      · cases hstep
    · cases hstep
  | retrieve | created | failed | returned | drain =>
    rw [step] at hstep
    split at hstep <;> first
      | (obtain rfl := Option.some.inj hstep; rfl)
      | cases hstep

/-- Without the loss of the connection no stream is cut. -/
theorem cut_of_connected (h : Run.Reachable (ChatStream.step P deps assistant question) connected
    (· = { unread := upstream }) s) : s.cut = false := by
  refine h.invariant (P := fun s => s.cut = false) ?_ ?_
  · rintro _ rfl
    rfl
  · rintro u move v hu hmove hstep
    exact (cut_of_step hmove hstep).trans hu

/-- A `done` among the frames of a closed stream is its last. -/
theorem Closed.done_eq (h : Closed P deps threshold upstream body last s) {grounded : Bool}
    {citations : List Citation} {latencyMs : ℕ}
    (hdone : .chat (.done grounded citations latencyMs) ∈ s.written) :
    last = [.chat (.done grounded citations latencyMs)] := by
  rw [h.written] at hdone
  obtain hbody | hlast := List.mem_append.1 hdone
  · exact nomatch h.plain _ hbody
  have hending := h.ending
  split at hending
  · rw [hending] at hlast
    exact absurd hlast List.not_mem_nil
  · obtain ⟨frame, -, rfl⟩ := hending
    rw [List.mem_singleton.1 hlast]

/-- The tokens of a closed stream are those before its last frame. -/
theorem Closed.tokenTexts_eq (h : Closed P deps threshold upstream body last s) :
    tokenTexts s.written = tokenTexts body := by
  have hending := h.ending
  rw [h.written]
  split at hending
  · rw [hending, List.append_nil]
  · obtain ⟨frame, hframe, rfl⟩ := hending
    exact tokenTexts_of_terminal hframe

/-- A `done` closes its stream. -/
theorem Sound.of_done (h : Sound P deps threshold upstream s) {grounded : Bool}
    {citations : List Citation} {latencyMs : ℕ}
    (hdone : .chat (.done grounded citations latencyMs) ∈ s.written) :
    ∃ body, Closed P deps threshold upstream body
      [.chat (.done grounded citations latencyMs)] s := by
  obtain h | ⟨body, last, h⟩ := h
  · exact nomatch h.plain _ hdone
  · exact ⟨body, h.done_eq hdone ▸ h⟩

/-- **The chat stream obeys its protocol.**  Whatever the upstream sends, and however the callbacks
and failures interleave: the frames end with the first terminal one; if the connection was not lost,
a run that is over has written exactly one; and past the gate the tokens are the texts of the
upstream in order, all of them when a `done` was written. -/
theorem chat_stream_protocol (h : Run.Reachable (ChatStream.step P deps assistant question)
    Run.anyMove (· = { unread := upstream }) s) :
    (∃ body last, s.written = body ++ last ∧ Plain body ∧
      (last = [] ∨ ∃ frame : StreamFrame, frame.terminal = true ∧ last = [frame])) ∧
    (Run.Reachable (ChatStream.step P deps assistant question) connected
        (· = { unread := upstream }) s → s.Over →
      ∃ body frame, s.written = body ++ [frame] ∧ Plain body ∧ frame.terminal = true) ∧
    ∀ hits, s.hits = some hits → Clears hits assistant.refusalThreshold →
      tokenTexts s.written <+: textDeltas upstream ∧
      ∀ grounded citations latencyMs, .chat (.done grounded citations latencyMs) ∈ s.written →
        tokenTexts s.written = textDeltas upstream := by
  have hsound := sound_of_reachable h
  refine ⟨?_, fun hconnected hover => ?_, fun hits hhits hclears => ⟨?_, fun g c l hdone => ?_⟩⟩
  · obtain hopen | ⟨body, last, hclosed⟩ := hsound
    · exact ⟨s.written, [], (List.append_nil _).symm, hopen.plain, .inl rfl⟩
    · refine ⟨body, last, hclosed.written, hclosed.plain, ?_⟩
      have hending := hclosed.ending
      split at hending
      · exact .inl hending
      · exact .inr hending
  · obtain ⟨body, last, hclosed⟩ := hsound.of_over hover
    have hending := hclosed.ending
    rw [cut_of_connected hconnected, if_neg Bool.false_ne_true] at hending
    obtain ⟨frame, hframe, rfl⟩ := hending
    exact ⟨body, frame, hclosed.written, hclosed.plain, hframe⟩
  · obtain hopen | ⟨body, last, hclosed⟩ := hsound
    · exact hopen.isPrefix
    · rw [hclosed.tokenTexts_eq]
      exact (hclosed.relayed hits hhits hclears).1
  · obtain ⟨body, hclosed⟩ := hsound.of_done hdone
    rw [hclosed.tokenTexts_eq]
    exact ((hclosed.relayed hits hhits hclears).2 g c l rfl).1

/-- **What a completed stream says** is what `answerFrames` makes of the upstream's texts. -/
theorem chat_stream_answer (h : Run.Reachable (ChatStream.step P deps assistant question)
    Run.anyMove (· = { unread := upstream }) s) {hits : List ChunkHit} (hhits : s.hits = some hits)
    (hclears : Clears hits assistant.refusalThreshold) {grounded : Bool} {citations : List Citation}
    {latencyMs : ℕ} (hdone : .chat (.done grounded citations latencyMs) ∈ s.written) :
    ∃ ctx, assembled P deps hits = .ok ctx ∧ sent s.written =
      answerFrames ctx.sources latencyMs none [] ((textDeltas upstream).map .text ++ [.done]) := by
  obtain ⟨body, hclosed⟩ := (sound_of_reachable h).of_done hdone
  obtain ⟨hall, ctx, hctx, hlast⟩ := (hclosed.relayed hits hhits hclears).2 _ _ _ rfl
  refine ⟨ctx, hctx, ?_⟩
  have hsent : sent s.written = sent body ++ [.done grounded citations latencyMs] := by
    rw [hclosed.written, sent, sent, List.filterMap_append]
    rfl
  rw [hsent, hclosed.plain.sent_eq, hall, hlast, answerFrames_texts, List.nil_append]

end

/-- One hit, an answer of two parts with a heartbeat, a slow reader and a mute event in between. -/
def sampleStreamMoves : List StreamMove :=
  [.retrieve (.ok [titledHit (js "faq.txt")]), .heartbeat, .resume true 0, .created, .event,
    .resume false 0, .heartbeat, .drain, .resume true 0, .event, .event, .resume true 0, .ended,
    .resume true 0, .returned, .resume true 5]

def sampleUpstream : List AnthropicStreamEvent :=
  [.contentBlockDelta (js "text_delta") (some (js "30 days ")), .messageDelta,
    .contentBlockDelta (js "text_delta") (some (js "[1]."))]

/-- A move of these keeps the connection. -/
def staysConnected (_ : ChatStream) : StreamMove → Bool
  | .clientClose | .socketError => false
  | _ => true

theorem connected_of_staysConnected (s : ChatStream) (move : StreamMove)
    (h : staysConnected s move = true) : connected s move := by
  constructor
  · rintro rfl
    cases h
  · rintro rfl
    cases h

theorem chat_stream_protocol_slowReader : ∃ s,
    Run.Reachable (ChatStream.step samplePlatform sampleDeps sampleAssistant (js "How long?"))
      connected (· = { unread := sampleUpstream }) s ∧ s.Over ∧
    (tokenTexts s.written).flatten = js "30 days [1]." ∧
    ∃ body frame, s.written = body ++ [frame] ∧ Plain body ∧ frame.terminal = true := by
  have hstart : Run.Reachable
      (ChatStream.step samplePlatform sampleDeps sampleAssistant (js "How long?")) connected
      (· = { unread := sampleUpstream }) { unread := sampleUpstream } := .start rfl
  obtain ⟨s, hreach, hs⟩ := hstart.replay staysConnected connected_of_staysConnected
    sampleStreamMoves (fun s => !s.maxTimer && (tokenTexts s.written).flatten == js "30 days [1].")
    (by decide +kernel)
  obtain ⟨htimer, htexts⟩ := Bool.and_eq_true_iff.1 hs
  have hover : s.Over := .inr (by simpa using htimer)
  have hprotocol := chat_stream_protocol (hreach.mono fun _ _ _ => trivial)
  exact ⟨s, hreach, hover, beq_iff_eq.1 htexts, hprotocol.2.1 hreach hover⟩

end ChatStream

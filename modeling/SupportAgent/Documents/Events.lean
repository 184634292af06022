import SupportAgent.Machinery.Run
import SupportAgent.Routes.Handlers

/-!
# Documents/Events — the progress stream of `GET /documents/:id/events`

A poll of the document runs every second, and may still be waiting for the database when the stream
ends; the 5 min timer, the client's close and a socket error share `closed` with it.
`EventStream.step` takes the callbacks one at a time.

* `Following` — what was written while the stream is open.
* `events_protocol` — the frames of every run: status events, comments in between, one closing
  frame.
-/

open Async JsString

/-- A frame that ends the stream. -/
def StatusFrame.closing : StatusFrame → Bool
  | done | error _ | timeout => true
  | status .. | keepAlive => false

/-- The status an event carries. -/
def StatusFrame.status? : StatusFrame → Option DocumentStatus
  | status st .. => some st
  | done | error _ | timeout | keepAlive => none

/-- What a poll reads of the document, and the number of its chunks. -/
structure Snapshot where
  status : DocumentStatus
  pageCount : Option ℕ
  warnings : List JsString
  error : Option JsString
  chunkCount : ℕ

/-- The status event of a snapshot. -/
def Snapshot.frame (snap : Snapshot) : StatusFrame :=
  .status snap.status snap.pageCount snap.chunkCount snap.warnings
    (sanitizeDocumentError snap.error snap.status)

/-- **The stream of one request**: the status code sent, once the document was looked up, the locals
of the coroutine, its timers, the ticks waiting for their query, and what was written. -/
structure EventStream where
  response : Option ℕ := none
  closed : Bool := false
  ticking : Bool := false
  lastStatus : Option DocumentStatus := none
  ticksSinceWrite : ℕ := 0
  interval : Bool := false
  maxTimer : Bool := false
  inFlight : ℕ := 0
  written : List StatusFrame := []

/-- What may happen next. -/
inductive EventsMove
  /-- The first lookup finds the document, misses it or rejects. -/
  | lookedUp (found : Except JsError Bool)
  | interval
  /-- A tick goes on: its query resolves or rejects. -/
  | polled (snap : Except JsError (Option Snapshot))
  | timeout
  | clientClose
  | socketError

namespace EventStream

/-- `end`. -/
def endStream (s : EventStream) : EventStream :=
  if s.closed then s else { s with closed := true, interval := false, maxTimer := false }

/-- `safeWrite`. -/
def safeWrite (s : EventStream) (frame : StatusFrame) : EventStream :=
  if s.closed then s else { s with written := s.written ++ [frame] }

/-- `tick`, up to its query. -/
def tick (s : EventStream) : EventStream :=
  if s.closed || s.ticking then s else { s with ticking := true, inFlight := s.inFlight + 1 }

/-- What a tick makes of the document it found, or missed. -/
def report (s : EventStream) : Option Snapshot → EventStream
  | none => (s.safeWrite (.error (js "document not found"))).endStream
  | some snap =>
    if some snap.status ≠ s.lastStatus then
      let s := { s with lastStatus := some snap.status, ticksSinceWrite := 0 }.safeWrite snap.frame
      if isTerminalStatus snap.status then (s.safeWrite .done).endStream else s
    else
      let s := { s with ticksSinceWrite := s.ticksSinceWrite + 1 }
      if s.ticksSinceWrite % 15 = 0 then s.safeWrite .keepAlive else s

/-- `tick`, from its query on. -/
def tell (s : EventStream) : Except JsError (Option Snapshot) → EventStream
  | .error _ => s.endStream
  | .ok snap => if s.closed then s else s.report snap

/-- The headers are sent and the timers set; the first tick starts at once. -/
def openStream (s : EventStream) : EventStream :=
  { s with response := some 200, interval := true, maxTimer := true }.tick

/-- What the first lookup leads to. -/
def answer (s : EventStream) : Except JsError Bool → EventStream
  | .error _ => { s with response := some 500 }
  | .ok false => { s with response := some 404 }
  | .ok true => s.openStream

/-- The callback of a lost connection, registered with the headers. -/
def disconnect (s : EventStream) : EventStream := if s.response = some 200 then s.endStream else s

/-- **One move.**  A timer fires while it is set. -/
def step (s : EventStream) : EventsMove → Option EventStream
  | .lookedUp found =>
    if s.response.isSome then none else some (s.answer found)
  | .interval => if s.interval then some s.tick else none
  | .polled snap =>
    if s.inFlight = 0 then none
    else some { s.tell snap with ticking := false, inFlight := s.inFlight - 1 }
  | .timeout => if s.maxTimer then some (s.safeWrite .timeout).endStream else none
  | .clientClose => some s.disconnect
  | .socketError => some s.disconnect

/-! ## What is written -/

/-- The statuses of the status events. -/
def statuses (frames : List StatusFrame) : List DocumentStatus := frames.filterMap (·.status?)

/-- **The protocol**: status events that change, comments in between, and at most one closing frame,
at the end; it is `done` directly behind a last status event that is READY or FAILED, and only
there. -/
structure Obeys (frames : List StatusFrame) : Prop where
  ending : ∃ body last, frames = body ++ last ∧ (∀ frame ∈ body, frame.closing = false) ∧
    (last = [] ∨ ∃ frame : StatusFrame, frame.closing = true ∧ last = [frame])
  changing : (statuses frames).IsChain (· ≠ ·)
  done_iff : .done ∈ frames ↔ ∃ st, (statuses frames).getLast? = some st ∧
    isTerminalStatus st = true
  done_follows : .done ∈ frames → ∃ body event st, event.status? = some st ∧
    isTerminalStatus st = true ∧ frames = body ++ [event, .done]

/-- **A stream that is open**: no closing frame so far, and the last status is neither READY nor
FAILED and is the one the stream compares with. -/
structure Following (s : EventStream) : Prop where
  plain : ∀ frame ∈ s.written, frame.closing = false
  changing : (statuses s.written).IsChain (· ≠ ·)
  last : (statuses s.written).getLast? = s.lastStatus
  going : ∀ st ∈ s.lastStatus, isTerminalStatus st = false

variable {s t : EventStream} {frames : List StatusFrame}

theorem statuses_append (frames frames' : List StatusFrame) :
    statuses (frames ++ frames') = statuses frames ++ statuses frames' :=
  List.filterMap_append

/-- An open stream obeys the protocol so far. -/
theorem Following.obeys (h : s.Following) : Obeys s.written := by
  have hdone : .done ∉ s.written := fun hmem => Bool.false_ne_true (h.plain _ hmem).symm
  refine ⟨⟨s.written, [], (List.append_nil _).symm, h.plain, .inl rfl⟩, h.changing, ?_,
    fun hmem => absurd hmem hdone⟩
  refine iff_of_false hdone ?_
  rintro ⟨st, hlast, hterminal⟩
  exact Bool.false_ne_true ((h.going st (h.last ▸ hlast)).symm.trans hterminal)

/-- A closing frame other than `done` ends an open stream. -/
theorem Following.obeys_closing (h : s.Following) {frame : StatusFrame}
    (hclosing : frame.closing = true) (hne : frame ≠ .done) : Obeys (s.written ++ [frame]) := by
  have hnone : statuses [frame] = [] := by
    rcases frame with _ | _ | _ | _ | _
    all_goals first | rfl | cases hclosing
  have hsame : statuses (s.written ++ [frame]) = statuses s.written := by
    rw [statuses_append, hnone, List.append_nil]
  have hdone : .done ∉ s.written ++ [frame] := by
    rw [List.mem_append, List.mem_singleton, not_or]
    exact ⟨fun hmem => Bool.false_ne_true (h.plain _ hmem).symm, fun heq => hne heq.symm⟩
  refine ⟨⟨s.written, [frame], rfl, h.plain, .inr ⟨frame, hclosing, rfl⟩⟩, hsame ▸ h.changing, ?_,
    fun hmem => absurd hmem hdone⟩
  refine iff_of_false hdone ?_
  rintro ⟨st, hlast, hterminal⟩
  rw [hsame, h.last] at hlast
  exact Bool.false_ne_true ((h.going st hlast).symm.trans hterminal)

/-- Statuses go on changing with a new one. -/
theorem Following.changing_push (h : s.Following) {st : DocumentStatus}
    (hne : some st ≠ s.lastStatus) {event : StatusFrame} (hevent : event.status? = some st) :
    statuses (s.written ++ [event]) = statuses s.written ++ [st] ∧
      (statuses (s.written ++ [event])).IsChain (· ≠ ·) := by
  have hone : statuses [event] = [st] := List.filterMap_cons_some hevent
  rw [statuses_append, hone]
  refine ⟨rfl, List.isChain_append.2 ⟨h.changing, List.isChain_singleton _, fun x hx y hy => ?_⟩⟩
  obtain rfl := Option.some.inj hy
  rintro rfl
  exact hne ((h.last.symm.trans hx).symm)

/-- **A new status goes out**, and the stream follows on if it is not a last one. -/
theorem Following.push (h : s.Following) {st : DocumentStatus} (hne : some st ≠ s.lastStatus)
    (hgoing : isTerminalStatus st = false) {event : StatusFrame} (hevent : event.status? = some st)
    (hwritten : t.written = s.written ++ [event]) (hlast : t.lastStatus = some st) :
    t.Following := by
  obtain ⟨hstatuses, hchanging⟩ := h.changing_push hne hevent
  refine ⟨fun frame hframe => ?_, hwritten ▸ hchanging, ?_, fun st' hst' => ?_⟩
  · rw [hwritten] at hframe
    rcases List.mem_append.1 hframe with hframe | hframe
    · exact h.plain frame hframe
    · obtain rfl := List.mem_singleton.1 hframe
      rcases frame with _ | _ | _ | _ | _
      all_goals first | rfl | cases hevent
  · rw [hwritten, hstatuses, hlast, List.getLast?_concat]
  · rw [hlast] at hst'
    obtain rfl := Option.some.inj hst'
    exact hgoing

/-- A comment is no event. -/
theorem Following.keepAlive (h : s.Following) (hwritten : t.written = s.written ++ [.keepAlive])
    (hlast : t.lastStatus = s.lastStatus) : t.Following := by
  have hsame : statuses t.written = statuses s.written := by
    rw [hwritten, statuses_append]
    exact List.append_nil _
  refine ⟨fun frame hframe => ?_, hsame ▸ h.changing, ?_, hlast ▸ h.going⟩
  · rw [hwritten] at hframe
    rcases List.mem_append.1 hframe with hframe | hframe
    · exact h.plain frame hframe
    · rw [List.mem_singleton.1 hframe]
      rfl
  · rw [hsame, h.last, hlast]

/-- **A last status goes out with `done`.** -/
theorem Following.obeys_done (h : s.Following) {st : DocumentStatus} (hne : some st ≠ s.lastStatus)
    (hterminal : isTerminalStatus st = true) {event : StatusFrame}
    (hevent : event.status? = some st) : Obeys (s.written ++ [event] ++ [.done]) := by
  obtain ⟨hstatuses, hchanging⟩ := h.changing_push hne hevent
  have hsame : statuses (s.written ++ [event] ++ [.done]) = statuses (s.written ++ [event]) := by
    rw [statuses_append]
    exact List.append_nil _
  have hplain : event.closing = false := by
    rcases event with _ | _ | _ | _ | _
    all_goals first | rfl | cases hevent
  refine ⟨⟨s.written ++ [event], [.done], rfl, fun frame hframe => ?_, .inr ⟨.done, rfl, rfl⟩⟩,
    hsame ▸ hchanging, iff_of_true (by simp) ⟨st, ?_, hterminal⟩, fun _ => ?_⟩
  · rcases List.mem_append.1 hframe with hframe | hframe
    · exact h.plain frame hframe
    · rw [List.mem_singleton.1 hframe, hplain]
  · rw [hsame, hstatuses, List.getLast?_concat]
  · exact ⟨s.written, event, st, hevent, hterminal, List.append_assoc _ _ _⟩

/-! ## Every run -/

/-- **What every move keeps**: the stream is open and follows the document, or it is closed and has
obeyed the protocol. -/
def Sound (s : EventStream) : Prop :=
  s.closed = false ∧ s.Following ∨ s.closed = true ∧ Obeys s.written

theorem safeWrite_of_open (h : s.closed = false) (frame : StatusFrame) :
    s.safeWrite frame = { s with written := s.written ++ [frame] } :=
  if_neg (by rw [h]; exact Bool.false_ne_true)

/-- What closes a stream keeps what was written. -/
theorem endStream_same (s : EventStream) :
    s.endStream.closed = true ∧ s.endStream.written = s.written := by
  rw [endStream]
  split
  case isTrue h => exact ⟨h, rfl⟩
  case isFalse => exact ⟨rfl, rfl⟩

/-- Only what is seen of a stream counts. -/
theorem Sound.same (h : s.Sound) (hclosed : t.closed = s.closed)
    (hlast : t.lastStatus = s.lastStatus) (hwritten : t.written = s.written) : t.Sound := by
  rcases h with ⟨hopen, hplain, hchanging, hfollow, hgoing⟩ | ⟨hended, hobeys⟩
  · refine .inl ⟨hclosed.trans hopen, ?_, ?_, ?_, ?_⟩
    · exact hwritten ▸ hplain
    · exact hwritten ▸ hchanging
    · rw [hwritten, hlast, hfollow]
    · exact hlast ▸ hgoing
  · exact .inr ⟨hclosed.trans hended, hwritten ▸ hobeys⟩

theorem Sound.obeys (h : s.Sound) : Obeys s.written := by
  rcases h with ⟨-, hfollowing⟩ | ⟨-, hobeys⟩
  · exact hfollowing.obeys
  · exact hobeys

/-- Ending a stream is sound. -/
theorem Sound.endStream (h : s.Sound) : s.endStream.Sound :=
  .inr ⟨s.endStream_same.1, s.endStream_same.2 ▸ h.obeys⟩

theorem Sound.tick (h : s.Sound) : s.tick.Sound := by
  rw [EventStream.tick]
  split
  · exact h
  · exact h.same rfl rfl rfl

/-- **What an open stream reports is sound.** -/
theorem Following.report (h : s.Following) (hclosed : s.closed = false) (snap : Option Snapshot) :
    (s.report snap).Sound := by
  rcases snap with _ | snap
  · rw [EventStream.report, safeWrite_of_open hclosed]
    refine .inr ⟨(endStream_same _).1, ?_⟩
    rw [(endStream_same _).2]
    exact h.obeys_closing rfl fun heq => by cases heq
  rw [EventStream.report]
  split
  case isTrue hne =>
    rw [safeWrite_of_open (s := { s with lastStatus := _, ticksSinceWrite := 0 }) hclosed]
    dsimp only
    split
    case isTrue hterminal =>
      rw [safeWrite_of_open (by exact hclosed)]
      refine .inr ⟨(endStream_same _).1, ?_⟩
      rw [(endStream_same _).2]
      exact h.obeys_done hne hterminal rfl
    case isFalse hgoing =>
      exact .inl ⟨hclosed, h.push hne (Bool.eq_false_of_not_eq_true hgoing) rfl rfl rfl⟩
  case isFalse =>
    dsimp only
    split
    case isTrue =>
      rw [safeWrite_of_open (s := { s with ticksSinceWrite := s.ticksSinceWrite + 1 }) hclosed]
      exact .inl ⟨hclosed, h.keepAlive rfl rfl⟩
    case isFalse => exact .inl ⟨hclosed, h.plain, h.changing, h.last, h.going⟩

/-- **A tick tells what it found**, or nothing to a closed stream. -/
theorem Sound.tell (h : s.Sound) (result : Except JsError (Option Snapshot)) :
    (s.tell result).Sound := by
  rcases result with err | snap
  · exact h.endStream
  rw [EventStream.tell]
  split
  case isTrue => exact h
  case isFalse hopen =>
    obtain ⟨hclosed, hfollowing⟩ | ⟨hended, -⟩ := h
    · exact hfollowing.report hclosed snap
    · exact absurd hended hopen

theorem Sound.answer (h : s.Sound) (found : Except JsError Bool) : (s.answer found).Sound := by
  rcases found with err | _ | _
  · exact h.same rfl rfl rfl
  · exact h.same rfl rfl rfl
  · exact Sound.tick (h.same rfl rfl rfl)

/-- What a move does, and when it can be made. -/
theorem step_cases {move : EventsMove} (hstep : s.step move = some t) :
    (∃ found, move = .lookedUp found ∧ s.response = none ∧ t = s.answer found) ∨
    (move = .interval ∧ s.interval = true ∧ t = s.tick) ∨
    (∃ snap, move = .polled snap ∧ s.inFlight ≠ 0 ∧
      t = { s.tell snap with ticking := false, inFlight := s.inFlight - 1 }) ∨
    (move = .timeout ∧ s.maxTimer = true ∧ t = (s.safeWrite .timeout).endStream) ∨
    ((move = .clientClose ∨ move = .socketError) ∧ t = s.disconnect) := by
  rcases move with found | _ | snap | _ | _ | _
  · obtain ⟨hnone, hstep⟩ := Option.ite_none_left_eq_some.1 hstep
    exact .inl ⟨found, rfl, Option.not_isSome_iff_eq_none.1 hnone, (Option.some.inj hstep).symm⟩
  · obtain ⟨hset, hstep⟩ := Option.ite_none_right_eq_some.1 hstep
    exact .inr (.inl ⟨rfl, hset, (Option.some.inj hstep).symm⟩)
  · obtain ⟨hflight, hstep⟩ := Option.ite_none_left_eq_some.1 hstep
    exact .inr (.inr (.inl ⟨snap, rfl, hflight, (Option.some.inj hstep).symm⟩))
  · obtain ⟨hset, hstep⟩ := Option.ite_none_right_eq_some.1 hstep
    exact .inr (.inr (.inr (.inl ⟨rfl, hset, (Option.some.inj hstep).symm⟩)))
  · exact .inr (.inr (.inr (.inr ⟨.inl rfl, (Option.some.inj hstep).symm⟩)))
  · exact .inr (.inr (.inr (.inr ⟨.inr rfl, (Option.some.inj hstep).symm⟩)))

theorem Sound.disconnect (h : s.Sound) : s.disconnect.Sound := by
  rw [EventStream.disconnect]
  split
  · exact h.endStream
  · exact h

/-- The timeout is the last frame of an open stream. -/
theorem Sound.timeout (h : s.Sound) : (s.safeWrite .timeout).endStream.Sound := by
  refine .inr ⟨(endStream_same _).1, ?_⟩
  rw [(endStream_same _).2]
  obtain ⟨hclosed, hfollowing⟩ | ⟨hended, hobeys⟩ := h
  · rw [safeWrite_of_open hclosed]
    exact hfollowing.obeys_closing rfl fun heq => by cases heq
  · rw [safeWrite, if_pos hended]
    exact hobeys

/-- **Every move keeps a stream sound.** -/
theorem Sound.step (h : s.Sound) {move : EventsMove} (hstep : s.step move = some t) : t.Sound := by
  obtain ⟨found, -, -, rfl⟩ | ⟨-, -, rfl⟩ | ⟨snap, -, -, rfl⟩ | ⟨-, -, rfl⟩ | ⟨-, rfl⟩ :=
    step_cases hstep
  · exact h.answer found
  · exact h.tick
  · exact (h.tell snap).same rfl rfl rfl
  · exact h.timeout
  · exact h.disconnect

theorem sound_of_reachable (h : Run.Reachable step Run.anyMove (· = {}) s) : s.Sound := by
  refine h.invariant (fun s hs => ?_) fun s move t hs _ hstep => hs.step hstep
  subst hs
  exact .inl ⟨rfl, by simp, List.isChain_nil, rfl, by simp⟩

/-- Nothing is written to a closed stream. -/
theorem written_of_closed (h : s.closed = true) {move : EventsMove} (hstep : s.step move = some t) :
    t.written = s.written := by
  have hwrite : ∀ frame, s.safeWrite frame = s := fun _ => if_pos h
  have hend : s.endStream = s := if_pos h
  have htick : s.tick = s := if_pos (by rw [h]; rfl)
  obtain ⟨found, -, -, rfl⟩ | ⟨-, -, rfl⟩ | ⟨snap, -, -, rfl⟩ | ⟨-, -, rfl⟩ | ⟨-, rfl⟩ :=
    step_cases hstep
  · rcases found with err | _ | _
    · rfl
    · rfl
    · rw [answer, openStream, EventStream.tick]
      split <;> rfl
  · rw [htick]
  · have htell : s.tell snap = s := by
      rcases snap with err | snap
      · exact hend
      · exact if_pos h
    rw [htell]
  · rw [hwrite, hend]
  · rw [disconnect, hend, ite_self]

/-- **The progress stream obeys its protocol**, whatever the polls return and however they, the
timers and the callbacks of the connection interleave; and behind a closing frame nothing more is
written. -/
theorem events_protocol (h : Run.Reachable step Run.anyMove (· = {}) s) :
    Obeys s.written ∧ ∀ frame ∈ s.written, frame.closing = true →
      ∀ move t, s.step move = some t → t.written = s.written := by
  refine ⟨(sound_of_reachable h).obeys, fun frame hframe hclosing move t hstep => ?_⟩
  obtain ⟨-, hfollowing⟩ | ⟨hended, -⟩ := sound_of_reachable h
  · exact absurd ((hfollowing.plain frame hframe).symm.trans hclosing) Bool.false_ne_true
  · exact written_of_closed hended hstep

/-- A document found, read while it is parsed and again once it is ready. -/
def sampleEventsMoves : List EventsMove :=
  [.lookedUp (.ok true), .polled (.ok (some ⟨.PARSING, none, [], none, 0⟩)), .interval,
    .polled (.ok (some ⟨.READY, some 1, [], none, 3⟩)), .clientClose]

theorem events_protocol_ready : ∃ s, Run.Reachable step Run.anyMove (· = {}) s ∧
    statuses s.written = [.PARSING, .READY] ∧ s.written.length = 3 ∧ Obeys s.written := by
  have hstart : Run.Reachable step Run.anyMove (· = {}) {} := .start rfl
  obtain ⟨s, hreach, hs⟩ := hstart.replay (fun _ _ => true) (fun _ _ _ => trivial) sampleEventsMoves
    (fun s => statuses s.written == [.PARSING, .READY] && s.written.length == 3) (by decide)
  obtain ⟨hstatuses, hlength⟩ := Bool.and_eq_true_iff.1 hs
  exact ⟨s, hreach, beq_iff_eq.1 hstatuses, beq_iff_eq.1 hlength, (events_protocol hreach).1⟩

end EventStream

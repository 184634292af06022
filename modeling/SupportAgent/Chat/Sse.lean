import SupportAgent.Machinery.Incremental
import SupportAgent.Machinery.Json.Parse

/-!
# Chat/Sse — the chat stream on the wire

The server writes each event as a frame of two lines (`sse`); the admin and the mobile client cut
the stream at blank lines and read the fields of a frame with a regular expression, whose `.` stops
at the separators U+2028 and U+2029 that `JSON.stringify` leaves in its strings.
-/

open JsString

/-! ## The server -/

inductive EventName
  | token
  | done
  | error
  deriving DecidableEq

def EventName.text : EventName → JsString
  | token => js "token"
  | done => js "done"
  | error => js "error"

/-- The frame of an event. -/
def sse (event : JsString) (data : Json) : JsString :=
  js "event: " ++ event ++ js "\ndata: " ++ data.stringify ++ js "\n\n"

/-- What the server writes: an event, or the comment that keeps the connection alive. -/
inductive Written
  | event (name : EventName) (data : Json) (distinct : data.DistinctKeys)
  | heartbeat

def Written.text : Written → JsString
  | event name data _ => sse name.text data
  | heartbeat => js ": ping\n\n"

/-- The event sent, if it is one. -/
def Written.sent : Written → Option (JsString × Json)
  | event name data _ => some (name.text, data)
  | heartbeat => none

/-! ## The clients -/

structure SseFrame where
  event : JsString
  data : JsString
  deriving DecidableEq

/-- Group 1 of `/(?:^|\n)name: (.*)/`; `lineStart` says that a line starts here. -/
def fieldAt (name : JsString) : (lineStart : Bool) → JsString → Option JsString
  | _, [] => none
  | lineStart, c :: s =>
    if lineStart && (name ++ js ": ").isPrefixOf (c :: s) then
      some (restOfLine ((c :: s).drop (name ++ js ": ").length))
    else fieldAt name (c == 0x0A) s

/-- The fields of a complete frame. -/
def frameOf (raw : JsString) : SseFrame where
  event := (fieldAt (js "event") true raw).getD (js "message")
  data := (fieldAt (js "data") true raw).getD []

theorem length_of_indexOf {needle s : JsString} {i : ℕ} (h : indexOf needle s = some i) :
    i + needle.length ≤ s.length := by
  induction s generalizing i with
  | nil =>
    rw [indexOf] at h
    split at h
    · obtain rfl := Option.some.inj h
      simp_all
    · cases h
  | cons c s ih =>
    rw [indexOf] at h
    split at h
    · obtain rfl := Option.some.inj h
      rw [Nat.zero_add]
      exact (List.isPrefixOf_iff_prefix.mp ‹_›).length_le
    · obtain ⟨j, hj, rfl⟩ := Option.map_eq_some_iff.mp h
      have := ih hj
      rw [List.length_cons]
      omega

/-- The loop of `parseSseFrames`: the complete frames, comments left out, and the leftover text. -/
def parseFrames (buffer : JsString) : List SseFrame × JsString :=
  match _ : indexOf (js "\n\n") buffer with
  | none => ([], buffer)
  | some idx =>
    let raw := slice buffer 0 idx
    let (frames, rest) := parseFrames (buffer.drop (idx + 2))
    if raw.head? = some 0x3A then (frames, rest) else (frameOf raw :: frames, rest)
termination_by buffer.length
decreasing_by
  have := length_of_indexOf ‹_›
  have htwo : (js "\n\n").length = 2 := by decide
  rw [List.length_drop]
  omega

/-- `src/admin/lib/sse.ts`. -/
def Admin.parseSseFrames : JsString → List SseFrame × JsString := parseFrames

/-- `src/mobile/lib/core/network/sse_parser.dart`. -/
def Mobile.parseSseFrames : JsString → List SseFrame × JsString := parseFrames

/-- A frame whose data is no JSON is skipped. -/
def SseFrame.decode (frame : SseFrame) : Option (JsString × Json) :=
  (Json.parse frame.data).map fun data => (frame.event, data)

/-- What a client has received, and what it holds back, after these chunks. -/
def receive (parse : JsString → List SseFrame × JsString) (chunks : List JsString) :
    List (JsString × Json) × JsString :=
  let (frames, rest) := feed parse chunks
  (frames.filterMap (·.decode), rest)

/-! ## Cutting at blank lines -/

/-- No blank line starts in a line. -/
theorem indexOf_blank_line {line : JsString} (hline : 0x0A ∉ line) (s : JsString) :
    indexOf (js "\n\n") (line ++ s) = (indexOf (js "\n\n") s).map (· + line.length) := by
  induction line with
  | nil => exact (Option.map_id' ..).symm
  | cons c line ih =>
    obtain ⟨hc, hline⟩ := not_or.mp (mt List.mem_cons.mpr hline)
    have hprefix : (js "\n\n").isPrefixOf (c :: (line ++ s)) = false := by
      change (0x0A == c && _) = false
      rw [beq_false_of_ne hc, Bool.false_and]
    rw [List.cons_append, indexOf, hprefix, if_neg (by decide), ih hline, Option.map_map]
    rfl

theorem indexOf_blank_two_lines {line line' : JsString} (hline : 0x0A ∉ line)
    (hline' : 0x0A ∉ line') (hne : line' ≠ []) (t : JsString) :
    indexOf (js "\n\n") (line ++ 0x0A :: (line' ++ (js "\n\n" ++ t))) =
      some (line ++ 0x0A :: line').length := by
  have hend : indexOf (js "\n\n") (js "\n\n" ++ t) = some 0 := rfl
  have hbreak : indexOf (js "\n\n")
      (0x0A :: (line' ++ (js "\n\n" ++ t))) = some (line'.length + 1) := by
    cases line' with
    | nil => exact absurd rfl hne
    | cons c rest =>
      have hc : (0x0A : UInt16) ≠ c := fun h => hline' (h ▸ List.mem_cons_self)
      have hprefix : (js "\n\n").isPrefixOf (0x0A :: (c :: rest ++ (js "\n\n" ++ t))) = false := by
        change (_ && (0x0A == c && _)) = false
        rw [beq_false_of_ne hc, Bool.false_and, Bool.and_false]
      rw [indexOf, hprefix, if_neg (by decide), indexOf_blank_line hline', hend]
      simp
  rw [indexOf_blank_line hline, hbreak, Option.map_some, List.length_append, List.length_cons,
    Nat.add_comm]

/-- The first blank line stays the first. -/
theorem indexOf_append {needle s : JsString} {i : ℕ} (h : indexOf needle s = some i)
    (t : JsString) : indexOf needle (s ++ t) = some i := by
  induction s generalizing i with
  | nil =>
    rw [indexOf] at h
    split at h
    · subst needle
      obtain rfl := Option.some.inj h
      cases t <;> rfl
    · cases h
  | cons c s ih =>
    rw [indexOf] at h
    rw [List.cons_append, indexOf]
    split at h
    case isTrue hprefix =>
      have hprefix' : needle <+: c :: (s ++ t) :=
        (List.isPrefixOf_iff_prefix.mp hprefix).trans (List.prefix_append (c :: s) t)
      rw [if_pos (List.isPrefixOf_iff_prefix.mpr hprefix'), h]
    case isFalse hprefix =>
      obtain ⟨j, hj, rfl⟩ := Option.map_eq_some_iff.mp h
      have hlength := length_of_indexOf hj
      have hprefix' : ¬needle.isPrefixOf (c :: (s ++ t)) = true := by
        intro hprefix'
        refine hprefix (List.isPrefixOf_iff_prefix.mpr ?_)
        refine List.prefix_of_prefix_length_le (List.isPrefixOf_iff_prefix.mp hprefix')
          (List.prefix_append (c :: s) t) ?_
        rw [List.length_cons]
        omega
      rw [if_neg hprefix', ih hj]
      rfl

/-! ## The loop -/

/-- The frame of a raw text, unless it is a comment. -/
def framesOf (raw : JsString) : List SseFrame :=
  if raw.head? = some 0x3A then [] else [frameOf raw]

theorem parseFrames_of_none {buffer : JsString} (h : indexOf (js "\n\n") buffer = none) :
    parseFrames buffer = ([], buffer) := by
  rw [parseFrames]
  split
  · rfl
  · rename_i hsome
    rw [h] at hsome
    cases hsome

theorem parseFrames_of_some {buffer : JsString} {i : ℕ} (h : indexOf (js "\n\n") buffer = some i) :
    parseFrames buffer = (framesOf (buffer.take i) ++ (parseFrames (buffer.drop (i + 2))).1,
      (parseFrames (buffer.drop (i + 2))).2) := by
  rw [parseFrames]
  split
  · rename_i hnone
    rw [h] at hnone
    cases hnone
  · rename_i j hsome
    obtain rfl := Option.some.inj (h.symm.trans hsome)
    rw [framesOf, ← slice_zero]
    dsimp only
    split <;> rfl

/-- **Parsing goes on from the rest.** -/
theorem incremental_parseFrames : Incremental parseFrames where
  nil := parseFrames_of_none rfl
  append := by
    intro s t
    induction hn : s.length using Nat.strongRecOn generalizing s with
    | _ n ih =>
      cases hs : indexOf (js "\n\n") s with
      | none =>
        rw [parseFrames_of_none hs, List.nil_append]
      | some i =>
        have hlength := length_of_indexOf hs
        have htwo : (js "\n\n").length = 2 := by decide
        have hrest := ih (s.drop (i + 2)).length (by rw [List.length_drop]; omega) _ rfl
        rw [parseFrames_of_some hs, parseFrames_of_some (indexOf_append hs t),
          List.take_append_of_le_length (by omega), List.drop_append_of_le_length (by omega), hrest,
          List.append_assoc]

/-! ## One frame -/

/-- A complete raw text at the start of the stream. -/
theorem parseFrames_raw {raw : JsString} {t : JsString}
    (h : indexOf (js "\n\n") (raw ++ (js "\n\n" ++ t)) = some raw.length) :
    parseFrames (raw ++ (js "\n\n" ++ t)) =
      (framesOf raw ++ (parseFrames t).1, (parseFrames t).2) := by
  have hdrop : (raw ++ (js "\n\n" ++ t)).drop (raw.length + 2) = t := by
    rw [← List.drop_drop, List.drop_left]
    rfl
  rw [parseFrames_of_some h, List.take_left, hdrop]

/-- Within a line no field starts. -/
theorem fieldAt_line (name : JsString) {line : JsString} (hline : 0x0A ∉ line) (s : JsString) :
    fieldAt name false (line ++ 0x0A :: s) = fieldAt name true s := by
  induction line with
  | nil => rfl
  | cons c line ih =>
    obtain ⟨hc, hline⟩ := not_or.mp (mt List.mem_cons.mpr hline)
    have hbreak : (c == 0x0A) = false := beq_false_of_ne (Ne.symm hc)
    rw [List.cons_append, fieldAt, Bool.false_and, if_neg (by decide), hbreak]
    exact ih hline

theorem fieldAt_here (name s : JsString) :
    fieldAt name true (name ++ js ": " ++ s) = some (restOfLine s) := by
  have hprefix : (name ++ js ": ").isPrefixOf (name ++ js ": " ++ s) = true :=
    List.isPrefixOf_iff_prefix.mpr (List.prefix_append _ _)
  have hdrop : (name ++ js ": " ++ s).drop (name ++ js ": ").length = s := List.drop_left ..
  cases htext : name ++ js ": " ++ s with
  | nil =>
    have hcolon : js ": " = [] := (List.append_eq_nil_iff.mp (List.append_eq_nil_iff.mp htext).1).2
    exact absurd hcolon (by decide)
  | cons c rest =>
    rw [htext] at hprefix hdrop
    rw [fieldAt, Bool.true_and, if_pos hprefix, hdrop]

/-- The text of an event, without the blank line. -/
def eventRaw (event : JsString) (data : Json) : JsString :=
  js "event: " ++ event ++ 0x0A :: (js "data: " ++ data.stringify)

theorem sse_eq (event : JsString) (data : Json) :
    sse event data = eventRaw event data ++ js "\n\n" := by
  have hbreak : js "\ndata: " = 0x0A :: js "data: " := rfl
  rw [sse, eventRaw, hbreak]
  simp only [List.append_assoc, List.cons_append]

theorem EventName.isLineTerminator_text (name : EventName) :
    ∀ c ∈ name.text, isLineTerminator c = false := by
  have hall : name.text.all (!isLineTerminator ·) = true := by cases name <;> rfl
  simpa using hall

/-- The event line. -/
theorem notMem_eventLine (name : EventName) : 0x0A ∉ js "event: " ++ name.text := by
  cases name <;> decide

/-- The data line. -/
theorem notMem_dataLine (data : Json) : 0x0A ∉ js "data: " ++ data.stringify := by
  intro hmem
  rcases List.mem_append.mp hmem with hmem | hmem
  · exact absurd hmem (by decide)
  · exact absurd (Json.isSeparator_of_mem_stringify hmem rfl) (by decide)

/-- **The fields of an event's frame**: its name, and the first line of its data. -/
theorem frameOf_eventRaw (name : EventName) (data : Json) :
    frameOf (eventRaw name.text data) = ⟨name.text, restOfLine data.stringify⟩ := by
  have hevent : fieldAt (js "event") true (eventRaw name.text data) = some name.text := by
    have hline := fieldAt_here (js "event") (name.text ++ 0x0A :: (js "data: " ++ data.stringify))
    rw [Json.restOfLine_append name.isLineTerminator_text] at hline
    rw [eventRaw, List.append_assoc]
    refine hline.trans ?_
    exact congrArg some (List.append_nil _)
  have hdata : fieldAt (js "data") true (eventRaw name.text data) =
      some (restOfLine data.stringify) := by
    have hskip : ∀ s, fieldAt (js "data") true (js "event: " ++ s) =
        fieldAt (js "data") false (js "event: " ++ s) := fun s => rfl
    rw [eventRaw, List.append_assoc, hskip, ← List.append_assoc,
      fieldAt_line _ (notMem_eventLine name)]
    exact fieldAt_here (js "data") data.stringify
  rw [frameOf, hevent, hdata]
  rfl

/-! ## The stream -/

/-- The frame a client reads of what was written. -/
def Written.frame : Written → Option SseFrame
  | event name data _ => some ⟨name.text, restOfLine data.stringify⟩
  | heartbeat => none

/-- **What was written is read frame by frame.** -/
theorem parseFrames_written (w : Written) (t : JsString) :
    parseFrames (w.text ++ t) = (w.frame.toList ++ (parseFrames t).1, (parseFrames t).2) := by
  cases w with
  | event name data distinct =>
    have hblank : indexOf (js "\n\n") (eventRaw name.text data ++ (js "\n\n" ++ t)) =
        some (eventRaw name.text data).length := by
      have h := indexOf_blank_two_lines (notMem_eventLine name) (notMem_dataLine data)
        (List.cons_ne_nil _ _) t
      rw [eventRaw, ← h]
      simp only [List.append_assoc, List.cons_append]
    rw [Written.text, sse_eq, List.append_assoc, parseFrames_raw hblank, framesOf,
      frameOf_eventRaw]
    rfl
  | heartbeat =>
    have hblank : indexOf (js "\n\n") (js ": ping" ++ (js "\n\n" ++ t)) =
        some (js ": ping").length := rfl
    exact parseFrames_raw hblank

/-- The text of a stream. -/
def streamText (ws : List Written) : JsString := ws.flatMap (·.text)

theorem parseFrames_streamText (ws : List Written) :
    parseFrames (streamText ws) = (ws.filterMap (·.frame), []) := by
  induction ws with
  | nil => exact parseFrames_of_none rfl
  | cons w ws ih =>
    rw [streamText, List.flatMap_cons, parseFrames_written, ← streamText, ih, List.filterMap_cons]
    cases w.frame <;> rfl

/-- **What a client makes of a frame**: its event, or nothing. -/
theorem decode_frame (w : Written) :
    w.frame.bind (·.decode) = w.sent.filter fun e => e.2.LineSafeStrings := by
  cases w with
  | event name data distinct =>
    change (Json.parse (restOfLine data.stringify)).map _ = _
    rw [Json.parse_restOfLine_stringify distinct, Written.sent, Option.filter_some]
    by_cases h : data.LineSafeStrings
    · rw [if_pos h, if_pos (decide_eq_true h)]
      rfl
    · rw [if_neg h, if_neg (by simpa using h)]
      rfl
  | heartbeat => rfl

/-- The two clients. -/
inductive Client
  | admin
  | mobile

def Client.parseSseFrames : Client → JsString → List SseFrame × JsString
  | admin => Admin.parseSseFrames
  | mobile => Mobile.parseSseFrames

theorem Client.parseSseFrames_eq (client : Client) : client.parseSseFrames = parseFrames := by
  cases client <;> rfl

/-- One turn of the loop: the buffer before it, and the buffer it leaves. -/
def Turn (buffer buffer' : JsString) : Prop :=
  ∃ i, indexOf (js "\n\n") buffer = some i ∧ buffer' = buffer.drop (i + 2)

theorem Turn.length_lt {buffer buffer' : JsString} (h : Turn buffer buffer') :
    buffer'.length < buffer.length := by
  obtain ⟨i, hi, rfl⟩ := h
  have hlength := length_of_indexOf hi
  have htwo : (js "\n\n").length = 2 := by decide
  rw [List.length_drop]
  omega

/-- There is no endless run of the loop. -/
theorem wellFounded_turn : WellFounded fun buffer' buffer => Turn buffer buffer' :=
  Subrelation.wf (fun h => h.length_lt) (InvImage.wf List.length Nat.lt_wfRel.wf)

/-- The loop stops where no blank line is left. -/
theorem indexOf_rest (buffer : JsString) : indexOf (js "\n\n") (parseFrames buffer).2 = none := by
  induction hn : buffer.length using Nat.strongRecOn generalizing buffer with
  | _ n ih =>
    cases hs : indexOf (js "\n\n") buffer with
    | none => rw [parseFrames_of_none hs, hs]
    | some i =>
      rw [parseFrames_of_some hs]
      exact ih _ (hn ▸ Turn.length_lt ⟨i, hs, rfl⟩) _ rfl

/-- **The pieces a stream arrives in do not matter**: fed piece by piece the loop finds the frames,
and keeps the rest, of the whole text; parsing goes on from a rest as if it had never stopped; and
every run of the loop ends. -/
theorem parseSseFrames_pieces (client : Client) :
    (∀ chunks, feed client.parseSseFrames chunks = client.parseSseFrames chunks.flatten) ∧
    (∀ a b, (client.parseSseFrames (a ++ b)).1 = (client.parseSseFrames a).1 ++
        (client.parseSseFrames ((client.parseSseFrames a).2 ++ b)).1 ∧
      (client.parseSseFrames (a ++ b)).2 =
        (client.parseSseFrames ((client.parseSseFrames a).2 ++ b)).2) ∧
    (WellFounded fun buffer' buffer => Turn buffer buffer') ∧
    ∀ buffer buffer', ¬Turn (client.parseSseFrames buffer).2 buffer' := by
  rw [client.parseSseFrames_eq]
  refine ⟨feed_eq incremental_parseFrames, fun a b => ?_, wellFounded_turn, ?_⟩
  · exact Prod.ext_iff.mp (incremental_parseFrames.append a b)
  · rintro buffer buffer' ⟨i, hi, -⟩
    rw [indexOf_rest] at hi
    cases hi

/-- **What a client receives of a stream**, however it is cut: the events without a line separator
in their payload. -/
theorem receive_streamText (client : Client) {ws : List Written} {chunks : List JsString}
    (h : chunks.flatten = streamText ws) : receive client.parseSseFrames chunks =
      ((ws.filterMap (·.sent)).filter fun e => e.2.LineSafeStrings, []) := by
  rw [receive, client.parseSseFrames_eq, feed_eq incremental_parseFrames, h, parseFrames_streamText]
  dsimp only
  rw [List.filterMap_filterMap, List.filter_filterMap]
  simp only [decode_frame]

/-- **When the wire format round-trips**: exactly when no payload has a line separator in a string
or a key. -/
theorem sse_round_trips_iff (client : Client) {ws : List Written} {chunks : List JsString}
    (h : chunks.flatten = streamText ws) :
    receive client.parseSseFrames chunks = (ws.filterMap (·.sent), []) ↔
      ∀ e ∈ ws.filterMap (·.sent), e.2.LineSafeStrings := by
  rw [receive_streamText client h]
  constructor
  · intro heq e he
    have hmem := List.filter_eq_self.mp (Prod.ext_iff.mp heq).1 e he
    exact of_decide_eq_true hmem
  · intro hall
    rw [List.filter_eq_self.mpr fun e he => decide_eq_true (hall e he)]

/-! ## Two streams -/

/-- A token event with this text. -/
def tokenWith (text : JsString) : Written :=
  .event .token (.obj [(js "text", .str text)]) (by simp [Json.DistinctKeys, Json.entriesDistinct])

/-- A plain answer arrives. -/
theorem sse_round_trips_iff_hi :
    receive Admin.parseSseFrames [streamText [tokenWith (js "hi"), .heartbeat]] =
      ([(js "token", .obj [(js "text", .str (js "hi"))])], []) := by
  have hwhole : [streamText [tokenWith (js "hi"), .heartbeat]].flatten =
      streamText [tokenWith (js "hi"), .heartbeat] := List.append_nil _
  exact (sse_round_trips_iff .admin hwhole).mpr (by decide +kernel)

/-- **A token with U+2028 in it is lost.** -/
theorem not_sse_round_trips : ¬∀ (client : Client) (ws : List Written) (chunks : List JsString),
    chunks.flatten = streamText ws →
      receive client.parseSseFrames chunks = (ws.filterMap (·.sent), []) := by
  intro hclaim
  have h := hclaim .admin [tokenWith [0x61, 0x2028]] [streamText [tokenWith [0x61, 0x2028]]]
    (List.append_nil _)
  rw [receive_streamText .admin (List.append_nil _)] at h
  have hlength := congrArg (·.1.length) h
  exact absurd hlength (by decide +kernel)

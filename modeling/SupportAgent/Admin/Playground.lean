import SupportAgent.System.Conversation

/-!
# Admin/Playground — the answer on the playground page

The page asks the chat route as the phone does, and reads the response in its own way: it decodes
the pieces without ever failing, sets the state of the answer panel frame by frame, and reads on
past the terminal event.

* `runChat_wire` — whatever the cuts, the panel has heard a beginning of the frames written.
* `playground_agrees` — of the bytes that arrived it shows what the phone shows, and it rests on the
  server as the phone's transcript does.
-/

open JsString

namespace Admin

/-! ## Reading a payload -/

/-- `value[key]`: none where it throws, and none within where it is undefined. -/
def member (value : Json) (key : JsString) : Option (Option Json) :=
  match value with
  | .null => none
  | .obj entries => some ((entries.find? (·.1 == key)).map (·.2))
  | _ => some none

section

-- the string of a number, an array or an object; none where the conversion throws
variable (toText : Json → Option JsString)

/-- The string a value is added to another as. -/
def addend : Option Json → Option JsString
  | none => some (js "undefined")
  | some .null => some (js "null")
  | some (.bool true) => some (js "true")
  | some (.bool false) => some (js "false")
  | some (.str s) => some s
  | some value => toText value

/-! ## The panel -/

/-- The state of the answer panel, as `runChat` resets it: a verdict that is undefined is none, and
the citations are kept as they came. -/
structure ChatPanel where
  answer : JsString := []
  answerErr : Option JsString := none
  grounded : Option Json := some .null
  citations : Json := .arr []

/-- The body of the loop over the frames, with `acc`: a malformed frame is skipped. -/
def takeFrame (acc : JsString) (panel : ChatPanel) (f : SseFrame) : JsString × ChatPanel :=
  if f.event = js "token" then
    match (Json.parse f.data).bind fun d => (member d (js "text")).bind (addend toText) with
    | some text => (acc ++ text, { panel with answer := acc ++ text })
    | none => (acc, panel)
  else if f.event = js "done" then
    match (Json.parse f.data).bind fun d => (member d (js "grounded")).bind fun grounded =>
        (member d (js "citations")).map fun citations => (grounded, citations) with
    | some (grounded, citations) =>
      let citations := match citations with
        | none | some .null => .arr []
        | some citations => citations
      (acc, { panel with grounded, citations })
    | none => (acc, panel)
  else if f.event = js "error" then
    (acc, { panel with answerErr := some (js "Generation failed.") })
  else (acc, panel)

/-- The loop over the pieces of the body; an end and a failure of the reader leave what was read. -/
def readBody : Utf8.Decoder → JsString → JsString → ChatPanel → List (List UInt8) → ChatPanel
  | _, _, _, panel, [] => panel
  | decoder, buffer, acc, panel, value :: pieces =>
    let (text, decoder) := decoder.decode value
    let (frames, rest) := parseSseFrames (buffer ++ text)
    let (acc, panel) := frames.foldl (fun (acc, panel) f => takeFrame toText acc panel f)
      (acc, panel)
    readBody decoder rest acc panel pieces

/-- What `fetch('/api/chat')` comes to. -/
inductive ChatResponse
  | unreachable
  | refused
  | body (pieces : List (List UInt8))

/-- `runChat`: the panel it leaves. -/
def runChat : ChatResponse → ChatPanel
  | .unreachable => { answerErr := some (js "Cannot reach the server.") }
  | .refused => { answerErr := some (js "Chat failed.") }
  | .body pieces => readBody toText {} [] [] {} pieces

end

/-! ## What the panel hears -/

/-- **What a frame of the server does to the panel**: nothing where a string of its payload holds a
line separator. -/
def ChatPanel.hear (panel : ChatPanel) : StreamFrame → ChatPanel
  | .ping => panel
  | .chat (.token text) =>
    if (tokenData text).LineSafeStrings then { panel with answer := panel.answer ++ text }
      else panel
  | .chat (.done grounded citations latencyMs) =>
    if (doneData grounded citations latencyMs).LineSafeStrings then
      { panel with
        grounded := some (.bool grounded), citations := .arr (citations.map Citation.json) }
    else panel
  | .chat (.generationFailed _) | .chat .internalError | .timeout =>
    { panel with answerErr := some (js "Generation failed.") }

variable {toText : Json → Option JsString}

theorem takeFrame_token {panel : ChatPanel} {data : JsString} :
    takeFrame toText panel.answer panel ⟨js "token", data⟩ =
      match (Json.parse data).bind fun d => (member d (js "text")).bind (addend toText) with
      | some text => (panel.answer ++ text, { panel with answer := panel.answer ++ text })
      | none => (panel.answer, panel) := rfl

theorem takeFrame_done {panel : ChatPanel} {data : JsString} :
    takeFrame toText panel.answer panel ⟨js "done", data⟩ =
      match (Json.parse data).bind fun d => (member d (js "grounded")).bind fun grounded =>
        (member d (js "citations")).map fun citations => (grounded, citations) with
      | some (grounded, citations) =>
        let citations := match citations with
          | none | some .null => .arr []
          | some citations => citations
        (panel.answer, { panel with grounded, citations })
      | none => (panel.answer, panel) := rfl

variable (toText) in
/-- **One frame**: what the page makes of it. -/
theorem takeFrame_written (panel : ChatPanel) (frame : StreamFrame) :
    frame.written.frame.elim (panel.answer, panel) (takeFrame toText panel.answer panel) =
      ((panel.hear frame).answer, panel.hear frame) := by
  obtain _ | (text | ⟨grounded, citations, latencyMs⟩ | retryable | _) | _ := frame
  · rfl
  · change takeFrame toText panel.answer panel ⟨js "token", _⟩ = _
    rw [takeFrame_token, Json.parse_restOfLine_stringify (distinctKeys_tokenData text),
      ChatPanel.hear]
    by_cases h : (tokenData text).LineSafeStrings
    · rw [if_pos h, if_pos h]
      rfl
    · rw [if_neg h, if_neg h]
      rfl
  · change takeFrame toText panel.answer panel ⟨js "done", _⟩ = _
    rw [takeFrame_done, Json.parse_restOfLine_stringify (distinctKeys_doneData _ _ _),
      ChatPanel.hear]
    by_cases h : (doneData grounded citations latencyMs).LineSafeStrings
    · rw [if_pos h, if_pos h]
      rfl
    · rw [if_neg h, if_neg h]
      rfl
  all_goals rfl

/-- The frames of a stream, one after the other. -/
theorem foldl_takeFrame (frames : List StreamFrame) (panel : ChatPanel) :
    ((frames.map (·.written)).filterMap (·.frame)).foldl
        (fun (acc, panel) f => takeFrame toText acc panel f) (panel.answer, panel) =
      ((frames.foldl ChatPanel.hear panel).answer, frames.foldl ChatPanel.hear panel) := by
  induction frames generalizing panel with
  | nil => rfl
  | cons frame frames ih =>
    have hframe := takeFrame_written toText panel frame
    rw [List.map_cons, List.filterMap_cons, List.foldl_cons, ← ih]
    cases hwritten : frame.written.frame with
    | none =>
      rw [hwritten] at hframe
      obtain ⟨-, hsame⟩ := Prod.mk.inj hframe
      rw [← hsame]
    | some f =>
      rw [hwritten, Option.elim_some] at hframe
      rw [← hframe]
      rfl

/-- **However the bytes are cut**, the panel is that of one parse of all of them. -/
theorem runChat_eq {pieces : List (List UInt8)} {all : List Char} {st : Option Utf8.Unfinished}
    (hall : Utf8.run none pieces.flatten = some (st, all)) (hbom : all.head? ≠ some Utf8.BOM) :
    runChat toText (.body pieces) = ((parseFrames (all.flatMap utf16)).1.foldl
      (fun (acc, panel) f => takeFrame toText acc panel f) ([], {})).2 := by
  refine reads_pieces (motive := fun decoder buffer pieces text => ∀ acc panel,
    readBody toText decoder buffer acc panel pieces = ((parseFrames (buffer ++ text)).1.foldl
      (fun (acc, panel) f => takeFrame toText acc panel f) (acc, panel)).2) ?_ ?_ hall hbom [] {}
  · intro decoder buffer _ hbuffer acc panel
    rw [List.append_nil, hbuffer]
    rfl
  · intro decoder buffer piece pieces text decoder' more hconvert hrest acc panel
    rw [readBody, Utf8.Decoder.decode_of_convert hconvert]
    dsimp only
    rw [parseSseFrames, hrest, ← List.append_assoc,
      incremental_parseFrames.append (buffer ++ text) more, List.foldl_append]

/-! ## The two clients -/

/-- **What the panel and the events of the phone have in common**: the text, the failure, and the
verdict with the citations, which are those of a frame. -/
structure Shows (frames : List StreamFrame) (events : List Mobile.ChatStreamEvent)
    (panel : ChatPanel) : Prop where
  answer : panel.answer = Mobile.spoken events
  failed : panel.answerErr = none ∧ (∀ message, .streamErrorFrame message ∉ events) ∨
    ∃ message, panel.answerErr = some message ∧ .streamErrorFrame message ∈ events
  verdict : panel.grounded = some .null ∧ panel.citations = .arr [] ∧
      (∀ grounded citations, .streamDone grounded citations ∉ events) ∨
    ∃ grounded citations latencyMs, .chat (.done grounded citations latencyMs) ∈ frames ∧
      panel.grounded = some (.bool grounded) ∧
      panel.citations = .arr (citations.map Citation.json) ∧
      .streamDone grounded (citations.map Citation.onPhone) ∈ events

variable {frames : List StreamFrame} {events : List Mobile.ChatStreamEvent} {panel : ChatPanel}

theorem Shows.nil (frames : List StreamFrame) : Shows frames [] {} :=
  ⟨rfl, .inl ⟨rfl, nofun⟩, .inl ⟨rfl, rfl, nofun⟩⟩

/-- The text with one more event. -/
theorem Shows.answer_append (h : Shows frames events panel) (event : Mobile.ChatStreamEvent) :
    panel.answer ++ event.text = Mobile.spoken (events ++ [event]) := by
  rw [Mobile.spoken_append, ← h.answer]
  exact congrArg (panel.answer ++ ·) (List.append_nil _).symm

/-- An event that is no failure leaves the failure. -/
theorem Shows.failed_append (h : Shows frames events panel) {event : Mobile.ChatStreamEvent}
    (hevent : ∀ message, .streamErrorFrame message ≠ event) :
    panel.answerErr = none ∧ (∀ message, .streamErrorFrame message ∉ events ++ [event]) ∨
      ∃ message, panel.answerErr = some message ∧
        .streamErrorFrame message ∈ events ++ [event] := by
  refine h.failed.imp (fun ⟨hnone, hmem⟩ => ⟨hnone, fun message hm => ?_⟩)
    fun ⟨message, hsome, hmem⟩ => ⟨message, hsome, List.mem_append_left _ hmem⟩
  obtain hm | hm := List.mem_append.1 hm
  · exact hmem _ hm
  · exact hevent _ (List.mem_singleton.1 hm)

/-- An event that is no verdict leaves the verdict. -/
theorem Shows.verdict_append (h : Shows frames events panel) {event : Mobile.ChatStreamEvent}
    (hevent : ∀ grounded citations, .streamDone grounded citations ≠ event) :
    panel.grounded = some .null ∧ panel.citations = .arr [] ∧
        (∀ grounded citations, .streamDone grounded citations ∉ events ++ [event]) ∨
      ∃ grounded citations latencyMs, .chat (.done grounded citations latencyMs) ∈ frames ∧
        panel.grounded = some (.bool grounded) ∧
        panel.citations = .arr (citations.map Citation.json) ∧
        .streamDone grounded (citations.map Citation.onPhone) ∈ events ++ [event] := by
  refine h.verdict.imp (fun ⟨hnull, hnil, hmem⟩ => ⟨hnull, hnil, fun grounded citations hm => ?_⟩)
    fun ⟨grounded, citations, latencyMs, hframe, hg, hcs, hmem⟩ =>
      ⟨grounded, citations, latencyMs, hframe, hg, hcs, List.mem_append_left _ hmem⟩
  obtain hm | hm := List.mem_append.1 hm
  · exact hmem _ _ hm
  · exact hevent _ _ (List.mem_singleton.1 hm)

/-- **One more frame** keeps what they have in common. -/
theorem Shows.hear (h : Shows frames events panel) {frame : StreamFrame} (hframe : frame ∈ frames) :
    Shows frames (events ++ frame.onPhone.toList) (panel.hear frame) := by
  have hsame : Shows frames (events ++ []) panel := (List.append_nil events).symm ▸ h
  have herror : Shows frames (events ++ [.streamErrorFrame (js "Generation failed.")])
      { panel with answerErr := some (js "Generation failed.") } := by
    refine ⟨(List.append_nil _).symm.trans (h.answer_append (.streamErrorFrame _)),
      .inr ⟨_, rfl, List.mem_append_right _ (List.mem_singleton_self _)⟩, h.verdict_append ?_⟩
    intro grounded citations heq
    cases heq
  obtain _ | (text | ⟨grounded, citations, latencyMs⟩ | _ | _) | _ := frame
  case ping => exact hsame
  case chat.token =>
    rw [StreamFrame.onPhone, ChatPanel.hear]
    by_cases hsafe : (tokenData text).LineSafeStrings
    · rw [if_pos hsafe, if_pos hsafe]
      refine ⟨h.answer_append (.tokenChunk text), h.failed_append ?_, h.verdict_append ?_⟩
      · intro message heq
        cases heq
      · intro grounded citations heq
        cases heq
    · rw [if_neg hsafe, if_neg hsafe]
      exact hsame
  case chat.done =>
    rw [StreamFrame.onPhone, ChatPanel.hear]
    by_cases hsafe : (doneData grounded citations latencyMs).LineSafeStrings
    · rw [if_pos hsafe, if_pos hsafe]
      refine ⟨(List.append_nil _).symm.trans (h.answer_append (.streamDone _ _)),
        h.failed_append ?_,
        .inr ⟨_, _, _, hframe, rfl, rfl, List.mem_append_right _ (List.mem_singleton_self _)⟩⟩
      intro message heq
      cases heq
    · rw [if_neg hsafe, if_neg hsafe]
      exact hsame
  all_goals exact herror

/-- All frames. -/
theorem Shows.run (h : Shows frames events panel) {heard : List StreamFrame}
    (hheard : heard ⊆ frames) :
    Shows frames (events ++ heard.filterMap (·.onPhone)) (heard.foldl ChatPanel.hear panel) := by
  induction heard generalizing events panel with
  | nil =>
    rw [List.filterMap_nil, List.append_nil]
    exact h
  | cons frame heard ih =>
    obtain ⟨hframe, hheard⟩ := List.cons_subset.1 hheard
    have hrest := ih (h.hear hframe) hheard
    rw [List.append_assoc] at hrest
    rw [List.foldl_cons, List.filterMap_cons]
    cases hevent : frame.onPhone with
    | none =>
      rw [hevent] at hrest
      exact hrest
    | some event =>
      rw [hevent] at hrest
      exact hrest

/-- **Of a beginning of the bytes** the two clients hear the same beginning of the frames. -/
theorem runChat_wire {frames : List StreamFrame} (hrange : ∀ f ∈ frames, f.InRange)
    (toText : Json → Option JsString) (viaDouble : Json.NumberLiteral → Option ℤ)
    (closing : Mobile.StreamEnd) {pieces cut : List (List UInt8)}
    (hcut : pieces.flatten = cut.flatten)
    (hpieces : pieces.flatten <+: wire frames) : ∃ heard, heard <+: frames ∧
      runChat toText (.body cut) = heard.foldl ChatPanel.hear {} ∧
      (Mobile.streamAnswer viaDouble closing pieces).1 =
        Mobile.upToTerminal (heard.filterMap (·.onPhone)) := by
  obtain ⟨st, part, heard, hpart, hhead, hheard, hframes, -⟩ := exists_heard hpieces
  refine ⟨heard, hheard, ?_, ?_⟩
  · rw [runChat_eq (hcut ▸ hpart) hhead, hframes]
    exact congrArg Prod.snd (foldl_takeFrame heard {})
  · rw [Mobile.streamAnswer_eq hpart hhead, hframes,
      Mobile.filterMap_eventOf viaDouble fun f hf => hrange f (hheard.subset hf)]

/-- **The playground shows what the phone shows.**  Of the same bytes, cut in any two ways and
broken off anywhere, the panel shows the text, the failure and the verdict of the phone's events,
though it never stops at a terminal event and decodes in its own way; a verdict is the server's,
with its citations.  Where no text of the model holds a line separator, the text is a beginning of
the answer, and all of it with a verdict. -/
theorem playground_agrees {P : Platform} {deps : AppDeps} {assistant : Assistant}
    (e : Exchange P deps assistant) (viaDouble : Json.NumberLiteral → Option ℤ)
    (toText : Json → Option JsString) {cut : List (List UInt8)}
    (hcut : e.pieces.flatten = cut.flatten) :
    Shows e.server.written (e.events viaDouble) (runChat toText (.body cut)) ∧
    ((runChat toText (.body cut)).grounded ≠ some .null → ∃ grounded citations,
      (runChat toText (.body cut)).grounded = some (.bool grounded) ∧
      (runChat toText (.body cut)).citations = .arr (citations.map Citation.json) ∧
      e.server.Concluded P deps assistant e.upstream grounded citations) ∧
    (e.LineSafe → (runChat toText (.body cut)).answer <+: e.said ∧
      ((runChat toText (.body cut)).grounded ≠ some .null →
        (runChat toText (.body cut)).answer = e.said)) := by
  obtain ⟨heard, hheard, hpanel, hevents⟩ :=
    runChat_wire e.inRange toText viaDouble e.closing hcut e.arrives
  obtain ⟨xs, ys, hsplit, hxs, hys⟩ := e.written_onPhone
  -- what is heard holds no event behind a terminal one
  have hkept : Mobile.upToTerminal (heard.filterMap (·.onPhone)) = heard.filterMap (·.onPhone) := by
    have hbegins := hheard.filterMap (·.onPhone)
    rw [hsplit] at hbegins
    by_cases hterminal : (heard.filterMap (·.onPhone)).any (·.terminal) = true
    · rw [Mobile.eq_of_isPrefix_of_terminal hxs hys hbegins hterminal]
      exact Mobile.upToTerminal_of_last hxs hys
    · exact Mobile.upToTerminal_of_any (Bool.eq_false_of_not_eq_true hterminal)
  have hshows : Shows e.server.written (e.events viaDouble) (runChat toText (.body cut)) := by
    rw [Exchange.events, hevents, hkept, hpanel]
    exact (Shows.nil _).run hheard.subset
  refine ⟨hshows, fun hverdict => ?_, fun hsafe => ?_⟩
  · obtain ⟨hnull, -⟩ | ⟨grounded, citations, latencyMs, hframe, hgrounded, hcitations, -⟩ :=
      hshows.verdict
    · exact absurd hnull hverdict
    · exact ⟨grounded, citations, hgrounded, hcitations,
        ChatStream.concluded_of_done e.reachable hframe⟩
  · obtain ⟨hfront, hwhole⟩ := Exchange.heard hsafe (List.prefix_refl (e.events viaDouble))
    rw [hshows.answer]
    refine ⟨hfront, fun hverdict => ?_⟩
    obtain ⟨hnull, -⟩ | ⟨grounded, citations, latencyMs, -, -, -, hdone⟩ := hshows.verdict
    · exact absurd hnull hverdict
    · exact hwhole _ _ hdone

end Admin

/-! ## The sample answer -/

/-- The page got the bytes of the sample answer in one piece. -/
theorem playground_agrees_sample : ∃ e : Exchange samplePlatform sampleDeps sampleAssistant,
    Admin.Shows e.server.written [.tokenChunk (js "30 days "), .tokenChunk (js "[1]."),
      .streamDone true [sampleCitation.onPhone]]
      (Admin.runChat (fun _ => none) (.body [e.pieces.flatten])) ∧
    (Admin.runChat (fun _ => none) (.body [e.pieces.flatten])).answer <+: e.said := by
  obtain ⟨e, -, hsafe, hevents⟩ := exists_sampleExchange
  have hcut : e.pieces.flatten = [e.pieces.flatten].flatten := (List.append_nil _).symm
  obtain ⟨hshows, -, htext⟩ := Admin.playground_agrees e (fun _ => none) (fun _ => none) hcut
  exact ⟨e, hevents ▸ hshows, (htext hsafe).1⟩

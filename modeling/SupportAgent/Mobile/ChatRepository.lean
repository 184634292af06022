import SupportAgent.Chat.Wire
import SupportAgent.Mobile.ChatBloc

/-!
# Mobile/ChatRepository — the events the phone makes of the bytes it receives

`streamAnswer` decodes the response body piece by piece, cuts the text into frames, and yields an
event for each frame it understands, up to the first `done` or `error`.

* `streamAnswer_eq` — however the bytes are cut, the events are those of one parse of all of them.
* `streamAnswer_wire` — for a stream of the server they are the frames without a line separator in
  their strings, up to the first terminal one, and a beginning of them while bytes are missing.
-/

open JsString

/-- The value of an integer literal. -/
def Json.NumberLiteral.int? (n : Json.NumberLiteral) : Option ℤ :=
  match n.text with
  | 0x2D :: digits => if digits.all isDigit then some (-(digitsValue digits : ℤ)) else none
  | digits => if digits.all isDigit then some (digitsValue digits) else none

deriving instance DecidableEq for Mobile.ChatStreamEvent

namespace Mobile

/-! ## Reading a payload -/

/-- `json as Map`. -/
def asMap : Json → Option (List (JsString × Json))
  | .obj entries => some entries
  | _ => none

/-- `map[key]`, null where there is none. -/
def entry (entries : List (JsString × Json)) (key : JsString) : Json :=
  ((entries.find? (·.1 == key)).map (·.2)).getD .null

/-- `json as String?`: none where the cast throws. -/
def asString? : Json → Option (Option JsString)
  | .null => some none
  | .str s => some (some s)
  | _ => none

/-- `json as bool?`. -/
def asBool? : Json → Option (Option Bool)
  | .null => some none
  | .bool b => some (some b)
  | _ => none

/-- `json as List?`. -/
def asList? : Json → Option (Option (List Json))
  | .null => some none
  | .arr items => some (some items)
  | _ => none

section

-- `toInt` of a number that is no 64-bit integer literal and is read as a `double`
variable (viaDouble : Json.NumberLiteral → Option ℤ)

/-- `(json as num).toInt()`. -/
def toInt : Json → Option ℤ
  | .num n =>
    match n.int? with
    | some v => if -2 ^ 63 ≤ v ∧ v < 2 ^ 63 then some v else viaDouble n
    | none => viaDouble n
  | _ => none

/-- `(json as num?)?.toInt()`. -/
def toInt? : Json → Option (Option ℤ)
  | .null => some none
  | json => (toInt viaDouble json).map some

/-- `Citation.fromJson`; none where it throws. -/
def Citation.fromJson (json : Json) : Option Citation := do
  let entries ← asMap json
  let marker ← toInt viaDouble (entry entries (js "marker"))
  let documentId ← asString? (entry entries (js "document_id"))
  let title ← asString? (entry entries (js "title"))
  let page ← toInt? viaDouble (entry entries (js "page"))
  let sectionText ← asString? (entry entries (js "section"))
  let snippet ← asString? (entry entries (js "snippet"))
  return {
    marker
    documentId := documentId.getD []
    title := title.getD []
    page
    sectionText
    snippet := snippet.getD [] }

/-! ## The stream -/

/-- A `StreamDone` or a `StreamErrorFrame`. -/
def ChatStreamEvent.terminal : ChatStreamEvent → Bool
  | tokenChunk _ => false
  | streamDone _ _ | streamErrorFrame _ => true

/-- The event of a frame; none where it is malformed, of another name, or a token without text. -/
def eventOf (frame : SseFrame) : Option ChatStreamEvent :=
  if frame.event == js "token" then do
    let entries ← (Json.parse frame.data).bind asMap
    let text ← asString? (entry entries (js "text"))
    text.map .tokenChunk
  else if frame.event == js "done" then do
    let entries ← (Json.parse frame.data).bind asMap
    let items ← asList? (entry entries (js "citations"))
    let citations ← (items.getD []).mapM (Citation.fromJson viaDouble)
    let grounded ← asBool? (entry entries (js "grounded"))
    return .streamDone (grounded.getD false) citations
  else if frame.event == js "error" then some (.streamErrorFrame (js "Generation failed."))
  else none

/-- The loop over the frames of one piece: what it yields, and whether it returns. -/
def yieldFrames : List SseFrame → List ChatStreamEvent × Bool
  | [] => ([], false)
  | frame :: frames =>
    match eventOf viaDouble frame with
    | none => yieldFrames frames
    | some event =>
      if event.terminal then ([event], true)
      else
        let (events, returned) := yieldFrames frames
        (event :: events, returned)

/-- The rest of `streamAnswer`, with its decoder and its buffer: the events it yields, and how it
ends where the response ends as `closing`. -/
def streamAnswerFrom (closing : StreamEnd) (decoder : Utf8.Decoder) (buffer : JsString) :
    List (List UInt8) → List ChatStreamEvent × StreamEnd
  | [] =>
    -- closing the decoder throws inside a character
    match closing with
    | .closed => ([], if decoder.state.isSome then .thrown .other else .closed)
    | .thrown err => ([], .thrown err)
  | piece :: pieces =>
    match decoder.convert piece with
    | none => ([], .thrown .other)
    | some (text, decoder) =>
      let (frames, rest) := parseSseFrames (buffer ++ text)
      let (events, returned) := yieldFrames viaDouble frames
      -- done/error are terminal
      if returned then (events, .closed)
      else
        let (more, how) := streamAnswerFrom closing decoder rest pieces
        (events ++ more, how)

/-- `streamAnswer`, past the response's headers. -/
def streamAnswer (closing : StreamEnd) (pieces : List (List UInt8)) :
    List ChatStreamEvent × StreamEnd := streamAnswerFrom viaDouble closing {} [] pieces

/-! ## However the bytes are cut -/

/-- Up to the first terminal event. -/
def upToTerminal : List ChatStreamEvent → List ChatStreamEvent
  | [] => []
  | event :: events => if event.terminal then [event] else event :: upToTerminal events

theorem upToTerminal_append (xs ys : List ChatStreamEvent) :
    upToTerminal (xs ++ ys) =
      if xs.any (·.terminal) then upToTerminal xs else xs ++ upToTerminal ys := by
  induction xs with
  | nil => rfl
  | cons x xs ih =>
    rw [List.cons_append, upToTerminal, upToTerminal, ih, List.any_cons]
    cases x.terminal with
    | true => rfl
    | false => cases xs.any (·.terminal) <;> rfl

/-- Without a terminal event everything is kept. -/
theorem upToTerminal_of_any {xs : List ChatStreamEvent} (h : xs.any (·.terminal) = false) :
    upToTerminal xs = xs := by
  have happend := upToTerminal_append xs []
  rwa [List.append_nil, h, if_neg Bool.false_ne_true, upToTerminal, List.append_nil] at happend

theorem upToTerminal_mono {xs ys : List ChatStreamEvent} (h : xs <+: ys) :
    upToTerminal xs <+: upToTerminal ys := by
  obtain ⟨zs, rfl⟩ := h
  induction xs with
  | nil => exact List.nil_prefix
  | cons x xs ih =>
    rw [List.cons_append, upToTerminal, upToTerminal]
    cases x.terminal with
    | true => exact List.prefix_rfl
    | false => exact List.cons_prefix_cons.2 ⟨rfl, ih⟩

variable {viaDouble}

theorem yieldFrames_eq (frames : List SseFrame) : yieldFrames viaDouble frames =
    (upToTerminal (frames.filterMap (eventOf viaDouble)),
      (frames.filterMap (eventOf viaDouble)).any (·.terminal)) := by
  induction frames with
  | nil => rfl
  | cons frame frames ih =>
    rw [yieldFrames, List.filterMap_cons]
    cases eventOf viaDouble frame with
    | none => exact ih
    | some event =>
      dsimp only
      rw [ih, upToTerminal, List.any_cons]
      cases event.terminal <;> rfl

/-- How the stream ends where all its bytes arrived and were characters. -/
def endsAs (closing : StreamEnd) (unfinished : Bool) (events : List ChatStreamEvent) : StreamEnd :=
  if events.any (·.terminal) then .closed
  else
    match closing with
    | .closed => if unfinished then .thrown .other else .closed
    | .thrown err => .thrown err

theorem endsAs_append (closing : StreamEnd) (unfinished : Bool) (xs ys : List ChatStreamEvent) :
    endsAs closing unfinished (xs ++ ys) =
      if xs.any (·.terminal) then .closed else endsAs closing unfinished ys := by
  unfold endsAs
  rw [List.any_append]
  cases xs.any (·.terminal) <;> rfl

/-- **However the bytes are cut**, the events are those of one parse of all of them. -/
theorem streamAnswer_eq {closing : StreamEnd} {pieces : List (List UInt8)} {all : List Char}
    {st : Option Utf8.Unfinished} (hall : Utf8.run none pieces.flatten = some (st, all))
    (hbom : all.head? ≠ some Utf8.BOM) : streamAnswer viaDouble closing pieces =
      let events := (parseFrames (all.flatMap utf16)).1.filterMap (eventOf viaDouble)
      (upToTerminal events, endsAs closing st.isSome events) := by
  refine reads_pieces (motive := fun decoder buffer pieces text =>
    streamAnswerFrom viaDouble closing decoder buffer pieces =
      let events := (parseFrames (buffer ++ text)).1.filterMap (eventOf viaDouble)
      (upToTerminal events, endsAs closing st.isSome events)) ?_ ?_ hall hbom
  · rintro decoder buffer rfl hbuffer
    rw [List.append_nil, hbuffer]
    cases closing <;> rfl
  · intro decoder buffer piece pieces text decoder' more hconvert hrest
    rw [streamAnswerFrom, hconvert]
    dsimp only
    rw [parseSseFrames, yieldFrames_eq, hrest, ← List.append_assoc,
      incremental_parseFrames.append (buffer ++ text) more, List.filterMap_append,
      upToTerminal_append, endsAs_append]
    dsimp only
    split
    case isTrue hterminal => rfl
    case isFalse hterminal =>
      rw [upToTerminal_of_any (Bool.eq_false_of_not_eq_true hterminal)]

end

end Mobile

/-! ## What the server wrote -/

namespace Json.NumberLiteral

theorem int?_of_digits {n : NumberLiteral} (h : n.text.all isDigit = true) :
    n.int? = some (digitsValue n.text : ℤ) := by
  rw [int?]
  split
  case h_1 digits heq =>
    rw [heq] at h
    exact nomatch h
  case h_2 => rw [if_pos h]

/-- A natural number is read back. -/
theorem int?_ofNat (n : ℕ) : int? ⟨decimal n, isNumber_decimal n⟩ = some (n : ℤ) := by
  have hdigits : (decimal n).all isDigit = true :=
    List.all_eq_true.2 fun c => isDigit_of_mem_decimal
  rw [int?_of_digits hdigits, digitsValue_decimal]

end Json.NumberLiteral

/-- The numbers of a citation are 64-bit integers. -/
def Citation.InRange (c : Citation) : Prop := c.marker < 2 ^ 63 ∧ ∀ p ∈ c.page, p < 2 ^ 63

/-- A citation as the phone keeps it. -/
def Citation.onPhone (c : Citation) : Mobile.Citation where
  marker := c.marker
  documentId := c.documentId.text
  title := c.title
  page := c.page.map fun p => (p : ℤ)
  sectionText := c.sectionText
  snippet := c.snippet

namespace Mobile

variable {viaDouble : Json.NumberLiteral → Option ℤ}

theorem toInt_ofNat {n : ℕ} (h : n < 2 ^ 63) : toInt viaDouble (.ofNat n) = some (n : ℤ) := by
  rw [Json.ofNat, toInt, Json.NumberLiteral.int?_ofNat]
  exact if_pos (by omega)

theorem toInt?_orNull {page : Option ℕ} (h : ∀ p ∈ page, p < 2 ^ 63) :
    toInt? viaDouble (Json.orNull .ofNat page) = some (page.map fun p => (p : ℤ)) := by
  obtain _ | p := page
  · rfl
  · change (toInt viaDouble (.ofNat p)).map some = _
    rw [toInt_ofNat (h p rfl)]
    rfl

theorem asString?_orNull (s : Option JsString) : asString? (Json.orNull .str s) = some s := by
  obtain _ | s := s <;> rfl

end Mobile

/-- **A citation arrives** as it was sent. -/
theorem Citation.fromJson_json {viaDouble : Json.NumberLiteral → Option ℤ} {c : Citation}
    (h : c.InRange) : Mobile.Citation.fromJson viaDouble c.json = some c.onPhone := by
  have hmarker : Mobile.entry c.entries (js "marker") = .ofNat c.marker := rfl
  have hid : Mobile.entry c.entries (js "document_id") = .str c.documentId.text := rfl
  have htitle : Mobile.entry c.entries (js "title") = .str c.title := rfl
  have hpage : Mobile.entry c.entries (js "page") = .orNull .ofNat c.page := rfl
  have hsection : Mobile.entry c.entries (js "section") = .orNull .str c.sectionText := rfl
  have hsnippet : Mobile.entry c.entries (js "snippet") = .str c.snippet := rfl
  rw [Citation.json, Mobile.Citation.fromJson, Mobile.asMap, Option.bind_eq_bind, Option.bind_some,
    hmarker, hid, htitle, hpage, hsection, hsnippet, Mobile.toInt_ofNat h.1,
    Mobile.toInt?_orNull h.2, Mobile.asString?_orNull]
  rfl

theorem Citation.mapM_fromJson {viaDouble : Json.NumberLiteral → Option ℤ} {cs : List Citation}
    (h : ∀ c ∈ cs, c.InRange) :
    (cs.map Citation.json).mapM (Mobile.Citation.fromJson viaDouble) =
      some (cs.map Citation.onPhone) := by
  induction cs with
  | nil => rfl
  | cons c cs ih =>
    obtain ⟨hc, hcs⟩ := List.forall_mem_cons.1 h
    rw [List.map_cons, List.mapM_cons, fromJson_json hc, ih hcs]
    rfl

/-- The numbers of a frame are 64-bit integers. -/
def StreamFrame.InRange : StreamFrame → Prop
  | .chat (.done _ citations _) => ∀ c ∈ citations, c.InRange
  | _ => True

/-- **What the phone makes of a frame**: nothing of a heartbeat, nor of a payload with a line
separator in a string. -/
def StreamFrame.onPhone : StreamFrame → Option Mobile.ChatStreamEvent
  | .ping => none
  | .chat (.token text) =>
    if (tokenData text).LineSafeStrings then some (.tokenChunk text) else none
  | .chat (.done grounded citations latencyMs) =>
    if (doneData grounded citations latencyMs).LineSafeStrings then
      some (.streamDone grounded (citations.map Citation.onPhone))
    else none
  | .chat (.generationFailed _) | .chat .internalError | .timeout =>
    some (.streamErrorFrame (js "Generation failed."))

namespace Mobile

variable {viaDouble : Json.NumberLiteral → Option ℤ}

theorem eventOf_token {data : JsString} : eventOf viaDouble ⟨js "token", data⟩ =
    ((Json.parse data).bind asMap).bind fun entries =>
      (asString? (entry entries (js "text"))).bind fun text => text.map .tokenChunk := rfl

theorem eventOf_done {data : JsString} : eventOf viaDouble ⟨js "done", data⟩ =
    ((Json.parse data).bind asMap).bind fun entries =>
      (asList? (entry entries (js "citations"))).bind fun items =>
      ((items.getD []).mapM (Citation.fromJson viaDouble)).bind fun citations =>
      (asBool? (entry entries (js "grounded"))).bind fun grounded =>
      some (.streamDone (grounded.getD false) citations) := rfl

/-- **One frame** is read as what the phone makes of it. -/
theorem eventOf_written {frame : StreamFrame} (h : frame.InRange) :
    frame.written.frame.bind (eventOf viaDouble) = frame.onPhone := by
  obtain _ | (text | ⟨grounded, citations, latencyMs⟩ | retryable | _) | _ := frame
  · rfl
  · change eventOf viaDouble ⟨js "token", _⟩ = _
    rw [eventOf_token, Json.parse_restOfLine_stringify (distinctKeys_tokenData text)]
    rw [StreamFrame.onPhone]
    split <;> rfl
  · change eventOf viaDouble ⟨js "done", _⟩ = _
    rw [eventOf_done, Json.parse_restOfLine_stringify (distinctKeys_doneData _ _ _)]
    rw [StreamFrame.onPhone]
    split
    · have hitems : entry [(js "grounded", Json.bool grounded),
          (js "citations", .arr (citations.map Citation.json)),
          (js "latency_ms", .ofNat latencyMs)] (js "citations") =
            .arr (citations.map Citation.json) := rfl
      rw [doneData, Option.bind_some, asMap, Option.bind_some, hitems, asList?, Option.bind_some,
        Option.getD_some, Citation.mapM_fromJson h]
      rfl
    · rfl
  all_goals rfl

variable (viaDouble) in
/-- **The events of a stream**, frame by frame. -/
theorem filterMap_eventOf {frames : List StreamFrame} (h : ∀ f ∈ frames, f.InRange) :
    ((frames.map (·.written)).filterMap (·.frame)).filterMap (eventOf viaDouble) =
      frames.filterMap (·.onPhone) := by
  rw [List.filterMap_map, List.filterMap_filterMap]
  exact List.filterMap_congr fun f hf => eventOf_written (h f hf)

/-- **What the phone hears of a beginning of the bytes**: the events of a beginning of the
frames. -/
theorem streamAnswer_heard {frames : List StreamFrame} (hrange : ∀ f ∈ frames, f.InRange)
    (viaDouble : Json.NumberLiteral → Option ℤ) (closing : StreamEnd) {pieces : List (List UInt8)}
    (hpieces : pieces.flatten <+: wire frames) : ∃ heard unfinished, heard <+: frames ∧
      streamAnswer viaDouble closing pieces = (upToTerminal (heard.filterMap (·.onPhone)),
        endsAs closing unfinished (heard.filterMap (·.onPhone))) ∧
      (pieces.flatten = wire frames → heard = frames ∧ unfinished = false) := by
  obtain ⟨st, part, heard, hpart, hhead, hheard, hframes, hall⟩ := exists_heard hpieces
  refine ⟨heard, st.isSome, hheard, ?_, fun h => ?_⟩
  · rw [streamAnswer_eq hpart hhead, hframes,
      filterMap_eventOf viaDouble fun f hf => hrange f (hheard.subset hf)]
  · obtain ⟨rfl, rfl⟩ := hall h
    exact ⟨rfl, rfl⟩

/-- **What the phone receives of the server's bytes.**  However they are cut, and wherever they
break off, the events are a beginning of the frames the phone can read, up to the first terminal
one; when all bytes arrived, the events are all of these, and the stream ends with the terminal
event or as the response does. -/
theorem streamAnswer_wire {frames : List StreamFrame} (hrange : ∀ f ∈ frames, f.InRange)
    (viaDouble : Json.NumberLiteral → Option ℤ) (closing : StreamEnd) {pieces : List (List UInt8)}
    (hpieces : pieces.flatten <+: wire frames) :
    (streamAnswer viaDouble closing pieces).1 <+: upToTerminal (frames.filterMap (·.onPhone)) ∧
    (pieces.flatten = wire frames →
      streamAnswer viaDouble closing pieces = (upToTerminal (frames.filterMap (·.onPhone)),
        endsAs closing false (frames.filterMap (·.onPhone)))) := by
  obtain ⟨heard, unfinished, hheard, heq, hall⟩ :=
    streamAnswer_heard hrange viaDouble closing hpieces
  rw [heq]
  refine ⟨upToTerminal_mono (hheard.filterMap _), fun h => ?_⟩
  obtain ⟨rfl, rfl⟩ := hall h
  rfl

/-- A heartbeat, an accented letter, a text with a line separator, and an answer without a
source. -/
def separatorFrames : List StreamFrame :=
  [.ping, .chat (.token [0xE9]), .chat (.token [0x2028]), .chat (.done false [] 3), .ping]

/-- The bytes are cut inside the accented letter; the other text is lost. -/
theorem streamAnswer_wire_separator : streamAnswer (fun _ => none) .closed
    [(wire separatorFrames).take 37, (wire separatorFrames).drop 37] =
      ([.tokenChunk [0xE9], .streamDone false []], .closed) := by
  have hrange : ∀ f ∈ separatorFrames, f.InRange := by simp [separatorFrames, StreamFrame.InRange]
  have hevents : separatorFrames.filterMap (·.onPhone) =
      [.tokenChunk [0xE9], .streamDone false []] := by decide +kernel
  have hcut : ∀ bytes : List UInt8, [bytes.take 37, bytes.drop 37].flatten = bytes := by simp
  have hall := hcut (wire separatorFrames)
  rw [(streamAnswer_wire hrange _ _ (List.prefix_rfl.trans (by rw [hall]))).2 hall, hevents]
  rfl

end Mobile

import SupportAgent.Chat.Sse
import SupportAgent.Chat.SpecialTokens
import SupportAgent.Chat.Stream
import SupportAgent.Machinery.Utf8Decoder

/-!
# Chat/Wire — the frames of a chat stream as bytes

What `res.write` sends for each frame of a stream: the payload as JSON, the event around it, the
UTF-8 of that text.

* `decimal_value`, `isNumber_decimal` — numbers are written in decimal digits.
* `wire_eq` — the bytes of a stream are the bytes of its text.
* `run_wire` — and they decode to it.
* `exists_heard` — a client hears a beginning of the frames in a beginning of their bytes.
* `reads_pieces` — what a client makes of pieces follows from what it makes of one more piece.
-/

open JsString

/-! ## Numbers -/

namespace Json

/-- A natural number below 10²¹, as `JSON.stringify` writes it. -/
def decimal (n : ℕ) : JsString := js (toString n)

theorem utf16_digitChar {n : ℕ} (h : n < 10) : utf16 n.digitChar = [UInt16.ofNat (0x30 + n)] := by
  interval_cases n <;> rfl

theorem decimal_of_lt {n : ℕ} (h : n < 10) : decimal n = [UInt16.ofNat (0x30 + n)] := by
  rw [decimal, js, Nat.toString_eq_repr, Nat.toList_repr, Nat.toDigits_of_lt_base h,
    List.flatMap_singleton, utf16_digitChar h]

theorem decimal_of_ge {n : ℕ} (h : 10 ≤ n) :
    decimal n = decimal (n / 10) ++ [UInt16.ofNat (0x30 + n % 10)] := by
  rw [decimal, decimal, js, js, Nat.toString_eq_repr, Nat.toString_eq_repr, Nat.toList_repr,
    Nat.toList_repr, Nat.toDigits_of_base_le (by decide) h, List.flatMap_append,
    List.flatMap_singleton, utf16_digitChar (Nat.mod_lt _ (by decide))]

/-- A digit other than zero. -/
theorem step_start_digit {n : ℕ} (hpos : 0 < n) (h : n < 10) :
    NumberState.start.step (UInt16.ofNat (0x30 + n)) = some .integer := by
  interval_cases n <;> rfl

theorem step_integer_digit {n : ℕ} (h : n < 10) :
    NumberState.integer.step (UInt16.ofNat (0x30 + n)) = some .integer := by
  interval_cases n <;> rfl

theorem foldlM_decimal {n : ℕ} (hpos : 0 < n) :
    (decimal n).foldlM NumberState.step .start = some .integer := by
  induction n using Nat.strongRecOn with
  | _ n ih =>
    obtain hlt | hge := Nat.lt_or_ge n 10
    · rw [decimal_of_lt hlt, List.foldlM_cons, step_start_digit hpos hlt]
      rfl
    · rw [decimal_of_ge hge, List.foldlM_append,
        ih _ (Nat.div_lt_self hpos (by decide)) (Nat.div_pos hge (by decide))]
      change List.foldlM _ _ _ = _
      rw [List.foldlM_cons, step_integer_digit (Nat.mod_lt _ (by decide))]
      rfl

theorem isNumber_decimal (n : ℕ) : isNumber (decimal n) = true := by
  obtain rfl | hpos := Nat.eq_zero_or_pos n
  · rfl
  · rw [isNumber, foldlM_decimal hpos]
    rfl

/-- A natural number. -/
def ofNat (n : ℕ) : Json := .num ⟨decimal n, isNumber_decimal n⟩

/-- **The digits of a number spell it.** -/
theorem digitsValue_decimal (n : ℕ) : digitsValue (decimal n) = n := by
  have hdigit : ∀ k < 10, (UInt16.ofNat (0x30 + k)).toNat - 0x30 = k := by
    intro k hk
    interval_cases k <;> rfl
  induction n using Nat.strongRecOn with
  | _ n ih =>
    obtain hlt | hge := Nat.lt_or_ge n 10
    · rw [decimal_of_lt hlt, digitsValue, List.foldl_cons, List.foldl_nil, hdigit n hlt]
      omega
    · have hfront := ih (n / 10) (Nat.div_lt_self (by omega) (by decide))
      rw [digitsValue] at hfront
      rw [decimal_of_ge hge, digitsValue, List.foldl_append, hfront, List.foldl_cons,
        List.foldl_nil, hdigit _ (Nat.mod_lt _ (by decide))]
      omega

theorem isDigit_of_mem_decimal {n : ℕ} {c : UInt16} (h : c ∈ decimal n) : isDigit c = true :=
  isDigit_of_mem_toString h

/-- A value that may be null. -/
def orNull {α : Type} (f : α → Json) : Option α → Json
  | none => .null
  | some a => f a

theorem distinctKeys_ofNat (n : ℕ) : (ofNat n).DistinctKeys := trivial

theorem distinctKeys_str (s : JsString) : (Json.str s).DistinctKeys := trivial

theorem distinctKeys_orNull {α : Type} {f : α → Json} (h : ∀ a, (f a).DistinctKeys) :
    ∀ o, (orNull f o).DistinctKeys
  | none => trivial
  | some a => h a

end Json

/-! ## Payloads -/

open Json

/-- A citation of the `done` event. -/
def Citation.entries (c : Citation) : List (JsString × Json) := [
  (js "marker", .ofNat c.marker),
  (js "document_id", .str c.documentId.text),
  (js "title", .str c.title),
  (js "page", orNull .ofNat c.page),
  (js "section", orNull .str c.sectionText),
  (js "char_start", orNull .ofNat c.charStart),
  (js "char_end", orNull .ofNat c.charEnd),
  (js "snippet", .str c.snippet)]

def Citation.json (c : Citation) : Json := .obj c.entries

/-- The payload of a token. -/
def tokenData (text : JsString) : Json := .obj [(js "text", .str text)]

/-- The payload of the `done` event. -/
def doneData (grounded : Bool) (citations : List Citation) (latencyMs : ℕ) : Json :=
  .obj [
    (js "grounded", .bool grounded),
    (js "citations", .arr (citations.map Citation.json)),
    (js "latency_ms", .ofNat latencyMs)]

theorem Citation.distinctKeys_json (c : Citation) : c.json.DistinctKeys := by
  have hnodup : ([js "marker", js "document_id", js "title", js "page", js "section",
      js "char_start", js "char_end", js "snippet"] : List JsString).Nodup := by decide +kernel
  exact ⟨hnodup, trivial, trivial, trivial, distinctKeys_orNull distinctKeys_ofNat _,
    distinctKeys_orNull distinctKeys_str _, distinctKeys_orNull distinctKeys_ofNat _,
    distinctKeys_orNull distinctKeys_ofNat _, trivial, trivial⟩

theorem distinctKeys_tokenData (text : JsString) : (tokenData text).DistinctKeys :=
  ⟨List.nodup_singleton _, trivial, trivial⟩

theorem distinctKeys_doneData (grounded : Bool) (citations : List Citation) (latencyMs : ℕ) :
    (doneData grounded citations latencyMs).DistinctKeys := by
  have hnodup : ([js "grounded", js "citations", js "latency_ms"] : List JsString).Nodup := by
    decide +kernel
  have hitems : Json.itemsDistinct (citations.map Citation.json) := by
    induction citations with
    | nil => trivial
    | cons c citations ih => exact ⟨c.distinctKeys_json, ih⟩
  exact ⟨hnodup, trivial, hitems, trivial, trivial⟩

/-- The payload of an answer the provider broke off. -/
def failureData (retryable : Bool) : Json :=
  .obj [(js "message", .str (js "generation failed")), (js "retryable", .bool retryable)]

theorem distinctKeys_failureData (retryable : Bool) : (failureData retryable).DistinctKeys := by
  have hnodup : ([js "message", js "retryable"] : List JsString).Nodup := by decide +kernel
  exact ⟨hnodup, trivial, trivial, trivial⟩

/-- What is written for an event of the answer. -/
def ChatFrame.written : ChatFrame → Written
  | .token text => .event .token (tokenData text) (distinctKeys_tokenData text)
  | .done grounded citations latencyMs =>
    .event .done (doneData grounded citations latencyMs)
      (distinctKeys_doneData grounded citations latencyMs)
  | .generationFailed retryable =>
    .event .error (failureData retryable) (distinctKeys_failureData retryable)
  | .internalError =>
    .event .error (.obj [(js "message", .str (js "internal error"))])
      ⟨List.nodup_singleton _, trivial, trivial⟩

/-- What is written for a frame of the stream. -/
def StreamFrame.written : StreamFrame → Written
  | .ping => .heartbeat
  | .chat frame => frame.written
  | .timeout =>
    .event .error (.obj [(js "message", .str (js "timeout"))])
      ⟨List.nodup_singleton _, trivial, trivial⟩

/-! ## Bytes -/

/-- **The bytes of a stream**: `res.write` encodes frame by frame. -/
def wire (frames : List StreamFrame) : List UInt8 := frames.flatMap fun f => f.written.text.encode

theorem Written.wellFormed_text : ∀ w : Written, WellFormed w.text
  | .event name data _ => by
    have hname : WellFormed name.text := by cases name <;> exact .js _
    exact ((((WellFormed.js _).append hname).append (.js _)).append
      (wellFormed_stringify data)).append (.js _)
  | .heartbeat => .js _

/-- **The bytes of a stream are those of its text.** -/
theorem wire_eq (frames : List StreamFrame) :
    wire frames = (streamText (frames.map (·.written))).encode := by
  rw [streamText, List.flatMap_map, encode_flatMap fun f _ => f.written.wellFormed_text]
  rfl

theorem wellFormed_streamText (ws : List Written) : WellFormed (streamText ws) :=
  .flatMap fun w _ => w.wellFormed_text

/-- **The bytes of a stream are read back as its text.** -/
theorem run_wire (frames : List StreamFrame) : ∃ cs, Utf8.run none (wire frames) = some (none, cs) ∧
    cs.flatMap utf16 = streamText (frames.map (·.written)) := by
  refine ⟨_, ?_, (wellFormed_streamText _).flatMap_scalars⟩
  rw [wire_eq]
  exact Utf8.run_encode _

/-- A stream does not begin with a byte order mark. -/
theorem head_of_flatMap_streamText {frames : List StreamFrame} {cs : List Char}
    (h : cs.flatMap utf16 = streamText (frames.map (·.written))) : cs.head? ≠ some Utf8.BOM := by
  cases cs with
  | nil => exact nofun
  | cons c cs =>
    rintro heq
    obtain rfl : c = Utf8.BOM := Option.some.inj heq
    have hfirst : ∀ w : Written, w.text.head? = some 0x65 ∨ w.text.head? = some 0x3A := by
      rintro (_ | _)
      · exact .inl rfl
      · exact .inr rfl
    cases frames with
    | nil => cases h
    | cons f frames =>
      have hhead := congrArg List.head? h
      rw [List.map_cons, streamText, List.flatMap_cons, List.flatMap_cons] at hhead
      obtain hw | hw := hfirst f.written
      all_goals
        rw [List.head?_append, List.head?_append, hw] at hhead
        exact absurd (Option.some.inj hhead) (by decide)

/-- A beginning of a text gives a beginning of its frames. -/
theorem parseFrames_mono {s t : JsString} (h : s <+: t) :
    (parseFrames s).1 <+: (parseFrames t).1 := by
  obtain ⟨u, rfl⟩ := h
  rw [incremental_parseFrames.append]
  exact List.prefix_append _ _

/-- **What a client hears of a beginning of the bytes** is a beginning of the frames. -/
theorem exists_heard {frames : List StreamFrame} {bytes : List UInt8} (h : bytes <+: wire frames) :
    ∃ st part heard, Utf8.run none bytes = some (st, part) ∧ part.head? ≠ some Utf8.BOM ∧
      heard <+: frames ∧
      (parseFrames (part.flatMap utf16)).1 = (heard.map (·.written)).filterMap (·.frame) ∧
      (bytes = wire frames → heard = frames ∧ st = none) := by
  obtain ⟨cs, hwire, htext⟩ := run_wire frames
  have hbom := head_of_flatMap_streamText htext
  have hframes : (parseFrames (cs.flatMap utf16)).1 = frames.filterMap fun f =>
      f.written.frame := by
    rw [htext, parseFrames_streamText, List.filterMap_map]
    rfl
  by_cases hall : bytes = wire frames
  · refine ⟨none, cs, frames, hall ▸ hwire, hbom, List.prefix_rfl, ?_, fun _ => ⟨rfl, rfl⟩⟩
    rw [hframes, List.filterMap_map]
    rfl
  · obtain ⟨st, part, hpart, hfront⟩ := Utf8.run_of_isPrefix h hwire
    obtain ⟨tail, htail⟩ := parseFrames_mono (s := part.flatMap utf16) (t := cs.flatMap utf16) (by
      obtain ⟨rest, rfl⟩ := hfront
      rw [List.flatMap_append]
      exact List.prefix_append _ _)
    rw [hframes] at htail
    obtain ⟨heard, rest, rfl, hheard, -⟩ := List.filterMap_eq_append_iff.1 htail.symm
    refine ⟨st, part, heard, hpart, Utf8.head_of_isPrefix hfront hbom, List.prefix_append _ _, ?_,
      fun h => absurd h hall⟩
    rw [← hheard, List.filterMap_map]
    rfl

/-! ## Piece by piece -/

section

-- what a client makes of its pieces, with its decoder and its buffer, and of the text they add
variable {motive : Utf8.Decoder → JsString → List (List UInt8) → JsString → Prop}
  {st : Option Utf8.Unfinished} {all : List Char}
  (nil : ∀ decoder buffer, decoder.state = st → parseFrames buffer = ([], buffer) →
    motive decoder buffer [] [])
  (cons : ∀ decoder buffer piece pieces text decoder' more,
    decoder.convert piece = some (text, decoder') →
    motive decoder' (parseFrames (buffer ++ text)).2 pieces more →
    motive decoder buffer (piece :: pieces) (text ++ more))

include nil cons

/-- A client that has read some bytes goes on from the text left over of them. -/
theorem reads_pieces_from {pieces : List (List UInt8)} {decoder : Utf8.Decoder} {read : List UInt8}
    {cs : List Char} (hd : decoder.Has read cs)
    (hall : Utf8.run none (read ++ pieces.flatten) = some (st, all))
    (hbom : all.head? ≠ some Utf8.BOM) : ∃ text, all.flatMap utf16 = cs.flatMap utf16 ++ text ∧
      motive decoder (parseFrames (cs.flatMap utf16)).2 pieces text := by
  induction pieces generalizing decoder read cs with
  | nil =>
    rw [List.flatten_nil, List.append_nil, hd.1] at hall
    obtain ⟨hst, rfl⟩ := Prod.mk.inj (Option.some.inj hall)
    exact ⟨[], (List.append_nil _).symm, nil _ _ hst (incremental_parseFrames.rest _)⟩
  | cons piece pieces ih =>
    rw [List.flatten_cons, ← List.append_assoc] at hall
    obtain ⟨st₁, mid, hmid, hfront⟩ := Utf8.run_of_isPrefix (List.prefix_append _ _) hall
    have hhead : mid.head? ≠ some Utf8.BOM := Utf8.head_of_isPrefix hfront hbom
    obtain ⟨text, decoder', hconvert, hd', htext⟩ := Utf8.Decoder.convert_of_has hd hmid hhead
    obtain ⟨more, hmore, hrest⟩ := ih hd' hall
    -- parsing goes on from the rest of the text so far
    have hsame : (parseFrames ((parseFrames (cs.flatMap utf16)).2 ++ text)).2 =
        (parseFrames (mid.flatMap utf16)).2 := by
      rw [htext, incremental_parseFrames.append (cs.flatMap utf16) text]
    refine ⟨text ++ more, by rw [hmore, htext, List.append_assoc], cons _ _ _ _ _ _ _ hconvert ?_⟩
    rwa [hsame]

/-- **However the bytes are cut**: what holds at the end, and with one more piece, holds of all the
pieces and of the one text their bytes are. -/
theorem reads_pieces {pieces : List (List UInt8)}
    (hall : Utf8.run none pieces.flatten = some (st, all)) (hbom : all.head? ≠ some Utf8.BOM) :
    motive {} [] pieces (all.flatMap utf16) := by
  obtain ⟨text, htext, hread⟩ := reads_pieces_from nil cons Utf8.Decoder.has_nil hall hbom
  obtain rfl : all.flatMap utf16 = text := htext
  rw [List.flatMap_nil, incremental_parseFrames.nil] at hread
  exact hread

end

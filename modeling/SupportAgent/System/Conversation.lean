import SupportAgent.Chat.Gate
import SupportAgent.Mobile.ChatRepository

/-!
# System/Conversation — from the words of the model to the transcript on the phone

An `Exchange` is one question on its way: the stream the server runs for it, and the pieces its
bytes arrive in.  The bloc hears a beginning of the events these bytes make, and the verdicts of its
transcript are those it has heard (`ChatBloc.Backed`).

* `transcript_backed` — every answer in the transcript comes right after its question; one with
  citations, or shown as grounded, has the server's own; and where the model wrote no line
  separator, it is a beginning of what was said for the question, and all of it with a verdict.
-/

open Async Ingestion JsString

namespace Mobile

/-! ## What a handler has heard -/

/-- The event a move gives to handler `i`. -/
def Move.eventFor (i : ℕ) : Move → Option ChatStreamEvent
  | .data j event => if j = i then some event else none
  | _ => none

/-- The events handler `i` has received. -/
def delivered (moves : List Move) (i : ℕ) : List ChatStreamEvent :=
  moves.filterMap (Move.eventFor i)

/-- The text of a chunk. -/
def ChatStreamEvent.text : ChatStreamEvent → JsString
  | tokenChunk text => text
  | _ => []

/-- The text the events spell. -/
def spoken (events : List ChatStreamEvent) : JsString := events.flatMap (·.text)

/-- Citations and a verdict are those of a `done`, or of an answer without one. -/
def Cited (events : List ChatStreamEvent) (citations : List Citation) (grounded : Bool) : Prop :=
  .streamDone grounded citations ∈ events ∨ citations = [] ∧ grounded = false

theorem spoken_append (xs ys : List ChatStreamEvent) : spoken (xs ++ ys) = spoken xs ++ spoken ys :=
  List.flatMap_append ..

theorem delivered_cons (move : Move) (moves : List Move) (i : ℕ) :
    delivered (move :: moves) i = (move.eventFor i).toList ++ delivered moves i := by
  rw [delivered, List.filterMap_cons]
  cases move.eventFor i <;> rfl

/-- What was received for a question is the text of the events. -/
theorem received_eq_spoken (moves : List Move) (i : ℕ) :
    received moves i = spoken (delivered moves i) := by
  induction moves with
  | nil => rfl
  | cons move moves ih =>
    have hmove : move.chunkFor i = spoken (move.eventFor i).toList := by
      obtain _ | _ | _ | ⟨j, text | _ | _⟩ | _ | _ := move
      case data.tokenChunk =>
        rw [Move.chunkFor, Move.eventFor]
        split
        · exact (List.append_nil text).symm
        · rfl
      case data.streamDone | data.streamErrorFrame =>
        rw [Move.eventFor]
        split <;> rfl
      all_goals rfl
    rw [delivered_cons, spoken_append, ← hmove, ← ih]
    rfl

theorem Cited.mono {xs ys : List ChatStreamEvent} (h : xs ⊆ ys) {citations : List Citation}
    {grounded : Bool} (hc : Cited xs citations grounded) : Cited ys citations grounded := by
  obtain hc | hc := hc
  · exact .inl (h hc)
  · exact .inr hc

namespace ChatBloc

/-- **What the verdicts rest on**: those of a handler are what it has heard. -/
def Backed (heard : ℕ → List ChatStreamEvent) (b : ChatBloc) : Prop :=
  ∀ (i : ℕ) h, b.handlers[i]? = some h → Cited (heard i) h.citations h.grounded

variable {heard heard' : ℕ → List ChatStreamEvent} {b b' : ChatBloc} {i : ℕ} {h : SendHandler}

theorem Backed.start : Backed (fun _ => []) {} := fun _ _ hi => nomatch hi

/-- **A handler goes on**, with the events it hears. -/
theorem Backed.update (hb : b.Backed heard) (hi : b.handlers[i]? = some h)
    (hothers : ∀ j, j ≠ i → heard' j = heard j) (h' : SendHandler)
    (hcited : Cited (heard' i) h'.citations h'.grounded) (emitted : Option ChatState) :
    (b.update i h' emitted).Backed heard' := by
  intro j g hj
  obtain ⟨rfl, rfl⟩ | ⟨hji, hj⟩ := getElem?_update hi hj
  · exact hcited
  · rw [hothers j hji]
    exact hb j g hj

/-- Cancelling the handlers changes nothing they have heard. -/
theorem Backed.cancelHandlers (hb : b.Backed heard) : b.cancelHandlers.Backed heard := by
  intro i g hi
  rw [ChatBloc.cancelHandlers, List.getElem?_map] at hi
  obtain ⟨h, hh, rfl⟩ := Option.map_eq_some_iff.1 hi
  exact hb i h hh

/-- A new question has no verdict. -/
theorem Backed.onSend (hb : b.Backed heard) (question : JsString) :
    (b.onSend question).Backed heard := by
  intro i h hi
  have hhandlers : (b.onSend question).handlers = b.cancelHandlers.handlers ++
      [({} : SendHandler)] :=
    rfl
  rw [hhandlers, List.getElem?_append] at hi
  split at hi
  · exact hb.cancelHandlers i h hi
  · obtain ⟨hlt, rfl⟩ := List.getElem?_eq_some_iff.1 hi
    rw [List.getElem_singleton]
    exact .inr ⟨rfl, rfl⟩

/-- **A stream event is heard.** -/
theorem Backed.data (hb : b.Backed heard) {event : ChatStreamEvent}
    (hstep : b.step (.data i event) = some b') :
    b'.Backed fun j => heard j ++ (Move.eventFor j (.data i event)).toList := by
  obtain ⟨h, hi, -, -, rfl⟩ := step_data hstep
  have hothers : ∀ j, j ≠ i → heard j ++ (Move.eventFor j (.data i event)).toList = heard j := by
    intro j hj
    rw [Move.eventFor, if_neg (Ne.symm hj)]
    exact List.append_nil _
  have hkept := (hb i h hi).mono
    (List.subset_append_left (heard i) (Move.eventFor i (.data i event)).toList)
  cases event with
  | tokenChunk text =>
    refine hb.update hi hothers _ ?_ _
    exact hkept
  | streamErrorFrame message =>
    refine hb.update hi hothers _ ?_ _
    exact hkept
  | streamDone grounded citations =>
    refine hb.update hi hothers _ (.inl (List.mem_append_right _ ?_)) _
    rw [Move.eventFor, if_pos rfl]
    exact List.mem_singleton_self _

/-- **Every move keeps the verdicts backed.** -/
theorem Backed.step (hb : b.Backed heard) {move : Move} (hstep : b.step move = some b') :
    b'.Backed fun j => heard j ++ (move.eventFor j).toList := by
  have hsilent : (∀ j, move.eventFor j = none) → b'.Backed heard →
      b'.Backed fun j => heard j ++ (move.eventFor j).toList := by
    intro hnone hb' j h hj
    dsimp only
    rw [hnone, Option.toList_none, List.append_nil]
    exact hb' j h hj
  cases move with
  | sendMessage question =>
    obtain ⟨-, rfl⟩ := step_sendMessage hstep
    exact hsilent (fun _ => rfl) (hb.onSend question)
  | cancelStream =>
    obtain ⟨-, rfl⟩ := step_cancelStream hstep
    exact hsilent (fun _ => rfl) hb
  | close =>
    cases hstep
    exact hsilent (fun _ => rfl) hb.cancelHandlers
  | data i event => exact hb.data hstep
  | streamEnds i how =>
    obtain ⟨h, hi, -, -, -, rfl⟩ := step_streamEnds hstep
    refine hsilent (fun _ => rfl) (hb.update hi (fun _ _ => rfl) _ ?_ _)
    exact hb i h hi
  | resume i =>
    obtain ⟨h, how, hi, -, rfl⟩ := step_resume hstep
    refine hsilent (fun _ => rfl) (hb.update hi (fun _ _ => rfl) _ ?_ _)
    exact hb i h hi

theorem Backed.run (hb : b.Backed heard) {moves : List Move}
    (hrun : moves.foldlM ChatBloc.step b = some b') :
    b'.Backed fun j => heard j ++ delivered moves j := by
  induction moves generalizing heard b with
  | nil =>
    cases hrun
    have hsame : (fun j => heard j ++ delivered [] j) = heard := funext fun j => List.append_nil _
    rwa [hsame]
  | cons move moves ih =>
    rw [List.foldlM_cons] at hrun
    obtain ⟨b₁, hstep, hrun⟩ := Option.bind_eq_some_iff.1 hrun
    have hnext := ih (hb.step hstep) hrun
    have hsplit : ∀ j, heard j ++ (move.eventFor j).toList ++ delivered moves j =
        heard j ++ delivered (move :: moves) j := by
      intro j
      rw [delivered_cons, List.append_assoc]
    rwa [funext hsplit] at hnext

end ChatBloc

end Mobile

/-! ## What the server says -/

namespace ChatStream

variable {P : Platform} {deps : AppDeps} {assistant : Assistant} {question : JsString}
  {upstream : List AnthropicStreamEvent} {s : ChatStream}

/-- **The whole answer**: nothing in front of the gate, the refusal where it refuses, and past it
the texts of the upstream. -/
def said (assistant : Assistant) (upstream : List AnthropicStreamEvent)
    (s : ChatStream) : JsString :=
  match s.hits with
  | none => []
  | some hits =>
    if (evaluateThreshold hits assistant.refusalThreshold).refuse then REFUSAL_MESSAGE
    else (textDeltas upstream).flatten

/-- What a `done` says of the answer. -/
structure Concluded (P : Platform) (deps : AppDeps) (assistant : Assistant)
    (upstream : List AnthropicStreamEvent) (s : ChatStream) (grounded : Bool)
    (citations : List Citation) : Prop where
  all : (tokenTexts s.written).flatten = s.said assistant upstream
  cites : grounded = true ∨ citations ≠ [] → ∃ hits ctx, s.hits = some hits ∧
    Clears hits assistant.refusalThreshold ∧ assembled P deps hits = .ok ctx ∧ grounded = true ∧
    trim (s.said assistant upstream) ≠ REFUSAL_MESSAGE ∧ citations ≠ [] ∧
    citations = buildCitations (s.said assistant upstream) ctx.sources

variable (upstream) in
theorem said_of_clears {hits : List ChunkHit} (hhits : s.hits = some hits)
    (h : Clears hits assistant.refusalThreshold) :
    s.said assistant upstream = (textDeltas upstream).flatten := by
  rw [said, hhits]
  exact if_neg (by rw [evaluateThreshold_refuse.2 h]; exact Bool.false_ne_true)

theorem said_of_not_clears {hits : List ChunkHit} (hhits : s.hits = some hits)
    (h : ¬ Clears hits assistant.refusalThreshold) :
    s.said assistant upstream = REFUSAL_MESSAGE := by
  rw [← evaluateThreshold_refuse, Bool.not_eq_false] at h
  rw [said, hhits]
  exact if_pos h

/-- The tokens among the events sent. -/
theorem tokenTexts_eq_sent (frames : List StreamFrame) :
    tokenTexts frames = (sent frames).filterMap fun
      | .token text => some text
      | _ => none := by
  rw [tokenTexts, sent, List.filterMap_filterMap]
  refine List.filterMap_congr fun frame _ => ?_
  obtain _ | (_ | _ | _ | _) | _ := frame <;> rfl

theorem mem_sent {frames : List StreamFrame} {frame : ChatFrame} :
    frame ∈ sent frames ↔ .chat frame ∈ frames := by
  rw [sent, List.mem_filterMap]
  constructor
  · rintro ⟨_ | frame' | _, hmem, heq⟩
    · cases heq
    · obtain rfl := Option.some.inj heq
      exact hmem
    · cases heq
  · exact fun hmem => ⟨_, hmem, rfl⟩

/-- **The tokens are a beginning of the answer.** -/
theorem tokens_prefix_said
    (h : Run.Reachable (ChatStream.step P deps assistant question) Run.anyMove
    (· = { unread := upstream }) s) :
    (tokenTexts s.written).flatten <+: s.said assistant upstream := by
  have hgated := gated_of_reachable h
  cases hhits : s.hits with
  | none =>
    have hnone : tokenTexts s.written = [] := by
      rw [tokenTexts_eq_sent, List.filterMap_eq_nil_iff]
      intro frame hframe
      rw [hgated.waiting hhits frame hframe]
    rw [hnone]
    exact List.nil_prefix
  | some hits =>
    by_cases hclears : Clears hits assistant.refusalThreshold
    · rw [said_of_clears upstream hhits hclears]
      obtain hopen | ⟨body, last, hclosed⟩ := sound_of_reachable h
      · exact hopen.isPrefix.flatten
      · rw [hclosed.tokenTexts_eq]
        exact (hclosed.relayed hits hhits hclears).1.flatten
    · obtain ⟨-, latencyMs, hsent⟩ := hgated.refused hits hhits hclears
      rw [said_of_not_clears hhits hclears, tokenTexts_eq_sent, hsent]
      change REFUSAL_MESSAGE ++ [] <+: REFUSAL_MESSAGE
      rw [List.append_nil]

/-- **A `done` concludes the answer.** -/
theorem concluded_of_done (h : Run.Reachable (ChatStream.step P deps assistant question) Run.anyMove
    (· = { unread := upstream }) s) {grounded : Bool} {citations : List Citation} {latencyMs : ℕ}
    (hdone : .chat (.done grounded citations latencyMs) ∈ s.written) :
    s.Concluded P deps assistant upstream grounded citations := by
  have hgated := gated_of_reachable h
  cases hhits : s.hits with
  | none => cases hgated.waiting hhits _ (mem_sent.2 hdone)
  | some hits =>
    by_cases hclears : Clears hits assistant.refusalThreshold
    · obtain ⟨body, hclosed⟩ := (sound_of_reachable h).of_done hdone
      obtain ⟨hall, ctx, hctx, hlast⟩ := (hclosed.relayed hits hhits hclears).2 _ _ _ rfl
      have hsaid := said_of_clears upstream hhits hclears
      refine ⟨by rw [hclosed.tokenTexts_eq, hall, hsaid], fun hcites => ?_⟩
      rw [← hsaid, doneFrame] at hlast
      obtain ⟨hgrounded, hcitations, -⟩ := ChatFrame.done.inj hlast
      cases hrefused : trim (s.said assistant upstream) == REFUSAL_MESSAGE with
      | true =>
        rw [hrefused] at hgrounded hcitations
        rw [if_pos rfl] at hcitations
        exact absurd hcites (by simp [hgrounded, hcitations])
      | false =>
        rw [hrefused] at hgrounded hcitations
        rw [if_neg Bool.false_ne_true] at hcitations
        have hne : citations ≠ [] := by
          rintro rfl
          rw [← hcitations] at hgrounded
          exact absurd hcites (by simp [hgrounded])
        refine ⟨hits, ctx, hhits, hclears, hctx, ?_, ne_of_beq_false hrefused, hne, hcitations⟩
        rw [if_neg Bool.false_ne_true, ← hcitations] at hgrounded
        rw [hgrounded, List.isEmpty_eq_false_iff.2 hne]
        rfl
    · obtain ⟨-, l, hsent⟩ := hgated.refused hits hhits hclears
      have hmem := mem_sent.2 hdone
      rw [hsent] at hmem
      obtain ⟨rfl, rfl, -⟩ : grounded = false ∧ citations = [] ∧ latencyMs = l := by
        simpa using hmem
      refine ⟨?_, fun hcites => absurd hcites (by simp)⟩
      rw [said_of_not_clears hhits hclears, tokenTexts_eq_sent, hsent]
      exact List.append_nil _

end ChatStream

/-! ## The events of an exchange -/

/-- A frame that ends no stream is no terminal event. -/
theorem StreamFrame.terminal_onPhone {frame : StreamFrame} (h : frame.terminal = false) :
    ∀ event ∈ frame.onPhone, event.terminal = false := by
  intro event hevent
  obtain _ | (text | _ | _ | _) | _ := frame
  · cases hevent
  · rw [StreamFrame.onPhone] at hevent
    split at hevent
    · obtain rfl := Option.some.inj hevent
      rfl
    · cases hevent
  all_goals cases h

theorem ChatStream.Plain.terminal_onPhone {frames : List StreamFrame}
    (h : ChatStream.Plain frames) : (frames.filterMap (·.onPhone)).any (·.terminal) = false := by
  rw [List.any_eq_false]
  intro event hevent
  obtain ⟨frame, hframe, hevent⟩ := List.mem_filterMap.1 hevent
  rw [StreamFrame.terminal_onPhone (h frame hframe) event hevent]
  exact Bool.false_ne_true

namespace Mobile

/-- A list whose only terminal event is its last is kept, and a beginning of it with a terminal
event is all of it. -/
theorem upToTerminal_of_last {xs ys : List ChatStreamEvent} (hxs : xs.any (·.terminal) = false)
    (hys : ys.length ≤ 1) : upToTerminal (xs ++ ys) = xs ++ ys := by
  rw [upToTerminal_append, hxs, if_neg Bool.false_ne_true]
  obtain _ | ⟨y, _ | _⟩ := ys
  · rfl
  · rw [upToTerminal]
    split <;> rfl
  · rw [List.length_cons, List.length_cons] at hys
    omega

theorem eq_of_isPrefix_of_terminal {xs ys events : List ChatStreamEvent}
    (hxs : xs.any (·.terminal) = false) (hys : ys.length ≤ 1) (h : events <+: xs ++ ys)
    (hterminal : events.any (·.terminal) = true) : events = xs ++ ys := by
  obtain ⟨rest, hrest⟩ := h
  obtain rfl | ⟨rest, event, rfl⟩ := rest.eq_nil_or_concat'
  · rw [List.append_nil] at hrest
    exact hrest
  -- otherwise they are all among `xs`
  · exfalso
    have hbefore : events <+: xs := by
      obtain _ | ⟨y, _ | _⟩ := ys
      · rw [List.append_nil] at hrest
        exact ⟨_, hrest⟩
      · rw [← List.append_assoc] at hrest
        obtain ⟨heq, -⟩ := List.append_inj' hrest rfl
        exact ⟨_, heq⟩
      · rw [List.length_cons, List.length_cons] at hys
        omega
    obtain ⟨tail, rfl⟩ := hbefore
    rw [List.any_append, hterminal] at hxs
    cases hxs

/-- What the phone hears of frames whose texts have no line separator. -/
theorem spoken_onPhone {frames : List StreamFrame}
    (h : ∀ text ∈ ChatStream.tokenTexts frames, (tokenData text).LineSafeStrings) :
    spoken (frames.filterMap (·.onPhone)) = (ChatStream.tokenTexts frames).flatten := by
  induction frames with
  | nil => rfl
  | cons frame frames ih =>
    have htail : ∀ text ∈ ChatStream.tokenTexts frames, (tokenData text).LineSafeStrings := by
      intro text htext
      refine h text ?_
      obtain ⟨frame', hmem, heq⟩ := List.mem_filterMap.1 htext
      exact List.mem_filterMap.2 ⟨frame', List.mem_cons_of_mem _ hmem, heq⟩
    have hrest := ih htail
    obtain _ | (text | ⟨grounded, citations, latencyMs⟩ | _ | _) | _ := frame
    · exact hrest
    · have hsafe : (tokenData text).LineSafeStrings := h text List.mem_cons_self
      have hframe : StreamFrame.onPhone (.chat (.token text)) = some (.tokenChunk text) :=
        if_pos hsafe
      rw [List.filterMap_cons_some hframe]
      exact congrArg (text ++ ·) hrest
    · rw [List.filterMap_cons, StreamFrame.onPhone]
      split
      · exact hrest
      · rename_i event heq
        split at heq
        · obtain rfl := Option.some.inj heq
          exact hrest
        · cases heq
    all_goals exact hrest

end Mobile

/-! ## Exchanges -/

theorem Json.lineSafe_of_all {s : JsString} (h : s.all (!Json.isSeparator ·) = true) :
    Json.LineSafe s := fun c hc => by simpa using List.all_eq_true.1 h c hc

/-- **One question on its way**: the stream of the server, and the pieces the phone got of its
bytes.  The column of a page holds 32 bits. -/
structure Exchange (P : Platform) (deps : AppDeps) (assistant : Assistant) where
  question : JsString
  upstream : List AnthropicStreamEvent
  server : ChatStream
  reachable : Run.Reachable (ChatStream.step P deps assistant question) Run.anyMove
    (· = { unread := upstream }) server
  pieces : List (List UInt8)
  closing : Mobile.StreamEnd
  arrives : pieces.flatten <+: wire server.written
  pages : ∀ hits, server.hits = some hits → ∀ hit ∈ hits, ∀ p ∈ hit.page, p < 2 ^ 31

namespace Exchange

variable {P : Platform} {deps : AppDeps} {assistant : Assistant}
  {viaDouble : Json.NumberLiteral → Option ℤ}

/-- The events the phone makes of an exchange. -/
def events (viaDouble : Json.NumberLiteral → Option ℤ) (e : Exchange P deps assistant) :
    List Mobile.ChatStreamEvent := (Mobile.streamAnswer viaDouble e.closing e.pieces).1

/-- The whole answer to its question. -/
def said (e : Exchange P deps assistant) : JsString := e.server.said assistant e.upstream

/-- No text of the model holds a line separator. -/
def LineSafe (e : Exchange P deps assistant) : Prop :=
  ∀ text ∈ ChatStream.textDeltas e.upstream, Json.LineSafe text

end Exchange

/-- At most five sources are numbered. -/
theorem length_assembleSources {tok : Tokenizer} {options : AssembleOptions} {k : ℕ}
    (hmax : options.maxSources = .ofNat k) {hits : List ChunkHit}
    {sources result : List AssembledSource} {usedTokens : ℕ} (hsources : sources.length ≤ k)
    (h : assembleSources tok options hits sources usedTokens = .ok result) : result.length ≤ k := by
  induction hits generalizing sources usedTokens with
  | nil =>
    obtain rfl := Except.ok.inj h
    exact hsources
  | cons hit hits ih =>
    obtain ⟨rfl, -⟩ | ⟨content, n, hroom, -, hrest⟩ := assembleSources_cases h
    · exact hsources
    · rw [hmax] at hroom
      have hlt : sources.length < k := by
        by_contra hge
        rw [JsNumber.ofNat_le_ofNat.2 (not_lt.1 hge)] at hroom
        cases hroom
      refine ih ?_ hrest
      rw [List.length_append]
      exact hlt

/-- **The citations of an answer are numbers the phone reads.** -/
theorem inRange_buildCitations {P : Platform} {deps : AppDeps} {hits : List ChunkHit}
    {ctx : AssembledContext} (hctx : assembled P deps hits = .ok ctx)
    (hpages : ∀ hit ∈ hits, ∀ p ∈ hit.page, p < 2 ^ 31) (answer : JsString) :
    ∀ c ∈ buildCitations answer ctx.sources, c.InRange := by
  intro c hc
  obtain ⟨source, hsource, rfl⟩ := List.mem_map.1 hc
  have hmem : source ∈ ctx.sources := (List.mem_filter.1 hsource).1
  constructor
  · have hlength : ctx.sources.length ≤ 5 := by
      obtain ⟨sources, hsources, hrest⟩ := Except.bind_eq_ok.mp hctx
      obtain ⟨totalTokens, -, hrest⟩ := Except.bind_eq_ok.mp hrest
      obtain rfl := Except.ok.inj hrest
      exact length_assembleSources rfl (Nat.zero_le _) hsources
    have hmarker : source.marker ∈ ctx.sources.map (·.marker) := List.mem_map_of_mem hmem
    rw [markers_assembleContext hctx, List.mem_range'_1] at hmarker
    change source.marker < 2 ^ 63
    omega
  · obtain ⟨hit, hhit, content, heq, -⟩ := ofHit_of_mem_assembleContext hctx source hmem
    intro p hp
    change p ∈ source.page at hp
    rw [heq] at hp
    have := hpages hit hhit p hp
    omega

namespace Exchange

variable {P : Platform} {deps : AppDeps} {assistant : Assistant}
  {viaDouble : Json.NumberLiteral → Option ℤ}

/-- The numbers on the wire of an exchange. -/
theorem inRange (e : Exchange P deps assistant) : ∀ f ∈ e.server.written, f.InRange := by
  intro frame hframe
  obtain _ | (_ | ⟨grounded, citations, latencyMs⟩ | _ | _) | _ := frame
  case chat.done =>
    have hconcluded := ChatStream.concluded_of_done e.reachable hframe
    by_cases hnil : citations = []
    · rw [hnil]
      exact fun _ hc => nomatch hc
    · obtain ⟨hits, ctx, hhits, -, hctx, -, -, -, rfl⟩ := hconcluded.cites (.inr hnil)
      exact inRange_buildCitations hctx (e.pages hits hhits) _
  all_goals trivial

/-- Then no token of the exchange does. -/
theorem lineSafe_tokens {e : Exchange P deps assistant} (hsafe : e.LineSafe) :
    ∀ text ∈ ChatStream.tokenTexts e.server.written, (tokenData text).LineSafeStrings := by
  have hdata : ∀ text, Json.LineSafe text → (tokenData text).LineSafeStrings := by
    intro text htext s hs
    obtain rfl | hs := List.mem_cons.1 (show s ∈ [js "text", text] from hs)
    · exact Json.lineSafe_of_all rfl
    · rw [List.mem_singleton.1 hs]
      exact htext
  have hupstream : ChatStream.tokenTexts e.server.written <+: ChatStream.textDeltas e.upstream →
      ∀ text ∈ ChatStream.tokenTexts e.server.written, (tokenData text).LineSafeStrings :=
    fun hfront text htext => hdata text (hsafe text (hfront.subset htext))
  have hgated := ChatStream.gated_of_reachable e.reachable
  cases hhits : e.server.hits with
  | none =>
    intro text htext
    rw [ChatStream.tokenTexts_eq_sent] at htext
    obtain ⟨frame, hframe, heq⟩ := List.mem_filterMap.1 htext
    rw [hgated.waiting hhits frame hframe] at heq
    cases heq
  | some hits =>
    by_cases hclears : Clears hits assistant.refusalThreshold
    · obtain hopen | ⟨body, last, hclosed⟩ := ChatStream.sound_of_reachable e.reachable
      · exact hupstream hopen.isPrefix
      · refine hupstream ?_
        rw [hclosed.tokenTexts_eq]
        exact (hclosed.relayed hits hhits hclears).1
    · obtain ⟨-, latencyMs, hsent⟩ := hgated.refused hits hhits hclears
      intro text htext
      rw [ChatStream.tokenTexts_eq_sent, hsent] at htext
      rw [List.mem_singleton.1 htext]
      exact hdata _ (Json.lineSafe_of_all (by decide +kernel))

/-- The events of a stream end with the first terminal one. -/
theorem written_onPhone (e : Exchange P deps assistant) : ∃ xs ys : List Mobile.ChatStreamEvent,
    e.server.written.filterMap (·.onPhone) = xs ++ ys ∧ xs.any (·.terminal) = false ∧
      ys.length ≤ 1 := by
  obtain hopen | ⟨body, last, hclosed⟩ := ChatStream.sound_of_reachable e.reachable
  · exact ⟨_, [], (List.append_nil _).symm, hopen.plain.terminal_onPhone, Nat.zero_le _⟩
  · refine ⟨_, _, by rw [hclosed.written, List.filterMap_append],
      hclosed.plain.terminal_onPhone, ?_⟩
    refine (List.length_filterMap_le _ _).trans ?_
    have hending := hclosed.ending
    split at hending
    · rw [hending]
      exact Nat.zero_le _
    · obtain ⟨frame, -, rfl⟩ := hending
      exact le_rfl

/-- What is heard of an exchange is a beginning of the events of its frames. -/
theorem isPrefix_onPhone {e : Exchange P deps assistant} {events : List Mobile.ChatStreamEvent}
    (h : events <+: e.events viaDouble) : events <+: e.server.written.filterMap (·.onPhone) := by
  obtain ⟨xs, ys, hsplit, hxs, hys⟩ := e.written_onPhone
  obtain ⟨part, unfinished, hpart, hevents, -⟩ :=
    Mobile.streamAnswer_heard e.inRange viaDouble e.closing e.arrives
  rw [Exchange.events, hevents] at h
  have hwire := Mobile.upToTerminal_mono (hpart.filterMap (·.onPhone))
  rw [hsplit, Mobile.upToTerminal_of_last hxs hys] at hwire
  exact hsplit ▸ h.trans hwire

/-- **A verdict that is heard** is the server's. -/
theorem concluded {e : Exchange P deps assistant} {events : List Mobile.ChatStreamEvent}
    (h : events <+: e.events viaDouble) {grounded : Bool} {citations : List Mobile.Citation}
    (hdone : .streamDone grounded citations ∈ events) :
    ∃ cs : List Citation, citations = cs.map Citation.onPhone ∧
      e.server.Concluded P deps assistant e.upstream grounded cs := by
  obtain ⟨frame, hframe, heq⟩ := List.mem_filterMap.1 ((isPrefix_onPhone h).subset hdone)
  obtain _ | (text | ⟨g, cs, latencyMs⟩ | _ | _) | _ := frame
  case chat.done =>
    rw [StreamFrame.onPhone] at heq
    split at heq
    · obtain ⟨rfl, rfl⟩ := Mobile.ChatStreamEvent.streamDone.inj (Option.some.inj heq)
      exact ⟨cs, rfl, ChatStream.concluded_of_done e.reachable hframe⟩
    · cases heq
  case chat.token =>
    rw [StreamFrame.onPhone] at heq
    split at heq <;> cases heq
  all_goals cases heq

/-- **The text that is heard**, where the model wrote no line separator, is a beginning of the
answer, and all of it with a verdict. -/
theorem heard {e : Exchange P deps assistant} (hsafe : e.LineSafe)
    {events : List Mobile.ChatStreamEvent} (h : events <+: e.events viaDouble) :
    Mobile.spoken events <+: e.said ∧ ∀ grounded citations,
    .streamDone grounded citations ∈ events →
      Mobile.spoken events = e.said := by
  have hbegins := isPrefix_onPhone h
  have hspoken : Mobile.spoken (e.server.written.filterMap (·.onPhone)) =
      (ChatStream.tokenTexts e.server.written).flatten :=
        Mobile.spoken_onPhone (lineSafe_tokens hsafe)
  refine ⟨?_, fun grounded citations hdone => ?_⟩
  · refine List.IsPrefix.trans ?_ (ChatStream.tokens_prefix_said e.reachable)
    obtain ⟨rest, hrest⟩ := hbegins
    rw [← hspoken, ← hrest, Mobile.spoken_append]
    exact List.prefix_append _ _
  · obtain ⟨xs, ys, hsplit, hxs, hys⟩ := e.written_onPhone
    have hall : events = e.server.written.filterMap (·.onPhone) := by
      rw [hsplit] at hbegins ⊢
      exact Mobile.eq_of_isPrefix_of_terminal hxs hys hbegins (List.any_eq_true.2 ⟨_, hdone, rfl⟩)
    obtain ⟨cs, -, hconcluded⟩ := concluded h hdone
    rw [hall, hspoken]
    exact hconcluded.all

end Exchange

/-! ## The transcript -/

/-- **The transcript on the phone rests on the server.**  Whatever the model sends, however the
callbacks of the streams interleave, wherever their bytes are cut or break off, and whatever
questions, cancels and late handlers the bloc sees: every answer in the transcript comes right after
its question, and one that is shown as grounded, or with a citation, is one that the gate let pass
and that is no refusal, with the citations the server found in it.  Where no text of the model for
that question holds a line separator, it is a beginning of the answer, and all of it in the second
case. -/
theorem transcript_backed {P : Platform} {deps : AppDeps} {assistant : Assistant}
    {viaDouble : Json.NumberLiteral → Option ℤ} {moves : List Mobile.Move} {b : Mobile.ChatBloc}
    (hrun : moves.foldlM Mobile.ChatBloc.step {} = some b)
    (exchange : ℕ → Exchange P deps assistant)
    (hasked : ∀ (i : ℕ) question, (Mobile.questions moves)[i]? = some question →
      (exchange i).question = question)
    (hheard : ∀ i, Mobile.delivered moves i <+: (exchange i).events viaDouble) :
    ∀ before m after, b.state.messages = before ++ m :: after → m.role = .assistant → ∃ i,
      (Mobile.questions moves)[i]? = some (exchange i).question ∧
      before.getLast? = some { role := .user, text := (exchange i).question } ∧
      before.countP (·.role = .user) = i + 1 ∧
      (m.grounded = some true ∨ m.citations ≠ [] →
        m.grounded = some true ∧ m.citations ≠ [] ∧ trim (exchange i).said ≠ REFUSAL_MESSAGE ∧
        ∃ hits ctx, (exchange i).server.hits = some hits ∧ Clears hits assistant.refusalThreshold ∧
          assembled P deps hits = .ok ctx ∧
          m.citations = (buildCitations (exchange i).said ctx.sources).map Citation.onPhone) ∧
      ((exchange i).LineSafe → m.text <+: (exchange i).said ∧
        (m.grounded = some true ∨ m.citations ≠ [] → m.text = (exchange i).said)) := by
  intro before m after hmessages hrole
  have hfaithful := Mobile.ChatBloc.Faithful.start.run hrun
  obtain ⟨answers, htranscript, hanswers⟩ := hfaithful.transcript
  obtain ⟨earlier, question, later, citations, grounded, hquestions, rfl, hanswer, rfl⟩ :=
    Mobile.transcript_split (htranscript.symm.trans hmessages) hrole
  rw [List.nil_append] at hquestions
  have hget : (Mobile.questions moves)[earlier.length]? = some question := by
    rw [hquestions, List.getElem?_append_right le_rfl, Nat.sub_self]
    rfl
  obtain rfl := hasked _ _ hget
  -- the handler that gave the answer, and what it had heard
  have hlt : earlier.length < b.handlers.length := by
    rw [hfaithful.count, List.nil_append, hquestions, List.length_append, List.length_cons]
    omega
  have hhandler := List.getElem?_eq_getElem hlt
  obtain ⟨-, hcitations, hgrounded⟩ := hanswers _ _ hhandler _ hanswer
  have hcited : Mobile.Cited (Mobile.delivered moves earlier.length) citations grounded := by
    have hbacked := Mobile.ChatBloc.Backed.start.run hrun _ _ hhandler
    rw [hcitations, hgrounded] at hbacked
    exact hbacked
  have hverdict : some grounded = some true ∨ citations ≠ [] →
      .streamDone grounded citations ∈ Mobile.delivered moves earlier.length := by
    intro hcites
    obtain hcited | ⟨rfl, rfl⟩ := hcited
    · exact hcited
    · simp at hcites
  refine ⟨earlier.length, hget, List.getLast?_concat, ?_, fun hcites => ?_, fun hsafe => ?_⟩
  · rw [List.countP_append, Mobile.countP_transcript]
    rfl
  · obtain ⟨cs, rfl, hconcluded⟩ := Exchange.concluded (hheard _) (hverdict hcites)
    obtain ⟨hits, ctx, hhits, hclears, hctx, rfl, hrefusal, hne, hbuilt⟩ :=
      hconcluded.cites (hcites.imp Option.some.inj (mt fun hnil => by rw [hnil, List.map_nil]))
    refine ⟨rfl, mt List.map_eq_nil_iff.1 hne, hrefusal, hits, ctx, hhits, hclears, hctx, ?_⟩
    rw [hbuilt]
    rfl
  · have htext : Mobile.received moves earlier.length =
        Mobile.spoken (Mobile.delivered moves earlier.length) :=
      Mobile.received_eq_spoken _ _
    obtain ⟨hfront, hwhole⟩ := Exchange.heard hsafe (hheard earlier.length)
    dsimp only
    rw [List.nil_append, htext]
    exact ⟨hfront, fun hcites => hwhole _ _ (hverdict hcites)⟩

/-! ## A grounded answer -/

deriving instance DecidableEq for Citation
deriving instance DecidableEq for ChatFrame
deriving instance DecidableEq for StreamFrame

/-- The one source of the sample answer. -/
def sampleCitation : Citation where
  marker := 1
  documentId := 10
  title := js "faq.txt"
  page := some 1
  sectionText := none
  charStart := some 0
  charEnd := some 21
  snippet := js "Refunds take 30 days."

/-- What `ChatStream.sampleStreamMoves` write. -/
def sampleFrames : List StreamFrame :=
  [.ping, .chat (.token (js "30 days ")), .ping, .chat (.token (js "[1].")),
    .chat (.done true [sampleCitation] 5)]

/-- A question, and its answer as it comes in. -/
def samplePhoneMoves : List Mobile.Move :=
  [.sendMessage (js "How long?"), .data 0 (.tokenChunk (js "30 days ")),
    .data 0 (.tokenChunk (js "[1].")), .data 0 (.streamDone true [sampleCitation.onPhone])]

/-- The stream of the sample, cut after 60 bytes. -/
theorem exists_sampleExchange : ∃ e : Exchange samplePlatform sampleDeps sampleAssistant,
    e.question = js "How long?" ∧ e.LineSafe ∧
    e.events (fun _ => none) = [.tokenChunk (js "30 days "),
      .tokenChunk (js "[1]."), .streamDone true [sampleCitation.onPhone]] := by
  have hstart : Run.Reachable (ChatStream.step samplePlatform sampleDeps sampleAssistant
      (js "How long?")) Run.anyMove (· = { unread := ChatStream.sampleUpstream })
      { unread := ChatStream.sampleUpstream } := .start rfl
  obtain ⟨s, hreach, hs⟩ := hstart.replay (fun _ _ => true) (fun _ _ _ => trivial)
    ChatStream.sampleStreamMoves (fun s => s.written == sampleFrames &&
      s.hits.all fun hits => hits.all fun hit => hit.page.all (· < 2 ^ 31)) (by decide +kernel)
  obtain ⟨hwritten, hpages⟩ := Bool.and_eq_true_iff.1 hs
  have hwritten := beq_iff_eq.1 hwritten
  have hcut : [(wire s.written).take 60, (wire s.written).drop 60].flatten = wire s.written := by
    simp
  let e : Exchange samplePlatform sampleDeps sampleAssistant := {
    question := js "How long?"
    upstream := ChatStream.sampleUpstream
    server := s
    reachable := hreach
    pieces := [(wire s.written).take 60, (wire s.written).drop 60]
    closing := .closed
    arrives := List.prefix_rfl.trans (by rw [hcut])
    pages := by
      intro hits hhits hit hhit p hp
      rw [hhits, Option.all_some, List.all_eq_true] at hpages
      have hpage := hpages hit hhit
      rw [hp, Option.all_some] at hpage
      exact of_decide_eq_true hpage }
  have hevents : sampleFrames.filterMap (·.onPhone) = [.tokenChunk (js "30 days "),
      .tokenChunk (js "[1]."), .streamDone true [sampleCitation.onPhone]] := by decide +kernel
  have hsafe : (ChatStream.textDeltas ChatStream.sampleUpstream).all
      (·.all (!Json.isSeparator ·)) = true := by decide +kernel
  refine ⟨e, rfl, fun text htext => Json.lineSafe_of_all (List.all_eq_true.1 hsafe text htext), ?_⟩
  obtain ⟨heard, unfinished, -, heq, hall⟩ :=
    Mobile.streamAnswer_heard e.inRange (fun _ => none) e.closing e.arrives
  rw [Exchange.events, heq, (hall hcut).1]
  change Mobile.upToTerminal (s.written.filterMap (·.onPhone)) = _
  rw [hwritten, hevents]
  rfl

theorem transcript_backed_sample : ∃ b, samplePhoneMoves.foldlM Mobile.ChatBloc.step {} = some b ∧
    ∃ (e : Exchange samplePlatform sampleDeps sampleAssistant) (m : Mobile.ChatMessage) (hits : _)
      (ctx : _), b.state.messages = [{ role := .user, text := e.question }, m] ∧
      m.grounded = some true ∧ m.text = js "30 days [1]." ∧ m.text = e.said ∧
      e.server.hits = some hits ∧ Clears hits sampleAssistant.refusalThreshold ∧
      assembled samplePlatform sampleDeps hits = .ok ctx ∧
      m.citations = (buildCitations m.text ctx.sources).map Citation.onPhone := by
  obtain ⟨e, hquestion, hsafe, hevents⟩ := exists_sampleExchange
  let m : Mobile.ChatMessage := {
    role := .assistant
    text := js "30 days [1]."
    citations := [sampleCitation.onPhone]
    grounded := some true }
  have hmessages : (samplePhoneMoves.foldlM Mobile.ChatBloc.step {}).any
      (·.state.messages = [{ role := .user, text := js "How long?" }, m]) = true := by
        decide +kernel
  obtain ⟨b, hrun, hm⟩ := (Option.any_eq_true _ _).1 hmessages
  have hm := of_decide_eq_true hm
  have hheard : ∀ i, Mobile.delivered samplePhoneMoves i <+: e.events fun _ => none := by
    rw [hevents]
    rintro (_ | i)
    · exact List.prefix_rfl
    · exact List.nil_prefix
  have hasked : ∀ (i : ℕ) question, (Mobile.questions samplePhoneMoves)[i]? = some question →
      e.question = question := by
    rintro (_ | i) question h
    · exact hquestion.trans (Option.some.inj h)
    · cases h
  obtain ⟨i, -, -, -, hrests, htext⟩ := transcript_backed hrun (fun _ => e) hasked hheard
    [{ role := .user, text := js "How long?" }] m [] hm rfl
  obtain ⟨-, -, -, hits, ctx, hhits, hclears, hctx, hcitations⟩ := hrests (.inl rfl)
  have hsaid : m.text = e.said := (htext hsafe).2 (.inl rfl)
  exact ⟨b, hrun, e, m, hits, ctx, hquestion ▸ hm, rfl, rfl, hsaid, hhits, hclears, hctx,
    hsaid ▸ hcitations⟩

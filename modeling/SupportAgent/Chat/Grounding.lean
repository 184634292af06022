import SupportAgent.Chat.SpecialTokens
import SupportAgent.Routes.Handlers

/-!
# Chat/Grounding — when the model is asked, and what its answer may cite

After retrieval `POST /chat` decides in three steps: the threshold gate on the best hit, the sources
promoted from the hits, and the citations read off the answer.  `Grounded` says what the three are
to agree on — which hits the model is asked about, and that a marker means the same hit in the
prompt, in the answer and in the citation.

* `grounded_iff` — they do exactly when the hits counted for the prompt are plain: a title, a
  section or a content that shows a special token breaks the answer off before the model is asked.
-/

open Async Ingestion JsString

/-! ## Markers in an answer -/

/-- The answer cites a number: `[`, digits of its value, `]`. -/
def CitesMarker (answer : JsString) (k : ℕ) : Prop :=
  ∃ before digits after : JsString, answer = before ++ 0x5B :: (digits ++ 0x5D :: after) ∧
    digits ≠ [] ∧ (∀ c ∈ digits, isDigit c = true) ∧ digitsValue digits = k

/-- **What `\d+\]` reads** is digits closed by a bracket. -/
theorem markerAt_eq_some {s : JsString} {k : ℕ} : markerAt s = some k ↔
    ∃ digits after : JsString, s = digits ++ 0x5D :: after ∧ digits ≠ [] ∧
      (∀ c ∈ digits, isDigit c = true) ∧ digitsValue digits = k := by
  have hbracket : isDigit 0x5D = false := by decide
  rw [markerAt]
  constructor
  · intro h
    split at h
    case isFalse => cases h
    case isTrue hread =>
      obtain ⟨hne, hclosed⟩ := hread
      obtain ⟨after, hafter⟩ := List.head?_eq_some_iff.1 hclosed
      refine ⟨s.takeWhile isDigit, after, ?_, hne, fun c hc => ?_, Option.some.inj h⟩
      · rw [← hafter, List.takeWhile_append_dropWhile]
      · exact (List.all_takeWhile (p := isDigit) (l := s) |> List.all_eq_true.1) c hc
  · rintro ⟨digits, after, rfl, hne, hdigits, rfl⟩
    have htake : (digits ++ 0x5D :: after).takeWhile isDigit = digits := by
      rw [List.takeWhile_append_of_pos hdigits, List.takeWhile_cons_of_neg (by simp [hbracket]),
        List.append_nil]
    have hdrop : (digits ++ 0x5D :: after).dropWhile isDigit = 0x5D :: after := by
      rw [List.dropWhile_append_of_pos hdigits, List.dropWhile_cons_of_neg (by simp [hbracket])]
    rw [htake, hdrop]
    exact if_pos ⟨hne, rfl⟩

/-- **The markers of an answer are the numbers it cites.** -/
theorem mem_citedMarkers {answer : JsString} {k : ℕ} :
    k ∈ citedMarkers answer ↔ CitesMarker answer k := by
  induction answer with
  | nil =>
    refine ⟨fun h => absurd h List.not_mem_nil, ?_⟩
    rintro ⟨before, digits, after, h, -⟩
    simp at h
  | cons c s ih =>
    rw [citedMarkers, List.mem_append, ih]
    constructor
    · rintro (hk | ⟨before, digits, after, rfl, hdigits⟩)
      · split at hk
        case isFalse => exact absurd hk List.not_mem_nil
        case isTrue hopen =>
          obtain ⟨digits, after, rfl, hdigits⟩ := markerAt_eq_some.1 (Option.mem_toList.1 hk)
          exact ⟨[], digits, after, by rw [hopen]; rfl, hdigits⟩
      · exact ⟨c :: before, digits, after, rfl, hdigits⟩
    · rintro ⟨before, digits, after, h, hdigits⟩
      rcases before with _ | ⟨c', before⟩
      · obtain ⟨rfl, rfl⟩ := List.cons.inj h
        refine .inl ?_
        rw [if_pos rfl]
        exact Option.mem_toList.2 (markerAt_eq_some.2 ⟨digits, after, rfl, hdigits⟩)
      · obtain ⟨rfl, rfl⟩ := List.cons.inj h
        exact .inr ⟨before, digits, after, rfl, hdigits⟩

/-! ## Citations -/

/-- The sources a prompt carries: the hits in its order, numbered from 1 on. -/
structure Numbers (hits : List ChunkHit) (sources : List AssembledSource) : Prop where
  markers : sources.map (·.marker) = List.range' 1 sources.length
  hit : ∀ (i : ℕ) source, sources[i]? = some source → ∃ hit content,
    (promptOrder hits)[i]? = some hit ∧ source = hit.source (i + 1) content

/-- The citation carries the fields of the hit its number stands for. -/
def Citation.Of (hits : List ChunkHit) (c : Citation) : Prop :=
  ∃ hit, (promptOrder hits)[c.marker - 1]? = some hit ∧ c.documentId = hit.documentId ∧
    c.title = hit.title ∧ c.page = hit.page ∧ c.sectionText = hit.sectionText ∧
    c.charStart = hit.charStart ∧ c.charEnd = hit.charEnd

/-- **The citations of an answer**: each source it cites once, in order, and none for a refusal. -/
structure Cites (hits : List ChunkHit) (sources : List AssembledSource) (answer : JsString)
    (citations : List Citation) : Prop where
  increasing : (citations.map (·.marker)).Pairwise (· < ·)
  marker : ∀ k, k ∈ citations.map (·.marker) ↔ trim answer ≠ REFUSAL_MESSAGE ∧
    k ∈ sources.map (·.marker) ∧ CitesMarker answer k
  hit : ∀ c ∈ citations, c.Of hits

section

variable {hits : List ChunkHit} {sources : List AssembledSource} {answer : JsString}

theorem numbers_of_assembleContext {tok : Tokenizer} {options : AssembleOptions}
    {context : AssembledContext} (h : assembleContext tok options hits = .ok context) :
    Numbers hits context.sources where
  markers := markers_assembleContext h
  hit i source hi := by
    obtain ⟨hit, hhit, content, hsource, -⟩ := ofHit_assembleContext h i source hi
    have hmarker : (context.sources.map (·.marker))[i]? = some source.marker := by
      rw [List.getElem?_map, hi]
      rfl
    rw [markers_assembleContext h,
      List.getElem?_range' (List.getElem?_eq_some_iff.1 hi).1] at hmarker
    refine ⟨hit, content, hhit, ?_⟩
    rw [hsource, ← Option.some.inj hmarker]
    congr 1
    omega

/-- The citation of a source points to the source's hit. -/
theorem Numbers.citation_of (h : Numbers hits sources) {source : AssembledSource}
    (hsource : source ∈ sources) : source.citation.Of hits := by
  obtain ⟨i, hi⟩ := List.mem_iff_getElem?.1 hsource
  obtain ⟨hit, content, hhit, rfl⟩ := h.hit i source hi
  exact ⟨hit, hhit, rfl, rfl, rfl, rfl, rfl, rfl⟩

/-- The markers of the citations are those of the sources cited. -/
theorem map_marker_buildCitations : (buildCitations answer sources).map (·.marker) =
    (sources.filter fun s => s.marker ∈ citedMarkers answer).map (·.marker) := by
  rw [buildCitations, List.map_map]
  rfl

/-- **What is built from an answer that is no refusal are its citations.** -/
theorem Numbers.cites_buildCitations (h : Numbers hits sources)
    (hrefused : trim answer ≠ REFUSAL_MESSAGE) :
    Cites hits sources answer (buildCitations answer sources) where
  increasing := by
    rw [map_marker_buildCitations]
    have hsorted : (sources.map (·.marker)).Pairwise (· < ·) := by
      rw [h.markers]
      exact List.pairwise_lt_range'
    exact hsorted.sublist (List.filter_sublist.map _)
  marker k := by
    rw [map_marker_buildCitations, List.mem_map, ← mem_citedMarkers]
    constructor
    · rintro ⟨source, hsource, rfl⟩
      obtain ⟨hmem, hcited⟩ := List.mem_filter.1 hsource
      exact ⟨hrefused, List.mem_map_of_mem hmem, by simpa using hcited⟩
    · rintro ⟨-, hmem, hcited⟩
      obtain ⟨source, hsource, rfl⟩ := List.mem_map.1 hmem
      exact ⟨source, List.mem_filter.2 ⟨hsource, by simpa using hcited⟩, rfl⟩
  hit c hc := by
    obtain ⟨source, hsource, -, rfl⟩ := exists_of_mem_buildCitations hc
    exact h.citation_of hsource

/-- A refusal cites nothing. -/
theorem cites_refusal (hrefused : trim answer = REFUSAL_MESSAGE) :
    Cites hits sources answer [] where
  increasing := List.Pairwise.nil
  marker _ := ⟨fun hk => absurd hk List.not_mem_nil, fun hk => absurd hrefused hk.1⟩
  hit _ hc := absurd hc List.not_mem_nil

/-- **The last frame carries the citations of the answer**, and says whether there are any. -/
theorem Numbers.doneFrame_eq (h : Numbers hits sources) (latencyMs : ℕ) (answer : JsString) :
    ∃ citations, doneFrame sources latencyMs answer = .done (!citations.isEmpty)
      citations latencyMs ∧
      Cites hits sources answer citations := by
  by_cases hrefused : trim answer = REFUSAL_MESSAGE
  · refine ⟨[], ?_, cites_refusal hrefused⟩
    simp [doneFrame, hrefused]
  · refine ⟨buildCitations answer sources, ?_, h.cites_buildCitations hrefused⟩
    simp [doneFrame, hrefused]

/-- **The frames of an answer that ends normally**: its texts, then the last frame. -/
theorem answerFrames_texts (latencyMs : ℕ) (answer : JsString) (texts : List JsString) :
    answerFrames sources latencyMs none answer (texts.map .text ++ [.done]) =
      texts.map .token ++ [doneFrame sources latencyMs (answer ++ texts.flatten)] := by
  induction texts generalizing answer with
  | nil =>
    rw [List.flatten_nil, List.append_nil]
    rfl
  | cons text texts ih =>
    rw [List.map_cons, List.cons_append, answerFrames, ih, List.flatten_cons, List.append_assoc]
    rfl

end

/-! ## The decision -/

/-- **The hits clear the threshold**: there is a best one, and its score is a number at least
that. -/
def Clears (hits : List ChunkHit) (threshold : ℚ) : Prop :=
  ∃ top rest score, hits = top :: rest ∧ top.score = .finite score ∧ threshold ≤ score

/-- The gate lets the hits pass that clear the threshold. -/
theorem evaluateThreshold_refuse {hits : List ChunkHit} {threshold : ℚ} :
    (evaluateThreshold hits threshold).refuse = false ↔ Clears hits threshold := by
  rcases hits with _ | ⟨top, rest⟩
  · constructor
    · intro h
      cases h
    · rintro ⟨top, rest, score, h, -⟩
      cases h
  have hrefuse : (evaluateThreshold (top :: rest) threshold).refuse =
      (!top.score.isFinite || top.score.lt (.finite threshold)) := by
    rw [evaluateThreshold]
    split
    case isTrue h => exact h.symm
    case isFalse h => exact (Bool.not_eq_true _ ▸ h).symm
  rw [hrefuse, Bool.or_eq_false_iff]
  constructor
  · rintro ⟨hfinite, hlt⟩
    cases hscore : top.score with
    | finite score =>
      rw [hscore] at hlt
      exact ⟨top, rest, score, rfl, hscore, not_lt.1 (of_decide_eq_false hlt)⟩
    | _ =>
      rw [hscore] at hfinite
      cases hfinite
  · rintro ⟨top, rest, score, h, hscore, hle⟩
    obtain ⟨rfl, rfl⟩ := List.cons.inj h
    rw [hscore]
    exact ⟨rfl, decide_eq_false (not_lt.2 hle)⟩

section

variable (P : Platform) (deps : AppDeps) (env : Environment) (assistant : Assistant)
  (question : JsString) (hits : List ChunkHit)

/-- `POST /chat` from the hits on. -/
def chatFromHits : Route (List ChatFrame) :=
  let gate := evaluateThreshold hits assistant.refusalThreshold
  if gate.refuse then .ret [.token REFUSAL_MESSAGE, .done false [] env.latencyMs]
  else do
    let ctx ← .ofExcept (assembled P deps hits)
    let request ← .ofExcept (chatRequest assistant.model
      (buildGroundingSystem assistant.systemPrompt) question ctx.text deps.maxOutputTokens)
    let generated ← Proc.call (S := api) (.generate request)
    .ret (answerFrames ctx.sources env.latencyMs generated.thrown [] generated.events)

/-- The stream is the retrieval, then the answer from its hits. -/
theorem chatFrames_eq (tenantId assistantId : Uuid) :
    chatFrames P deps env tenantId assistantId assistant question =
      (retrieve deps.embedder tenantId { assistantId, question }).toRoute >>=
        chatFromHits P deps env assistant question := rfl

/-- The limits of a chat's sources. -/
def AppDeps.assembleOptions : AssembleOptions where
  maxSources := DEFAULT_ASSEMBLE_OPTIONS.maxSources
  tokenBudget := deps.contextTokenBudget

/-- **Refusal and grounding are decided correctly**: the model is asked exactly about hits that
clear the threshold, hits that do not are refused, and an answer that ends normally is sent as it
comes, with the citations of its text. -/
structure Grounded : Prop where
  invoked : (∃ request, ∃ k : Except JsError Generated → Route (List ChatFrame),
    chatFromHits P deps env assistant question hits = .await (.generate request) k) ↔
      Clears hits assistant.refusalThreshold
  refused : ¬ Clears hits assistant.refusalThreshold →
    chatFromHits P deps env assistant question hits =
      .ret [.token REFUSAL_MESSAGE, .done false [] env.latencyMs]
  answered : ∀ request, ∀ k : Except JsError Generated → Route (List ChatFrame),
    chatFromHits P deps env assistant question hits = .await (.generate request) k →
      ∃ sources, Numbers hits sources ∧
        request.content = userMessage (sourcesBlock sources) question ∧
        ∀ texts : List JsString, ∃ citations,
          k (.ok ⟨texts.map .text ++ [.done], none⟩) =
            .ret (texts.map .token ++ [.done (!citations.isEmpty) citations env.latencyMs]) ∧
          Cites hits sources texts.flatten citations

variable {P deps env assistant question hits}

theorem chatFromHits_of_not_clears (h : ¬ Clears hits assistant.refusalThreshold) :
    chatFromHits P deps env assistant question hits =
      .ret [.token REFUSAL_MESSAGE, .done false [] env.latencyMs] := by
  rw [← evaluateThreshold_refuse, Bool.not_eq_false] at h
  exact if_pos h

/-- **Hits that pass the gate are assembled**, and the model is asked about them. -/
theorem chatFromHits_of_clears (hmodel : assistant.model ∈ ALLOWED_CHAT_MODELS)
    (h : Clears hits assistant.refusalThreshold) :
    chatFromHits P deps env assistant question hits = (do
      let ctx ← .ofExcept (assembled P deps hits)
      let generated ← Proc.call (S := api) (.generate {
        model := assistant.model
        system := buildGroundingSystem assistant.systemPrompt
        content := userMessage ctx.text question
        maxTokens := deps.maxOutputTokens })
      .ret (answerFrames ctx.sources env.latencyMs generated.thrown [] generated.events)) := by
  have hpass := evaluateThreshold_refuse.2 h
  rw [chatFromHits, if_neg (by rw [hpass]; exact Bool.false_ne_true)]
  refine congrArg (Proc.ofExcept (assembled P deps hits) >>= ·) (funext fun ctx => ?_)
  rw [chatRequest, if_neg (not_not.2 hmodel)]
  rfl

/-- The stream is grounded exactly when the sources of hits that clear the threshold assemble. -/
theorem grounded_iff_assembles (hmodel : assistant.model ∈ ALLOWED_CHAT_MODELS) :
    Grounded P deps env assistant question hits ↔ (Clears hits assistant.refusalThreshold →
      ∃ context, assembled P deps hits = .ok context) := by
  constructor
  · intro h hclears
    obtain ⟨request, k, hasked⟩ := h.invoked.2 hclears
    rw [chatFromHits_of_clears hmodel hclears] at hasked
    cases hctx : assembled P deps hits with
    | ok ctx => exact ⟨ctx, rfl⟩
    | error e =>
      rw [hctx] at hasked
      cases hasked
  intro h
  by_cases hclears : Clears hits assistant.refusalThreshold
  · obtain ⟨ctx, hctx⟩ := h hclears
    have hasked : chatFromHits P deps env assistant question hits = _ :=
      chatFromHits_of_clears hmodel hclears
    rw [hctx] at hasked
    refine ⟨⟨fun _ => hclears, fun _ => ⟨_, _, hasked⟩⟩, fun hn => absurd hclears hn, ?_⟩
    intro request k hk
    obtain ⟨hrequest, hrest⟩ := Proc.await.inj (hasked.symm.trans hk)
    obtain rfl := ApiCall.generate.inj hrequest
    obtain rfl := eq_of_heq hrest
    refine ⟨ctx.sources, numbers_of_assembleContext hctx, ?_, fun texts => ?_⟩
    · rw [text_assembleContext hctx]
    obtain ⟨citations, hdone, hcites⟩ :=
      (numbers_of_assembleContext hctx).doneFrame_eq env.latencyMs texts.flatten
    refine ⟨citations, ?_, hcites⟩
    rw [← hdone]
    exact congrArg Proc.ret (answerFrames_texts env.latencyMs [] texts)
  · have hrefused : chatFromHits P deps env assistant question hits = _ :=
      chatFromHits_of_not_clears hclears
    refine ⟨⟨?_, fun hc => absurd hc hclears⟩, fun _ => hrefused, ?_⟩
    · rintro ⟨request, k, hk⟩
      rw [hrefused] at hk
      cases hk
    · intro request k hk
      rw [hrefused] at hk
      cases hk

/-- **The stream is grounded exactly when the hits it counts are plain**, if the hits clear the
threshold: no title, section or content of theirs shows a special token. -/
theorem grounded_iff {enc : Tiktoken} {specials : List JsString} (henc : enc.Rejects specials)
    (htok : P.tokenizer = enc.tokenizer) (hmodel : assistant.model ∈ ALLOWED_CHAT_MODELS) :
    Grounded P deps env assistant question hits ↔ (Clears hits assistant.refusalThreshold →
      ∀ hit ∈ hitsCounted P.tokenizer deps.assembleOptions (promptOrder hits) 0 0,
        hit.Plain specials) := by
  rw [grounded_iff_assembles hmodel]
  refine imp_congr_right fun _ => exists_assembleContext_iff_counted ?_
  rw [htok]
  exact henc.tokenizer

end

/-! ## A title that spells a special token -/

def specialPlatform : Platform := { samplePlatform with tokenizer := specialEncoder.tokenizer }

theorem clears_titledHit (title : JsString) :
    Clears [titledHit title] sampleAssistant.refusalThreshold :=
  ⟨_, _, 1, rfl, rfl, by decide⟩

/-- An ordinary title. -/
theorem grounded_iff_faq : Grounded specialPlatform sampleDeps { decisions := fun _ => {} }
    sampleAssistant (js "How long?") [titledHit (js "faq.txt")] := by
  refine (grounded_iff rejects_specialEncoder rfl (by decide)).2 fun _ hit hhit => ?_
  obtain rfl := List.mem_singleton.1 (List.mem_mergeSort.1 (mem_of_mem_hitsCounted hhit))
  exact ⟨⟨avoids_singleton.2 (by decide), nofun⟩, avoids_singleton.2 (by decide)⟩

/-- **A document called `<|endoftext|>.txt` clears the threshold, and the model is not asked.** -/
theorem not_grounded : ¬ ∀ (enc : Tiktoken) (specials : List JsString), enc.Rejects specials →
    ∀ (P : Platform) (deps : AppDeps) (env : Environment) (assistant : Assistant)
      (question : JsString) (hits : List ChunkHit), P.tokenizer = enc.tokenizer →
      assistant.model ∈ ALLOWED_CHAT_MODELS → Grounded P deps env assistant question hits := by
  intro hclaim
  have hgrounded := hclaim _ _ rejects_specialEncoder specialPlatform sampleDeps
    { decisions := fun _ => {} } sampleAssistant (js "How long?")
    [titledHit (js "<|endoftext|>.txt")] rfl (by decide)
  obtain ⟨context, hcontext⟩ :=
    (grounded_iff_assembles (by decide)).1 hgrounded (clears_titledHit _)
  have hthrown : (assembled specialPlatform sampleDeps [titledHit (js "<|endoftext|>.txt")]).isOk =
      false := by decide +kernel
  rw [hcontext] at hthrown
  cases hthrown

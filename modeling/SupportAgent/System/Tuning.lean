import SupportAgent.Chat.Grounding
import SupportAgent.Routes.Uploads
import SupportAgent.Store.Effects
import SupportAgent.System.Corpus

/-!
# System/Tuning — from the playground to the chat

An admin asks the playground a question, moves the threshold and saves it; later the question is
asked in the chat.  The playground shows the top score of its hits, however many it was asked for,
and the tuner compares it with the threshold as the gate of the chat does.

* `run_retrieve` — what a retrieval finds: the rows nearest to the question.
* `tunedRefuse_eq` — the tuner says what the gate does.
* `tuner_predicts_chat` — over the three requests, the chat refuses exactly when the tuner said so.
-/

open Async Ingestion JsString

/-- A number as JSON carries it: `null` when it is not finite. -/
def JsNumber.finite? : JsNumber → Option ℚ
  | finite q => some q
  | posInf | negInf | nan => none

/-- `tunedRefuse` of the playground page: what the tuner says about a threshold. -/
def Admin.tunedRefuse (topScore : Option ℚ) (tuned : ℚ) : Bool :=
  match topScore with
  | none => true
  | some top => top < tuned

/-- **The tuner says what the gate does**, about any hits with the same best one. -/
theorem tunedRefuse_eq {hits hits' : List ChunkHit} (hhead : hits.head? = hits'.head?)
    (threshold tuned : ℚ) :
    Admin.tunedRefuse ((evaluateThreshold hits threshold).topScore.bind JsNumber.finite?) tuned =
      (evaluateThreshold hits' tuned).refuse := by
  rcases hits with _ | ⟨top, hits⟩
  · obtain rfl := List.head?_eq_none_iff.1 hhead.symm
    rfl
  obtain ⟨hits', rfl⟩ := List.head?_eq_some_iff.1 hhead.symm
  have htop : ∀ (hits : List ChunkHit) (t : ℚ), (evaluateThreshold (top :: hits) t).topScore =
      some top.score ∧
      (evaluateThreshold (top :: hits) t).refuse =
        (!top.score.isFinite || top.score.lt (.finite t)) := by
    intro hits t
    rw [evaluateThreshold]
    split
    case isTrue hrefuse => exact ⟨rfl, hrefuse.symm⟩
    case isFalse hpass => exact ⟨rfl, (Bool.eq_false_of_not_eq_true hpass).symm⟩
  rw [(htop hits threshold).1, (htop hits' tuned).2, Option.bind_some]
  cases top.score <;> rfl

/-! ## What a retrieval finds -/

/-- The `k` hits nearest to a query. -/
def World.nearest (P : Platform) (w : World) (tenantId assistantId : Uuid)
    (query : List JsNumber) (k : ℕ) : List ChunkHit :=
  (((w.scanRows P tenantId assistantId query).mergeSort fun r r' => r.1.orderLe r'.1).take
    k).map (·.2)

/-- Fewer hits are a beginning of more. -/
theorem World.nearest_isPrefix {P : Platform} {w : World} {tenantId assistantId : Uuid}
    {query : List JsNumber} {j k : ℕ} (h : j ≤ k) :
    w.nearest P tenantId assistantId query j <+: w.nearest P tenantId assistantId query k :=
  (List.take_prefix_take_left h).map _

/-- The best hit is the same, however many are asked for. -/
theorem World.head?_nearest {P : Platform} {w : World} {tenantId assistantId : Uuid}
    {query : List JsNumber} {j k : ℕ} (hj : 1 ≤ j) (hk : 1 ≤ k) :
    (w.nearest P tenantId assistantId query j).head? =
      (w.nearest P tenantId assistantId query k).head? := by
  rw [nearest, nearest, List.head?_map, List.head?_map, List.head?_take, List.head?_take,
    if_neg (by omega), if_neg (by omega)]

section

variable {P : Platform} {d : ℕ → Decision} {w t : World}

/-- A call that only reads leaves the state, whatever happens to it. -/
theorem Fault.through_read {α σ : Type} {fault : Option Fault} {s t : σ} {x : Except JsError α}
    {r : Option (Except JsError α × σ)} (hread : ∃ y, r = some (y, s))
    (h : Fault.through fault s r = some (x, t)) : t = s := by
  obtain ⟨y, hy⟩ := hread
  obtain ⟨z, hz⟩ | rfl := Fault.through_cases h
  · exact (congrArg Prod.snd (Option.some.inj (hy.symm.trans hz))).symm
  · rfl

/-- Retrying a call that only reads: the value of one of the attempts. -/
theorem run_withRetry_call {c : Call} (hread : ∀ d, ∃ y, w.exec P c d = some (y, w))
    {attempts : ℕ} {shouldRetry : JsError → Bool} {r : Except JsError c.Res}
    (hrun : (withRetry (Proc.call (S := backend) c) attempts shouldRetry).run (World.handle P) d w =
      some (r, t)) :
    t = w ∧ ∀ v, r = .ok v → ∃ n, w.exec P c (d n) = some (.ok v, w) := by
  rw [withRetry] at hrun
  generalize JsError.new (js "undefined") = lastError at hrun
  induction attempts generalizing d lastError with
  | zero =>
    obtain ⟨rfl, rfl⟩ := Prod.mk.inj (Option.some.inj hrun)
    exact ⟨rfl, fun v hv => by cases hv⟩
  | succ attempts ih =>
    obtain ⟨n, x, u, hcall, hrest⟩ := Proc.run_tryCatch hrun
    have hhandle := Proc.run_call hcall
    obtain rfl := Fault.through_read (hread _) hhandle
    obtain ⟨v, rfl, rfl, rfl⟩ | ⟨e, rfl, hrest⟩ := hrest
    · exact ⟨rfl, fun v' hv => ⟨0, Except.ok.inj hv ▸ World.exec_of_handle_ok hhandle⟩⟩
    · split at hrest
      · obtain ⟨rfl, rfl⟩ := Prod.mk.inj (Option.some.inj hrest)
        exact ⟨rfl, fun v hv => by cases hv⟩
      · obtain ⟨rfl, hok⟩ := ih _ hrest
        exact ⟨rfl, fun v hv => (hok v hv).imp' (· + n) fun _ h => h⟩

/-- What a scan finds. -/
theorem run_retrieveChunks {tenantId : Uuid} {params : RetrieveParams}
    {r : Except JsError (List ChunkHit)}
    (hrun : (retrieveChunks tenantId params).run (World.handle P) d w = some (r, t)) :
    t = w ∧ ∀ hits, r = .ok hits → ∃ k, clampK params.k = .ok k ∧
      hits = w.nearest P tenantId params.assistantId params.queryEmbedding.vector k := by
  rw [retrieveChunks] at hrun
  obtain ⟨_, _, _, hcheck, hrest⟩ := Proc.run_bind hrun
  obtain ⟨rfl, rfl⟩ := Proc.run_ofExcept hcheck
  obtain ⟨_, -, hrun⟩ | ⟨e, -, rfl, rfl⟩ := hrest
  case inr => exact ⟨rfl, nofun⟩
  obtain ⟨_, _, _, hclamp, hrest⟩ := Proc.run_bind hrun
  obtain ⟨rfl, rfl⟩ := Proc.run_ofExcept hclamp
  obtain ⟨k, hk, hrun⟩ | ⟨e, -, rfl, rfl⟩ := hrest
  case inr => exact ⟨rfl, nofun⟩
  obtain ⟨_, _, _, hfind, hrest⟩ := Proc.run_bind hrun
  obtain rfl := Fault.through_read ⟨_, rfl⟩ (Proc.run_call hfind)
  obtain ⟨assistant, rfl, hrun⟩ | ⟨e, -, rfl, rfl⟩ := hrest
  case inr => exact ⟨rfl, nofun⟩
  obtain ⟨_, _, _, hmodel, hrest⟩ := Proc.run_bind hrun
  obtain ⟨rfl, rfl⟩ := Proc.run_ofExcept hmodel
  obtain ⟨_, -, hrun⟩ | ⟨e, -, rfl, rfl⟩ := hrest
  case inr => exact ⟨rfl, nofun⟩
  have hscan := Proc.run_call hrun
  refine ⟨Fault.through_read ⟨_, rfl⟩ hscan, ?_⟩
  rintro hits rfl
  exact ⟨k, hk,
    (Except.ok.inj (congrArg Prod.fst (Option.some.inj (World.exec_of_handle_ok hscan)))).symm⟩

/-- **What a retrieval finds**: with one of the vectors the provider answered, the rows nearest to
it. -/
theorem run_retrieve {embedder : Embedder} {tenantId : Uuid} {query : RetrievalQuery}
    {r : Except JsError (List ChunkHit)}
    (hrun : (retrieve embedder tenantId query).run (World.handle P) d w = some (r, t)) :
    t = w ∧ ∀ hits, r = .ok hits → ∃ n v k, (d n).vectors.head? = some v ∧
      clampK (query.k.getD DEFAULT_RETRIEVAL_K) = .ok k ∧
        hits = w.nearest P tenantId query.assistantId v k := by
  dsimp only [retrieve] at hrun
  split at hrun
  · obtain ⟨rfl, rfl⟩ := Prod.mk.inj (Option.some.inj hrun)
    exact ⟨rfl, nofun⟩
  split at hrun
  · obtain ⟨rfl, rfl⟩ := Prod.mk.inj (Option.some.inj hrun)
    exact ⟨rfl, nofun⟩
  obtain ⟨_, _, _, hretry, hrest⟩ := Proc.run_bind hrun
  obtain ⟨rfl, hvectors⟩ := run_withRetry_call (fun d => ⟨_, rfl⟩) hretry
  obtain ⟨vectors, rfl, hrun⟩ | ⟨e, -, rfl, rfl⟩ := hrest
  case inr => exact ⟨rfl, nofun⟩
  obtain ⟨n, hn⟩ := hvectors vectors rfl
  have hembed : (d n).vectors.map (fun v => (⟨embedder.model, v⟩ : Embedding)) = vectors :=
    Except.ok.inj (congrArg Prod.fst (Option.some.inj hn))
  rcases vectors with _ | ⟨embedding, vectors⟩
  · obtain ⟨rfl, rfl⟩ := Prod.mk.inj (Option.some.inj hrun)
    exact ⟨rfl, nofun⟩
  obtain ⟨v, vs, hv, rfl, -⟩ := List.map_eq_cons_iff.1 hembed
  obtain ⟨rfl, hhits⟩ := run_retrieveChunks hrun
  refine ⟨rfl, fun hits hok => ?_⟩
  obtain ⟨k, hk, rfl⟩ := hhits hits hok
  exact ⟨n, v, k, congrArg List.head? hv, hk, rfl⟩

end

/-! ## What the routes answer -/

section

variable {P : Platform} {deps : AppDeps} {env : Environment} {claims : TenantClaims}
  {d : ℕ → ApiDecision} {s t : ApiState}

/-- A service called by a route runs as it does by itself. -/
theorem run_toRoute {α : Type} {p : Service α} {r : Except JsError α}
    (hrun : (Service.toRoute p).run (ApiState.handle P) d s = some (r, t)) :
    ∃ w, p.run (World.handle P) (fun n => (d n).toDecision) s.world = some (r, w) ∧
      t = { s with world := w } := by
  induction p generalizing d s with
  | ret a =>
    obtain ⟨rfl, rfl⟩ := Prod.mk.inj (Option.some.inj hrun)
    exact ⟨_, rfl, rfl⟩
  | throw e =>
    obtain ⟨rfl, rfl⟩ := Prod.mk.inj (Option.some.inj hrun)
    exact ⟨_, rfl, rfl⟩
  | await c k ih =>
    obtain ⟨⟨x, u⟩, hstep, hrest⟩ := Option.bind_eq_some_iff.mp hrun
    rw [handle_service] at hstep
    obtain ⟨⟨y, w⟩, hhandle, heq⟩ := Option.map_eq_some_iff.1 hstep
    obtain ⟨rfl, rfl⟩ := Prod.mk.inj heq
    obtain ⟨w', hservice, rfl⟩ := ih y hrest
    exact ⟨w', (Proc.run_await hhandle).trans hservice, rfl⟩

/-- What a route finds when it retrieves. -/
theorem run_retrieve_toRoute {tenantId : Uuid} {query : RetrievalQuery}
    {r : Except JsError (List ChunkHit)}
    (hrun : (retrieve deps.embedder tenantId query).toRoute.run (ApiState.handle P) d s =
      some (r, t)) :
    s = t ∧ ∀ hits, r = .ok hits → ∃ n v k, (d n).vectors.head? = some v ∧
      clampK (query.k.getD DEFAULT_RETRIEVAL_K) = .ok k ∧
        hits = s.world.nearest P tenantId query.assistantId v k := by
  obtain ⟨w, hservice, rfl⟩ := run_toRoute hrun
  obtain ⟨rfl, hhits⟩ := run_retrieve hservice
  refine ⟨rfl, fun hits hok => ?_⟩
  obtain ⟨n, v, k, hv, hrest⟩ := hhits hits hok
  exact ⟨n, v, k, hv, hrest⟩

/-- What a route is told about an assistant. -/
theorem run_findAssistant {tenantId assistantId : Uuid} {r : Except JsError (Option Assistant)}
    (hrun : (Proc.call (S := api) (.service (.findAssistant tenantId assistantId))).run
      (ApiState.handle P)
      d s = some (r, t)) :
    s = t ∧ ∀ a, r = .ok a → a = s.world.findAssistant tenantId assistantId := by
  have hcall := Proc.run_call hrun
  rw [handle_service] at hcall
  obtain ⟨⟨y, w⟩, hhandle, heq⟩ := Option.map_eq_some_iff.1 hcall
  obtain ⟨rfl, rfl⟩ := Prod.mk.inj heq
  obtain rfl := Fault.through_read ⟨_, rfl⟩ hhandle
  refine ⟨rfl, ?_⟩
  rintro a rfl
  exact (World.found_of_findAssistant hhandle).2

/-- A clamped `k` asks for one hit at least. -/
theorem one_le_of_clampK {x : JsNumber} {k : ℕ} (h : clampK x = .ok k) : 1 ≤ k := by
  rcases x with q | - | - | -
  · obtain rfl := Except.ok.inj h
    rw [MAX_K]
    omega
  all_goals exact nomatch h

/-- **What the playground showed**: the hits nearest to the question, what the gate says about them,
and what would be sent to the model. -/
structure Played (P : Platform) (deps : AppDeps) (assistant : Assistant) (hits : List ChunkHit)
    (view : PlaygroundView) : Prop where
  assistantId : view.assistantId = assistant.id
  decision : view.decision = evaluateThreshold hits assistant.refusalThreshold
  retrieved : view.retrieved = hits.map (·.retrievedView)
  sources : ∀ sent, view.assembled = some sent → ∃ ctx, assembled P deps hits = .ok ctx ∧
    sent = (ctx.totalTokens, ctx.sources.map (·.view))

/-- The `k` that passes its check is the one that was asked for. -/
theorem eq_of_zodK {k k' : Option JsNumber} (h : zodK k = some k') : k' = k := by
  rcases k with _ | q | - | - | -
  · exact (Option.some.inj h).symm
  · obtain ⟨-, h⟩ := Option.ite_none_right_eq_some.1 h
    exact (Option.some.inj h).symm
  all_goals exact nomatch h

theorem run_playground {assistantId question : Option Json} {k : Option JsNumber}
    {view : PlaygroundView}
    (hrun : (app P deps env claims (.playgroundRetrieve assistantId question k)).run
      (ApiState.handle P)
      env.decisions s = some (.ok ⟨200, .playground view, none⟩, t)) :
    ∃ id assistant n v j, s.world.findAssistant claims.tenantId id = some assistant ∧
      (env.decisions n).vectors.head? = some v ∧ clampK (k.getD DEFAULT_RETRIEVAL_K) = .ok j ∧
        Played P deps assistant (s.world.nearest P claims.tenantId id v j) view := by
  rw [app, tenantContext] at hrun
  split at hrun
  case isFalse => exact nomatch hrun
  rw [postPlaygroundRetrieve, requireAdmin] at hrun
  split at hrun
  · exact nomatch hrun
  split at hrun
  case h_2 => exact nomatch hrun
  rename_i id text k' hid htext hk
  obtain ⟨_, _, _, hbody, ⟨_, rfl, hview, rfl⟩ | ⟨e, -, hcatch⟩⟩ := Proc.run_tryCatch hrun
  case inr => exact nomatch hcatch
  obtain rfl := Except.ok.inj hview
  obtain ⟨m, _, _, hfind, hrest⟩ := Proc.run_bind hbody
  obtain ⟨rfl, hfound⟩ := run_findAssistant hfind
  obtain ⟨found, rfl, hbody⟩ | ⟨e, -, hthrown, -⟩ := hrest
  case inr => exact nomatch hthrown
  rcases found with _ | assistant
  · exact nomatch hbody
  obtain ⟨m', _, _, hretrieve, hrest⟩ := Proc.run_bind hbody
  obtain ⟨rfl, hhits⟩ := run_retrieve_toRoute hretrieve
  obtain ⟨hits, rfl, hbody⟩ | ⟨e, -, hthrown, -⟩ := hrest
  case inr => exact nomatch hthrown
  obtain ⟨n, v, j, hv, hj, rfl⟩ := hhits hits rfl
  have hshown : Played P deps assistant (s.world.nearest P claims.tenantId id v j) view := by
    dsimp only at hbody
    split at hbody
    · obtain ⟨hresponse, -⟩ := Prod.mk.inj (Option.some.inj hbody)
      obtain rfl := Payload.playground.inj (Response.mk.inj (Except.ok.inj hresponse)).2.1
      exact ⟨rfl, rfl, rfl, nofun⟩
    · obtain ⟨_, _, _, hsome, ⟨c, rfl, hview⟩ | ⟨e, -, hthrown, -⟩⟩ := Proc.run_bind hbody
      case inr => exact nomatch hthrown
      obtain ⟨hresponse, -⟩ := Prod.mk.inj (Option.some.inj hview)
      obtain rfl := Payload.playground.inj (Response.mk.inj (Except.ok.inj hresponse)).2.1
      obtain ⟨_, _, _, hctx, ⟨ctx, rfl, hret⟩ | ⟨e, -, hthrown, -⟩⟩ := Proc.run_bind hsome
      case inr => exact nomatch hthrown
      obtain rfl := Except.ok.inj (Prod.mk.inj (Option.some.inj hret)).1
      exact ⟨rfl, rfl, rfl, fun sent hsent => ⟨ctx, (Proc.run_ofExcept hctx).1.symm,
        (Option.some.inj hsent).symm⟩⟩
  refine ⟨id, assistant, m + n, v, j, (hfound _ rfl).symm, ?_, eq_of_zodK hk ▸ hj, hshown⟩
  rwa [Nat.add_comm]

/-! ### The chat -/

/-- **What the chat answers** from its hits: the gate decides, and an answer is made of the sources
of those hits. -/
def Answered (P : Platform) (deps : AppDeps) (latencyMs : ℕ) (threshold : ℚ) (hits : List ChunkHit)
    (frames : List ChatFrame) : Prop :=
  if (evaluateThreshold hits threshold).refuse then
    frames = [.token REFUSAL_MESSAGE, .done false [] latencyMs]
  else ∃ ctx generated, assembled P deps hits = .ok ctx ∧
    frames = answerFrames ctx.sources latencyMs (Generated.thrown generated) [] generated.events

theorem run_chatFrames {tenantId assistantId : Uuid} {assistant : Assistant} {question : JsString}
    {frames : List ChatFrame}
    (hrun : (chatFrames P deps env tenantId assistantId assistant question).run
      (ApiState.handle P) d s = some (.ok frames, t)) :
    ∃ n v j, (d n).vectors.head? = some v ∧ clampK DEFAULT_RETRIEVAL_K = .ok j ∧
      Answered P deps env.latencyMs assistant.refusalThreshold
        (s.world.nearest P tenantId assistantId v j) frames := by
  rw [chatFrames_eq] at hrun
  obtain ⟨m, _, _, hretrieve, hrest⟩ := Proc.run_bind hrun
  obtain ⟨rfl, hhits⟩ := run_retrieve_toRoute hretrieve
  obtain ⟨hits, rfl, hbody⟩ | ⟨e, -, hthrown, -⟩ := hrest
  case inr => exact nomatch hthrown
  obtain ⟨n, v, j, hv, hj, rfl⟩ := hhits hits rfl
  refine ⟨n, v, j, hv, hj, ?_⟩
  rw [chatFromHits] at hbody
  rw [Answered]
  split at hbody
  case isTrue hrefuse =>
    rw [if_pos hrefuse]
    exact (Except.ok.inj (Prod.mk.inj (Option.some.inj hbody)).1).symm
  case isFalse hpass =>
    rw [if_neg hpass]
    obtain ⟨_, _, _, hctx, ⟨ctx, rfl, hbody⟩ | ⟨e, -, hthrown, -⟩⟩ := Proc.run_bind hbody
    case inr => exact nomatch hthrown
    obtain ⟨_, _, _, -, ⟨request, rfl, hbody⟩ | ⟨e, -, hthrown, -⟩⟩ := Proc.run_bind hbody
    case inr => exact nomatch hthrown
    obtain ⟨_, _, _, -, ⟨generated, rfl, hbody⟩ | ⟨e, -, hthrown, -⟩⟩ := Proc.run_bind hbody
    case inr => exact nomatch hthrown
    refine ⟨ctx, generated, (Proc.run_ofExcept hctx).1.symm, ?_⟩
    exact (Except.ok.inj (Prod.mk.inj (Option.some.inj hbody)).1).symm

/-- The rate limiter is asked; nothing else happens. -/
theorem run_consume {tenantId : Uuid} {r : Except JsError (Option RateLimitResult)}
    (hrun : ((some <$> Proc.call (S := api) (.consume tenantId)).tryCatch fun _ => .ret none).run
      (ApiState.handle P) d s = some (r, t)) : s = t := by
  obtain ⟨_, _, u, hmap, hrest⟩ := Proc.run_tryCatch hrun
  obtain ⟨_, hcall, -⟩ := Proc.run_map hmap
  obtain rfl := Fault.through_read ⟨_, rfl⟩ (Proc.run_call hcall)
  obtain ⟨_, -, -, rfl⟩ | ⟨_, -, hret⟩ := hrest
  · rfl
  · exact (Prod.mk.inj (Option.some.inj hret)).2

theorem run_chat {assistantId question : Option Json} {frames : List ChatFrame}
    (hrun : (app P deps env claims (.chat assistantId question)).run (ApiState.handle P)
      env.decisions s = some (.ok ⟨200, .chat frames, none⟩, t)) :
    ∃ body text id assistant, chatBody assistantId question = some (body, text) ∧
      (claims.assistantId <|> body) = some id ∧
      s.world.findAssistant claims.tenantId id = some assistant ∧
        (frames = [.internalError] ∨ ∃ n v j, (env.decisions n).vectors.head? = some v ∧
          clampK DEFAULT_RETRIEVAL_K = .ok j ∧
            Answered P deps env.latencyMs assistant.refusalThreshold
              (s.world.nearest P claims.tenantId id v j) frames) := by
  rw [app, tenantContext] at hrun
  split at hrun
  case isFalse => exact nomatch hrun
  rw [postChat, rateLimit] at hrun
  obtain ⟨m, _, u, hlimit, ⟨limit, rfl, hrun⟩ | ⟨e, -, hthrown, -⟩⟩ := Proc.run_bind hrun
  case inr => exact nomatch hthrown
  obtain rfl := run_consume hlimit
  split at hrun
  · exact nomatch hrun
  split at hrun
  · exact nomatch hrun
  rename_i body text hbody
  split at hrun
  · exact nomatch hrun
  rename_i id hid
  obtain ⟨_, _, _, hrun, ⟨_, rfl, hresponse, rfl⟩ | ⟨e, -, hcatch⟩⟩ := Proc.run_tryCatch hrun
  case inr => exact nomatch hcatch
  obtain rfl := Except.ok.inj hresponse
  obtain ⟨m₁, _, _, hfind, hrest⟩ := Proc.run_bind hrun
  obtain ⟨rfl, hfound⟩ := run_findAssistant hfind
  obtain ⟨found, rfl, hrun⟩ | ⟨e, -, hthrown, -⟩ := hrest
  case inr => exact nomatch hthrown
  rcases found with _ | assistant
  · exact nomatch hrun
  dsimp only at hrun
  split at hrun
  · exact nomatch hrun
  obtain ⟨m₂, _, _, htry, ⟨written, rfl, hret⟩ | ⟨e, -, hthrown, -⟩⟩ := Proc.run_bind hrun
  case inr => exact nomatch hthrown
  obtain ⟨hresponse, -⟩ := Prod.mk.inj (Option.some.inj hret)
  obtain rfl := Payload.chat.inj (Response.mk.inj (Except.ok.inj hresponse)).2.1
  refine ⟨body, text, id, assistant, hbody, hid, (hfound _ rfl).symm, ?_⟩
  obtain ⟨_, _, _, hframes, ⟨_, rfl, hwritten, -⟩ | ⟨e, -, hcatch⟩⟩ := Proc.run_tryCatch htry
  · obtain rfl := Except.ok.inj hwritten
    obtain ⟨n, v, j, hv, hrest⟩ := run_chatFrames hframes
    exact .inr ⟨_, v, j, hv, hrest⟩
  · exact .inl (Except.ok.inj (Prod.mk.inj (Option.some.inj hcatch)).1).symm

/-! ### Saving a threshold -/

theorem refusalThreshold_of_patchBody {tuned : ℚ} {data : AssistantPatch}
    (h : patchBody (some (.finite tuned)) none = some data) :
    data.refusalThreshold = some tuned := by
  obtain ⟨threshold, hthreshold, h⟩ := Option.bind_eq_some_iff.1 h
  obtain ⟨-, hthreshold⟩ := Option.ite_none_right_eq_some.1 hthreshold
  obtain ⟨status, -, h⟩ := Option.bind_eq_some_iff.1 h
  obtain ⟨-, h⟩ := Option.ite_none_left_eq_some.1 h
  obtain rfl := Option.some.inj h
  exact (Option.some.inj hthreshold).symm

/-- The assistants a patch selects have its threshold afterwards. -/
theorem refusalThreshold_of_updateAssistants {tenantId id : Uuid}
    {data : AssistantPatch} {tuned : ℚ} (hdata : data.refusalThreshold = some tuned) {a : Assistant}
    (ha : (s.updateAssistants (·.visible tenantId id) data.apply).world.findAssistant tenantId id =
      some a) : a.refusalThreshold = tuned := by
  obtain ⟨a₀, -, happlied⟩ := Table.mem_updateMany.1 (List.mem_of_find?_eq_some ha)
  have hvisible : a.visible tenantId id = true := (List.find?_some ha :)
  split at happlied
  case isTrue =>
    rw [← happlied, AssistantPatch.apply, hdata]
    rfl
  case isFalse hnot => exact absurd (happlied ▸ hvisible) hnot

/-- **Saving a threshold**: the assistant has it afterwards. -/
theorem run_saveThreshold {id : JsString} {tuned : ℚ} {response : Response}
    (hrun : (app P deps env claims (.patchAssistant id (some (.finite tuned)) none)).run
      (ApiState.handle P) env.decisions s = some (.ok response, t)) (hok : response.status = 200) :
    ∃ assistantId, Uuid.parse id = some assistantId ∧
      ∀ a, t.world.findAssistant claims.tenantId assistantId = some a →
        a.refusalThreshold = tuned := by
  have hanswer : ∀ {answer : Response} {u : ApiState}, answer.status ≠ 200 →
      some ((.ok answer : Except JsError Response), u) ≠ some (.ok response, t) := by
    rintro answer u hne heq
    obtain rfl := Except.ok.inj (Prod.mk.inj (Option.some.inj heq)).1
    exact hne hok
  rw [app, tenantContext] at hrun
  split at hrun
  case isFalse => exact absurd hrun (hanswer (by decide))
  rw [patchAssistant, requireAdmin] at hrun
  split at hrun
  · exact absurd hrun (hanswer (by decide))
  rw [withAssistantId] at hrun
  split at hrun
  · exact absurd hrun (hanswer (by decide))
  rename_i assistantId hid
  dsimp only at hrun
  split at hrun
  · exact absurd hrun (hanswer (by decide))
  rename_i data hdata
  obtain ⟨_, _, _, hrun, ⟨_, rfl, hresponse, rfl⟩ | ⟨e, -, hcatch⟩⟩ := Proc.run_tryCatch hrun
  case inr => exact absurd hcatch (hanswer (by decide))
  obtain rfl := Except.ok.inj hresponse
  obtain ⟨_, _, u, hcall, ⟨count, rfl, hret⟩ | ⟨e, -, hthrown, -⟩⟩ := Proc.run_bind hrun
  case inr => exact nomatch hthrown
  have hexec := Fault.eq_of_through_ok (Proc.run_call hcall)
  obtain rfl := (Prod.mk.inj (Option.some.inj hexec)).2
  split at hret
  · exact absurd hret (hanswer (by decide))
  obtain rfl := (Prod.mk.inj (Option.some.inj hret)).2
  exact ⟨assistantId,
    hid, fun a => refusalThreshold_of_updateAssistants (refusalThreshold_of_patchBody hdata)⟩

end

/-! ## The three requests -/

/-- **The tuner predicts the chat.**  Once the playground has shown its hits for a question and the
tuned threshold is saved, the question is refused in the chat exactly when the tuner said so, and
answered from hits that begin as the ones it showed do, from the very sources it showed when it was
asked for the usual number.  Between the requests the chunks and the assistant stay, and the
embedder repeats itself. -/
theorem tuner_predicts_chat {P : Platform} {deps : AppDeps} {admin asker : TenantClaims}
    {env₁ env₂ env₃ : Environment} {s s' u u' v v' : ApiState}
    {assistantId body question : Option Json}
    {k : Option JsNumber} {id : JsString} {tuned : ℚ} {view : PlaygroundView} {response : Response}
    {frames : List ChatFrame}
    (hplay : (app P deps env₁ admin (.playgroundRetrieve assistantId question k)).run
      (ApiState.handle P)
      env₁.decisions s = some (.ok ⟨200, .playground view, none⟩, s'))
    (hsave : (app P deps env₂ admin (.patchAssistant id (some (.finite tuned)) none)).run
      (ApiState.handle P) env₂.decisions u = some (.ok response, u'))
    (hok : response.status = 200)
    (hchat : (app P deps env₃ asker (.chat body question)).run (ApiState.handle P)
      env₃.decisions v = some (.ok ⟨200, .chat frames, none⟩, v'))
    (hid : Uuid.parse id = some view.assistantId) (htenant : asker.tenantId = admin.tenantId)
    (hasked : ∀ b text, chatBody body question = some (b, text) →
      (asker.assistantId <|> b) = some view.assistantId)
    (hvectors : ∀ m n, (env₃.decisions m).vectors = (env₁.decisions n).vectors)
    (hrows : ∀ query, v.world.scanRows P admin.tenantId view.assistantId query =
      s.world.scanRows P admin.tenantId view.assistantId query)
    (hkept : v.world.findAssistant admin.tenantId view.assistantId =
      u'.world.findAssistant admin.tenantId view.assistantId) :
    frames = [.internalError] ∨ ∃ hits : List ChunkHit,
      (view.retrieved <+: hits.map (·.retrievedView) ∨
        hits.map (·.retrievedView) <+: view.retrieved) ∧
      if Admin.tunedRefuse (view.decision.topScore.bind JsNumber.finite?) tuned then
        frames = [.token REFUSAL_MESSAGE, .done false [] env₃.latencyMs]
      else ∃ ctx generated, assembled P deps hits = .ok ctx ∧
        frames = answerFrames ctx.sources env₃.latencyMs (Generated.thrown generated)
          [] generated.events ∧
        (k = none → ∀ sent, view.assembled = some sent →
          sent = (ctx.totalTokens, ctx.sources.map (·.view))) := by
  obtain ⟨id₁, assistant₁, n, q, j, hassistant, hq, hj, hplayed⟩ := run_playground hplay
  have hview : id₁ = view.assistantId :=
    (Assistant.visible_iff.1 (List.find?_some hassistant :)).1.symm.trans hplayed.assistantId.symm
  subst hview
  obtain ⟨id₂, hid₂, hsaved⟩ := run_saveThreshold hsave hok
  obtain rfl := Option.some.inj (hid.symm.trans hid₂)
  obtain ⟨b, text, id₃, assistant, hbody, hid₃, hfound, hframes⟩ := run_chat hchat
  obtain rfl := Option.some.inj ((hasked b text hbody).symm.trans hid₃)
  rw [htenant] at hfound hframes
  have hthreshold : assistant.refusalThreshold = tuned := hsaved assistant (hkept ▸ hfound)
  refine hframes.imp_right ?_
  rintro ⟨m, q', j', hq', hj', hanswered⟩
  rw [hvectors m n] at hq'
  obtain rfl := Option.some.inj (hq.symm.trans hq')
  have hnearest : v.world.nearest P admin.tenantId view.assistantId q j' =
      s.world.nearest P admin.tenantId view.assistantId q j' := by
    rw [World.nearest, World.nearest, hrows]
  rw [hnearest, hthreshold] at hanswered
  refine ⟨s.world.nearest P admin.tenantId view.assistantId q j', ?_, ?_⟩
  · rw [hplayed.retrieved]
    exact (Nat.le_total j j').imp (fun h => (World.nearest_isPrefix h).map _)
      fun h => (World.nearest_isPrefix h).map _
  · rw [hplayed.decision, tunedRefuse_eq
      (World.head?_nearest (one_le_of_clampK hj) (one_le_of_clampK hj'))]
    rw [Answered] at hanswered
    split
    case isTrue hrefuse => rwa [if_pos hrefuse] at hanswered
    case isFalse hpass =>
      rw [if_neg hpass] at hanswered
      obtain ⟨ctx, generated, hctx, hwritten⟩ := hanswered
      refine ⟨ctx, generated, hctx, hwritten, ?_⟩
      rintro rfl sent hsent
      obtain ⟨ctx', hctx', rfl⟩ := hplayed.sources sent hsent
      obtain rfl := Except.ok.inj (hj.symm.trans hj')
      obtain rfl := Except.ok.inj (hctx.symm.trans hctx')
      rfl

/-- An assistant with one chunk, at half the distance from everything. -/
def tunedPlatform : Platform := { samplePlatform with cosineDistance := fun _ _ => .finite (1 / 2) }

def tunedState (threshold : ℚ) : ApiState where
  world := {
    assistants := [{ sampleAssistant with refusalThreshold := threshold }]
    documents := [NewDocument.row {
      id := 10, tenantId := 7, assistantId := 1, title := js "faq.txt", sourceType := .TXT
      storageKey := tenantObjectKey 7 10, status := .READY } 0]
    chunks := [{
      id := 20, tenantId := 7, documentId := 10, assistantId := 1, content :=
        js "Refunds take 30 days."
      tokenCount := 5, page := some 1, sectionText := none, charStart := some 0, charEnd := some 21
      contentHash := [], embedding := some ⟨js "m", Corpus.sampleVector⟩ }]
    issued := [10, 20] }

def tunedEnvironment : Environment where
  decisions _ := { vectors := [Corpus.sampleVector] }

def tunedId : JsString := js "00000000-0000-0000-0000-000000000001"

/-- What an admin, and a phone, ask of it. -/
def tunedRun (claims : TenantClaims) (request : Request) (threshold : ℚ) :
    Option (Except JsError Response × ApiState) :=
  (app tunedPlatform sampleDeps tunedEnvironment claims request).run (ApiState.handle tunedPlatform)
    tunedEnvironment.decisions (tunedState threshold)

/-- What a run that ended with a 200 sent, if it is a `read`able payload. -/
def endedWith {α : Type} (read : Payload → Option α)
    (run : Option (Except JsError Response × ApiState)) : Option α :=
  run.bind fun x =>
    match x.1 with
    | .ok ⟨200, body, none⟩ => read body
    | _ => none

theorem eq_of_endedWith {α : Type} (read : Payload → Option α)
    {run : Option (Except JsError Response × ApiState)} {a : α} (h : endedWith read run = some a) :
    ∃ body t, read body = some a ∧ run = some (.ok ⟨200, body, none⟩, t) := by
  obtain ⟨⟨x, t⟩, rfl, hread⟩ := Option.bind_eq_some_iff.1 h
  split at hread
  case h_1 body hx => exact ⟨body, t, hread, congrArg (fun y => some (y, t)) hx⟩
  case h_2 => exact nomatch hread

/-- The assistant shown, and what the tuner says about 3/4. -/
def readView : Payload → Option (Uuid × Bool)
  | .playground view => some (view.assistantId,
      Admin.tunedRefuse (view.decision.topScore.bind JsNumber.finite?) (3 / 4))
  | _ => none

def readFrames : Payload → Option ℕ
  | .chat frames => some frames.length
  | _ => none

theorem run_saveTuned :
    tunedRun ⟨7, some 5, none⟩ (.patchAssistant tunedId (some (.finite (3 / 4))) none) 0 =
    some (.ok ⟨200, .patched tunedId ⟨some (3 / 4), none⟩, none⟩, tunedState (3 / 4)) := by
  have hid : Uuid.parse tunedId = some 1 := by decide +kernel
  have hthreshold : zodThreshold (some (.finite (3 / 4))) = some (some (3 / 4)) :=
    if_pos (by norm_num)
  have hbody : patchBody (some (.finite (3 / 4))) none = some ⟨some (3 / 4), none⟩ := by
    rw [patchBody, hthreshold]
    rfl
  rw [tunedRun, app, tenantContext, if_pos (show tunedEnvironment.tokenVerifies = true from rfl),
    patchAssistant, requireAdmin, if_neg (by decide), withAssistantId, hid]
  dsimp only
  rw [hbody]
  rfl

/-- At a threshold of 0 the gate lets the hit pass; the tuner says it will not at 3/4. -/
theorem tuner_predicts_chat_refused : ∃ frames t,
    tunedRun ⟨7, none, some 1⟩ (.chat none (some (.str (js "How long?")))) (3 / 4) =
      some (.ok ⟨200, .chat frames, none⟩, t) ∧
    frames = [.token REFUSAL_MESSAGE, .done false [] 0] := by
  have hplayed :
      endedWith readView (tunedRun ⟨7, some 5, none⟩ (.playgroundRetrieve (some (.str tunedId))
      (some (.str (js "How long?"))) none) 0) = some (1, true) := by decide +kernel
  obtain ⟨played, s', hview, hplay⟩ := eq_of_endedWith readView hplayed
  have hasked : endedWith readFrames (tunedRun ⟨7, none, some 1⟩
      (.chat none (some (.str (js "How long?")))) (3 / 4)) = some 2 := by decide +kernel
  obtain ⟨sent, t, hlength, hchat⟩ := eq_of_endedWith readFrames hasked
  unfold readView at hview
  unfold readFrames at hlength
  split at hview
  case h_2 => exact nomatch hview
  rename_i view
  split at hlength
  case h_2 => exact nomatch hlength
  rename_i frames
  obtain ⟨hid, htuned⟩ := Prod.mk.inj (Option.some.inj hview)
  refine ⟨frames, t, hchat, ?_⟩
  have hbody : ∀ b text, chatBody none (some (.str (js "How long?"))) = some (b, text) →
      ((some 1 : Option Uuid) <|> b) = some view.assistantId := fun b _ _ => congrArg some hid.symm
  have hrows : ∀ query, (tunedState (3 / 4)).world.scanRows tunedPlatform 7 view.assistantId query =
      (tunedState 0).world.scanRows tunedPlatform 7 view.assistantId query := fun _ => rfl
  obtain rfl | ⟨hits, -, hpredicted⟩ := tuner_predicts_chat hplay run_saveTuned rfl hchat
    (hid.symm ▸ (by decide +kernel)) rfl hbody (fun _ _ => rfl) hrows rfl
  · exact absurd hlength (by decide)
  · rwa [htuned, if_pos rfl] at hpredicted

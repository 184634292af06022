import SupportAgent.Chat.Protocol

/-!
# Chat/Gate — what a stream says in front of the gate, and where the gate refuses

`Protocol` follows a stream past the gate.  Before its hits have come a stream says nothing but that
it failed, and a refused one says the refusal and is closed with it, whatever the callbacks do.
-/

open Async Ingestion JsString

namespace ChatStream

variable {P : Platform} {deps : AppDeps} {assistant : Assistant} {question : JsString}
  {threshold : ℚ} {upstream : List AnthropicStreamEvent} {s t : ChatStream}

/-- **Nothing is said in front of the gate** but a failure, and a refused stream has said the
refusal alone. -/
structure Gated (threshold : ℚ) (s : ChatStream) : Prop where
  waiting : s.hits = none → ∀ frame ∈ sent s.written, frame = .internalError
  refused : ∀ hits, s.hits = some hits → ¬ Clears hits threshold → s.closed = true ∧
    ∃ latencyMs, sent s.written = [.token REFUSAL_MESSAGE, .done false [] latencyMs]

theorem sent_append (frames : List StreamFrame) (frame : ChatFrame) :
    sent (frames ++ [.chat frame]) = sent frames ++ [frame] := by
  rw [sent, List.filterMap_append]
  rfl

theorem hits_safeWrite (frame : StreamFrame) : (s.safeWrite frame).hits = s.hits := by
  rw [safeWrite]
  split <;> rfl

theorem hits_endStream : s.endStream.hits = s.hits := by
  rw [endStream]
  split <;> rfl

theorem hits_conclude (frame : StreamFrame) : (s.conclude frame).hits = s.hits :=
  hits_endStream.trans (hits_safeWrite frame)

theorem hits_fail : s.fail.hits = s.hits := by
  rw [fail]
  split
  · rfl
  · exact hits_conclude _

theorem hits_generate (hits : List ChunkHit) :
    (s.generate P deps assistant question hits).hits = s.hits := by
  rw [generate]
  split
  · exact hits_fail
  · split
    · exact hits_fail
    · rfl

theorem written_endStream : s.endStream.written = s.written := by
  rw [endStream]
  split <;> rfl

/-- A frame that is no event of the answer. -/
theorem sent_safeWrite {frame : StreamFrame} (h : sent [frame] = []) :
    sent (s.safeWrite frame).written = sent s.written := by
  rw [safeWrite]
  split
  · rfl
  · change sent (s.written ++ [frame]) = _
    rw [sent, List.filterMap_append]
    exact (congrArg (_ ++ ·) h).trans (List.append_nil _)

/-- **Only the coroutine answers**: a callback or the upstream changes neither the hits nor the
events sent. -/
theorem sent_of_callback {move : StreamMove}
    (hmove : ∀ flushed latencyMs, move ≠ .resume flushed latencyMs)
    (hstep : s.step P deps assistant question move = some t) :
    t.hits = s.hits ∧ sent t.written = sent s.written := by
  cases move with
  | resume flushed latencyMs => exact absurd rfl (hmove flushed latencyMs)
  | heartbeat =>
    rw [step] at hstep
    split at hstep
    · obtain rfl := Option.some.inj hstep
      exact ⟨hits_safeWrite _, sent_safeWrite rfl⟩
    · cases hstep
  | timeout =>
    rw [step] at hstep
    split at hstep
    · obtain rfl := Option.some.inj hstep
      refine ⟨hits_endStream.trans (hits_safeWrite _), ?_⟩
      rw [expire, written_endStream]
      exact sent_safeWrite rfl
    · cases hstep
  | clientClose | socketError =>
    obtain rfl := Option.some.inj hstep
    refine ⟨hits_endStream, ?_⟩
    rw [disconnect, written_endStream]
  | event =>
    rw [step] at hstep
    split at hstep
    · split at hstep <;> obtain rfl := Option.some.inj hstep <;> exact ⟨rfl, rfl⟩
    · cases hstep
  | ended =>
    rw [step] at hstep
    split at hstep
    · split at hstep
      · obtain rfl := Option.some.inj hstep
        exact ⟨rfl, rfl⟩
      · cases hstep
    · cases hstep
  | retrieve | created | failed | returned | drain =>
    rw [step] at hstep
    split at hstep <;> first
      | (obtain rfl := Option.some.inj hstep; exact ⟨rfl, rfl⟩)
      | cases hstep

/-- The hits come once. -/
theorem hits_of_resume {flushed : Bool} {latencyMs : ℕ}
    (hphase : ∀ result, s.phase ≠ .retrieved result)
    (hstep : s.resume P deps assistant question flushed latencyMs = some t) : t.hits = s.hits := by
  rw [resume] at hstep
  split at hstep
  case h_1 result hretrieved => exact absurd hretrieved (hphase result)
  case h_5 => cases hstep
  all_goals
    split at hstep
    · obtain rfl := Option.some.inj hstep
      rfl
  · split at hstep <;> obtain rfl := Option.some.inj hstep
    · exact hits_safeWrite _
    · exact hits_conclude _
    · rfl
  · obtain rfl := Option.some.inj hstep
    exact hits_conclude _
  · obtain rfl := Option.some.inj hstep
    rfl

/-- A frame of an open stream closes it. -/
theorem conclude_of_open (h : s.closed = false) (frame : ChatFrame) :
    (s.conclude (.chat frame)).closed = true ∧
      sent (s.conclude (.chat frame)).written = sent s.written ++ [frame] := by
  rw [conclude, safeWrite_of_open h, endStream_of_open (s := { s with
    written := s.written ++ [.chat frame] }) h]
  exact ⟨rfl, sent_append _ _⟩

/-- **The hits have come**: a stream that has said nothing fails, refuses, or goes on past the
gate. -/
theorem gated_of_retrieved {result : Except JsError (List ChunkHit)}
    (hphase : s.phase = .retrieved result) (hclosed : s.closed = false) (hhits : s.hits = none)
    (hsent : sent s.written = []) {flushed : Bool} {latencyMs : ℕ}
    (hstep : s.resume P deps assistant question flushed latencyMs = some t) :
    Gated assistant.refusalThreshold t := by
  rw [resume, hphase] at hstep
  dsimp only at hstep
  rw [if_neg (by rw [hclosed]; exact Bool.false_ne_true)] at hstep
  obtain err | hits := result
  · obtain rfl := Option.some.inj hstep
    rw [fail, if_neg (by rw [hclosed]; exact Bool.false_ne_true)]
    have hconclude := conclude_of_open hclosed .internalError
    refine ⟨fun _ frame hframe => ?_, fun hits hsome => ?_⟩
    · rw [hconclude.2, hsent] at hframe
      exact List.mem_singleton.1 hframe
    · rw [hits_conclude, hhits] at hsome
      cases hsome
  dsimp only at hstep
  split at hstep
  case isTrue hrefuse =>
    obtain rfl := Option.some.inj hstep
    have hopen : ((s.receive hits).safeWrite (.chat (.token REFUSAL_MESSAGE))).closed = false := by
      rw [safeWrite_of_open (s := s.receive hits) hclosed]
      exact hclosed
    have hconclude := conclude_of_open hopen (.done false [] latencyMs)
    refine ⟨fun hnone => ?_, fun hits' hsome _ => ⟨hconclude.1, latencyMs, ?_⟩⟩
    · rw [hits_conclude, hits_safeWrite] at hnone
      cases hnone
    · rw [hconclude.2, safeWrite_of_open (s := s.receive hits) hclosed]
      change sent (s.written ++ [.chat (.token REFUSAL_MESSAGE)]) ++ _ = _
      rw [sent_append, hsent]
      rfl
  case isFalse hpass =>
    obtain rfl := Option.some.inj hstep
    have hclears : Clears hits assistant.refusalThreshold :=
      evaluateThreshold_refuse.1 (Bool.not_eq_true _ ▸ hpass)
    refine ⟨fun hnone => ?_, fun hits' hsome hnot => ?_⟩
    · rw [hits_generate] at hnone
      cases hnone
    · rw [hits_generate] at hsome
      obtain rfl := Option.some.inj hsome
      exact absurd hclears hnot

/-- **Every move keeps the gate.** -/
theorem Gated.step (h : Gated assistant.refusalThreshold s)
    (hsound : Sound P deps assistant.refusalThreshold upstream s) {move : StreamMove}
    (hstep : s.step P deps assistant question move = some t) :
    Gated assistant.refusalThreshold t := by
  obtain hopen | ⟨body, last, hdone⟩ := hsound
  swap
  · -- nothing visible happens any more
    have hvisible := visible_of_closed hdone.closed hstep
    simp only [visible, Prod.mk.injEq] at hvisible
    obtain ⟨hclosed, -, -, hwritten, -, hhits⟩ := hvisible
    refine ⟨?_, ?_⟩
    · rw [hwritten, hhits]
      exact h.waiting
    · rw [hwritten, hhits, hclosed]
      exact h.refused
  obtain ⟨hhits, hnil, -, -, hfirst⟩ | ⟨hits, _, _, hhits, hclears, _, _, _, _, hrelayed⟩ :=
    hopen.phase
  · have hsent : sent s.written = [] := by rw [hopen.plain.sent_eq, hnil]; rfl
    by_cases hmove : ∀ flushed latencyMs, move ≠ .resume flushed latencyMs
    · obtain ⟨hsame, hsame'⟩ := sent_of_callback hmove hstep
      refine ⟨fun _ frame hframe => ?_, fun hits hsome => ?_⟩
      · rw [hsame', hsent] at hframe
        cases hframe
      · rw [hsame, hhits] at hsome
        cases hsome
    · push Not at hmove
      obtain ⟨flushed, latencyMs, rfl⟩ := hmove
      obtain hphase | ⟨result, hphase⟩ := hfirst
      · rw [ChatStream.step, resume, hphase] at hstep
        cases hstep
      · exact gated_of_retrieved hphase hopen.closed hhits hsent hstep
  · -- past the gate its hits stay
    have hsame : t.hits = s.hits := by
      by_cases hmove : ∀ flushed latencyMs, move ≠ .resume flushed latencyMs
      · exact (sent_of_callback hmove hstep).1
      · push Not at hmove
        obtain ⟨flushed, latencyMs, rfl⟩ := hmove
        refine hits_of_resume (fun result hphase => ?_) hstep
        rw [hphase] at hrelayed
        exact hrelayed.elim
    refine ⟨fun hnone => ?_, fun hits' hsome hnot => ?_⟩
    · rw [hsame, hhits] at hnone
      cases hnone
    · rw [hsame, hhits] at hsome
      obtain rfl := Option.some.inj hsome
      exact absurd hclears hnot

theorem Gated.start : Gated threshold { unread := upstream } where
  waiting := fun _ _ hframe => nomatch hframe
  refused := fun _ hsome => nomatch hsome

theorem gated_of_reachable
    (h : Run.Reachable (ChatStream.step P deps assistant question) Run.anyMove
    (· = { unread := upstream }) s) : Gated assistant.refusalThreshold s := by
  have hstart : Run.Reachable (ChatStream.step P deps assistant question) Run.anyMove
      (· = { unread := upstream }) { unread := upstream } := .start rfl
  have hboth : Sound P deps assistant.refusalThreshold upstream s ∧
      Gated assistant.refusalThreshold s := by
    refine h.invariant (P := fun s => Sound P deps assistant.refusalThreshold upstream s ∧
      Gated assistant.refusalThreshold s) ?_ ?_
    · rintro _ rfl
      exact ⟨sound_of_reachable hstart, .start⟩
    · rintro u move v ⟨hsound, hgated⟩ - hstep
      exact ⟨hsound.step hstep, hgated.step hsound hstep⟩
  exact hboth.2

end ChatStream

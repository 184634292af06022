import SupportAgent.Mobile.ChatBloc

/-!
# Mobile/StaleErrors — when the chat state keeps the error of an earlier question

`copyWith` takes a null argument for one left out, so the first state of a new question, copied with
`error: null`, has the error of the state before.  Nothing but a failure writes the field
(`error_step`), and once an answer has failed nothing but a new question changes the state
(`Reported.state_eq`).

* `no_stale_error_iff` — a run shows an error in states of status `error` alone, exactly when it
  asks no question in such a state.
-/

namespace Mobile

/-- **No stale error**: a state that is no error has none. -/
def ChatState.Clean (s : ChatState) : Prop := s.status ≠ .error → s.error = none

namespace ChatBloc

variable {asked : List JsString} {texts : ℕ → JsString} {b b' : ChatBloc} {move : Move}

/-! ## What is written -/

/-- The error of a state stays, unless the answer fails. -/
theorem Closes.error {s s' : ChatState} {h h' : SendHandler} (hs : Closes s h h' s') :
    s'.error = s.error ∨ s'.status = .error := by
  obtain message | _ := hs
  · exact .inr rfl
  · exact .inl rfl

theorem error_onData (s : ChatState) (h : SendHandler) (event : ChatStreamEvent) :
    (onData s h event).2.error = s.error ∨ (onData s h event).2.status = .error := by
  obtain text | ⟨grounded, citations⟩ | message := event
  · exact .inl rfl
  · exact .inl rfl
  · exact .inr rfl

theorem error_update {i : ℕ} {h : SendHandler} {emitted : Option ChatState}
    (hemits : ∀ s ∈ emitted, s.error = b.state.error ∨ s.status = .error) :
    (b.update i h emitted).state.error = b.state.error ∨
    (b.update i h emitted).state.status = .error := by
  rw [update]
  split
  · exact .inl rfl
  · obtain _ | s := emitted
    · exact .inl rfl
    · exact hemits s rfl

/-- **Only a failure writes the error**: a new question does not clear it. -/
theorem error_step (hstep : b.step move = some b') :
    b'.state.error = b.state.error ∨ b'.state.status = .error := by
  obtain question | _ | _ | ⟨i, event⟩ | ⟨i, how⟩ | i := move
  · obtain ⟨-, rfl⟩ := step_sendMessage hstep
    exact .inl rfl
  · obtain ⟨-, rfl⟩ := step_cancelStream hstep
    exact .inl rfl
  · obtain rfl := Option.some.inj hstep
    exact .inl rfl
  · obtain ⟨h, -, -, -, rfl⟩ := step_data hstep
    exact error_update fun s hs => Option.some.inj hs ▸ error_onData _ _ _
  · obtain ⟨h, -, -, -, -, rfl⟩ := step_streamEnds hstep
    exact error_update nofun
  · obtain ⟨h, how, -, -, rfl⟩ := step_resume hstep
    exact error_update fun s hs => (closes_afterStream hs).error

/-! ## After a failure -/

/-- **What a failure leaves**: its error, and no handler that has an answer to give. -/
structure Reported (b : ChatBloc) : Prop where
  error : b.state.status = .error → b.state.error ≠ none
  ended : b.state.status = .error → ∀ (i : ℕ) h, b.handlers[i]? = some h →
    h.canceled = true ∨ h.Over

/-- Beside a handler whose emitter still counts, all are cancelled. -/
theorem Faithful.canceled_of_ne (hb : b.Faithful asked texts) {i j : ℕ} {h g : SendHandler}
    (hi : b.handlers[i]? = some h) (hlive : h.canceled = false) (hj : b.handlers[j]? = some g)
    (hne : j ≠ i) : g.canceled = true := by
  have hlast := hb.last hi hlive
  have hlt := (List.getElem?_eq_some_iff.1 hj).1
  rw [hb.count] at hlt
  exact (hb.handlers j g hj).superseded (by omega)

/-- A handler that moves leaves the bloc reported, if it is over then or its state is no error. -/
theorem Reported.update (hb : b.Faithful asked texts) (hr : b.Reported) {i : ℕ} {h h' : SendHandler}
    {emitted : Option ChatState} (hi : b.handlers[i]? = some h) (hsame : h'.canceled = h.canceled)
    (hemits : ∀ s ∈ emitted, s.status = .error → s.error ≠ none ∧ h'.Over)
    (hover : h.Over → h'.Over) : (b.update i h' emitted).Reported := by
  have hkept : b.state.status = .error → ∀ (j : ℕ) g,
      (b.update i h' emitted).handlers[j]? = some g → g.canceled = true ∨ g.Over := by
    intro herror j g hj
    obtain ⟨rfl, rfl⟩ | ⟨-, hj⟩ := getElem?_update hi hj
    · rw [hsame]
      exact (hr.ended herror _ h hi).imp_right hover
    · exact hr.ended herror j g hj
  by_cases hquiet : (b.update i h' emitted).state = b.state
  · exact ⟨by rw [hquiet]; exact hr.error, by rw [hquiet]; exact hkept⟩
  have hlive : h'.canceled = false := by
    by_contra hgone
    exact hquiet (if_pos (Bool.not_eq_false _ ▸ hgone))
  obtain _ | s := emitted
  · exact absurd (if_neg (by rw [hlive]; exact Bool.false_ne_true)) hquiet
  · have hstate : (b.update i h' (some s)).state = s := state_update hlive rfl
    refine ⟨fun herror => ?_, fun herror j g hj => ?_⟩
    · rw [hstate] at herror ⊢
      exact (hemits s rfl herror).1
    · rw [hstate] at herror
      obtain ⟨rfl, rfl⟩ | ⟨hne, hj⟩ := getElem?_update hi hj
      · exact .inr (hemits s rfl herror).2
      · exact .inl (hb.canceled_of_ne hi (hsame.symm.trans hlive) hj hne)

/-- The last state of an answer is a failure with its message, or no error. -/
theorem Closes.reported {s s' : ChatState} {h h' : SendHandler} (hs : Closes s h h' s')
    (herror : s'.status = .error) : s'.error ≠ none := by
  obtain message | _ := hs
  · exact Option.some_ne_none message
  · cases herror

/-- **Every move leaves the bloc reported.** -/
theorem Reported.step (hb : b.Faithful asked texts) (hr : b.Reported)
    (hstep : b.step move = some b') : b'.Reported := by
  obtain question | _ | _ | ⟨i, event⟩ | ⟨i, how⟩ | i := move
  · obtain ⟨-, rfl⟩ := step_sendMessage hstep
    exact ⟨nofun, nofun⟩
  · obtain ⟨-, rfl⟩ := step_cancelStream hstep
    exact ⟨hr.error, hr.ended⟩
  · obtain rfl := Option.some.inj hstep
    refine ⟨hr.error, fun _ i g hi => .inl ?_⟩
    change (b.handlers.map SendHandler.cancelEmitter)[i]? = some g at hi
    rw [List.getElem?_map] at hi
    obtain ⟨h, -, rfl⟩ := Option.map_eq_some_iff.1 hi
    rfl
  · obtain ⟨h, hi, hphase, hcompleted, rfl⟩ := step_data hstep
    have hopen : ¬h.Over := SendHandler.not_over hphase hcompleted
    obtain text | ⟨grounded, citations⟩ | message := event
    · exact hr.update hb hi rfl (fun s hs herror => by cases hs; cases herror) fun h =>
        absurd h hopen
    · exact hr.update hb hi rfl (fun s hs herror => by cases hs; cases herror) fun h =>
        absurd h hopen
    · refine hr.update hb hi rfl (fun s hs herror => ?_) fun h => absurd h hopen
      obtain rfl := Option.some.inj hs
      exact ⟨Option.some_ne_none message, .inl rfl⟩
  · obtain ⟨h, hi, hphase, -, -, rfl⟩ := step_streamEnds hstep
    refine hr.update hb hi rfl nofun fun hover => ?_
    obtain hdone | hreturned := hover
    · exact .inl hdone
    · cases hphase.symm.trans hreturned
  · obtain ⟨h, how, hi, -, rfl⟩ := step_resume hstep
    exact hr.update hb hi rfl
      (fun s hs herror => ⟨(closes_afterStream hs).reported herror, .inr rfl⟩)
      fun _ => .inr rfl

/-- **Once an answer has failed**, nothing but a new question changes the state. -/
theorem Reported.state_eq (hb : b.Faithful asked texts) (hr : b.Reported)
    (herror : b.state.status = .error) (hmove : move.question = none)
    (hstep : b.step move = some b') : b'.state = b.state := by
  obtain question | _ | _ | ⟨i, event⟩ | ⟨i, how⟩ | i := move
  · cases hmove
  · obtain ⟨-, rfl⟩ := step_cancelStream hstep
    rfl
  · obtain rfl := Option.some.inj hstep
    rfl
  · -- a handler that listens and is not over would still count
    obtain ⟨h, hi, hphase, hopen, -⟩ := step_data hstep
    obtain hgone | hover := hr.ended herror i h hi
    · exact absurd hphase ((hb.handlers i h hi).dropped hgone)
    · exact absurd hover (SendHandler.not_over hphase hopen)
  · obtain ⟨h, -, -, -, -, rfl⟩ := step_streamEnds hstep
    exact ite_self _
  · obtain ⟨h, how, hi, hphase, rfl⟩ := step_resume hstep
    obtain hgone | hdone | hreturned := hr.ended herror i h hi
    · exact if_pos hgone
    · rw [(hb.handlers i h hi).completed hdone how hphase, afterStream, if_pos hdone]
      exact ite_self _
    · cases hphase.symm.trans hreturned

/-! ## Runs -/

theorem run_append {before after : List Move} :
    (before ++ after).foldlM step b = some b' ↔
      ∃ b₁, before.foldlM step b = some b₁ ∧ after.foldlM step b₁ = some b' := by
  rw [List.foldlM_append]
  exact Option.bind_eq_some_iff

theorem run_concat {before : List Move} :
    (before ++ [move]).foldlM step b = some b' ↔
      ∃ b₁, before.foldlM step b = some b₁ ∧ b₁.step move = some b' := by
  simp only [run_append, List.foldlM_cons, List.foldlM_nil, Option.bind_eq_bind, Option.pure_def,
    Option.bind_fun_some]

/-- Every state of a run is reported. -/
theorem reported_of_run {moves : List Move} (hrun : moves.foldlM step {} = some b) :
    b.Reported := by
  induction moves using List.reverseRecOn generalizing b with
  | nil =>
    obtain rfl := Option.some.inj hrun
    exact ⟨nofun, nofun⟩
  | append_singleton moves move ih =>
    obtain ⟨b₁, hbefore, hstep⟩ := run_concat.1 hrun
    exact (ih hbefore).step (Faithful.start.run hbefore) hstep

/-- **A move leaves no stale error**, unless it asks a question after a failure. -/
theorem clean_step (hb : b.Faithful asked texts) (hr : b.Reported) (hclean : b.state.Clean)
    (hmove : move.question ≠ none → b.state.status ≠ .error) (hstep : b.step move = some b') :
    b'.state.Clean := by
  by_cases herror : b.state.status = .error
  · have hquiet : move.question = none := by
      by_contra hasks
      exact hmove hasks herror
    rwa [hr.state_eq hb herror hquiet hstep]
  · obtain hsame | hfailed := error_step hstep
    · exact fun _ => hsame.trans (hclean herror)
    · exact fun hnot => absurd hfailed hnot

/-- **The error of a failure stays in the chat state of the next question.**  A run shows errors in
states of status `error` alone exactly when it asks no question in such a state. -/
theorem no_stale_error_iff {moves : List Move} (hrun : moves.foldlM step {} = some b) :
    (∀ before b', before <+: moves → before.foldlM step {} = some b' → b'.state.Clean) ↔
      ∀ before question b', before ++ [.sendMessage question] <+: moves →
        before.foldlM step {} = some b' → b'.state.status ≠ .error := by
  constructor
  · intro hclean before question b' hprefix hbefore herror
    obtain ⟨after, hafter⟩ := hprefix
    rw [← hafter] at hrun
    obtain ⟨b₁, hasked, -⟩ := run_append.1 hrun
    obtain ⟨b₀, hsame, hstep⟩ := run_concat.1 hasked
    obtain rfl := Option.some.inj (hbefore.symm.trans hsame)
    obtain ⟨-, hsend⟩ := Option.ite_none_left_eq_some.1 hstep
    have hnone := hclean _ b₁ ⟨after, hafter⟩ hasked
    obtain rfl := Option.some.inj hsend
    exact (reported_of_run hbefore).error herror (hnone nofun)
  · intro hnot before
    induction before using List.reverseRecOn with
    | nil =>
      intro b' _ hstart
      obtain rfl := Option.some.inj hstart
      exact fun _ => rfl
    | append_singleton before move ih =>
      intro b' hprefix hnext
      obtain ⟨b₁, hbefore, hstep⟩ := run_concat.1 hnext
      have hclean := ih b₁ ((List.prefix_append _ _).trans hprefix) hbefore
      refine clean_step (Faithful.start.run hbefore) (reported_of_run hbefore) hclean
        (fun hasks => ?_) hstep
      obtain ⟨question, hquestion⟩ := Option.ne_none_iff_exists'.1 hasks
      obtain rfl : move = .sendMessage question := by
        cases move <;> cases hquestion
        rfl
      exact hnot before question b₁ hprefix hbefore

/-- A question that fails, and no other. -/
def failedOnce : List Move :=
  [.sendMessage [1], .data 0 (.streamErrorFrame (js "Generation failed."))]

theorem no_stale_error_iff_failedOnce : ∃ b, failedOnce.foldlM step {} = some b ∧
    b.state.error = some (js "Generation failed.") ∧
    ∀ before b', before <+: failedOnce → before.foldlM step {} = some b' → b'.state.Clean := by
  refine ⟨_, rfl, rfl, (no_stale_error_iff (show failedOnce.foldlM step {} = some _ from rfl)).2 ?_⟩
  intro before question b' hprefix hbefore
  obtain ⟨after, hafter⟩ := hprefix
  rcases before with _ | ⟨m, _ | ⟨m', before⟩⟩
  · obtain rfl := Option.some.inj hbefore
    exact nofun
  · cases (List.cons.inj (List.cons.inj hafter).2).1
  · have hlength := congrArg List.length hafter
    simp [failedOnce] at hlength

/-- **A second question has the error of the first.** -/
theorem not_no_stale_error : ¬ ∀ (moves : List Move) (b : ChatBloc),
    moves.foldlM step {} = some b → b.state.status ≠ .error → b.state.error = none := by
  intro hclaim
  have hnone := hclaim [.sendMessage [1], .data 0 (.streamErrorFrame (js "Generation failed.")),
    .streamEnds 0 .closed, .resume 0, .sendMessage [2]] _ rfl nofun
  cases hnone

end ChatBloc

end Mobile

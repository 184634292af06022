import SupportAgent.Machinery.Async

/-!
# Machinery/Sequential — bodies run one after the other

`Proc.run` takes a body to its end with nothing else going on.  What a run keeps (`run_keeps`) and
what two runs have in common (`run_agree`) follow from the calls the body may make: the second is
the unwinding rule of noninterference, a step at a time on both sides under the same decisions.
-/

namespace Async.Proc

variable {S : Signature} {ε δ σ α : Type}

/-- **A body run to its end**, call after call, under the decisions made about its calls; `none`
when one of them cannot happen. -/
def run (h : Handler S ε δ σ) : Proc S ε α → (ℕ → δ) → σ → Option (Except ε α × σ)
  | ret a, _, s => some (.ok a, s)
  | throw e, _, s => some (.error e, s)
  | await c k, d, s => (h s c (d 0)).bind fun (r, s') => (k r).run h (fun n => d (n + 1)) s'

variable {h : Handler S ε δ σ} {C : S.Call → Prop}

/-- **What every call keeps, a run keeps.** -/
theorem run_keeps {R : σ → σ → Prop} (hrefl : ∀ s, R s s)
    (htrans : ∀ {s t u}, R s t → R t u → R s u)
    {I : σ → Prop} (hcall : ∀ c d s r t, C c → I s → h s c d = some (r, t) → R s t ∧ I t)
    {p : Proc S ε α} (hp : p.Only C) {d : ℕ → δ} {s t : σ} {r : Except ε α} (hs : I s)
    (hrun : p.run h d s = some (r, t)) : R s t ∧ I t := by
  induction p generalizing d s with
  | ret a =>
    obtain ⟨-, rfl⟩ := Prod.mk.inj (Option.some.inj hrun)
    exact ⟨hrefl s, hs⟩
  | throw e =>
    obtain ⟨-, rfl⟩ := Prod.mk.inj (Option.some.inj hrun)
    exact ⟨hrefl s, hs⟩
  | await c k ih =>
    obtain ⟨⟨r₁, s₁⟩, hstep, hrest⟩ := Option.bind_eq_some_iff.mp hrun
    obtain ⟨hR, hI⟩ := hcall c (d 0) s r₁ s₁ hp.1 hs hstep
    obtain ⟨hR', hI'⟩ := ih r₁ (hp.2 r₁) hI hrest
    exact ⟨htrans hR hR', hI'⟩

/-- **Two runs that see the same stay the same**: if related states answer every call alike and stay
related, a body ends alike from both. -/
theorem run_agree {R : σ → σ → Prop}
    (hcall : ∀ c d s s' r r' t t', C c → R s s' → h s c d = some (r, t) → h s' c d = some (r', t') →
      r = r' ∧ R t t')
    {p : Proc S ε α} (hp : p.Only C) {d : ℕ → δ} {s s' t t' : σ} {r r' : Except ε α} (hs : R s s')
    (hrun : p.run h d s = some (r, t)) (hrun' : p.run h d s' = some (r', t')) :
    r = r' ∧ R t t' := by
  induction p generalizing d s s' with
  | ret a =>
    obtain ⟨rfl, rfl⟩ := Prod.mk.inj (Option.some.inj hrun)
    obtain ⟨rfl, rfl⟩ := Prod.mk.inj (Option.some.inj hrun')
    exact ⟨rfl, hs⟩
  | throw e =>
    obtain ⟨rfl, rfl⟩ := Prod.mk.inj (Option.some.inj hrun)
    obtain ⟨rfl, rfl⟩ := Prod.mk.inj (Option.some.inj hrun')
    exact ⟨rfl, hs⟩
  | await c k ih =>
    obtain ⟨⟨r₁, s₁⟩, hstep, hrest⟩ := Option.bind_eq_some_iff.mp hrun
    obtain ⟨⟨r₂, s₂⟩, hstep', hrest'⟩ := Option.bind_eq_some_iff.mp hrun'
    obtain ⟨rfl, hR⟩ := hcall c (d 0) s s' r₁ r₂ s₁ s₂ hp.1 hs hstep hstep'
    exact ih r₁ (hp.2 r₁) hR hrest hrest'

/-- One call of a run. -/
theorem run_await {c : S.Call} {k : Except ε (S.Res c) → Proc S ε α} {d : ℕ → δ} {s s' : σ}
    {r : Except ε (S.Res c)} (hstep : h s c (d 0) = some (r, s')) :
    (await c k).run h d s = (k r).run h (fun n => d (n + 1)) s' := by
  rw [run, hstep]
  rfl

/-- When every call is turned away, the run ends where it began. -/
theorem run_refused {e : ε} {d : ℕ → δ} {s : σ} (hd : ∀ c n, h s c (d n) = some (.error e, s))
    (p : Proc S ε α) : ∃ r, p.run h d s = some (r, s) := by
  induction p generalizing d with
  | ret a => exact ⟨_, rfl⟩
  | throw e => exact ⟨_, rfl⟩
  | await c k ih =>
    obtain ⟨r, hr⟩ := ih (.error e) (fun c n => hd c (n + 1))
    refine ⟨r, ?_⟩
    rw [run, hd c 0]
    exact hr

/-- **A run in two parts**: the first ends with a value and the second goes on, or with an error. -/
theorem run_bind {β : Type} {p : Proc S ε α} {f : α → Proc S ε β} {d : ℕ → δ} {s t : σ}
    {r : Except ε β}
    (hrun : (p >>= f).run h d s = some (r, t)) : ∃ n x u, p.run h d s = some (x, u) ∧
      ((∃ a, x = .ok a ∧ (f a).run h (fun m => d (m + n)) u = some (r, t)) ∨
        ∃ e, x = .error e ∧ r = .error e ∧ t = u) := by
  induction p generalizing d s with
  | ret a => exact ⟨0, _, s, rfl, .inl ⟨a, rfl, hrun⟩⟩
  | throw e =>
    obtain ⟨rfl, rfl⟩ := Prod.mk.inj (Option.some.inj hrun)
    exact ⟨0, _, s, rfl, .inr ⟨e, rfl, rfl, rfl⟩⟩
  | await c k ih =>
    obtain ⟨⟨x, u⟩, hstep, hrest⟩ := Option.bind_eq_some_iff.mp hrun
    obtain ⟨n, y, v, hfirst, hsecond⟩ := ih x hrest
    refine ⟨n + 1, y, v, (run_await hstep).trans hfirst, hsecond⟩

theorem run_map {β : Type} {p : Proc S ε α} {f : α → β} {d : ℕ → δ} {s t : σ} {r : Except ε β}
    (hrun : (f <$> p).run h d s = some (r, t)) : ∃ x, p.run h d s = some (x, t) ∧ r = x.map f := by
  obtain ⟨n, x, u, hp, hrest⟩ := run_bind (f := fun a => ret (f a)) hrun
  obtain ⟨a, rfl, hret⟩ | ⟨e, rfl, rfl, rfl⟩ := hrest
  · obtain ⟨rfl, rfl⟩ := Prod.mk.inj (Option.some.inj hret)
    exact ⟨_, hp, rfl⟩
  · exact ⟨_, hp, rfl⟩

/-- **A run under a `catch`**: it ends with its value, or the handler goes on. -/
theorem run_tryCatch {p : Proc S ε α} {g : ε → Proc S ε α} {d : ℕ → δ} {s t : σ} {r : Except ε α}
    (hrun : (p.tryCatch g).run h d s = some (r, t)) : ∃ n x u, p.run h d s = some (x, u) ∧
      ((∃ a, x = .ok a ∧ r = .ok a ∧ t = u) ∨
        ∃ e, x = .error e ∧ (g e).run h (fun m => d (m + n)) u = some (r, t)) := by
  induction p generalizing d s with
  | ret a =>
    obtain ⟨rfl, rfl⟩ := Prod.mk.inj (Option.some.inj hrun)
    exact ⟨0, _, s, rfl, .inl ⟨a, rfl, rfl, rfl⟩⟩
  | throw e => exact ⟨0, _, s, rfl, .inr ⟨e, rfl, hrun⟩⟩
  | await c k ih =>
    obtain ⟨⟨x, u⟩, hstep, hrest⟩ := Option.bind_eq_some_iff.mp hrun
    obtain ⟨n, y, v, hfirst, hsecond⟩ := ih x hrest
    exact ⟨n + 1, y, v, (run_await hstep).trans hfirst, hsecond⟩

/-- One call, and nothing else. -/
theorem run_call {c : S.Call} {d : ℕ → δ} {s t : σ} {r : Except ε (S.Res c)}
    (hrun : (call c : Proc S ε (S.Res c)).run h d s = some (r, t)) : h s c (d 0) = some (r, t) := by
  obtain ⟨⟨x, u⟩, hstep, hrest⟩ := Option.bind_eq_some_iff.mp hrun
  rcases x with e | a
  all_goals
    obtain ⟨rfl, rfl⟩ := Prod.mk.inj (Option.some.inj hrest)
    exact hstep

theorem run_ofExcept {x : Except ε α} {d : ℕ → δ} {s t : σ} {r : Except ε α}
    (hrun : (ofExcept x : Proc S ε α).run h d s = some (r, t)) : r = x ∧ t = s := by
  rcases x with e | a
  all_goals
    obtain ⟨rfl, rfl⟩ := Prod.mk.inj (Option.some.inj hrun)
    exact ⟨rfl, rfl⟩

end Async.Proc

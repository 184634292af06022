import SupportAgent.Machinery.Run

/-!
# Machinery/Async — bodies of awaited calls, and what holds across their interleavings

An `async` function body is a tree of awaited calls (`Proc`): between two awaits it runs alone, at
an await every other task may run.  A `Handler` says what one call does to the shared state;
`Pool.step` interleaves any number of tasks call by call, and a task may be dropped at any await (a
crash).

`Contract.Safe` is the rely–guarantee reading of a body: every call it makes, from any state the
other tasks may have left behind (`rely`), keeps the shared invariant and changes the state only as
promised (`guar`).  `Pool.Ok.step` turns it into an invariant of the whole pool, where what one task
promises is what the others put up with.  `Solo` is the other scheduler: one task at a time, the
state left alone while it runs.
-/

namespace Async

/-- The calls a body may await, and the type each resolves to. -/
structure Signature where
  Call : Type
  Res : Call → Type

/-- **The body of an `async` function**: a value, a thrown error, or an awaited call and what
follows it.  A rejected call hands its error to the continuation, which is where `try`/`catch` reads
it. -/
inductive Proc (S : Signature) (ε α : Type) : Type
  | ret (a : α)
  | throw (e : ε)
  | await (c : S.Call) (k : Except ε (S.Res c) → Proc S ε α)

namespace Proc

variable {S : Signature} {ε α β : Type}

/-- Run `f` on the value of a body; an error passes it by. -/
def bind : Proc S ε α → (α → Proc S ε β) → Proc S ε β
  | ret a, f => f a
  | throw e, _ => throw e
  | await c k, f => await c fun r => bind (k r) f

instance : Monad (Proc S ε) where
  pure := ret
  bind := bind

/-- `try body catch h`. -/
def tryCatch : Proc S ε α → (ε → Proc S ε α) → Proc S ε α
  | ret a, _ => ret a
  | throw e, h => h e
  | await c k, h => await c fun r => tryCatch (k r) h

/-- `await c`, a rejection rethrown. -/
def call (c : S.Call) : Proc S ε (S.Res c) :=
  await c fun
    | .ok r => ret r
    | .error e => throw e

/-- A synchronous step of a body, which may throw. -/
def ofExcept : Except ε α → Proc S ε α
  | .ok a => ret a
  | .error e => throw e

/-- **The calls a body may make**, whatever they resolve to, all have a property. -/
def Only (C : S.Call → Prop) : Proc S ε α → Prop
  | ret _ => True
  | throw _ => True
  | await c k => C c ∧ ∀ r, Only C (k r)

variable {C : S.Call → Prop}

theorem Only.bind {p : Proc S ε α} {f : α → Proc S ε β} (hp : p.Only C) (hf : ∀ a, (f a).Only C) :
    (p >>= f).Only C := by
  induction p with
  | ret a => exact hf a
  | throw e => trivial
  | await c k ih => exact ⟨hp.1, fun r => ih r (hp.2 r)⟩

/-- The property may be weakened. -/
theorem Only.imp {C' : S.Call → Prop} {p : Proc S ε α} (hp : p.Only C) (hC : ∀ c, C c → C' c) :
    p.Only C' := by
  induction p with
  | ret a => trivial
  | throw e => trivial
  | await c k ih => exact ⟨hC c hp.1, fun r => ih r (hp.2 r)⟩

theorem Only.map {f : α → β} {p : Proc S ε α} (hp : p.Only C) : (f <$> p).Only C :=
  hp.bind fun _ => trivial

theorem Only.tryCatch {p : Proc S ε α} {h : ε → Proc S ε α} (hp : p.Only C)
    (hh : ∀ e, (h e).Only C) : (p.tryCatch h).Only C := by
  induction p with
  | ret a => trivial
  | throw e => exact hh e
  | await c k ih => exact ⟨hp.1, fun r => ih r (hp.2 r)⟩

theorem only_call {c : S.Call} (h : C c) : (call c : Proc S ε (S.Res c)).Only C := by
  refine ⟨h, ?_⟩
  rintro (e | r) <;> trivial

theorem only_ofExcept (r : Except ε α) : (ofExcept r : Proc S ε α).Only C := by
  rcases r with e | a <;> trivial

/-- The value or the error a finished body ended with. -/
def outcome : Proc S ε α → Option (Except ε α)
  | ret a => some (.ok a)
  | throw e => some (.error e)
  | await _ _ => none

@[simp] theorem pure_eq_ret (a : α) : (pure a : Proc S ε α) = ret a := rfl

@[simp] theorem ret_bind (a : α) (f : α → Proc S ε β) : (ret a >>= f) = f a := rfl

@[simp] theorem throw_bind (e : ε) (f : α → Proc S ε β) : (throw e >>= f) = throw e := rfl

@[simp] theorem await_bind (c : S.Call) (k : Except ε (S.Res c) → Proc S ε α)
    (f : α → Proc S ε β) : (await c k >>= f) = await c fun r => k r >>= f := rfl

end Proc

/-- What one call does: the result it resolves or rejects with and the state after it, under what
the outside world decides (`δ`).  `none` is a decision that cannot happen. -/
abbrev Handler (S : Signature) (ε δ σ : Type) : Type :=
  σ → (c : S.Call) → δ → Option (Except ε (S.Res c) × σ)

/-! ## Contracts: what tasks promise each other -/

/-- The terms tasks over one shared state agree on: the condition the calls of a run meet, the
invariant every call keeps, the changes a task must put up with between its calls, and the changes
its own calls may make. -/
structure Contract (S : Signature) (ε δ σ : Type) where
  handler : Handler S ε δ σ
  meets : σ → S.Call → δ → Prop
  inv : σ → Prop
  rely : σ → σ → Prop
  guar : σ → σ → Prop
  rely_refl : ∀ s, rely s s
  rely_trans : ∀ {s t u}, rely s t → rely t u → rely s u

namespace Contract

variable {S : Signature} {ε δ σ α β : Type} (K : Contract S ε δ σ)

/-- **A body that honours the contract from a state**, and ends as `Q` says. -/
def Safe (Q : Except ε α → σ → Prop) : Proc S ε α → σ → Prop
  | .ret a, s => Q (.ok a) s
  | .throw e, s => Q (.error e) s
  | .await c k, s => ∀ s₁, K.rely s s₁ → K.inv s₁ → ∀ d r s₂, K.meets s₁ c d →
      K.handler s₁ c d = some (r, s₂) → K.inv s₂ ∧ K.guar s₁ s₂ ∧ Safe Q (k r) s₂

variable {K}

/-- The end condition may be weakened. -/
theorem Safe.imp {Q Q' : Except ε α → σ → Prop} {p : Proc S ε α} {s : σ} (h : K.Safe Q p s)
    (hQ : ∀ o s, Q o s → Q' o s) : K.Safe Q' p s := by
  induction p generalizing s with
  | ret a => exact hQ _ _ h
  | throw e => exact hQ _ _ h
  | await c k ih =>
    intro s₁ hs₁ hi d r s₂ hm hh
    obtain ⟨hinv, hguar, hk⟩ := h s₁ hs₁ hi d r s₂ hm hh
    exact ⟨hinv, hguar, ih r hk⟩

/-- **Sequencing.**  The first body is checked against what the second needs to start. -/
theorem Safe.bind {Q : Except ε β → σ → Prop} {p : Proc S ε α} {f : α → Proc S ε β} {s : σ}
    (h : K.Safe (fun o t => match o with
      | .ok a => K.Safe Q (f a) t
      | .error e => Q (.error e) t) p s) : K.Safe Q (p >>= f) s := by
  induction p generalizing s with
  | ret a => exact h
  | throw e => exact h
  | await c k ih =>
    intro s₁ hs₁ hi d r s₂ hm hh
    obtain ⟨hinv, hguar, hk⟩ := h s₁ hs₁ hi d r s₂ hm hh
    exact ⟨hinv, hguar, ih r hk⟩

/-- A body whose value nobody looks at. -/
theorem Safe.then {p : Proc S ε α} {f : α → β} {s : σ} (h : K.Safe (fun _ _ => True) p s) :
    K.Safe (fun _ _ => True) (p >>= fun a => pure (f a)) s := by
  refine Safe.bind (h.imp ?_)
  rintro (e | a) t - <;> trivial

/-- **Catching.**  The handler is checked from wherever the body threw. -/
theorem Safe.tryCatch {Q : Except ε α → σ → Prop} {p : Proc S ε α} {h : ε → Proc S ε α} {s : σ}
    (hp : K.Safe (fun o t => match o with
      | .ok a => Q (.ok a) t
      | .error e => K.Safe Q (h e) t) p s) : K.Safe Q (p.tryCatch h) s := by
  induction p generalizing s with
  | ret a => exact hp
  | throw e => exact hp
  | await c k ih =>
    intro s₁ hs₁ hi d r s₂ hm hh
    obtain ⟨hinv, hguar, hk⟩ := hp s₁ hs₁ hi d r s₂ hm hh
    exact ⟨hinv, hguar, ih r hk⟩

/-- **One call.** -/
theorem Safe.call {c : S.Call} {Q : Except ε (S.Res c) → σ → Prop} {s : σ}
    (h : ∀ s₁, K.rely s s₁ → K.inv s₁ → ∀ d r s₂, K.meets s₁ c d →
      K.handler s₁ c d = some (r, s₂) → K.inv s₂ ∧ K.guar s₁ s₂ ∧ Q r s₂) :
    K.Safe Q (Proc.call c) s := by
  intro s₁ hs₁ hi d r s₂ hm hh
  obtain ⟨hinv, hguar, hQ⟩ := h s₁ hs₁ hi d r s₂ hm hh
  refine ⟨hinv, hguar, ?_⟩
  cases r <;> exact hQ

/-- **A synchronous step**: what follows is checked for each value it may give. -/
theorem Safe.ofExcept_bind {Q : Except ε β → σ → Prop} {r : Except ε α} {f : α → Proc S ε β} {s : σ}
    (hok : ∀ a, r = .ok a → K.Safe Q (f a) s) (herr : ∀ e, r = .error e → Q (.error e) s) :
    K.Safe Q (Proc.ofExcept r >>= f) s := by
  rcases r with e | a
  · exact herr e rfl
  · exact hok a rfl

/-- **A body whose calls keep a fact keeps it.** -/
theorem Safe.of_only {C : S.Call → Prop} {J : σ → Prop}
    (hcall : ∀ c, C c → ∀ s d r s', K.inv s → J s → K.meets s c d → K.handler s c d = some (r, s') →
      K.inv s' ∧ K.guar s s' ∧ J s')
    (hJ : ∀ s s', J s → K.rely s s' → J s') {p : Proc S ε α} (hp : p.Only C) {s : σ} (hs : J s) :
    K.Safe (fun _ t => J t) p s := by
  induction p generalizing s with
  | ret a => exact hs
  | throw e => exact hs
  | await c k ih =>
    intro s₁ hs₁ hi d r s₂ hm hh
    obtain ⟨hinv, hguar, hJ₂⟩ := hcall c hp.1 s₁ d r s₂ hi (hJ _ _ hs hs₁) hm hh
    exact ⟨hinv, hguar, ih r (hp.2 r) hJ₂⟩

/-- The other tasks do not disturb a safe body. -/
theorem Safe.rely {Q : Except ε α → σ → Prop} (hQ : ∀ o s s', Q o s → K.rely s s' → Q o s')
    {p : Proc S ε α} {s s' : σ} (h : K.Safe Q p s) (hs : K.rely s s') : K.Safe Q p s' := by
  cases p with
  | ret a => exact hQ _ _ _ h hs
  | throw e => exact hQ _ _ _ h hs
  | await c k =>
    intro s₁ hs₁
    exact h s₁ (K.rely_trans hs hs₁)

end Contract

/-! ## Many tasks at once -/

/-- The shared state and the tasks started on it, in the order they started. -/
structure Pool (S : Signature) (ε α σ : Type) where
  world : σ
  tasks : List (Proc S ε α)

/-- One move of a pool: a task starts, a task's pending call happens, a task is lost. -/
inductive Pool.Move (ι δ : Type)
  | launch (i : ι)
  | resume (n : ℕ) (d : δ)
  | crash (n : ℕ)
  deriving DecidableEq

namespace Pool

variable {S : Signature} {ε δ σ α ι : Type}

/-- **Interleaving**: one move, the calls of different tasks in any order. -/
def step (H : Handler S ε δ σ) (launch : σ → ι → Option (Proc S ε α)) (c : Pool S ε α σ) :
    Move ι δ → Option (Pool S ε α σ)
  | .launch i => (launch c.world i).map fun p => ⟨c.world, c.tasks ++ [p]⟩
  | .resume n d =>
    match c.tasks[n]? with
    | some (.await call k) =>
      (H c.world call d).map fun rw => ⟨rw.2, c.tasks.set n (k rw.1)⟩
    | _ => none
  | .crash n => if n < c.tasks.length then some ⟨c.world, c.tasks.eraseIdx n⟩ else none

/-- The call a move makes, if it makes one, meets a condition. -/
def Meets (meets : σ → S.Call → δ → Prop) (c : Pool S ε α σ) : Move ι δ → Prop
  | .resume n d => ∀ call k, c.tasks[n]? = some (.await call k) → meets c.world call d
  | _ => True

/-- The call a move makes, if it makes one, passes a test. -/
def passes (ok : σ → S.Call → Bool) (c : Pool S ε α σ) : Move ι δ → Bool
  | .resume n _ =>
    match c.tasks[n]? with
    | some (.await call _) => ok c.world call
    | _ => true
  | _ => true

/-- A condition that every call meets. -/
theorem meets_of_forall {meets : σ → S.Call → δ → Prop} (h : ∀ s call d, meets s call d)
    {c : Pool S ε α σ} (m : Move ι δ) : c.Meets meets m := by
  cases m with
  | resume n d => exact fun call k _ => h c.world call d
  | _ => trivial

theorem meets_of_passes {meets : σ → S.Call → δ → Prop} {ok : σ → S.Call → Bool}
    (hok : ∀ s call d, ok s call = true → meets s call d) {c : Pool S ε α σ} {m : Move ι δ}
    (h : c.passes ok m = true) : c.Meets meets m := by
  rcases m with i | ⟨n, d⟩ | n
  · exact trivial
  · intro call k hk
    refine hok c.world call d ?_
    simpa [passes, hk] using h
  · exact trivial

/-- Every task of the pool honours the contract from where the pool is. -/
structure Ok (K : Contract S ε δ σ) (Q : Except ε α → σ → Prop) (c : Pool S ε α σ) : Prop where
  inv : K.inv c.world
  safe : ∀ p ∈ c.tasks, K.Safe Q p c.world

variable {K : Contract S ε δ σ} {Q : Except ε α → σ → Prop}
  {launch : σ → ι → Option (Proc S ε α)}

/-- A call that is made. -/
theorem step_resume {H : Handler S ε δ σ} {c c' : Pool S ε α σ} {n : ℕ} {d : δ}
    (h : c.step H launch (.resume n d) = some c') :
    ∃ call k r s, c.tasks[n]? = some (.await call k) ∧ H c.world call d = some (r, s) ∧
      c' = ⟨s, c.tasks.set n (k r)⟩ := by
  rw [step] at h
  split at h
  · rename_i call k htask
    obtain ⟨⟨r, s⟩, hr, rfl⟩ := Option.map_eq_some_iff.mp h
    exact ⟨call, k, r, s, htask, hr, rfl⟩
  · cases h

/-- A task that is lost. -/
theorem step_crash {H : Handler S ε δ σ} {c c' : Pool S ε α σ} {n : ℕ}
    (h : c.step H launch (.crash n) = some c') :
    n < c.tasks.length ∧ c' = ⟨c.world, c.tasks.eraseIdx n⟩ := by
  obtain ⟨hn, h⟩ := Option.ite_none_right_eq_some.1 h
  exact ⟨hn, (Option.some.inj h).symm⟩

/-- **The pool rule.**  If the tasks that may start are safe, every move keeps the pool in order and
changes the shared state only as the contract allows. -/
theorem Ok.step (hguar : ∀ s s', K.guar s s' → K.rely s s')
    (hQ : ∀ o s s', Q o s → K.rely s s' → Q o s')
    (hlaunch : ∀ s i p, K.inv s → launch s i = some p → K.Safe Q p s) {c c' : Pool S ε α σ}
    {m : Move ι δ} (hc : c.Ok K Q) (hm : c.Meets K.meets m)
    (h : c.step K.handler launch m = some c') : c'.Ok K Q ∧ K.rely c.world c'.world := by
  cases m with
  | launch i =>
    obtain ⟨p, hp, rfl⟩ := Option.map_eq_some_iff.mp h
    refine ⟨⟨hc.inv, fun q hq => ?_⟩, K.rely_refl _⟩
    rcases List.mem_append.mp hq with hq | hq
    · exact hc.safe q hq
    · obtain rfl := List.mem_singleton.mp hq
      exact hlaunch _ _ _ hc.inv hp
  | resume n d =>
    obtain ⟨call, k, r, s, htask, hr, rfl⟩ := step_resume h
    have hsafe := hc.safe _ (List.mem_of_getElem? htask)
    obtain ⟨hinv, hown, hk⟩ :=
      hsafe c.world (K.rely_refl _) hc.inv d r s (hm call k htask) hr
    refine ⟨⟨hinv, fun q hq => ?_⟩, hguar _ _ hown⟩
    rcases List.mem_or_eq_of_mem_set hq with hq | rfl
    · exact (hc.safe q hq).rely hQ (hguar _ _ hown)
    · exact hk
  | crash n =>
    obtain ⟨-, rfl⟩ := step_crash h
    exact ⟨⟨hc.inv, fun q hq => hc.safe q (List.mem_of_mem_eraseIdx hq)⟩, K.rely_refl _⟩

/-- **A move changes the shared state by one call or not at all.** -/
theorem world_step {H : Handler S ε δ σ} {c c' : Pool S ε α σ} {m : Move ι δ}
    {meets : σ → S.Call → δ → Prop} (hm : c.Meets meets m) (h : c.step H launch m = some c') :
    c'.world = c.world ∨
      ∃ call d r, meets c.world call d ∧ H c.world call d = some (r, c'.world) := by
  cases m with
  | launch i =>
    obtain ⟨p, -, rfl⟩ := Option.map_eq_some_iff.mp h
    exact .inl rfl
  | resume n d =>
    obtain ⟨call, k, r, s, htask, hr, rfl⟩ := step_resume h
    exact .inr ⟨call, d, r, hm call k htask, hr⟩
  | crash n =>
    obtain ⟨-, rfl⟩ := step_crash h
    exact .inl rfl

/-- **What every call keeps, every run keeps**, whatever the tasks. -/
theorem world_invariant {H : Handler S ε δ σ} {meets : σ → S.Call → δ → Prop} {P : σ → Prop}
    (hcall : ∀ s call d r s', P s → meets s call d → H s call d = some (r, s') → P s')
    {init : Pool S ε α σ → Prop} (hinit : ∀ c, init c → P c.world) {c : Pool S ε α σ}
    (h : Run.Reachable (Pool.step (ι := ι) H launch) (Pool.Meets meets) init c) : P c.world :=
  h.invariant (P := fun c => P c.world) hinit fun _ _ _ hc hm hs => by
    obtain heq | ⟨call, d, r, hmeets, hr⟩ := world_step hm hs
    · rwa [heq]
    · exact hcall _ _ _ _ _ hc hmeets hr

/-- **The pool rule, over runs.** -/
theorem ok_of_reachable (hguar : ∀ s s', K.guar s s' → K.rely s s')
    (hQ : ∀ o s s', Q o s → K.rely s s' → Q o s')
    (hlaunch : ∀ s i p, K.inv s → launch s i = some p → K.Safe Q p s)
    {init : Pool S ε α σ → Prop} (hinit : ∀ c, init c → c.Ok K Q) {c : Pool S ε α σ}
    (h : Run.Reachable (Pool.step (δ := δ) K.handler launch) (Pool.Meets K.meets) init c) :
    c.Ok K Q :=
  h.invariant hinit fun _ _ _ hc hm hs => (hc.step hguar hQ hlaunch hm hs).1

/-- **What the tasks promise each other holds of the run as a whole.** -/
theorem rely_of_reachable (hguar : ∀ s s', K.guar s s' → K.rely s s')
    (hQ : ∀ o s s', Q o s → K.rely s s' → Q o s')
    (hlaunch : ∀ s i p, K.inv s → launch s i = some p → K.Safe Q p s) {c c' : Pool S ε α σ}
    (hc : c.Ok K Q)
    (h : Run.Reachable (Pool.step (δ := δ) K.handler launch) (Pool.Meets K.meets) (· = c) c') :
    K.rely c.world c'.world := by
  refine (h.invariant (P := fun c' => c'.Ok K Q ∧ K.rely c.world c'.world) ?_ ?_).2
  · rintro _ rfl
    exact ⟨hc, K.rely_refl _⟩
  · rintro d m d' ⟨hd, hrely⟩ hm hs
    obtain ⟨hd', hrely'⟩ := hd.step hguar hQ hlaunch hm hs
    exact ⟨hd', K.rely_trans hrely hrely'⟩

end Pool

/-! ## One task at a time -/

/-- The shared state and the one task at work on it, if any. -/
structure Solo (S : Signature) (ε α σ : Type) where
  world : σ
  task : Option (Proc S ε α)

/-- One move without overlap: a task starts when none is pending, its next call happens, it is lost,
or something else happens between two tasks. -/
inductive Solo.Move (ι δ η : Type)
  | launch (i : ι)
  | resume (d : δ)
  | crash
  | between (e : η)

namespace Solo

variable {S : Signature} {ε δ σ α ι η : Type}

/-- A task that has calls left to make. -/
def busy (c : Solo S ε α σ) : Bool :=
  match c.task with
  | some (.await _ _) => true
  | _ => false

/-- **No overlap**: the next task starts only when the last one has ended or is lost. -/
def step (H : Handler S ε δ σ) (launch : σ → ι → Option (Proc S ε α)) (between : σ → η → Option σ)
    (c : Solo S ε α σ) : Move ι δ η → Option (Solo S ε α σ)
  | .launch i => if c.busy then none else (launch c.world i).map fun p => ⟨c.world, some p⟩
  | .resume d =>
    match c.task with
    | some (.await call k) => (H c.world call d).map fun rw => ⟨rw.2, some (k rw.1)⟩
    | _ => none
  | .crash => some ⟨c.world, none⟩
  | .between e => if c.busy then none else (between c.world e).map fun s => ⟨s, none⟩

/-- The call a move makes, if it makes one, meets a condition. -/
def Meets (meets : σ → S.Call → δ → Prop) (c : Solo S ε α σ) : Move ι δ η → Prop
  | .resume d => ∀ call k, c.task = some (.await call k) → meets c.world call d
  | _ => True

/-- A condition that every call meets. -/
theorem meets_of_forall {meets : σ → S.Call → δ → Prop} (h : ∀ s call d, meets s call d)
    {c : Solo S ε α σ} (m : Move ι δ η) : c.Meets meets m := by
  cases m with
  | resume d => exact fun call k _ => h c.world call d
  | _ => trivial

/-- The call a move makes, if it makes one, passes a test. -/
def passes (ok : σ → S.Call → δ → Bool) (c : Solo S ε α σ) : Move ι δ η → Bool
  | .resume d =>
    match c.task with
    | some (.await call _) => ok c.world call d
    | _ => true
  | _ => true

theorem meets_of_passes {meets : σ → S.Call → δ → Prop} {ok : σ → S.Call → δ → Bool}
    (hok : ∀ s call d, ok s call d = true → meets s call d) {c : Solo S ε α σ} {m : Move ι δ η}
    (h : c.passes ok m = true) : c.Meets meets m := by
  cases m with
  | resume d =>
    intro call k hk
    refine hok c.world call d ?_
    simpa [passes, hk] using h
  | _ => trivial

/-- The task at work honours the contract from where the state is. -/
structure Ok (K : Contract S ε δ σ) (Q : Except ε α → σ → Prop) (c : Solo S ε α σ) : Prop where
  inv : K.inv c.world
  safe : ∀ p, c.task = some p → K.Safe Q p c.world

variable {K : Contract S ε δ σ} {Q : Except ε α → σ → Prop}
  {launch : σ → ι → Option (Proc S ε α)} {between : σ → η → Option σ}

/-- **The rule for one task at a time.**  What happens between two tasks has to keep the invariant
and the promise, no more. -/
theorem Ok.step (hrefl : ∀ s, K.guar s s)
    (hlaunch : ∀ s i p, K.inv s → launch s i = some p → K.Safe Q p s)
    (hbetween : ∀ s e s', K.inv s → between s e = some s' → K.inv s' ∧ K.guar s s')
    {c c' : Solo S ε α σ} {m : Move ι δ η} (hc : c.Ok K Q) (hm : c.Meets K.meets m)
    (h : c.step K.handler launch between m = some c') : c'.Ok K Q ∧ K.guar c.world c'.world := by
  cases m with
  | launch i =>
    simp only [Solo.step] at h
    split at h
    case isTrue => simp at h
    case isFalse =>
      obtain ⟨p, hp, rfl⟩ := Option.map_eq_some_iff.mp h
      refine ⟨⟨hc.inv, fun q hq => ?_⟩, hrefl _⟩
      obtain rfl := Option.some.inj hq
      exact hlaunch _ _ _ hc.inv hp
  | resume d =>
    simp only [Solo.step] at h
    split at h
    case h_2 => simp at h
    case h_1 call k htask =>
      obtain ⟨⟨r, s⟩, hr, rfl⟩ := Option.map_eq_some_iff.mp h
      obtain ⟨hinv, hguar, hk⟩ := hc.safe _ htask c.world (K.rely_refl _) hc.inv d r s
        (hm call k htask) hr
      refine ⟨⟨hinv, fun q hq => ?_⟩, hguar⟩
      obtain rfl := Option.some.inj hq
      exact hk
  | crash =>
    obtain rfl := Option.some.inj h
    exact ⟨⟨hc.inv, fun q hq => by simp at hq⟩, hrefl _⟩
  | between e =>
    simp only [Solo.step] at h
    split at h
    case isTrue => simp at h
    case isFalse =>
      obtain ⟨s, hs, rfl⟩ := Option.map_eq_some_iff.mp h
      obtain ⟨hinv, hguar⟩ := hbetween _ _ _ hc.inv hs
      exact ⟨⟨hinv, fun q hq => by simp at hq⟩, hguar⟩

/-- **The rule for one task at a time, over runs.** -/
theorem ok_of_reachable (hrefl : ∀ s, K.guar s s)
    (hlaunch : ∀ s i p, K.inv s → launch s i = some p → K.Safe Q p s)
    (hbetween : ∀ s e s', K.inv s → between s e = some s' → K.inv s' ∧ K.guar s s')
    {init : Solo S ε α σ → Prop} (hinit : ∀ c, init c → c.Ok K Q) {c : Solo S ε α σ}
    (h : Run.Reachable (Solo.step K.handler launch between) (Solo.Meets K.meets) init c) :
    c.Ok K Q :=
  h.invariant hinit fun _ _ _ hc hm hs => (hc.step hrefl hlaunch hbetween hm hs).1

/-- **What the calls of one task at a time promise holds of the run as a whole.** -/
theorem guar_of_reachable (hrefl : ∀ s, K.guar s s)
    (htrans : ∀ s t u, K.guar s t → K.guar t u → K.guar s u)
    (hlaunch : ∀ s i p, K.inv s → launch s i = some p → K.Safe Q p s)
    (hbetween : ∀ s e s', K.inv s → between s e = some s' → K.inv s' ∧ K.guar s s')
    {c c' : Solo S ε α σ} (hc : c.Ok K Q)
    (h : Run.Reachable (Solo.step K.handler launch between) (Solo.Meets K.meets) (· = c) c') :
    K.guar c.world c'.world := by
  refine (h.invariant (P := fun c' => c'.Ok K Q ∧ K.guar c.world c'.world) ?_ ?_).2
  · rintro _ rfl
    exact ⟨hc, hrefl _⟩
  · rintro d m d' ⟨hd, hguar⟩ hm hs
    obtain ⟨hd', hguar'⟩ := hd.step hrefl hlaunch hbetween hm hs
    exact ⟨hd', htrans _ _ _ hguar hguar'⟩

end Solo

end Async

import SupportAgent.Machinery.Async
import SupportAgent.Machinery.Js

/-!
# Util/Retry — retrying an awaited call

The delays between attempts change nothing but time and are left out.
-/

open Async

variable {S : Signature} {α : Type}

/-- The remaining turns of the loop of `withRetry`. -/
def retryLoop (fn : Proc S JsError α) (shouldRetry : JsError → Bool) :
    (attempts : ℕ) → (lastError : JsError) → Proc S JsError α
  | 0, lastError => .throw lastError
  | attempts + 1, _ => fn.tryCatch fun err =>
    if !shouldRetry err then .throw err else retryLoop fn shouldRetry attempts err

/-- Run `fn`, retrying. Throws the last error once attempts are exhausted or immediately if
`shouldRetry` says the error is permanent. -/
def withRetry (fn : Proc S JsError α) (attempts : ℕ) (shouldRetry : JsError → Bool) :
    Proc S JsError α :=
  retryLoop fn shouldRetry attempts (.new (js "undefined"))

/-- Whether an embedding error is worth retrying: transient (429 / 5xx / network) yes. -/
def isRetryableEmbedError (err : JsError) : Bool :=
  match err.status with
  | none => true
  | some status => status == 429 || 500 ≤ status

theorem only_withRetry {C : S.Call → Prop} {fn : Proc S JsError α} (h : fn.Only C) (attempts : ℕ)
    (shouldRetry : JsError → Bool) : (withRetry fn attempts shouldRetry).Only C := by
  rw [withRetry]
  generalize JsError.new (js "undefined") = lastError
  induction attempts generalizing lastError with
  | zero => trivial
  | succ attempts ih =>
    refine h.tryCatch fun e => ?_
    split
    · trivial
    · exact ih e

variable {δ σ : Type} {K : Contract S JsError δ σ}

/-- **Retrying is safe when each attempt is**, from wherever the attempts before it left the state:
`I` before an attempt, `J` after one that failed. -/
theorem safe_withRetry {fn : Proc S JsError α} {Q : Except JsError α → σ → Prop} {I J : σ → Prop}
    {attempts : ℕ} {shouldRetry : JsError → Bool} {s : σ} (hs : I s) (hJ : ∀ s, J s → I s)
    (hfn : ∀ s, I s → K.Safe (fun o t => match o with
      | .ok a => Q (.ok a) t
      | .error _ => J t) fn s)
    (hthrow : ∀ s e, J s → Q (.error e) s) :
    K.Safe Q (withRetry fn (attempts + 1) shouldRetry) s := by
  rw [withRetry]
  generalize JsError.new (js "undefined") = lastError
  induction attempts generalizing s lastError with
  | zero =>
    refine Contract.Safe.tryCatch ((hfn s hs).imp fun o t ho => ?_)
    rcases o with e | a
    · dsimp only
      split <;> exact hthrow t e ho
    · exact ho
  | succ attempts ih =>
    refine Contract.Safe.tryCatch ((hfn s hs).imp fun o t ho => ?_)
    rcases o with e | a
    · dsimp only
      split
      · exact hthrow t e ho
      · exact ih (hJ t ho) e
    · exact ho

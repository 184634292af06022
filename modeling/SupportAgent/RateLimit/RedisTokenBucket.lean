import SupportAgent.Machinery.TokenBucket
import Mathlib.Data.Rat.Floor

/-!
# RateLimit/RedisTokenBucket — the token bucket of a key, as the script in Redis keeps it

Times are in milliseconds and arithmetic is exact.  A call carries two clocks: the `Date.now()` of
the instance that issued it, and Redis's own, on which the key expires.

* `refines_ideal` — on one clock that never runs back, every result is the ideal bucket's.
* `neverOverGrants_of_countsOnce` — on any clocks, the calls of a stretch are admitted within the
  time it spans, as long as no time is refilled for twice.
* `not_neverOverGrants` — the script stores the caller's time even when it lies behind the stored
  one, and the time between the two is refilled for again.
-/

open TokenBucket

/-- What the rate limiter says. -/
structure RateLimitResult where
  allowed : Bool
  retryAfterSec : ℕ
  deriving DecidableEq, Repr

/-- What Redis holds under a bucket's key: the fields of the hash and the time it expires. -/
structure StoredBucket where
  tokens : ℚ
  ts : ℚ
  expiresAt : ℚ
  deriving DecidableEq, Repr

/-- `BUCKET_LUA`: refill by the elapsed time, capped at the capacity, then consume if available. -/
def bucketLua (cap refill now cost redisNow : ℚ) (key : Option StoredBucket) :
    (ℕ × ℕ) × StoredBucket :=
  let data := key.filter fun bucket => redisNow ≤ bucket.expiresAt
  let tokens := (data.map (·.tokens)).getD cap
  let ts := (data.map (·.ts)).getD now
  let elapsed := max 0 (now - ts) / 1000
  let tokens := min cap (tokens + elapsed * refill)
  -- idle buckets expire once they'd be full again (+1s slack)
  let expiresAt := redisNow + (⌈cap / refill * 1000⌉₊ + 1000)
  if cost ≤ tokens then ((1, 0), ⟨tokens - cost, now, expiresAt⟩)
  else ((0, ⌈(cost - tokens) / refill⌉₊), ⟨tokens, now, expiresAt⟩)

structure RedisTokenBucket where
  capacity : ℚ
  refillPerSec : ℚ
  one_le_capacity : 1 ≤ capacity
  refillPerSec_pos : 0 < refillPerSec

/-- The clocks of one call: its caller's, and Redis's when the script runs. -/
structure Consume where
  now : ℚ
  redisNow : ℚ

namespace RedisTokenBucket

variable (limiter : RedisTokenBucket)

def consume (key : Option StoredBucket) (call : Consume) : RateLimitResult × StoredBucket :=
  let ((allowed, retry), bucket) :=
    bucketLua limiter.capacity limiter.refillPerSec call.now 1 call.redisNow key
  (⟨allowed == 1, retry⟩, bucket)

/-- The results of calls on one key, in Redis order. -/
def results : (key : Option StoredBucket) → (calls : List Consume) → List RateLimitResult
  | _, [] => []
  | key, call :: calls =>
    (limiter.consume key call).1 :: results (some (limiter.consume key call).2) calls

/-- The key after these calls. -/
def after : (key : Option StoredBucket) → (calls : List Consume) → Option StoredBucket
  | key, [] => key
  | key, call :: calls => after (some (limiter.consume key call).2) calls

/-! ## One call -/

/-- The refill per millisecond. -/
def rate : ℚ := limiter.refillPerSec / 1000

theorem rate_pos : 0 < limiter.rate := div_pos limiter.refillPerSec_pos (by norm_num)

theorem capacity_nonneg : 0 ≤ limiter.capacity := zero_le_one.trans limiter.one_le_capacity

/-- How long a key outlives a call. -/
def lifetime : ℚ := ⌈limiter.capacity / limiter.refillPerSec * 1000⌉₊ + 1000

/-- The tokens a call finds. -/
def available (key : Option StoredBucket) (call : Consume) : ℚ :=
  let data := key.filter fun bucket => call.redisNow ≤ bucket.expiresAt
  min limiter.capacity ((data.map (·.tokens)).getD limiter.capacity +
    max 0 (call.now - (data.map (·.ts)).getD call.now) / 1000 * limiter.refillPerSec)

theorem consume_of_le {key : Option StoredBucket} {call : Consume}
    (h : 1 ≤ limiter.available key call) : limiter.consume key call =
      (⟨true, 0⟩, ⟨limiter.available key call - 1, call.now,
        call.redisNow + limiter.lifetime⟩) := by
  rw [available] at h
  rw [consume, bucketLua, available]
  dsimp only at h ⊢
  rw [if_pos h]
  rfl

theorem consume_of_lt {key : Option StoredBucket} {call : Consume}
    (h : limiter.available key call < 1) : limiter.consume key call =
      (⟨false, ⌈(1 - limiter.available key call) / limiter.refillPerSec⌉₊⟩,
        ⟨limiter.available key call, call.now, call.redisNow + limiter.lifetime⟩) := by
  rw [available] at h
  rw [consume, bucketLua, available]
  dsimp only at h ⊢
  rw [if_neg (not_le_of_gt h)]
  rfl

theorem available_le (key : Option StoredBucket) (call : Consume) :
    limiter.available key call ≤ limiter.capacity :=
  min_le_left _ _

/-- **A call on a live key** finds what was stored, filled by the caller's time since. -/
theorem available_of_live {bucket : StoredBucket} {call : Consume}
    (h : call.redisNow ≤ bucket.expiresAt) : limiter.available (some bucket) call =
      fill limiter.capacity bucket.tokens (limiter.rate * max 0 (call.now - bucket.ts)) := by
  have hdata : (some bucket).filter (fun b => decide (call.redisNow ≤ b.expiresAt)) =
      some bucket := by
    rw [Option.filter_some, if_pos (decide_eq_true h)]
  rw [available, hdata, fill, rate]
  dsimp only [Option.map_some, Option.getD_some]
  congr 2
  ring

/-- A call finds a full bucket where there is no key. -/
theorem available_of_absent {key : Option StoredBucket} {call : Consume}
    (h : ∀ bucket ∈ key, bucket.expiresAt < call.redisNow) :
    limiter.available key call = limiter.capacity := by
  have hdata : key.filter (fun b => decide (call.redisNow ≤ b.expiresAt)) = none :=
    Option.filter_eq_none_iff.2 fun b hb hle => not_le_of_gt (h b hb) (of_decide_eq_true hle)
  rw [available, hdata]
  dsimp only [Option.map_none, Option.getD_none]
  rw [sub_self, max_self, zero_div, zero_mul, add_zero, min_self]

/-- What a bucket of this limiter keeps: its tokens are between nothing and the capacity. -/
def Holds (key : Option StoredBucket) : Prop :=
  ∀ bucket ∈ key, 0 ≤ bucket.tokens ∧ bucket.tokens ≤ limiter.capacity

variable {limiter}

theorem Holds.available_nonneg {key : Option StoredBucket} (h : limiter.Holds key)
    (call : Consume) : 0 ≤ limiter.available key call := by
  by_cases hlive : ∃ bucket ∈ key, call.redisNow ≤ bucket.expiresAt
  · obtain ⟨bucket, rfl, hlive⟩ := hlive
    rw [limiter.available_of_live hlive]
    exact le_fill.2 ⟨limiter.capacity_nonneg, add_nonneg (h bucket rfl).1
      (mul_nonneg limiter.rate_pos.le (le_max_left _ _))⟩
  · rw [limiter.available_of_absent fun b hb => lt_of_not_ge fun hle => hlive ⟨b, hb, hle⟩]
    exact limiter.capacity_nonneg

theorem Holds.consume {key : Option StoredBucket} (h : limiter.Holds key) (call : Consume) :
    limiter.Holds (some (limiter.consume key call).2) := by
  rintro bucket ⟨⟩
  have hle := limiter.available_le key call
  have hnonneg := h.available_nonneg call
  by_cases hone : 1 ≤ limiter.available key call
  · rw [limiter.consume_of_le hone]
    exact ⟨sub_nonneg.2 hone, by dsimp only; linarith⟩
  · rw [limiter.consume_of_lt (lt_of_not_ge hone)]
    exact ⟨hnonneg, hle⟩

theorem Holds.after {key : Option StoredBucket} (h : limiter.Holds key) (calls : List Consume) :
    limiter.Holds (limiter.after key calls) := by
  induction calls generalizing key with
  | nil => exact h
  | cons call calls ih => exact ih (h.consume call)

/-! ## Any clocks -/

variable (limiter)

/-- How many of the calls of a stretch are allowed. -/
def granted (key : Option StoredBucket) (calls : List Consume) : ℕ :=
  ((limiter.results key calls).map (·.allowed)).count true

/-- The latest time a caller gives in a stretch. -/
def latest (first : Consume) (rest : List Consume) : ℚ :=
  ((first :: rest).map (·.now)).max (List.cons_ne_nil _ _)

/-- The earliest time a caller gives in a stretch. -/
def earliest (first : Consume) (rest : List Consume) : ℚ :=
  ((first :: rest).map (·.now)).min (List.cons_ne_nil _ _)

/-- **The limiter never over-grants on these calls**: no stretch is allowed more than a full bucket
and the refill of the time it spans, and what is stored is never negative nor above capacity. -/
def NeverOverGrants (calls : List Consume) : Prop :=
  (∀ before first rest later, calls = before ++ (first :: rest ++ later) →
    (limiter.granted (limiter.after none before) (first :: rest) : ℚ) ≤
      limiter.capacity + limiter.refillPerSec * (latest first rest - earliest first rest) / 1000) ∧
  ∀ before later, calls = before ++ later → limiter.Holds (limiter.after none before)

/-- A key that Redis drops before one of these calls is full by the callers' clocks. -/
def ExpiresFull : (key : Option StoredBucket) → (calls : List Consume) → Prop
  | _, [] => True
  | key, call :: calls =>
    (∀ bucket ∈ key, bucket.expiresAt < call.redisNow →
      limiter.capacity ≤ bucket.tokens + limiter.rate * (call.now - bucket.ts)) ∧
    ExpiresFull (some (limiter.consume key call).2) calls

instance : (key : Option StoredBucket) → (calls : List Consume) →
    Decidable (limiter.ExpiresFull key calls)
  | _, [] => inferInstanceAs (Decidable True)
  | key, call :: calls =>
    have := instDecidableExpiresFull (some (limiter.consume key call).2) calls
    inferInstanceAs (Decidable (_ ∧ _))

/-- **No time is refilled for twice**: the callers' clocks never rise over the same time again, and
a key that Redis drops is full by their clocks. -/
def CountsOnce (calls : List Consume) : Prop :=
  (rises (calls.map (·.now))).Pairwise Apart ∧ limiter.ExpiresFull none calls

instance (calls : List Consume) : Decidable (limiter.CountsOnce calls) :=
  inferInstanceAs (Decidable (_ ∧ _))

/-- What each of these calls gains, the one before them being at `ts`. -/
def gains : (ts : ℚ) → (calls : List Consume) → List ℚ
  | _, [] => []
  | ts, call :: calls => limiter.rate * max 0 (call.now - ts) :: gains call.now calls

variable {limiter}

theorem ExpiresFull.drop {key : Option StoredBucket} {before stretch later : List Consume}
    (h : limiter.ExpiresFull key (before ++ (stretch ++ later))) :
    limiter.ExpiresFull (limiter.after key before) stretch := by
  induction before generalizing key with
  | cons call before ih => exact ih h.2
  | nil =>
    induction stretch generalizing key with
    | nil => trivial
    | cons call stretch ih => exact ⟨h.1, ih h.2⟩

theorem ts_consume (key : Option StoredBucket) (call : Consume) :
    (limiter.consume key call).2.ts = call.now := by
  by_cases hone : 1 ≤ limiter.available key call
  · rw [limiter.consume_of_le hone]
  · rw [limiter.consume_of_lt (lt_of_not_ge hone)]

/-- Where an expiry loses nothing, a call finds what was stored, filled on. -/
theorem available_of_full {bucket : StoredBucket} {call : Consume}
    (h : bucket.expiresAt < call.redisNow →
      limiter.capacity ≤ bucket.tokens + limiter.rate * (call.now - bucket.ts)) :
    limiter.available (some bucket) call =
      fill limiter.capacity bucket.tokens (limiter.rate * max 0 (call.now - bucket.ts)) := by
  by_cases hlive : call.redisNow ≤ bucket.expiresAt
  · exact limiter.available_of_live hlive
  · have hexpired : bucket.expiresAt < call.redisNow := lt_of_not_ge hlive
    have hgain : limiter.rate * (call.now - bucket.ts) ≤
        limiter.rate * max 0 (call.now - bucket.ts) :=
      mul_le_mul_of_nonneg_left (le_max_right _ _) limiter.rate_pos.le
    rw [limiter.available_of_absent (by rintro b ⟨⟩; exact hexpired),
      fill_eq_capacity ((h hexpired).trans (by linarith))]

/-- **The calls after one are admitted as from the bucket it left**, filled with what each gains. -/
theorem allowed_results {bucket : StoredBucket} {calls : List Consume}
    (h : limiter.ExpiresFull (some bucket) calls) :
    (limiter.results (some bucket) calls).map (·.allowed) =
      admissions limiter.capacity bucket.tokens (limiter.gains bucket.ts calls) := by
  induction calls generalizing bucket with
  | nil => rfl
  | cons call calls ih =>
    have havailable := available_of_full (h.1 bucket rfl)
    have hrest := ih h.2
    rw [ts_consume] at hrest
    rw [results, List.map_cons, hrest, gains, admissions, ← havailable]
    split
    · rename_i hone
      rw [limiter.consume_of_le hone]
    · rename_i hone
      rw [limiter.consume_of_lt (lt_of_not_ge hone)]

theorem gains_nonneg {ts : ℚ} {calls : List Consume} : ∀ g ∈ limiter.gains ts calls, 0 ≤ g := by
  induction calls generalizing ts with
  | nil => exact fun g hg => nomatch hg
  | cons call calls ih =>
    exact List.forall_mem_cons.2 ⟨mul_nonneg limiter.rate_pos.le (le_max_left _ _), ih⟩

theorem sum_gains (ts : ℚ) (calls : List Consume) : (limiter.gains ts calls).sum =
    limiter.rate * ((rises (ts :: calls.map (·.now))).map fun p => p.2 - p.1).sum := by
  induction calls generalizing ts with
  | nil => simp [gains, rises]
  | cons call calls ih =>
    rw [gains, List.sum_cons, ih, List.map_cons, rises]
    split
    · rename_i hlt
      rw [List.map_cons, List.sum_cons, max_eq_right (sub_nonneg.2 hlt.le), mul_add]
    · rename_i hge
      rw [max_eq_left (sub_nonpos.2 (le_of_not_gt hge)), mul_zero, zero_add]

/-- What a call takes and what it leaves are together what it found. -/
theorem spent_add_tokens (key : Option StoredBucket) (call : Consume) :
    (([(limiter.consume key call).1.allowed].count true : ℕ) : ℚ) +
      (limiter.consume key call).2.tokens = limiter.available key call := by
  by_cases hone : 1 ≤ limiter.available key call
  · rw [limiter.consume_of_le hone]
    simp
  · rw [limiter.consume_of_lt (lt_of_not_ge hone)]
    simp

/-- **A stretch is allowed at most a full bucket and what its callers' clocks rise by.** -/
theorem granted_le {key : Option StoredBucket} (hkey : limiter.Holds key) {first : Consume}
    {rest : List Consume} (h : limiter.ExpiresFull key (first :: rest)) :
    (limiter.granted key (first :: rest) : ℚ) ≤ limiter.capacity + limiter.rate *
      ((rises ((first :: rest).map (·.now))).map fun p => p.2 - p.1).sum := by
  have hrest : (limiter.granted (some (limiter.consume key first).2) rest : ℚ) ≤
      (limiter.consume key first).2.tokens + (limiter.gains first.now rest).sum := by
    rw [granted, allowed_results h.2, ts_consume]
    exact admitted_le limiter.capacity_nonneg gains_nonneg (hkey.consume first _ rfl).1
  have hfirst := limiter.spent_add_tokens key first
  have hfound := limiter.available_le key first
  have hsplit : limiter.granted key (first :: rest) =
      [(limiter.consume key first).1.allowed].count true +
        limiter.granted (some (limiter.consume key first).2) rest := by
    rw [granted, results, List.map_cons, ← List.singleton_append, List.count_append]
    rfl
  rw [sum_gains] at hrest
  rw [hsplit, Nat.cast_add, List.map_cons]
  linarith

/-- **The limiter never over-grants where no time is refilled for twice.** -/
theorem neverOverGrants_of_countsOnce (limiter : RedisTokenBucket) (calls : List Consume)
    (h : limiter.CountsOnce calls) : limiter.NeverOverGrants calls := by
  obtain ⟨hapart, hexpires⟩ := h
  have hkey : limiter.Holds none := fun _ hb => nomatch hb
  refine ⟨?_, fun before later _ => hkey.after before⟩
  rintro before first rest later rfl
  have hgranted := limiter.granted_le (hkey.after before) hexpires.drop
  rw [List.map_append, List.map_append] at hapart
  have hspan : ((rises ((first :: rest).map (·.now))).map fun p => p.2 - p.1).sum ≤
      latest first rest - earliest first rest :=
    sum_rises_le (List.cons_ne_nil _ _)
      (fun t ht => ⟨List.min_le_of_mem ht, List.le_max_of_mem ht⟩)
      (hapart.sublist (rises_sublist _ _ _))
  have hscaled := mul_le_mul_of_nonneg_left hspan limiter.rate_pos.le
  have hrate : limiter.refillPerSec * (latest first rest - earliest first rest) / 1000 =
      limiter.rate * (latest first rest - earliest first rest) := by
    rw [rate]
    ring
  rw [hrate]
  linarith

/-- A bucket of one token, refilled within a second. -/
def onePerSecond : RedisTokenBucket := ⟨1, 1, le_rfl, one_pos⟩

/-- A clock that runs back, and on from there over time not counted before. -/
theorem neverOverGrants_ranBack : onePerSecond.NeverOverGrants
    [⟨5000, 100⟩, ⟨4200, 200⟩, ⟨4300, 300⟩] :=
  neverOverGrants_of_countsOnce _ _ (by decide +kernel)

/-- **Two clocks a second apart over-grant**: calling by turns, they are allowed three calls in one
second, where two are due. -/
theorem not_neverOverGrants : ¬ onePerSecond.NeverOverGrants
    [⟨1000, 1000⟩, ⟨0, 1000⟩, ⟨1000, 1000⟩, ⟨0, 1000⟩, ⟨1000, 1000⟩] := by
  intro h
  have hall := h.1 [] ⟨1000, 1000⟩ [⟨0, 1000⟩, ⟨1000, 1000⟩, ⟨0, 1000⟩, ⟨1000, 1000⟩] [] rfl
  revert hall
  decide +kernel

end RedisTokenBucket

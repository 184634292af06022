import SupportAgent.RateLimit.RedisTokenBucket

/-!
# RateLimit/Refinement — on one clock, the bucket in Redis is the ideal bucket

`Tracks` says that whatever call comes next finds the level of the ideal bucket.  A call keeps it
(`Tracks.consume`), whether it is allowed or not and whether its key had expired, so that the
results depend on the times of the allowed calls alone (`outcome_eq`).
-/

open TokenBucket

namespace RedisTokenBucket

variable (limiter : RedisTokenBucket)

/-! ## The ideal bucket's results -/

/-- The level of the ideal bucket at `t`. -/
def idealLevel (admitted : List ℚ) (t : ℚ) : ℚ := level limiter.capacity limiter.rate admitted t

/-- The ideal bucket's allowed calls after calls at these times: it is drained by these alone. -/
def idealAdmitted : (admitted times : List ℚ) → List ℚ
  | admitted, [] => admitted
  | admitted, t :: times =>
    idealAdmitted (if 1 ≤ limiter.idealLevel admitted t then t :: admitted else admitted) times

/-- A call at a level. -/
def resultAt (level : ℚ) : RateLimitResult :=
  if 1 ≤ level then ⟨true, 0⟩ else ⟨false, ⌈(1 - level) / limiter.refillPerSec⌉₊⟩

/-- **What a call at `t` is told** after calls at the times `before`, each with Redis's clock at
`redis` of its time. -/
def outcome (redis : ℚ → ℚ) (before : List ℚ) (t : ℚ) : RateLimitResult :=
  (limiter.consume (limiter.after none (before.map fun s => ⟨s, redis s⟩)) ⟨t, redis t⟩).1

/-! ## Tracking the ideal bucket -/

/-- A call later than the key's last one, with no more time passed in Redis than for its caller. -/
def Follows (key : Option StoredBucket) (call : Consume) : Prop :=
  ∀ bucket ∈ key, bucket.ts ≤ call.now ∧
    call.redisNow - (bucket.expiresAt - limiter.lifetime) ≤ call.now - bucket.ts

/-- **Whatever call comes next finds the level of the ideal bucket.** -/
def Tracks (key : Option StoredBucket) (admitted : List ℚ) : Prop :=
  ∀ call, limiter.Follows key call →
    limiter.available key call = limiter.idealLevel admitted call.now

variable {limiter}

theorem capacity_le_lifetime : limiter.capacity ≤ limiter.rate * limiter.lifetime := by
  have hceil : limiter.capacity / limiter.refillPerSec * 1000 ≤ limiter.lifetime :=
    (Nat.le_ceil _).trans (le_add_of_nonneg_right (by norm_num))
  have hcapacity : limiter.capacity =
      limiter.rate * (limiter.capacity / limiter.refillPerSec * 1000) := by
    rw [rate]
    field_simp [limiter.refillPerSec_pos.ne']
  rw [hcapacity]
  exact mul_le_mul_of_nonneg_left (hcapacity ▸ hceil) limiter.rate_pos.le

/-- **A key that expires is full again**, as long as Redis's clock is not ahead of the caller's. -/
theorem Follows.full {bucket : StoredBucket} {call : Consume} (hholds : 0 ≤ bucket.tokens)
    (h : limiter.Follows (some bucket) call) (hexpired : bucket.expiresAt < call.redisNow) :
    limiter.capacity ≤ bucket.tokens + limiter.rate * (call.now - bucket.ts) := by
  obtain ⟨-, hclock⟩ := h bucket rfl
  have hlong : limiter.lifetime ≤ call.now - bucket.ts := by linarith
  have hgain := mul_le_mul_of_nonneg_left hlong limiter.rate_pos.le
  have hfull := limiter.capacity_le_lifetime
  linarith

theorem expiresAt_consume (key : Option StoredBucket) (call : Consume) :
    (limiter.consume key call).2.expiresAt = call.redisNow + limiter.lifetime := by
  by_cases hone : 1 ≤ limiter.available key call
  · rw [limiter.consume_of_le hone]
  · rw [limiter.consume_of_lt (lt_of_not_ge hone)]

theorem follows_consume {key : Option StoredBucket} {call next : Consume}
    (hnow : call.now ≤ next.now) (hredis : next.redisNow - call.redisNow ≤ next.now - call.now) :
    limiter.Follows (some (limiter.consume key call).2) next := by
  rintro bucket ⟨⟩
  rw [limiter.ts_consume, limiter.expiresAt_consume]
  exact ⟨hnow, by linarith⟩

/-- **A call keeps the bucket on the ideal one's track.** -/
theorem Tracks.consume {key : Option StoredBucket} {admitted : List ℚ} {call : Consume}
    (hholds : limiter.Holds key) (h : limiter.Tracks key admitted)
    (hcall : limiter.Follows key call) : limiter.Tracks (some (limiter.consume key call).2)
      (if 1 ≤ limiter.idealLevel admitted call.now then call.now :: admitted else admitted) := by
  intro next hnext
  obtain ⟨hlater, -⟩ := hnext _ rfl
  have hfound := h call hcall
  have htokens := (hholds.consume call _ rfl).1
  rw [available_of_full (hnext.full htokens), max_eq_right (sub_nonneg.2 hlater)]
  rw [limiter.ts_consume] at hlater ⊢
  by_cases hone : 1 ≤ limiter.available key call
  · rw [limiter.consume_of_le hone, if_pos (hfound ▸ hone), hfound]
    rfl
  · have hlt := lt_of_not_ge hone
    rw [limiter.consume_of_lt hlt, if_neg (hfound ▸ hone), hfound]
    exact level_advance limiter.rate_pos.le hlater admitted

theorem tracks_none : limiter.Tracks none [] :=
  fun _ _ => limiter.available_of_absent fun _ hb => nomatch hb

/-- **A run of calls keeps the bucket on the ideal one's track**, and the next call follows it. -/
theorem Tracks.after {redis : ℚ → ℚ} (hredis : ∀ s t, s ≤ t → redis t - redis s ≤ t - s)
    {key : Option StoredBucket} {admitted times : List ℚ} {t : ℚ} (hholds : limiter.Holds key)
    (h : limiter.Tracks key admitted) (horder : (times ++ [t]).Pairwise (· ≤ ·))
    (hfollows : ∀ s ∈ times ++ [t], limiter.Follows key ⟨s, redis s⟩) :
    limiter.available (limiter.after key (times.map fun s => ⟨s, redis s⟩)) ⟨t, redis t⟩ =
      limiter.idealLevel (limiter.idealAdmitted admitted times) t := by
  induction times generalizing key admitted with
  | nil => exact h _ (hfollows t List.mem_cons_self)
  | cons s times ih =>
    obtain ⟨hfirst, horder⟩ := List.pairwise_cons.1 horder
    have hcall := hfollows s List.mem_cons_self
    exact ih (hholds.consume _) (h.consume hholds hcall) horder fun u hu =>
      follows_consume (hfirst u hu) (hredis s u (hfirst u hu))

/-- **The results are the ideal bucket's.** -/
theorem outcome_eq {redis : ℚ → ℚ} (hredis : ∀ s t, s ≤ t → redis t - redis s ≤ t - s)
    {before : List ℚ} {t : ℚ} (horder : (before ++ [t]).Pairwise (· ≤ ·)) :
    limiter.outcome redis before t =
      limiter.resultAt (limiter.idealLevel (limiter.idealAdmitted [] before) t) := by
  have hholds : limiter.Holds none := fun _ hb => nomatch hb
  have hlevel := tracks_none.after hredis hholds horder fun _ _ _ hb => nomatch hb
  rw [outcome, resultAt, ← hlevel]
  split
  · rename_i hone
    rw [limiter.consume_of_le hone]
  · rename_i hone
    rw [limiter.consume_of_lt (lt_of_not_ge hone)]

/-! ## What denied calls and expiry do not change -/

theorem idealAdmitted_append (admitted before times : List ℚ) :
    limiter.idealAdmitted admitted (before ++ times) =
      limiter.idealAdmitted (limiter.idealAdmitted admitted before) times := by
  induction before generalizing admitted with
  | nil => rfl
  | cons t before ih => exact ih _

theorem allowed_resultAt {level : ℚ} : (limiter.resultAt level).allowed = true ↔ 1 ≤ level := by
  rw [resultAt]
  split
  · rename_i hone
    exact ⟨fun _ => hone, fun _ => rfl⟩
  · rename_i hone
    exact ⟨nofun, fun h => absurd h hone⟩

/-- One clock never runs ahead of itself. -/
theorem steady_id : ∀ s t : ℚ, s ≤ t → id t - id s ≤ t - s := fun _ _ _ => le_rfl

theorem allowed_outcome {before : List ℚ} {t : ℚ} (horder : (before ++ [t]).Pairwise (· ≤ ·)) :
    (limiter.outcome id before t).allowed = true ↔
      1 ≤ limiter.idealLevel (limiter.idealAdmitted [] before) t := by
  rw [outcome_eq steady_id horder, allowed_resultAt]

/-- A denied call leaves the ideal bucket as it was. -/
theorem idealAdmitted_of_denied {before : List ℚ} {t : ℚ}
    (horder : (before ++ [t]).Pairwise (· ≤ ·))
    (hdenied : (limiter.outcome id before t).allowed = false) (later : List ℚ) :
    limiter.idealAdmitted [] (before ++ t :: later) = limiter.idealAdmitted []
      (before ++ later) := by
  have hlow : ¬ 1 ≤ limiter.idealLevel (limiter.idealAdmitted [] before) t := fun hone => by
    rw [(allowed_outcome horder).2 hone] at hdenied
    cases hdenied
  rw [idealAdmitted_append, idealAdmitted, if_neg hlow, ← idealAdmitted_append]

/-- So do any number of denied calls in a row. -/
theorem idealAdmitted_of_polls {before polls : List ℚ}
    (horder : (before ++ polls).Pairwise (· ≤ ·))
    (hdenied : ∀ earlier t later, polls = earlier ++ t :: later →
      (limiter.outcome id (before ++ earlier) t).allowed = false) :
    limiter.idealAdmitted [] (before ++ polls) = limiter.idealAdmitted [] before := by
  induction polls generalizing before with
  | nil => rw [List.append_nil]
  | cons t polls ih =>
    have hfirst : (before ++ [t]).Pairwise (· ≤ ·) :=
      horder.sublist (List.Sublist.append_left (List.cons_sublist_cons.2 (List.nil_sublist _)) _)
    have hpoll := hdenied [] t polls rfl
    rw [List.append_nil] at hpoll
    have hkept := idealAdmitted_of_denied hfirst hpoll []
    rw [List.append_cons] at horder ⊢
    have hrest := ih horder fun earlier s later hsplit => by
      rw [List.append_assoc]
      exact hdenied (t :: earlier) s later (by rw [hsplit, List.cons_append])
    rw [hrest, hkept, List.append_nil]

/-- Two orderly runs that meet in a call are one. -/
theorem pairwise_meet {before after : List ℚ} {t : ℚ} (hbefore : (before ++ [t]).Pairwise (· ≤ ·))
    (hafter : (t :: after).Pairwise (· ≤ ·)) : (before ++ t :: after).Pairwise (· ≤ ·) := by
  obtain ⟨hbefore, -, hmeet⟩ := List.pairwise_append.1 hbefore
  refine List.pairwise_append.2 ⟨hbefore, hafter, fun s hs u hu => ?_⟩
  have hst : s ≤ t := hmeet s hs t List.mem_cons_self
  obtain rfl | hu := List.mem_cons.1 hu
  · exact hst
  · exact hst.trans ((List.pairwise_cons.1 hafter).1 u hu)

/-! ## Retry-After -/

/-- **The Retry-After is the least wait that suffices**: of a bucket below one token, the level
after `n` more seconds is one token from then on. -/
theorem retryAfterSec_le_iff {level : ℚ} (hlow : level < 1) (n : ℕ) :
    (limiter.resultAt level).retryAfterSec ≤ n ↔
      1 ≤ fill limiter.capacity level (limiter.rate * (1000 * n)) := by
  have hgain : limiter.rate * (1000 * n) = limiter.refillPerSec * n := by
    rw [rate]
    ring
  rw [resultAt, if_neg (not_le_of_gt hlow), Nat.ceil_le, div_le_iff₀ limiter.refillPerSec_pos,
    le_fill, hgain, and_iff_right limiter.one_le_capacity, sub_le_iff_le_add', mul_comm]

/-- **On one clock that never runs back, the limiter is the ideal bucket.**  A call is allowed when
the ideal bucket holds a token.  What it is told would be the same if keys never expired, and the
same without any denied call before it.  A denied call is told the least number of seconds after
which, with no call allowed in between, a call is allowed. -/
theorem refines_ideal (limiter : RedisTokenBucket) {before : List ℚ} {t : ℚ}
    (horder : (before ++ [t]).Pairwise (· ≤ ·)) :
    ((limiter.outcome id before t).allowed = true ↔
      1 ≤ limiter.idealLevel (limiter.idealAdmitted [] before) t) ∧
    limiter.outcome id before t = limiter.outcome (fun _ => 0) before t ∧
    (∀ earlier poll since, before = earlier ++ poll :: since →
      (limiter.outcome id earlier poll).allowed = false →
      limiter.outcome id before t = limiter.outcome id (earlier ++ since) t) ∧
    ((limiter.outcome id before t).allowed = false → ∀ (polls : List ℚ) (n : ℕ),
      (t :: (polls ++ [t + 1000 * n])).Pairwise (· ≤ ·) →
      (∀ earlier poll later, polls = earlier ++ poll :: later →
        (limiter.outcome id (before ++ t :: earlier) poll).allowed = false) →
      ((limiter.outcome id (before ++ t :: polls) (t + 1000 * n)).allowed = true ↔
        (limiter.outcome id before t).retryAfterSec ≤ n)) := by
  refine ⟨allowed_outcome horder, ?_, ?_, ?_⟩
  · have hfrozen : ∀ s t : ℚ, s ≤ t → (0 : ℚ) - 0 ≤ t - s := fun s t hst => by linarith
    rw [outcome_eq steady_id horder, outcome_eq hfrozen horder]
  · rintro earlier poll since rfl hdenied
    rw [List.append_assoc, List.cons_append] at horder
    have hpoll : (earlier ++ [poll]).Pairwise (· ≤ ·) :=
      horder.sublist (List.Sublist.append_left (List.cons_sublist_cons.2 (List.nil_sublist _)) _)
    have hwithout : (earlier ++ since ++ [t]).Pairwise (· ≤ ·) := by
      rw [List.append_assoc]
      exact horder.sublist (List.Sublist.append_left (List.sublist_cons_self _ _) _)
    rw [← List.cons_append, ← List.append_assoc] at horder
    rw [outcome_eq steady_id horder, outcome_eq steady_id hwithout,
      idealAdmitted_of_denied hpoll hdenied]
  · intro hdenied polls n hlater hpolls
    have hlow : limiter.idealLevel (limiter.idealAdmitted [] before) t < 1 :=
      lt_of_not_ge fun hone => by
        rw [(allowed_outcome horder).2 hone] at hdenied
        cases hdenied
    have hwhole := pairwise_meet horder hlater
    rw [← List.cons_append, ← List.append_assoc] at hwhole
    have hsame := idealAdmitted_of_polls (List.pairwise_append.1 hwhole).1
      (fun earlier poll later hsplit => by
        cases earlier with
        | nil =>
          obtain ⟨rfl, -⟩ := List.cons.inj hsplit
          rw [List.append_nil]
          exact hdenied
        | cons s earlier =>
          obtain ⟨rfl, hrest⟩ := List.cons.inj hsplit
          exact hpolls earlier poll later hrest)
    have hwait : t ≤ t + 1000 * n := (List.pairwise_cons.1 hlater).1 _ (by simp)
    have hlevel : fill limiter.capacity (limiter.idealLevel (limiter.idealAdmitted [] before) t)
        (limiter.rate * (t + 1000 * n - t)) =
          limiter.idealLevel (limiter.idealAdmitted [] before) (t + 1000 * n) :=
      level_advance limiter.rate_pos.le hwait _
    rw [allowed_outcome hwhole, hsame, ← hlevel, add_sub_cancel_left, outcome_eq steady_id horder,
      retryAfterSec_le_iff hlow]

/-- Of one token refilled within a second: a call, a poll that is told to wait, and another. -/
theorem refines_ideal_polled : (onePerSecond.outcome id [0, 500] 700).retryAfterSec = 1 ∧
    (onePerSecond.outcome id [0, 500] 700 = onePerSecond.outcome id [0] 700) ∧
    (onePerSecond.outcome id [0, 500, 700, 800] 1700).allowed = true := by
  obtain ⟨-, -, hpolls, hretry⟩ := refines_ideal onePerSecond
    (show ([0, 500] ++ [700] : List ℚ).Pairwise (· ≤ ·) by decide +kernel)
  refine ⟨by decide +kernel, hpolls [0] 500 [] rfl (by decide +kernel), ?_⟩
  have hdenied : ∀ earlier poll later, [(800 : ℚ)] = earlier ++ poll :: later →
      (onePerSecond.outcome id ([0, 500] ++ 700 :: earlier) poll).allowed = false := by
    intro earlier poll later hsplit
    cases earlier with
    | nil =>
      obtain ⟨rfl, -⟩ := List.cons.inj hsplit
      decide +kernel
    | cons s earlier => simp at hsplit
  have hnext :=
    (hretry (by decide +kernel) [800] 1 (by decide +kernel) hdenied).2 (by decide +kernel)
  rwa [show (700 : ℚ) + 1000 * (1 : ℕ) = 1700 by norm_num] at hnext

end RedisTokenBucket

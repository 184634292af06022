import Mathlib.Data.List.Forall2
import Mathlib.Data.Prod.Lex
import Mathlib.Tactic.Linarith
import SupportAgent.Chat.PromptAssembly
import SupportAgent.Machinery.KeySort

/-!
# Chat/Selection — which hits become sources, and what they cost

The loop of `assembleContext` takes hits in the prompt's order while there is room for a source and
for its tokens (`Selected`), and makes room for the first one by cutting its content.

* `assembly_greedy` — what is taken, and that the order of the hits does not matter.
* `budget_kept_iff` — when the entries keep the token budget.
-/

open Ingestion JsString

/-! ## The order of the prompt -/

/-- The score of a hit, where it is finite. -/
def ChunkHit.rank (hit : ChunkHit) : ℚ :=
  match hit.score with
  | .finite q => q
  | _ => 0

/-- What the prompt orders hits by. -/
def ChunkHit.key (hit : ChunkHit) : ℚ ×ₗ ℕ ×ₗ ℕ ×ₗ ℕ :=
  toLex (-hit.rank, toLex (hit.documentId, toLex (hit.charStart.getD 0, hit.id)))

/-- **`a` comes before `b`**: by its score, then its document, its offset (a missing one is 0) and
its id. -/
def ChunkHit.Before (a b : ChunkHit) : Prop :=
  b.score.lt a.score = true ∨ a.score = b.score ∧
    (a.documentId < b.documentId ∨ a.documentId = b.documentId ∧
      (a.charStart.getD 0 < b.charStart.getD 0 ∨ a.charStart.getD 0 = b.charStart.getD 0 ∧
        a.id < b.id))

theorem then_ne_gt_iff {α : Type} [LinearOrder α] {a b : α} {o : Ordering} :
    (compare a b).then o ≠ .gt ↔ a < b ∨ a = b ∧ o ≠ .gt := by
  rcases lt_trichotomy a b with hlt | rfl | hgt
  · simp [compare_lt_iff_lt.2 hlt, hlt]
  · simp
  · simp [compare_gt_iff_gt.2 hgt, hgt.not_gt, hgt.ne']

theorem exists_score {hit : ChunkHit} (h : hit.score.isFinite = true) :
    hit.score = .finite hit.rank := by
  rw [ChunkHit.rank]
  rcases hscore : hit.score with q | _ | _ | _
  · rfl
  all_goals rw [hscore] at h; cases h

theorem scoreOrder_eq {a b : ChunkHit} (ha : a.score.isFinite = true)
    (hb : b.score.isFinite = true) : scoreOrder a b = compare (-a.rank) (-b.rank) := by
  rw [scoreOrder, exists_score ha, exists_score hb]
  dsimp only [JsNumber.sub]
  rcases lt_trichotomy (-a.rank) (-b.rank) with hlt | heq | hgt
  · rw [compare_lt_iff_lt.2 hlt, if_pos (by linarith)]
  · rw [compare_eq_iff_eq.2 heq, if_neg (by linarith), if_neg (by linarith)]
  · rw [compare_gt_iff_gt.2 hgt, if_neg (by linarith), if_pos (by linarith)]

/-- **The comparison of two hits** is that of their keys. -/
theorem hitOrder_eq {a b : ChunkHit} (ha : a.score.isFinite = true) (hb : b.score.isFinite = true) :
    (hitOrder a b != .gt) = decide (a.key ≤ b.key) := by
  rw [Bool.eq_iff_iff, bne_iff_ne, decide_eq_true_eq, hitOrder, scoreOrder_eq ha hb, then_ne_gt_iff,
    then_ne_gt_iff, then_ne_gt_iff, ChunkHit.key, ChunkHit.key, Prod.Lex.toLex_le_toLex,
    Prod.Lex.toLex_le_toLex, Prod.Lex.toLex_le_toLex, compare_le_iff_le]

theorem before_of_key_lt {a b : ChunkHit} (ha : a.score.isFinite = true)
    (hb : b.score.isFinite = true) (h : a.key < b.key) : a.Before b := by
  rw [ChunkHit.key, ChunkHit.key, Prod.Lex.toLex_lt_toLex, Prod.Lex.toLex_lt_toLex,
    Prod.Lex.toLex_lt_toLex] at h
  rw [ChunkHit.Before, exists_score ha, exists_score hb]
  refine h.imp (fun hlt => ?_) fun ⟨heq, hrest⟩ => ⟨?_, hrest⟩
  · exact decide_eq_true (neg_lt_neg_iff.1 hlt)
  · rw [neg_inj.1 heq]

section

variable {hits : List ChunkHit}

theorem sorts_key (hfinite : ∀ hit ∈ hits, hit.score.isFinite = true) :
    KeySort.Sorts ChunkHit.key (fun a b => hitOrder a b != .gt) hits := fun a ha b hb =>
  hitOrder_eq (hfinite a ha) (hfinite b hb)

theorem nodup_key (hids : (hits.map (·.id)).Nodup) : (hits.map ChunkHit.key).Nodup := by
  refine List.Nodup.of_map (fun k => (ofLex (ofLex (ofLex k).2).2).2) ?_
  rw [List.map_map]
  exact hids

/-- **The prompt's order.** -/
theorem pairwise_promptOrder (hids : (hits.map (·.id)).Nodup)
    (hfinite : ∀ hit ∈ hits, hit.score.isFinite = true) :
    (promptOrder hits).Pairwise ChunkHit.Before := by
  have hsorted := KeySort.pairwise_mergeSort_lt (sorts_key hfinite) (nodup_key hids)
  exact hsorted.imp_of_mem fun ha hb hlt => before_of_key_lt (hfinite _ (List.mem_mergeSort.1 ha))
    (hfinite _ (List.mem_mergeSort.1 hb)) hlt

/-- **The order the hits came in does not matter.** -/
theorem promptOrder_perm {hits' : List ChunkHit} (hids : (hits.map (·.id)).Nodup)
    (hfinite : ∀ hit ∈ hits, hit.score.isFinite = true) (hperm : hits'.Perm hits) :
    promptOrder hits' = promptOrder hits :=
  KeySort.mergeSort_perm_eq (sorts_key hfinite) (nodup_key hids) hperm

end

/-! ## The loop -/

section

variable (tok : Tokenizer) (options : AssembleOptions)

/-- **What is shown of a hit** at place `i`: all of its content, but for the first hit when its
entry exceeds the budget. -/
def ChunkHit.Shown (hit : ChunkHit) (i : ℕ) (content : JsString) : Prop :=
  ∃ n, tok.countTokens (hit.entry (i + 1) hit.content) = .ok n ∧
    if i = 0 ∧ options.over n = true then
      ∃ headerTokens, tok.countTokens (hit.entry 1 []) = .ok headerTokens ∧
        tok.truncateToTokens hit.content
          ((options.tokenBudget.sub (.ofNat headerTokens)).max (.ofNat 1)) = .ok content
    else content = hit.content

/-- What the loop keeps: the sources so far are the hits seen, with the tokens of their entries. -/
structure Selected (seen : List ChunkHit) (sources : List AssembledSource) (counts : List ℕ) :
    Prop where
  length : sources.length = seen.length
  shown : ∀ (i : ℕ) (hit : ChunkHit), seen[i]? = some hit → ∃ content,
    sources[i]? = some (hit.source (i + 1) content) ∧ hit.Shown tok options i content
  counted : List.Forall₂ (fun (s : AssembledSource) n => tok.countTokens s.entry = .ok n)
    sources counts
  fits : 2 ≤ sources.length → options.over counts.sum = false
  capped : ∀ i < sources.length, options.maxSources.le (.ofNat i) = false

end

section

variable {tok : Tokenizer} {options : AssembleOptions} {seen hits : List ChunkHit}
  {sources result : List AssembledSource} {counts : List ℕ}

/-- Nothing is selected yet. -/
theorem Selected.nil : Selected tok options [] [] [] := ⟨rfl, by simp, .nil, by simp, by simp⟩

/-- **One source more.** -/
theorem Selected.push (h : Selected tok options seen sources counts)
    (hroom : options.maxSources.le (.ofNat sources.length) = false) {hit : ChunkHit}
    {content : JsString} {n : ℕ} (hshown : hit.Shown tok options sources.length content)
    (hcount : tok.countTokens (hit.entry (sources.length + 1) content) = .ok n)
    (hfits : sources ≠ [] → options.over (counts.sum + n) = false) :
    Selected tok options (seen ++ [hit]) (sources ++ [hit.source (sources.length + 1) content])
      (counts ++ [n]) where
  length := by rw [List.length_append, List.length_append, h.length]; rfl
  shown i hit' hi := by
    rcases Nat.lt_or_ge i seen.length with hlt | hge
    · rw [List.getElem?_append_left hlt] at hi
      obtain ⟨content', hsource, hshown'⟩ := h.shown i hit' hi
      exact ⟨content', by rw [List.getElem?_append_left (h.length ▸ hlt), hsource], hshown'⟩
    · have hbound := (List.getElem?_eq_some_iff.1 hi).1
      rw [List.length_append, List.length_singleton] at hbound
      obtain rfl : i = seen.length := by omega
      rw [List.getElem?_concat_length] at hi
      obtain rfl := Option.some.inj hi
      rw [← h.length]
      exact ⟨content, List.getElem?_concat_length, hshown⟩
  counted := List.rel_append h.counted (.cons hcount .nil)
  fits htwo := by
    rw [List.sum_append, List.sum_singleton]
    refine hfits fun hnil => ?_
    rw [hnil] at htwo
    simp at htwo
  capped i hi := by
    rw [List.length_append, List.length_singleton, Nat.lt_succ_iff_lt_or_eq] at hi
    obtain hlt | rfl := hi
    · exact h.capped i hlt
    · exact hroom

/-- Without sources there are no tokens yet. -/
theorem Selected.sum_eq_zero (h : Selected tok options seen [] counts) : counts.sum = 0 := by
  rw [List.forall₂_nil_left_iff.1 h.counted, List.sum_nil]

/-- **What is taken is shown** as the hit's place has it. -/
theorem Selected.shown_of_taken (h : Selected tok options seen sources counts) {hit : ChunkHit}
    {content : JsString} {n : ℕ} (htaken : hit.Taken tok options sources counts.sum content n) :
    hit.Shown tok options sources.length content ∧
      tok.countTokens (hit.entry (sources.length + 1) content) = .ok n ∧
      (sources ≠ [] → options.over (counts.sum + n) = false) := by
  rcases htaken with ⟨hn, hfits⟩ | ⟨rfl, hwhole, hover, hheader, hcontent, hn⟩
  · refine ⟨⟨n, hn, ?_⟩, hn, fun _ => hfits⟩
    rw [if_neg]
    rintro ⟨hzero, hover⟩
    obtain rfl : sources = [] := List.length_eq_zero_iff.1 hzero
    rw [h.sum_eq_zero, Nat.zero_add, hover] at hfits
    cases hfits
  · rw [h.sum_eq_zero, Nat.zero_add] at hover
    exact ⟨⟨_, hwhole, by rw [if_pos ⟨rfl, hover⟩]; exact ⟨_, hheader, hcontent⟩⟩, hn,
      fun hne => absurd rfl hne⟩

/-- **The loop of `assembleContext`** takes hits until it stops. -/
theorem Selected.run (h : Selected tok options seen sources counts)
    (hrun : assembleSources tok options hits sources counts.sum = .ok result) :
    ∃ taken rest counts', hits = taken ++ rest ∧
      Selected tok options (seen ++ taken) result counts' ∧
      Stops tok options result.length counts'.sum rest := by
  induction hits generalizing seen sources counts with
  | nil =>
    obtain rfl := Except.ok.inj hrun
    exact ⟨[], [], counts, rfl, by rwa [List.append_nil], .inl rfl⟩
  | cons hit hits ih =>
    obtain ⟨rfl, hstops⟩ | ⟨content, n, hroom, htaken, hrest⟩ := assembleSources_cases hrun
    · exact ⟨[], hit :: hits, counts, rfl, by rwa [List.append_nil], hstops⟩
    obtain ⟨hshown, hcount, hfits⟩ := h.shown_of_taken htaken
    have hpushed := h.push hroom hshown hcount hfits
    obtain ⟨taken, rest, counts', rfl, hselected, hstops⟩ :=
      ih hpushed (by rwa [List.sum_append, List.sum_singleton])
    exact ⟨hit :: taken, rest, counts', rfl, by rwa [List.append_assoc] at hselected, hstops⟩

/-- **What `assembleContext` selects.** -/
theorem exists_selected {context : AssembledContext}
    (h : assembleContext tok options hits = .ok context) :
    ∃ taken rest counts, promptOrder hits = taken ++ rest ∧
      Selected tok options taken context.sources counts ∧
      Stops tok options context.sources.length counts.sum rest := by
  obtain ⟨sources, hsources, h⟩ := Except.bind_eq_ok.mp h
  obtain ⟨totalTokens, -, h⟩ := Except.bind_eq_ok.mp h
  obtain rfl := Except.ok.inj h
  exact Selected.nil.run hsources

/-- A source's entry has been counted. -/
theorem Selected.exists_count (h : Selected tok options seen sources counts) {s : AssembledSource}
    (hs : s ∈ sources) : ∃ n, tok.countTokens s.entry = .ok n := by
  obtain ⟨i, hi, rfl⟩ := List.mem_iff_getElem.1 hs
  exact ⟨_, h.counted.get hi (h.counted.length_eq ▸ hi)⟩

end

/-! ## The hits there is room for -/

section

variable (tok : Tokenizer) (options : AssembleOptions)

/-- The tokens of a text the tokenizer takes. -/
def tokenCount (text : JsString) : ℕ := (tok.countTokens text).toOption.getD 0

/-- The part of a content that is shown where its entry, the first, is too large for the budget. -/
def ChunkHit.firstCut (hit : ChunkHit) : JsString :=
  (tok.truncateToTokens hit.content
    ((options.tokenBudget.sub (.ofNat (tokenCount tok (hit.entry 1 [])))).max
      (.ofNat 1))).toOption.getD []

/-- What the prompt shows of the content of its hit at place `i`. -/
def ChunkHit.shownContent (hit : ChunkHit) (i : ℕ) : JsString :=
  if i = 0 ∧ options.over (tokenCount tok (hit.entry 1 hit.content)) = true then
    hit.firstCut tok options
  else hit.content

/-- The tokens in use after a hit behind `n` sources of `used` tokens, where there is room for it:
below the limits, or as the first one, cut. -/
def ChunkHit.usedAfter (hit : ChunkHit) (n used : ℕ) : Option ℕ :=
  let whole := used + tokenCount tok (hit.entry (n + 1) hit.content)
  if options.maxSources.le (.ofNat n) then none
  else if options.over whole = false then some whole
  else if n = 0 then some (used + tokenCount tok (hit.entry 1 (hit.firstCut tok options)))
  else none

/-- **The hits a prompt has room for**, behind `n` sources of `used` tokens. -/
def hitsWithRoom : List ChunkHit → (n used : ℕ) → List ChunkHit
  | [], _, _ => []
  | hit :: hits, n, used =>
    match hit.usedAfter tok options n used with
    | some used' => hit :: hitsWithRoom hits (n + 1) used'
    | none => []

/-- **The hits whose entries are counted**, behind `n` sources of `used` tokens: those there is room
for, and the one that is too large for it. -/
def hitsCounted : List ChunkHit → (n used : ℕ) → List ChunkHit
  | [], _, _ => []
  | hit :: hits, n, used =>
    if options.maxSources.le (.ofNat n) then []
    else hit :: match hit.usedAfter tok options n used with
      | some used' => hitsCounted hits (n + 1) used'
      | none => []

end

section

variable {tok : Tokenizer} {options : AssembleOptions} {hits : List ChunkHit} {text : JsString}

theorem tokenCount_eq {k : ℕ} (h : tok.countTokens text = .ok k) : tokenCount tok text = k := by
  rw [tokenCount, h]
  rfl

theorem ChunkHit.Shown.eq_shownContent {hit : ChunkHit} {i : ℕ} {content : JsString}
    (h : hit.Shown tok options i content) : content = hit.shownContent tok options i := by
  obtain ⟨n, hn, h⟩ := h
  rw [ChunkHit.shownContent]
  split at h
  · rename_i hcut
    obtain ⟨rfl, hover⟩ := hcut
    obtain ⟨headerTokens, hheader, hcontent⟩ := h
    rw [Nat.zero_add] at hn
    rw [tokenCount_eq hn, if_pos ⟨rfl, hover⟩, ChunkHit.firstCut, tokenCount_eq hheader, hcontent]
    rfl
  · rename_i hwhole
    rw [h, if_neg]
    rintro ⟨rfl, hover⟩
    rw [tokenCount_eq hn] at hover
    exact hwhole ⟨rfl, hover⟩

/-- **A source is the hit of its number**, with what the prompt shows of its content. -/
theorem source_assembleContext {context : AssembledContext}
    (h : assembleContext tok options hits = .ok context) {source : AssembledSource}
    (hsource : source ∈ context.sources) :
    ∃ hit, (promptOrder hits)[source.marker - 1]? = some hit ∧
      source = hit.source source.marker (hit.shownContent tok options (source.marker - 1)) := by
  obtain ⟨taken, rest, counts, hsplit, hselected, -⟩ := exists_selected h
  obtain ⟨i, hi⟩ := List.mem_iff_getElem?.1 hsource
  have hlt : i < taken.length := hselected.length ▸ (List.getElem?_eq_some_iff.1 hi).1
  obtain ⟨content, hsame, hshown⟩ := hselected.shown i _ (List.getElem?_eq_getElem hlt)
  obtain rfl := Option.some.inj (hi.symm.trans hsame)
  refine ⟨taken[i], ?_, ?_⟩
  · rw [hsplit, List.getElem?_append_left (by exact hlt)]
    exact List.getElem?_eq_getElem hlt
  · rw [hshown.eq_shownContent]
    rfl

theorem usedAfter_of_taken {hit : ChunkHit} {sources : List AssembledSource} {used k : ℕ}
    {content : JsString} (hroom : options.maxSources.le (.ofNat sources.length) = false)
    (h : hit.Taken tok options sources used content k) :
    hit.usedAfter tok options sources.length used = some (used + k) := by
  rw [ChunkHit.usedAfter]
  rw [if_neg (by simp [hroom])]
  rcases h with ⟨hk, hfits⟩ | ⟨hnil, hwhole, hover, hheader, hcontent, hk⟩
  · rw [tokenCount_eq hk, if_pos hfits]
  · rw [tokenCount_eq hwhole, if_neg (by simp [hover]), if_pos (List.length_eq_zero_iff.2 hnil)]
    rw [hnil, List.length_nil, Nat.zero_add] at hheader hk
    rw [ChunkHit.firstCut, tokenCount_eq hheader, hcontent]
    exact congrArg (fun k => some (used + k)) (tokenCount_eq hk)

theorem usedAfter_of_stops {hit : ChunkHit} {n used : ℕ}
    (h : Stops tok options n used (hit :: hits)) : hit.usedAfter tok options n used = none := by
  rw [ChunkHit.usedAfter]
  rcases h with hnil | hfull | ⟨hne, hit', hhit, k, hk, hover⟩
  · cases hnil
  · rw [if_pos hfull]
  · obtain rfl := Option.some.inj hhit
    rw [tokenCount_eq hk, if_neg (c := options.over _ = false)
      (by simp [hover]), if_neg hne, ite_self]

/-- A hit in the prompt is one of the hits. -/
theorem mem_of_mem_hitsWithRoom {n used : ℕ} {hit : ChunkHit}
    (h : hit ∈ hitsWithRoom tok options hits n used) : hit ∈ hits := by
  induction hits generalizing n used with
  | nil => cases h
  | cons hit' hits ih =>
    rw [hitsWithRoom] at h
    split at h
    · rcases List.mem_cons.1 h with rfl | h
      · exact List.mem_cons_self
      · exact List.mem_cons_of_mem _ (ih h)
    · cases h

theorem mem_of_mem_hitsCounted {n used : ℕ} {hit : ChunkHit}
    (h : hit ∈ hitsCounted tok options hits n used) : hit ∈ hits := by
  induction hits generalizing n used with
  | nil => cases h
  | cons hit' hits ih =>
    rw [hitsCounted] at h
    split at h
    · cases h
    rcases List.mem_cons.1 h with rfl | h
    · exact List.mem_cons_self
    split at h
    · exact List.mem_cons_of_mem _ (ih h)
    · cases h

/-- Without limits every hit is counted. -/
theorem hitsCounted_unbounded (n used : ℕ) :
    hitsCounted tok ⟨.posInf, .posInf⟩ hits n used = hits := by
  induction hits generalizing n used with
  | nil => rfl
  | cons hit hits ih => exact congrArg (hit :: ·) (ih (n + 1) _)

end

/-! ## The greedy selection -/

section

variable {tok : Tokenizer} {options : AssembleOptions} {hits : List ChunkHit}

/-- There is room for a first source. -/
theorem le_zero_of_one_le {bound : JsNumber} (h : (JsNumber.ofNat 1).le bound = true) :
    bound.le (.ofNat 0) = false := by
  have hnan := (JsNumber.ne_nan_of_le h).2
  rw [JsNumber.le_eq_not_lt hnan (JsNumber.ofNat_ne_nan 0), Bool.not_eq_false']
  replace h := JsNumber.lt_eq_false_of_le h
  rcases bound with q | _ | _ | _
  · rw [JsNumber.ofNat, JsNumber.lt, decide_eq_false_iff_not, not_lt] at h
    rw [JsNumber.ofNat, JsNumber.lt, decide_eq_true_eq]
    exact lt_of_lt_of_le (by norm_num) h
  · rfl
  · cases h
  · exact absurd rfl hnan

/-- The loop does not stop before a first source. -/
theorem Stops.ne_zero {n used : ℕ} {rest : List ChunkHit} (h : Stops tok options n used rest)
    (hmax : (JsNumber.ofNat 1).le options.maxSources = true) (hrest : rest ≠ []) : n ≠ 0 := by
  rintro rfl
  obtain hnil | hfull | ⟨hne, -⟩ := h
  · exact hrest hnil
  · rw [le_zero_of_one_le hmax] at hfull
    cases hfull
  · exact hne rfl

/-- **Where there is room for a source**, the next entry exceeds the budget. -/
theorem Stops.exceeds {n used : ℕ} {rest : List ChunkHit} (h : Stops tok options n used rest)
    {hit : ChunkHit} (hhit : rest.head? = some hit)
    (hroom : (JsNumber.ofNat n).lt options.maxSources = true) :
    ∃ t, tok.countTokens (hit.entry (n + 1) hit.content) = .ok t ∧
      options.over (used + t) = true := by
  obtain hnil | hfull | ⟨-, hit', hhit', hnext⟩ := h
  · rw [hnil] at hhit
    cases hhit
  · rw [JsNumber.lt_eq_false_of_le hfull] at hroom
    cases hroom
  · obtain rfl : hit = hit' := Option.some.inj (hhit.symm.trans hhit')
    exact hnext

theorem assembleContext_perm {hits' : List ChunkHit} (h : promptOrder hits' = promptOrder hits) :
    assembleContext tok options hits' = assembleContext tok options hits := by
  rw [promptOrder, promptOrder] at h
  rw [assembleContext, h, assembleContext]

end

/-- **Prompt assembly is the greedy selection** and ignores the order of its input. -/
theorem assembly_greedy (tok : Tokenizer) (options : AssembleOptions) (hits : List ChunkHit)
    (hids : (hits.map (·.id)).Nodup) (hfinite : ∀ hit ∈ hits, hit.score.isFinite = true)
    (hmax : (JsNumber.ofNat 1).le options.maxSources = true) :
    let S := promptOrder hits
    (S.Perm hits ∧ S.Pairwise ChunkHit.Before) ∧
    (∀ hits' : List ChunkHit, hits'.Perm hits →
      assembleContext tok options hits' = assembleContext tok options hits) ∧
    ∀ context, assembleContext tok options hits = .ok context →
      let m := context.sources.length
      m ≤ hits.length ∧ (hits ≠ [] → 1 ≤ m) ∧
      (∀ i < m, (JsNumber.ofNat i).lt options.maxSources = true) ∧
      (∀ k : ℕ, options.maxSources = .ofNat k → m ≤ k) ∧
      (∀ (i : ℕ) (hit : ChunkHit), i < m → S[i]? = some hit → ∃ content,
        context.sources[i]? = some (hit.source (i + 1) content) ∧ hit.Shown tok options i content) ∧
      ∃ counts,
        List.Forall₂ (fun (s : AssembledSource) n => tok.countTokens s.entry = .ok n)
          context.sources counts ∧
        (2 ≤ m → options.over counts.sum = false) ∧
        ∀ hit, S[m]? = some hit → (JsNumber.ofNat m).lt options.maxSources = true →
          ∃ t, tok.countTokens (hit.entry (m + 1) hit.content) = .ok t ∧
            options.over (counts.sum + t) = true := by
  intro S
  have hperm : S.Perm hits := List.mergeSort_perm hits _
  have hnan := (JsNumber.ne_nan_of_le hmax).2
  refine ⟨⟨hperm, pairwise_promptOrder hids hfinite⟩, fun hits' hperm' =>
    assembleContext_perm (promptOrder_perm hids hfinite hperm'), fun context h => ?_⟩
  obtain ⟨taken, rest, counts, hS, hselected, hstops⟩ := exists_selected h
  have hlength := hselected.length
  have hsplit : S = taken ++ rest := hS
  refine ⟨?_, fun hne => ?_, fun i hi => JsNumber.lt_of_le_eq_false hnan (hselected.capped i hi),
    fun k hk => ?_, fun i hit hi hhit => ?_, counts, hselected.counted,
      hselected.fits, fun hit hhit hlt => ?_⟩
  · rw [hlength, ← hperm.length_eq, hsplit, List.length_append]
    exact Nat.le_add_right _ _
  · by_contra hzero
    have htaken : taken = [] := List.length_eq_zero_iff.1 (by omega)
    rw [htaken, List.nil_append] at hsplit
    have hrest : rest ≠ [] := fun hnil =>
      hne (List.length_eq_zero_iff.1 (by rw [← hperm.length_eq, hsplit, hnil]; rfl))
    exact hstops.ne_zero hmax hrest (by omega)
  · by_contra hk'
    have hlt := JsNumber.lt_of_le_eq_false hnan (hselected.capped k (by omega))
    rw [hk, JsNumber.ofNat_lt_ofNat] at hlt
    exact lt_irrefl k hlt
  · rw [hsplit, List.getElem?_append_left (hlength ▸ hi)] at hhit
    exact hselected.shown i hit hhit
  · rw [hsplit, hlength, List.getElem?_append_right le_rfl, Nat.sub_self,
      ← List.head?_eq_getElem?] at hhit
    exact hstops.exceeds hhit hlt

/-- Two hits of one document, and a budget for one of them. -/
def rankedHit (id : Uuid) (score : ℚ) : ChunkHit :=
  { id, content := js "Refunds take 30 days.", documentId := 10, title := js "T", page := none
    sectionText := none, charStart := some 0, charEnd := some 21, score := .finite score
    scored := ⟨js "m", []⟩ }

theorem assembly_greedy_two :
    let tok := sampleEncoder.tokenizer
    let options : AssembleOptions := ⟨.ofNat 5, .ofNat 60⟩
    assembleContext tok options [rankedHit 20 1, rankedHit 21 2] =
        assembleContext tok options [rankedHit 21 2, rankedHit 20 1] ∧
      ∃ context, assembleContext tok options [rankedHit 21 2, rankedHit 20 1] = .ok context ∧
        1 ≤ context.sources.length := by
  intro tok options
  obtain ⟨-, hperm, hsources⟩ := assembly_greedy tok options [rankedHit 21 2, rankedHit 20 1]
    (by decide) (by simp [rankedHit, JsNumber.isFinite]) (by decide +kernel)
  obtain ⟨context, hcontext⟩ :
      ∃ context, assembleContext tok options [rankedHit 21 2, rankedHit 20 1] = .ok context :=
    exists_assembleContext (fun text => ⟨_, sampleEncoder_counts text⟩) sampleEncoder_cuts _
  exact ⟨hperm _ (.swap _ _ _), context, hcontext,
    (hsources context hcontext).2.1 (List.cons_ne_nil _ _)⟩

/-! ## The token budget -/

/-- A token counter that adds up over texts, counts brackets like the tags they replace, and cuts to
a beginning of at most the tokens asked for. -/
structure Ingestion.Tokenizer.Counts (tok : Tokenizer) (count : JsString → ℕ) : Prop where
  countTokens : ∀ s, tok.countTokens s = .ok (count s)
  append : ∀ s t, count (s ++ t) = count s + count t
  neutralize : ∀ s, count (neutralize 0 s) = count s
  truncate : ∀ s n, ∃ cut, tok.truncateToTokens s n = .ok cut ∧ cut <+: s ∧
    ((JsNumber.ofNat 0).le n = true → (JsNumber.ofNat (count cut)).le n = true)

/-- **The entries keep the token budget**, those of the sources the hits are assembled to. -/
def BudgetKept (tok : Tokenizer) (options : AssembleOptions) (hits : List ChunkHit) : Prop :=
  ∃ context counts, assembleContext tok options hits = .ok context ∧
    List.Forall₂ (fun (s : AssembledSource) n => tok.countTokens s.entry = .ok n)
      context.sources counts ∧
    options.over counts.sum = false

section

variable {tok : Tokenizer} {options : AssembleOptions} {hits : List ChunkHit} {count : JsString → ℕ}

/-- What an entry has over its content does not depend on it. -/
theorem Ingestion.Tokenizer.Counts.entry (h : tok.Counts count) (hit : ChunkHit) (marker : ℕ)
    (content : JsString) :
    count (hit.entry marker content) = count (hit.entry marker []) + count content := by
  have hnil : count [] = 0 := by
    have := h.append [] []
    rw [List.append_nil] at this
    omega
  have hentry : ∀ content, count (hit.entry marker content) =
      count (headerLine ⟨marker, hit.title, hit.page, hit.sectionText⟩ ++ js "\n") +
        (count (js "<source>\n") + count content + count (js "\n</source>")) := by
    intro content
    rw [ChunkHit.entry, entryText, fencedContent, h.append, h.append, h.append,
      h.append, h.neutralize]
  rw [hentry, hentry, hnil]
  omega

theorem AssembleOptions.over_mono {m n : ℕ} (hmn : m ≤ n) (h : options.over n = false) :
    options.over m = false := by
  rw [AssembleOptions.over] at h ⊢
  rcases hbudget : options.tokenBudget with q | _ | _ | _
  all_goals rw [hbudget] at h
  · rw [JsNumber.ofNat, JsNumber.lt, decide_eq_false_iff_not, not_lt] at h ⊢
    exact le_trans (by exact_mod_cast hmn) h
  all_goals exact h

/-- **The room left for the content** of the first source: at least one token, and no more than the
budget leaves unless it is exactly one. -/
theorem headerRoom (hbudget : (JsNumber.ofNat 2000).le options.tokenBudget = true)
    (headerTokens : ℕ) : let room := (options.tokenBudget.sub (.ofNat headerTokens)).max (.ofNat 1)
    (JsNumber.ofNat 1).le room = true ∧ (room = .ofNat 1 ∨
      ∀ n : ℕ, (JsNumber.ofNat n).le room = true → options.over (headerTokens + n) = false) := by
  intro room
  rcases hq : options.tokenBudget with q | _ | _ | _
  · have hroom : room = if q - headerTokens < 1 then .ofNat 1 else .finite (q - headerTokens) := by
      simp only [room, hq, JsNumber.ofNat, JsNumber.sub, JsNumber.max, JsNumber.lt,
        decide_eq_true_eq, Nat.cast_one]
    rw [hroom]
    split
    · exact ⟨rfl, .inl rfl⟩
    · rename_i hone
      refine ⟨?_, .inr fun n hn => ?_⟩
      · simpa [JsNumber.ofNat, JsNumber.le, JsNumber.lt] using hone
      · replace hn : (n : ℚ) ≤ q - headerTokens := by
          simpa [JsNumber.ofNat, JsNumber.le, JsNumber.lt] using hn
        rw [AssembleOptions.over, hq, JsNumber.ofNat, JsNumber.lt, decide_eq_false_iff_not, not_lt,
          Nat.cast_add]
        linarith
  · exact ⟨by rw [show room = .posInf by simp only [room, hq]; rfl]; rfl, .inr fun n _ => by
      rw [AssembleOptions.over, hq]; rfl⟩
  · rw [hq] at hbudget
    cases hbudget
  · rw [hq] at hbudget
    cases hbudget

/-- **The first entry keeps the budget** as it does with one token of content. -/
theorem ChunkHit.Shown.over_iff (hcounts : tok.Counts count)
    (hbudget : (JsNumber.ofNat 2000).le options.tokenBudget = true) {hit : ChunkHit}
    {content cut : JsString} (hshown : hit.Shown tok options 0 content)
    (hcut : tok.truncateToTokens hit.content (.ofNat 1) = .ok cut) :
    options.over (count (hit.entry 1 content)) = false ↔
    options.over (count (hit.entry 1 cut)) = false := by
  obtain ⟨cut', hcut', ⟨rest, hrest⟩, hone⟩ := hcounts.truncate hit.content (.ofNat 1)
  obtain rfl : cut = cut' := Except.ok.inj (hcut.symm.trans hcut')
  obtain ⟨n, hn, hshown⟩ := hshown
  obtain rfl : count (hit.entry 1 hit.content) = n :=
    Except.ok.inj ((hcounts.countTokens _).symm.trans hn)
  split at hshown
  · obtain ⟨headerTokens, hheader, hcontent⟩ := hshown
    obtain rfl : count (hit.entry 1 []) = headerTokens :=
      Except.ok.inj ((hcounts.countTokens _).symm.trans hheader)
    obtain ⟨hroom, hexact | hfits⟩ := headerRoom hbudget (count (hit.entry 1 []))
    · rw [hexact, hcut] at hcontent
      obtain rfl := Except.ok.inj hcontent
      rfl
    · -- there is room: both contents fit it
      obtain ⟨content', hcontent', -, hsize⟩ := hcounts.truncate hit.content
        ((options.tokenBudget.sub (.ofNat (count (hit.entry 1 [])))).max (.ofNat 1))
      obtain rfl : content = content' := Except.ok.inj (hcontent.symm.trans hcontent')
      rw [hcounts.entry hit 1 content, hcounts.entry hit 1 cut,
        hfits _ (hsize (JsNumber.ofNat_le_of_le (Nat.zero_le 1) hroom)),
        hfits _ (JsNumber.ofNat_le_of_le (JsNumber.ofNat_le_ofNat.1 (hone rfl)) hroom)]
  · rename_i hwhole
    subst hshown
    have hfits : options.over (count (hit.entry 1 hit.content)) = false := by
      rw [← Bool.not_eq_true]
      exact fun hover => hwhole ⟨rfl, hover⟩
    have hless : count (hit.entry 1 cut) ≤ count (hit.entry 1 hit.content) := by
      rw [hcounts.entry hit 1 cut, hcounts.entry hit 1 hit.content, ← hrest, hcounts.append]
      omega
    rw [hfits, AssembleOptions.over_mono hless hfits]

/-- **The entries keep the budget as the first one does**: the others are taken only while they
fit. -/
theorem Selected.first (hcounts : tok.Counts count) {hit : ChunkHit} {seen : List ChunkHit}
    {sources : List AssembledSource} {counts : List ℕ}
    (h : Selected tok options (hit :: seen) sources counts) :
    ∃ content, hit.Shown tok options 0 content ∧
      (options.over counts.sum = false ↔ options.over (count (hit.entry 1 content)) = false) := by
  obtain ⟨content, hsource, hshown⟩ := h.shown 0 hit rfl
  refine ⟨content, hshown, ?_⟩
  obtain ⟨hcounted, hfits⟩ := And.intro h.counted h.fits
  rcases sources with _ | ⟨source, sources⟩
  · cases hsource
  obtain rfl : source = hit.source 1 content := Option.some.inj hsource
  obtain ⟨n, ns, hn, hns, rfl⟩ := List.forall₂_cons_left_iff.1 hcounted
  obtain rfl : count (hit.entry 1 content) = n :=
    Except.ok.inj ((hcounts.countTokens _).symm.trans hn)
  rw [List.sum_cons]
  refine ⟨AssembleOptions.over_mono (Nat.le_add_right _ _), fun hfirst => ?_⟩
  rcases sources with _ | ⟨source', sources⟩
  · rwa [List.forall₂_nil_left_iff.1 hns, List.sum_nil, Nat.add_zero]
  · rw [← List.sum_cons]
    exact hfits (Nat.le_add_left 2 sources.length)

theorem Ingestion.Tokenizer.Counts.exists_context (h : tok.Counts count) (options : AssembleOptions)
    (hits : List ChunkHit) : ∃ context, assembleContext tok options hits = .ok context :=
  exists_assembleContext (fun s => ⟨count s, h.countTokens s⟩)
    (fun s n => (h.truncate s n).imp fun _ hcut => hcut.1) hits

/-- The entries of the context keep the budget. -/
theorem budgetKept_iff {context : AssembledContext} {counts : List ℕ}
    (hcontext : assembleContext tok options hits = .ok context)
    (hcounted : List.Forall₂ (fun (s : AssembledSource) n => tok.countTokens s.entry = .ok n)
      context.sources counts) :
    BudgetKept tok options hits ↔ options.over counts.sum = false := by
  refine ⟨?_, fun h => ⟨context, counts, hcontext, hcounted, h⟩⟩
  rintro ⟨context', counts', hcontext', hcounted', h⟩
  obtain rfl : context = context' := Except.ok.inj (hcontext.symm.trans hcontext')
  have hunique : Relator.RightUnique fun (s : AssembledSource) n =>
      tok.countTokens s.entry = .ok n :=
    fun s m n hm hn => Except.ok.inj (hm.symm.trans hn)
  rwa [hunique.forall₂ hcounted hcounted']

theorem budgetKept_nil (hcounts : tok.Counts count)
    (hbudget : (JsNumber.ofNat 2000).le options.tokenBudget = true) (hnil : promptOrder hits = []) :
    BudgetKept tok options hits := by
  obtain ⟨context, hcontext⟩ := hcounts.exists_context options hits
  obtain ⟨taken, rest, counts, hsplit, hselected, -⟩ := exists_selected hcontext
  obtain ⟨rfl, -⟩ := List.append_eq_nil_iff.1 (hsplit.symm.trans hnil)
  have hsources : context.sources = [] := List.length_eq_zero_iff.1 hselected.length
  have hnone : counts = [] := List.forall₂_nil_left_iff.1 (hsources ▸ hselected.counted)
  rw [budgetKept_iff hcontext hselected.counted, hnone]
  exact JsNumber.lt_eq_false_of_le (JsNumber.ofNat_le_of_le (Nat.zero_le 2000) hbudget)

/-- **The first hit decides the budget**, cut to one token. -/
theorem budgetKept_head (hcounts : tok.Counts count)
    (hmax : (JsNumber.ofNat 1).le options.maxSources = true)
    (hbudget : (JsNumber.ofNat 2000).le options.tokenBudget = true) {hit : ChunkHit}
    {cut : JsString} (hhead : (promptOrder hits).head? = some hit)
    (hcut : tok.truncateToTokens hit.content (.ofNat 1) = .ok cut) :
    BudgetKept tok options hits ↔ options.over (count (hit.entry 1 cut)) = false := by
  obtain ⟨context, hcontext⟩ := hcounts.exists_context options hits
  obtain ⟨taken, rest, counts, hsplit, hselected, hstops⟩ := exists_selected hcontext
  rw [hsplit] at hhead
  rcases taken with _ | ⟨hit', taken⟩
  · exfalso
    have hnone : context.sources.length = 0 := hselected.length
    have hrest : rest ≠ [] := by
      rintro rfl
      cases hhead
    exact hstops.ne_zero hmax hrest hnone
  · obtain rfl : hit' = hit := Option.some.inj hhead
    obtain ⟨content, hshown, hover⟩ := hselected.first hcounts
    rw [budgetKept_iff hcontext hselected.counted, hover, hshown.over_iff hcounts hbudget hcut]

end

/-- **Prompt assembly keeps the token budget** when the header of its first source leaves room for a
token of content. -/
theorem budget_kept_iff (tok : Tokenizer) (count : JsString → ℕ) (options : AssembleOptions)
    (hits : List ChunkHit) (hcounts : tok.Counts count)
    (hmax : (JsNumber.ofNat 1).le options.maxSources = true)
    (hbudget : (JsNumber.ofNat 2000).le options.tokenBudget = true) :
    BudgetKept tok options hits ↔ ∀ hit ∈ (promptOrder hits).head?, ∀ cut,
      tok.truncateToTokens hit.content (.ofNat 1) = .ok cut →
        options.over (count (hit.entry 1 cut)) = false := by
  rcases hhead : (promptOrder hits).head? with _ | hit
  · refine ⟨fun _ _ hhit => ?_, fun _ => budgetKept_nil hcounts hbudget
      (List.head?_eq_none_iff.1 hhead)⟩
    cases hhit
  · obtain ⟨cut, hcut, -⟩ := hcounts.truncate hit.content (.ofNat 1)
    rw [budgetKept_head hcounts hmax hbudget hhead hcut]
    refine ⟨fun hkept hit' hhit' cut' hcut' => ?_, fun hkept => hkept hit rfl cut hcut⟩
    obtain rfl := Option.some.inj hhit'
    rwa [← Except.ok.inj (hcut.symm.trans hcut')]

/-- A document with a very long heading. -/
def longHeadingHit : ChunkHit :=
  { rankedHit 20 1 with sectionText := some (List.replicate 2000 0x61) }

theorem neutralize_length (skip : ℕ) (s : JsString) :
    (neutralize skip s).length = s.length - skip := by
  fun_induction neutralize skip s with
  | case1 => simp
  | case2 skip c s ih => rw [ih, List.length_cons, Nat.add_sub_add_right]
  | case3 c s lower hopen ih =>
    have hlen : 8 ≤ (c :: s).length := List.length_map toLowerAscii ▸
      (List.isPrefixOf_iff_prefix.1 hopen).length_le
    rw [List.length_cons] at hlen
    rw [List.length_append, ih, show (js "[source]").length = 8 from rfl, List.length_cons]
    omega
  | case4 c s lower hopen hclose ih =>
    have hlen : 9 ≤ (c :: s).length := List.length_map toLowerAscii ▸
      (List.isPrefixOf_iff_prefix.1 hclose).length_le
    rw [List.length_cons] at hlen
    rw [List.length_append, ih, show (js "[/source]").length = 9 from rfl, List.length_cons]
    omega
  | case5 c s lower hopen hclose ih => rw [List.length_cons, ih]; rfl

theorem sampleEncoder_truncate {s : JsString} {n : JsNumber} {cut : JsString}
    (hn : (JsNumber.ofNat 0).le n = true)
    (hcut : sampleEncoder.tokenizer.truncateToTokens s n = .ok cut) :
    (JsNumber.ofNat cut.length).le n = true := by
  change sampleEncoder.truncateToTokens s n = .ok cut at hcut
  rw [Tiktoken.truncateToTokens] at hcut
  split at hcut
  · obtain rfl := Except.ok.inj hcut
    exact hn
  · obtain ⟨tokens, htokens, hcut⟩ := Except.bind_eq_ok.mp hcut
    obtain rfl : s.map UInt16.toNat = tokens := Except.ok.inj htokens
    split at hcut
    · rename_i hall
      obtain rfl := Except.ok.inj hcut
      rwa [List.length_map] at hall
    · obtain rfl := Except.ok.inj hcut
      refine JsNumber.ofNat_le_of_le ?_ (JsNumber.sliceIndex_le (s.map UInt16.toNat).length hn)
      refine (List.rdropWhile_prefix _ _).length_le.trans ?_
      rw [show sampleEncoder.decode = List.map UInt16.ofNat from rfl, List.length_map]
      exact List.length_take_le _ _

theorem sampleEncoder_counts_length : sampleEncoder.tokenizer.Counts List.length where
  countTokens := sampleEncoder_counts
  append _ _ := List.length_append
  neutralize s := neutralize_length 0 s
  truncate s n := by
    obtain ⟨cut, hcut⟩ := sampleEncoder_cuts s n
    exact ⟨cut, hcut, Tiktoken.truncates (sampleEncoder_spells s) n cut hcut,
      fun hn => sampleEncoder_truncate hn hcut⟩

theorem truncate_rankedHit :
    sampleEncoder.tokenizer.truncateToTokens (rankedHit 20 1).content (.ofNat 1) =
    .ok (js "R") := by decide +kernel

theorem budget_kept_iff_ranked :
    BudgetKept sampleEncoder.tokenizer DEFAULT_ASSEMBLE_OPTIONS [rankedHit 20 1] := by
  refine (budget_kept_iff _ _ _ _ sampleEncoder_counts_length
    (by decide +kernel) (by decide +kernel)).2 ?_
  intro hit hhit cut hcut
  rw [promptOrder, List.mergeSort_singleton] at hhit
  obtain rfl : rankedHit 20 1 = hit := Option.some.inj hhit
  obtain rfl : js "R" = cut := Except.ok.inj (truncate_rankedHit.symm.trans hcut)
  decide +kernel

theorem not_budget_kept : ¬ ∀ (tok : Tokenizer) (count : JsString → ℕ) (options : AssembleOptions)
    (hits : List ChunkHit), tok.Counts count → (JsNumber.ofNat 1).le options.maxSources = true →
      (JsNumber.ofNat 2000).le options.tokenBudget = true → (∀ hit ∈ hits, hit.title.length ≤ 255) →
        BudgetKept tok options hits := by
  intro hclaim
  have hkept := hclaim _ _ DEFAULT_ASSEMBLE_OPTIONS [longHeadingHit] sampleEncoder_counts_length
    (by decide +kernel) (by decide +kernel) (by decide)
  have hhead : (promptOrder [longHeadingHit]).head? = some longHeadingHit := by
    rw [promptOrder, List.mergeSort_singleton]
    rfl
  rw [budgetKept_head sampleEncoder_counts_length (by decide +kernel) (by decide +kernel) hhead
    truncate_rankedHit] at hkept
  revert hkept
  decide +kernel

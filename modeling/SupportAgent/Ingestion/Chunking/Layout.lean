import SupportAgent.Ingestion.Chunking.Sentences
import SupportAgent.Machinery.Packing

/-!
# Ingestion/Chunking/Layout — what the loops of `chunkDocument` amount to

A document is a sequence of turns: a heading, a stretch of blocks that each fit a chunk, or one
block that does not.  A stretch is packed block by block and an oversized block sentence by
sentence, both greedily; every group is the body of one chunk, made under the headings before it and
with the tail of the chunk before it, unless a heading or the start of an oversized block lies
between.

* `exists_layout` — the chunks of a document are those of such a sequence.
-/

namespace Ingestion

open JsString Packing

/-! ## Sizes -/

/-- The tokens of a text; the texts `chunkDocument` counts are all countable where it returns. -/
def Tokenizer.size (tok : Tokenizer) (text : JsString) : ℕ := (tok.countTokens text).toOption.getD 0

theorem Tokenizer.size_eq {tok : Tokenizer} {text : JsString} {n : ℕ}
    (h : tok.countTokens text = .ok n) : tok.size text = n := by
  rw [size, h]
  rfl

/-- More tokens than the body of a chunk may have. -/
def ChunkOptions.over (options : ChunkOptions) (n : ℕ) : Bool := options.maxTokens.lt (.ofNat n)

section

variable (tok : Tokenizer) (options : ChunkOptions)

def AnchoredBlock.size (b : AnchoredBlock) : ℕ := tok.size b.text

/-- The tokens of a sentence of the block. -/
def AnchoredBlock.sentenceSize (b : AnchoredBlock) (s : ℕ × ℕ) : ℕ :=
  tok.size (slice b.text s.1 s.2)

/-- A block of the body that fits a chunk. -/
def AnchoredBlock.fits (b : AnchoredBlock) : Bool := !b.heading && !options.over (b.size tok)

/-- A block of the body that has to be split. -/
def AnchoredBlock.oversized (b : AnchoredBlock) : Bool := !b.heading && options.over (b.size tok)

/-- Successive sentences of a block, as a block. -/
def AnchoredBlock.part (b : AnchoredBlock) (run : List (ℕ × ℕ)) : AnchoredBlock :=
  let start := (run.head?.map (·.1)).getD 0
  let stop := (run.getLast?.map (·.2)).getD 0
  { text := slice b.text start stop
    page := b.page
    charStart := b.charStart + start
    charEnd := b.charStart + stop }

/-- The sentences of a block, packed. -/
def AnchoredBlock.parts (b : AnchoredBlock) : List (List (ℕ × ℕ)) :=
  pack (b.sentenceSize tok) options.over (sentences b.text)

/-! ## Turns -/

/-- Blocks that are chunked together. -/
inductive Segment
  | stretch (blocks : List AnchoredBlock)
  | oversized (block : AnchoredBlock)

/-- The blocks of a segment. -/
def Segment.blocks : Segment → List AnchoredBlock
  | stretch blocks => blocks
  | oversized block => [block]

/-- The bodies of a segment's chunks. -/
def Segment.bodies : Segment → List (List AnchoredBlock)
  | stretch blocks => pack (·.size tok) options.over blocks
  | oversized block => (block.parts tok options).map fun run => [block.part run]

/-- An oversized block does not continue the chunk before it. -/
def Segment.joins (last : Option ChunkDraft) : Segment → Option ChunkDraft
  | stretch _ => last
  | oversized _ => none

/-- A segment is a stretch as long as can be, or an oversized block, after the blocks `before`. -/
def Segment.Valid (before : List AnchoredBlock) : Segment → Prop
  | stretch blocks => blocks ≠ [] ∧ (∀ b ∈ blocks, b.fits tok options = true) ∧
      ∀ b ∈ before.getLast?, b.fits tok options = false
  | oversized block => block.oversized tok options = true

/-- A step through a document, with the chunks it makes. -/
inductive Turn
  | heading (block : AnchoredBlock)
  | segment (segment : Segment) (chunks : List ChunkDraft)

def Turn.blocks : Turn → List AnchoredBlock
  | heading block => [block]
  | segment s _ => s.blocks

def Turn.chunks : Turn → List ChunkDraft
  | heading _ => []
  | segment _ chunks => chunks

/-- The heading stack after these blocks. -/
def headingStack (blocks : List AnchoredBlock) : List HeadingRef :=
  (blocks.filter (·.heading)).foldl (fun stack h => updateHeadings stack (h.level.getD 1) h.text) []

/-- The chunk the next one may continue: the last one, unless a heading came after it. -/
def lastChunk (turns : List Turn) : Option ChunkDraft := turns.getLast?.bind (·.chunks.getLast?)

/-- What a chunk takes over from the one before it. -/
def Tail : Option ChunkDraft → JsString → Prop
  | none, overlap => overlap = []
  | some p, overlap => tok.takeLastTokens p.text options.overlapTokens = .ok overlap

/-- **The chunk `flush` makes** of a body. -/
structure Drafted (headings : List HeadingRef) (overlap : JsString) (body : List AnchoredBlock)
    (c : ChunkDraft) : Prop where
  ne_nil : body ≠ []
  text : c.text = join blankLine (body.map (·.text))
  sectionText : c.sectionText = sectionPath headings
  content : c.content =
    contextHeader c.sectionText ++ (if overlap = [] then [] else overlap ++ blankLine) ++ c.text
  page : c.page = (body.head ne_nil).page
  charStart : c.charStart = (body.head ne_nil).charStart
  charEnd : c.charEnd = (body.getLast ne_nil).charEnd

/-- Bodies flushed one after the other under the same headings, after the chunk `last`. -/
inductive Flushed (headings : List HeadingRef) :
    (last : Option ChunkDraft) → List (List AnchoredBlock) → List ChunkDraft → Prop
  | nil (last : Option ChunkDraft) : Flushed headings last [] []
  | cons {last : Option ChunkDraft} {overlap : JsString} {body : List AnchoredBlock}
      {bodies : List (List AnchoredBlock)} {c : ChunkDraft} {cs : List ChunkDraft} :
      Tail tok options last overlap → Drafted headings overlap body c →
      Flushed headings (some c) bodies cs → Flushed headings last (body :: bodies) (c :: cs)

/-- A turn that may follow these. -/
def Turn.Valid (before : List Turn) : Turn → Prop
  | heading block => block.heading = true
  | segment s cs => s.Valid tok options (before.flatMap (·.blocks)) ∧
      Flushed tok options (headingStack (before.flatMap (·.blocks))) (s.joins (lastChunk before))
        (s.bodies tok options) cs

/-- **A layout**: every turn may follow those before it. -/
def Layout (turns : List Turn) : Prop :=
  ∀ before turn after, turns = before ++ turn :: after → turn.Valid tok options before

end

section

variable {tok : Tokenizer} {options : ChunkOptions}

theorem eq_false_of_fits {b : AnchoredBlock} (h : b.fits tok options = true) :
    b.heading = false := by
  rw [AnchoredBlock.fits, Bool.and_eq_true, Bool.not_eq_true'] at h
  exact h.1

theorem eq_false_of_oversized {b : AnchoredBlock} (h : b.oversized tok options = true) :
    b.heading = false := by
  rw [AnchoredBlock.oversized, Bool.and_eq_true, Bool.not_eq_true'] at h
  exact h.1

theorem layout_nil : Layout tok options [] := fun before turn after h => by simp at h

/-- A layout grows by a turn that may follow it. -/
theorem Layout.snoc {turns : List Turn} {turn : Turn} (h : Layout tok options turns)
    (hturn : turn.Valid tok options turns) : Layout tok options (turns ++ [turn]) := by
  intro before t after hsplit
  obtain rfl | ⟨after, last, rfl⟩ := after.eq_nil_or_concat'
  · obtain ⟨rfl, hlast⟩ := List.append_inj' hsplit rfl
    obtain rfl := List.singleton_inj.1 hlast
    exact hturn
  · rw [← List.cons_append, ← List.append_assoc] at hsplit
    exact h before t after (List.append_inj' hsplit rfl).1

theorem lastChunk_concat (turns : List Turn) (turn : Turn) :
    lastChunk (turns ++ [turn]) = turn.chunks.getLast? := by
  rw [lastChunk, List.getLast?_concat]
  rfl

theorem headingStack_concat (blocks : List AnchoredBlock) (b : AnchoredBlock) :
    headingStack (blocks ++ [b]) = if b.heading then
      updateHeadings (headingStack blocks) (b.level.getD 1) b.text else headingStack blocks := by
  rw [headingStack, List.filter_append, List.foldl_append]
  cases hb : b.heading with
  | false => simp [hb, headingStack]
  | true => simp [hb, headingStack]

/-- Blocks of the body open no section. -/
theorem headingStack_append {blocks body : List AnchoredBlock}
    (hbody : ∀ b ∈ body, b.heading = false) :
    headingStack (blocks ++ body) = headingStack blocks := by
  have hnone : body.filter (·.heading) = [] :=
    List.filter_eq_nil_iff.2 fun b hb => by rw [hbody b hb]; exact Bool.false_ne_true
  rw [headingStack, List.filter_append, hnone, List.append_nil, headingStack]

/-! ## Flushing -/

/-- One more body flushed. -/
theorem Flushed.snoc {headings : List HeadingRef} {last : Option ChunkDraft}
    {bodies : List (List AnchoredBlock)} {cs : List ChunkDraft}
    (h : Flushed tok options headings last bodies cs) {overlap : JsString}
    {body : List AnchoredBlock} {c : ChunkDraft}
    (htail : Tail tok options (cs.getLast?.or last) overlap)
    (hc : Drafted headings overlap body c) :
    Flushed tok options headings last (bodies ++ [body]) (cs ++ [c]) := by
  induction h with
  | nil last => exact .cons htail hc (.nil _)
  | @cons last overlap' body' bodies c' cs htail' hc' _ ih =>
    refine .cons htail' hc' (ih ?_)
    cases cs with
    | nil => exact htail
    | cons c'' cs =>
      rw [List.getLast?_cons_cons] at htail
      rwa [List.getLast?_cons, Option.some_or] at htail ⊢

theorem Flushed.length_eq {headings : List HeadingRef} {last : Option ChunkDraft}
    {bodies : List (List AnchoredBlock)} {cs : List ChunkDraft}
    (h : Flushed tok options headings last bodies cs) : bodies.length = cs.length := by
  induction h with
  | nil => rfl
  | cons _ _ _ ih => rw [List.length_cons, List.length_cons, ih]

/-- The body a flushed chunk was made of. -/
theorem Flushed.exists_body {headings : List HeadingRef} {last : Option ChunkDraft}
    {bodies : List (List AnchoredBlock)} {cs : List ChunkDraft}
    (h : Flushed tok options headings last bodies cs) {xs ys : List ChunkDraft} {c : ChunkDraft}
    (hcs : cs = xs ++ c :: ys) :
    ∃ gs g gs' overlap, bodies = gs ++ g :: gs' ∧ gs.length = xs.length ∧
      Drafted headings overlap g c ∧ Tail tok options (xs.getLast?.or last) overlap ∧
      Flushed tok options headings (some c) gs' ys := by
  induction h generalizing xs with
  | nil last => simp at hcs
  | @cons last overlap g gs' c' cs' htail hdraft hrest ih =>
    cases xs with
    | nil =>
      obtain ⟨rfl, rfl⟩ := List.cons.inj hcs
      exact ⟨[], g, gs', overlap, rfl, rfl, hdraft, htail, hrest⟩
    | cons x xs =>
      obtain ⟨rfl, rfl⟩ := List.cons.inj hcs
      obtain ⟨gs, g', gs'', overlap', rfl, hlength, hdraft', htail', hrest'⟩ := ih rfl
      refine ⟨g :: gs, g', gs'', overlap', rfl, congrArg (· + 1) hlength, hdraft', ?_, hrest'⟩
      cases xs with
      | nil => exact htail'
      | cons y xs =>
        rw [List.getLast?_cons_cons]
        rwa [List.getLast?_cons, Option.some_or] at htail' ⊢

/-- The bodies of two flushed chunks on end are on end, and the second has the tail of the first. -/
theorem Flushed.exists_next {headings : List HeadingRef} {last : Option ChunkDraft}
    {bodies : List (List AnchoredBlock)} {us vs : List ChunkDraft} {p c : ChunkDraft}
    (h : Flushed tok options headings last bodies (us ++ p :: c :: vs)) :
    ∃ gs g g' gs' overlap overlap', bodies = gs ++ g :: g' :: gs' ∧
      Drafted headings overlap g p ∧ Drafted headings overlap' g' c ∧
      Tail tok options (some p) overlap' := by
  obtain ⟨gs, g, rest, overlap, rfl, -, hdraft, -, hrest⟩ := h.exists_body rfl
  obtain ⟨gs', g', gs'', overlap', rfl, hlength, hdraft', htail, -⟩ :=
    hrest.exists_body (List.nil_append (c :: vs)).symm
  obtain rfl : gs' = [] := List.length_eq_zero_iff.1 hlength
  exact ⟨gs, g, g', gs'', overlap, overlap', rfl, hdraft, hdraft', htail⟩

/-- The chunk made of a flushed body. -/
theorem Flushed.exists_chunk {headings : List HeadingRef} {last : Option ChunkDraft}
    {bodies : List (List AnchoredBlock)} {cs : List ChunkDraft}
    (h : Flushed tok options headings last bodies cs)
    {g : List AnchoredBlock} (hg : g ∈ bodies) :
    ∃ c ∈ cs, ∃ overlap, Drafted headings overlap g c := by
  induction h with
  | nil last => cases hg
  | @cons last overlap g' gs' c' cs' htail hdraft hrest ih =>
    obtain rfl | hg := List.mem_cons.1 hg
    · exact ⟨c', List.mem_cons_self, overlap, hdraft⟩
    · obtain ⟨c, hc, hdraft'⟩ := ih hg
      exact ⟨c, List.mem_cons_of_mem _ hc, hdraft'⟩

/-- **What `flush` does**: nothing without a body, and otherwise it makes one chunk of it. -/
theorem flush_cases {st st' : ChunkState} (h : st.flush tok options = .ok st') :
    st.body = [] ∧ st' = st ∨
    ∃ c tail, Drafted st.headings st.overlap st.body c ∧ Tail tok options (some c) tail ∧
      st' = { st with
        chunks := st.chunks ++ [c], overlap := tail, body := [], bodyTokens := 0 } := by
  rw [ChunkState.flush] at h
  split at h
  case h_1 hnil =>
    obtain rfl := Except.ok.inj h
    exact .inl ⟨hnil, rfl⟩
  case h_2 first rest hcons =>
    obtain ⟨c, hdraft, h⟩ := Except.bind_eq_ok.mp h
    obtain ⟨tail, htail, h⟩ := Except.bind_eq_ok.mp h
    obtain rfl := Except.ok.inj h
    obtain ⟨tokenCount, -, hc⟩ := Except.bind_eq_ok.mp hdraft
    obtain rfl := Except.ok.inj hc
    refine .inr ⟨_, tail, ?_, htail, rfl⟩
    rw [hcons]
    exact ⟨List.cons_ne_nil _ _, rfl, rfl, rfl, rfl, rfl, rfl⟩

/-! ## Splitting an oversized block -/

/-- What the packing loop of `splitOversizedBlock` knows after the sentences `ss`. -/
structure SplitState.Packs (tok : Tokenizer) (options : ChunkOptions) (block : AnchoredBlock)
    (ss : List (ℕ × ℕ)) (closed : List (List (ℕ × ℕ))) (current : List (ℕ × ℕ)) (st : SplitState) :
    Prop where
  running : Running (block.sentenceSize tok) options.over ss closed current
  subs : st.subs = closed.map block.part
  curStart : st.curStart = current.head?.map (·.1)
  curEnd : ∀ s ∈ current.getLast?, st.curEnd = s.2
  curTokens : st.curTokens = weight (block.sentenceSize tok) current

/-- `push` closes the open part. -/
theorem SplitState.Packs.push {block : AnchoredBlock} {ss : List (ℕ × ℕ)}
    {closed : List (List (ℕ × ℕ))} {current : List (ℕ × ℕ)} {st : SplitState}
    (h : st.Packs tok options block ss closed current) (hcurrent : current ≠ []) :
    st.push block = { st with
      subs := (closed ++ [current]).map block.part, curStart := none, curTokens := 0 } := by
  obtain ⟨first, rest, rfl⟩ := List.exists_cons_of_ne_nil hcurrent
  have hstart : st.curStart = some first.1 := h.curStart
  have hend : st.curEnd = ((first :: rest).getLast hcurrent).2 :=
    h.curEnd _ (List.getLast?_eq_some_getLast hcurrent)
  rw [SplitState.push, hstart]
  dsimp only
  rw [h.subs, hend, List.map_append, List.map_singleton, AnchoredBlock.part,
    List.getLast?_eq_some_getLast hcurrent]
  rfl

/-- **One sentence more.** -/
theorem SplitState.Packs.add {block : AnchoredBlock} {ss : List (ℕ × ℕ)}
    {closed : List (List (ℕ × ℕ))} {current : List (ℕ × ℕ)} {st : SplitState}
    (h : st.Packs tok options block ss closed current) (s : ℕ × ℕ) :
    ∃ closed' current', current' ≠ [] ∧ (st.add block options.maxTokens s
      (block.sentenceSize tok s)).Packs tok options block (ss ++ [s]) closed' current' := by
  by_cases hclose : current ≠ [] ∧
      options.over (weight (block.sentenceSize tok) current + block.sentenceSize tok s) = true
  · obtain ⟨hcurrent, hover⟩ := hclose
    obtain ⟨first, rest, rfl⟩ := List.exists_cons_of_ne_nil hcurrent
    have hpush : (st.curStart.isSome &&
        options.maxTokens.lt (.ofNat (st.curTokens + block.sentenceSize tok s))) = true := by
      rw [h.curStart, h.curTokens]
      exact hover
    refine ⟨closed ++ [first :: rest], [s], List.cons_ne_nil _ _, ?_⟩
    rw [SplitState.add, if_pos hpush, h.push hcurrent]
    exact ⟨h.running.close hcurrent hover, rfl, rfl, fun _ hs =>
      congrArg Prod.snd (Option.some.inj hs), by simp⟩
  · have hkeep : (st.curStart.isSome &&
        options.maxTokens.lt (.ofNat (st.curTokens + block.sentenceSize tok s))) = false := by
      rw [h.curStart, h.curTokens]
      cases current with
      | nil => rfl
      | cons first rest => exact Bool.eq_false_of_not_eq_true fun hover => hclose ⟨nofun, hover⟩
    have hfits : current = [] ∨
        options.over (weight (block.sentenceSize tok) current + block.sentenceSize tok s) =
          false := by
      rw [← Bool.not_eq_true]
      tauto
    refine ⟨closed, current ++ [s], by simp, ?_⟩
    rw [SplitState.add, if_neg (by rw [hkeep]; exact Bool.false_ne_true)]
    refine ⟨h.running.keep hfits, h.subs, ?_, ?_, ?_⟩
    · rw [h.curStart]
      cases current <;> rfl
    · intro s' hs'
      rw [List.getLast?_concat] at hs'
      rw [← Option.some.inj hs']
    · rw [weight_append, weight_singleton, ← h.curTokens]

theorem sentences_ne_nil {b : AnchoredBlock} (hne : b.text ≠ [])
    (hend : ∀ c ∈ b.text.getLast?, isSpace c = false) : sentences b.text ≠ [] := by
  intro hnil
  have hconsecutive := consecutive_sentences hend
  rw [hnil] at hconsecutive
  exact hne (List.length_eq_zero_iff.1 (Eq.symm hconsecutive))

/-- **The parts of an oversized block are its sentences, greedily packed.** -/
theorem splitOversizedBlock_eq {block : AnchoredBlock} (hne : sentences block.text ≠ [])
    {subs : List AnchoredBlock} (h : splitOversizedBlock tok block options.maxTokens = .ok subs) :
    subs = (block.parts tok options).map block.part := by
  obtain ⟨st, hfold, h⟩ := Except.bind_eq_ok.mp h
  -- the last sentence seen is in the open part
  let I (left : List (ℕ × ℕ)) (st : SplitState) : Prop :=
    ∃ done closed current, done ++ left = sentences block.text ∧ (current ≠ [] ∨ left ≠ []) ∧
      st.Packs tok options block done closed current
  have hstart : I (sentences block.text) {} :=
    ⟨[], [], [], rfl, .inr hne, .start, rfl, rfl, nofun, rfl⟩
  have hend : I [] st := by
    refine Except.foldlM_invariant
      (fun s left st₁ st₂ ⟨done, closed, current, hdone, _, hpacks⟩ hturn => ?_) hstart hfold
    obtain ⟨t, ht, hturn⟩ := Except.bind_eq_ok.mp hturn
    obtain rfl := Except.ok.inj hturn
    obtain rfl : block.sentenceSize tok s = t := Tokenizer.size_eq ht
    obtain ⟨closed', current', hcurrent', hadd⟩ := hpacks.add s
    exact ⟨done ++ [s], closed', current', by rw [← hdone]; simp, .inl hcurrent', hadd⟩
  obtain ⟨done, closed, current, hdone, hcurrent, hpacks⟩ := hend
  obtain rfl : done = sentences block.text := by rwa [List.append_nil] at hdone
  replace hcurrent : current ≠ [] := hcurrent.resolve_right fun h => h rfl
  have hparts : block.parts tok options = closed ++ [current] := hpacks.running.pack_eq hcurrent
  obtain rfl := Except.ok.inj h
  rw [hpacks.push hcurrent, hparts]
  dsimp only
  rw [if_neg (by simp)]

end

/-! ## The loop over the blocks -/

/-- `chunkDocument` between two turns: nothing is pending. -/
structure ChunkState.AtTurn (tok : Tokenizer) (options : ChunkOptions) (turns : List Turn)
    (st : ChunkState) : Prop where
  layout : Layout tok options turns
  chunks : st.chunks = turns.flatMap (·.chunks)
  headings : st.headings = headingStack (turns.flatMap (·.blocks))
  body : st.body = []
  bodyTokens : st.bodyTokens = 0
  overlap : Tail tok options (lastChunk turns) st.overlap

/-- `chunkDocument` within a stretch, with the groups closed so far and their chunks. -/
structure ChunkState.InStretch (tok : Tokenizer) (options : ChunkOptions) (turns : List Turn)
    (stretch : List AnchoredBlock) (closed : List (List AnchoredBlock)) (cs : List ChunkDraft)
    (st : ChunkState) : Prop where
  layout : Layout tok options turns
  valid : (Segment.stretch stretch).Valid tok options (turns.flatMap (·.blocks))
  running : Running (·.size tok) options.over stretch closed st.body
  body : st.body ≠ []
  flushed : Flushed tok options (headingStack (turns.flatMap (·.blocks)))
    (lastChunk turns) closed cs
  chunks : st.chunks = turns.flatMap (·.chunks) ++ cs
  headings : st.headings = headingStack (turns.flatMap (·.blocks))
  bodyTokens : st.bodyTokens = weight (·.size tok) st.body
  overlap : Tail tok options (cs.getLast?.or (lastChunk turns)) st.overlap

/-- **What the loop knows after the blocks `done`**: it is between two turns, the last of them no
stretch, or within a stretch. -/
def ChunkState.Seen (tok : Tokenizer) (options : ChunkOptions) (done : List AnchoredBlock)
    (st : ChunkState) : Prop :=
  (∃ turns, st.AtTurn tok options turns ∧ done = turns.flatMap (·.blocks) ∧
    ∀ b ∈ done.getLast?, b.fits tok options = false) ∨
  ∃ turns stretch closed cs, st.InStretch tok options turns stretch closed cs ∧
    done = turns.flatMap (·.blocks) ++ stretch

section

variable {tok : Tokenizer} {options : ChunkOptions} {turns : List Turn} {st st' : ChunkState}
  {done stretch : List AnchoredBlock} {closed : List (List AnchoredBlock)} {cs : List ChunkDraft}
  {block : AnchoredBlock}

/-- A flush within a stretch closes its open group. -/
theorem ChunkState.InStretch.flush (h : st.InStretch tok options turns stretch closed cs)
    (hflush : st.flush tok options = .ok st') : ∃ c tail, Tail tok options (some c) tail ∧
      Flushed tok options (headingStack (turns.flatMap (·.blocks))) (lastChunk turns)
        (closed ++ [st.body]) (cs ++ [c]) ∧
      st' = { st with
        chunks := st.chunks ++ [c], overlap := tail, body := [], bodyTokens := 0 } := by
  obtain ⟨hnil, -⟩ | ⟨c, tail, hc, htail, hst'⟩ := flush_cases hflush
  · exact absurd hnil h.body
  · rw [h.headings] at hc
    exact ⟨c, tail, htail, h.flushed.snoc h.overlap hc, hst'⟩

/-- **A flush at the end of a stretch** ends its turn. -/
theorem ChunkState.Seen.flush (h : st.Seen tok options done)
    (hflush : st.flush tok options = .ok st') :
    ∃ turns, st'.AtTurn tok options turns ∧ done = turns.flatMap (·.blocks) := by
  obtain ⟨turns, hturn, hdone, -⟩ | ⟨turns, stretch, closed, cs, hst, hdone⟩ := h
  · obtain ⟨-, rfl⟩ | ⟨c, tail, hc, -⟩ := flush_cases hflush
    · exact ⟨turns, hturn, hdone⟩
    · exact absurd hturn.body hc.ne_nil
  · obtain ⟨c, tail, htail, hflushed, rfl⟩ := hst.flush hflush
    have hpack : (Segment.stretch stretch).bodies tok options = closed ++ [st.body] :=
      hst.running.pack_eq hst.body
    have hturn : (Turn.segment (.stretch stretch) (cs ++ [c])).Valid tok options turns := by
      refine ⟨hst.valid, ?_⟩
      rw [hpack]
      exact hflushed
    have hbody : ∀ b ∈ stretch, b.heading = false := fun b hb =>
      eq_false_of_fits (hst.valid.2.1 b hb)
    have hblocks : (turns ++ [Turn.segment (.stretch stretch) (cs ++ [c])]).flatMap (·.blocks) =
        turns.flatMap (·.blocks) ++ stretch := by simp [Turn.blocks, Segment.blocks]
    refine ⟨turns ++ [.segment (.stretch stretch) (cs ++ [c])], ⟨hst.layout.snoc hturn,
      ?_, ?_, rfl, rfl, ?_⟩, ?_⟩
    · dsimp only
      rw [hst.chunks]
      simp [Turn.chunks]
    · rw [hblocks, headingStack_append hbody]
      exact hst.headings
    · rw [lastChunk_concat]
      change Tail tok options (cs ++ [c]).getLast? tail
      rwa [List.getLast?_concat]
    · rw [hblocks, hdone]

/-- A heading is a turn of its own. -/
theorem ChunkState.AtTurn.heading (h : st.AtTurn tok options turns)
    (hblock : block.heading = true) :
    ChunkState.AtTurn tok options (turns ++ [.heading block]) { st with
      overlap := [], headings := updateHeadings st.headings (block.level.getD 1) block.text } where
  layout := h.layout.snoc hblock
  chunks := by simp [h.chunks, Turn.chunks]
  headings := by
    have hblocks : (turns ++ [Turn.heading block]).flatMap (·.blocks) =
        turns.flatMap (·.blocks) ++ [block] := by simp [Turn.blocks]
    rw [hblocks, headingStack_concat, if_pos hblock, h.headings]
  body := h.body
  bodyTokens := h.bodyTokens
  overlap := by
    rw [lastChunk_concat]
    rfl

/-- The parts of an oversized block, flushed one by one. -/
theorem addParts_cases {subs : List AnchoredBlock} {last : Option ChunkDraft} (hbody : st.body = [])
    (htokens : st.bodyTokens = 0) (htail : Tail tok options last st.overlap)
    (h : st.addParts tok options subs = .ok st') :
    ∃ cs tail, Flushed tok options st.headings last (subs.map fun sub => [sub]) cs ∧
      Tail tok options (cs.getLast?.or last) tail ∧
      st' = { st with chunks := st.chunks ++ cs, overlap := tail } := by
  induction subs generalizing st last with
  | nil =>
    obtain rfl := Except.ok.inj h
    exact ⟨[], st.overlap, .nil _, htail, by rw [List.append_nil]⟩
  | cons sub subs ih =>
    rw [ChunkState.addParts, List.foldlM_cons] at h
    obtain ⟨st₁, hst₁, h⟩ := Except.bind_eq_ok.mp h
    obtain ⟨bodyTokens, -, hst₁⟩ := Except.bind_eq_ok.mp hst₁
    obtain ⟨hnil, -⟩ | ⟨c, tail₁, hc, htail₁, rfl⟩ := flush_cases hst₁
    · cases hnil
    · obtain ⟨cs, tail, hcs, htail', rfl⟩ := ih rfl rfl htail₁ h
      refine ⟨c :: cs, tail, .cons htail hc hcs, ?_, ?_⟩
      · rw [List.getLast?_cons]
        cases hlast : cs.getLast? with
        | none => rwa [hlast] at htail'
        | some c' => rwa [hlast] at htail'
      · obtain ⟨chunks, headings, body, tokens, overlap⟩ := st
        obtain rfl : body = [] := hbody
        obtain rfl : tokens = 0 := htokens
        simp

/-- An oversized block is a turn of its own. -/
theorem ChunkState.AtTurn.oversized (h : st.AtTurn tok options turns)
    (hblock : block.oversized tok options = true) {subs : List AnchoredBlock}
    (hsubs : subs = (block.parts tok options).map block.part)
    (hadd : { st with overlap := [] }.addParts tok options subs = .ok st') :
    ∃ cs, st'.AtTurn tok options (turns ++ [.segment (.oversized block) cs]) := by
  have hnone : Tail tok options none ([] : JsString) := rfl
  obtain ⟨cs, tail, hcs, htail, rfl⟩ :=
    addParts_cases (by exact h.body) (by exact h.bodyTokens) hnone hadd
  have hheading : block.heading = false := eq_false_of_oversized hblock
  refine ⟨cs, h.layout.snoc ⟨hblock, ?_⟩, ?_, ?_, h.body, h.bodyTokens, ?_⟩
  · have hbodies : (Segment.oversized block).bodies tok options = subs.map fun sub => [sub] := by
      rw [hsubs, List.map_map]
      rfl
    rw [hbodies]
    exact h.headings ▸ hcs
  · simp [h.chunks, Turn.chunks]
  · have hblocks : (turns ++ [Turn.segment (.oversized block) cs]).flatMap (·.blocks) =
        turns.flatMap (·.blocks) ++ [block] := by simp [Turn.blocks, Segment.blocks]
    rw [hblocks, headingStack_concat, if_neg (by rw [hheading]; exact Bool.false_ne_true)]
    exact h.headings
  · rw [lastChunk_concat]
    rwa [Option.or_none] at htail

/-- Between two turns, a block that fits begins a stretch. -/
theorem ChunkState.AtTurn.begin (h : st.AtTurn tok options turns)
    (hlast : ∀ b ∈ (turns.flatMap (·.blocks)).getLast?, b.fits tok options = false)
    (hfits : block.fits tok options = true) :
    { st with body := st.body ++ [block], bodyTokens := st.bodyTokens +
      block.size tok }.InStretch tok
      options turns [block] [] [] := by
  refine ⟨h.layout, ⟨List.cons_ne_nil _ _, ?_, hlast⟩, ?_, ?_, .nil _, ?_, h.headings,
    ?_, h.overlap⟩
  · intro b hb
    rwa [List.mem_singleton.1 hb]
  · dsimp only
    rw [h.body]
    exact Running.start.keep (.inl rfl)
  · simp
  · rw [List.append_nil]
    exact h.chunks
  · dsimp only
    rw [h.body, h.bodyTokens, List.nil_append, weight_singleton, Nat.zero_add]

/-- A stretch goes on with a block that fits. -/
theorem ChunkState.InStretch.valid_snoc (h : st.InStretch tok options turns stretch closed cs)
    (hfits : block.fits tok options = true) :
    (Segment.stretch (stretch ++ [block])).Valid tok options (turns.flatMap (·.blocks)) := by
  obtain ⟨-, hall, hlast⟩ := h.valid
  refine ⟨by simp, fun b hb => ?_, hlast⟩
  obtain hb | hb := List.mem_append.1 hb
  · exact hall b hb
  · rwa [List.mem_singleton.1 hb]

/-- The block joins the pending body. -/
theorem ChunkState.InStretch.join (h : st.InStretch tok options turns stretch closed cs)
    (hfits : block.fits tok options = true)
    (hkeep : options.over (st.bodyTokens + block.size tok) = false) :
    { st with body := st.body ++ [block], bodyTokens := st.bodyTokens +
      block.size tok }.InStretch tok
      options turns (stretch ++ [block]) closed cs := by
  rw [h.bodyTokens] at hkeep
  refine ⟨h.layout, h.valid_snoc hfits, h.running.keep (.inr hkeep), by simp, h.flushed, h.chunks,
    h.headings, ?_, h.overlap⟩
  dsimp only
  rw [weight_append, weight_singleton, h.bodyTokens]

/-- The block goes into the next chunk of the stretch. -/
theorem ChunkState.InStretch.close (h : st.InStretch tok options turns stretch closed cs)
    (hfits : block.fits tok options = true)
    (hclose : options.over (st.bodyTokens + block.size tok) = true)
    (hflush : st.flush tok options = .ok st') : ∃ c,
    { st' with body := st'.body ++ [block], bodyTokens := st'.bodyTokens +
      block.size tok }.InStretch tok
      options turns (stretch ++ [block]) (closed ++ [st.body]) (cs ++ [c]) := by
  rw [h.bodyTokens] at hclose
  obtain ⟨c, tail, htail, hflushed, rfl⟩ := h.flush hflush
  refine ⟨c, h.layout, h.valid_snoc hfits, h.running.close h.body hclose,
    List.cons_ne_nil _ _, hflushed,
    ?_, h.headings, ?_, ?_⟩
  · dsimp only
    rw [h.chunks, List.append_assoc]
  · dsimp only
    rw [List.nil_append, weight_singleton, Nat.zero_add]
  · rw [List.getLast?_concat]
    exact htail

/-- **One turn of the loop**, for a block that is not blank. -/
theorem ChunkState.Seen.addBlock (h : st.Seen tok options done) (hblank : trim block.text ≠ [])
    (hne : sentences block.text ≠ []) (hadd : st.addBlock tok options block = .ok st') :
    st'.Seen tok options (done ++ [block]) := by
  rw [ChunkState.addBlock] at hadd
  split at hadd
  · rename_i hheading
    obtain ⟨st₁, hflush, hadd⟩ := Except.bind_eq_ok.mp hadd
    obtain ⟨turns, hturn, rfl⟩ := h.flush hflush
    obtain rfl := Except.ok.inj hadd
    refine .inl ⟨_, hturn.heading hheading, by simp [Turn.blocks], fun b hb => ?_⟩
    rw [List.getLast?_concat] at hb
    rw [← Option.some.inj hb, AnchoredBlock.fits, hheading]
    rfl
  rename_i hheading
  rw [Bool.not_eq_true] at hheading
  obtain ⟨blockTokens, htokens, hadd⟩ := Except.bind_eq_ok.mp hadd
  obtain rfl : block.size tok = blockTokens := Tokenizer.size_eq htokens
  split at hadd
  · rename_i hover
    have hblock : block.oversized tok options = true := by
      rw [AnchoredBlock.oversized, hheading]
      exact hover
    obtain ⟨st₁, hflush, hadd⟩ := Except.bind_eq_ok.mp hadd
    obtain ⟨subs, hsubs, hadd⟩ := Except.bind_eq_ok.mp hadd
    obtain ⟨turns, hturn, rfl⟩ := h.flush hflush
    obtain ⟨cs, hturn'⟩ := hturn.oversized hblock (splitOversizedBlock_eq hne hsubs) hadd
    refine .inl ⟨_, hturn', by simp [Turn.blocks, Segment.blocks], fun b hb => ?_⟩
    rw [List.getLast?_concat] at hb
    rw [← Option.some.inj hb, AnchoredBlock.fits, hheading]
    rw [show options.over (block.size tok) = true from hover]
    rfl
  rename_i hover
  have hsize : options.over (block.size tok) = false := Bool.eq_false_of_not_eq_true hover
  have hfits : block.fits tok options = true := by
    rw [AnchoredBlock.fits, hheading, hsize]
    rfl
  obtain ⟨turns, hturn, rfl, hlast⟩ | ⟨turns, stretch, closed, cs, hst, rfl⟩ := h
  · have hkeep : options.maxTokens.lt (.ofNat (st.bodyTokens + block.size tok)) = false := by
      rw [hturn.bodyTokens, Nat.zero_add]
      exact hsize
    rw [if_neg (Bool.eq_false_iff.mp hkeep)] at hadd
    obtain ⟨st₁, hst₁, hadd⟩ := Except.bind_eq_ok.mp hadd
    obtain rfl := Except.ok.inj hst₁
    obtain rfl := Except.ok.inj hadd
    exact .inr ⟨turns, [block], [], [], hturn.begin hlast hfits, rfl⟩
  split at hadd
  · rename_i hclose
    obtain ⟨st₁, hflush, hadd⟩ := Except.bind_eq_ok.mp hadd
    obtain ⟨c, hnext⟩ := hst.close hfits hclose hflush
    obtain rfl := Except.ok.inj hadd
    exact .inr ⟨turns, stretch ++ [block], closed ++ [st.body], cs ++ [c], hnext, by simp⟩
  · rename_i hkeep
    obtain ⟨st₁, hst₁, hadd⟩ := Except.bind_eq_ok.mp hadd
    obtain rfl := Except.ok.inj hst₁
    obtain rfl := Except.ok.inj hadd
    exact .inr ⟨turns, stretch ++ [block], closed, cs,
      hst.join hfits (Bool.eq_false_of_not_eq_true hkeep),
      by simp⟩

/-- **The chunks of a document are those of a layout of its blocks.** -/
theorem exists_layout {parsed : ParsedDocument} (hparsed : parsed.WellFormed)
    {chunks : List ChunkDraft} (h : chunkDocument tok options parsed = .ok chunks) :
    ∃ turns, Layout tok options turns ∧ turns.flatMap (·.blocks) = parsed.blocks ∧
      turns.flatMap (·.chunks) = chunks := by
  obtain ⟨st, hfold, h⟩ := Except.bind_eq_ok.mp h
  let I (left : List AnchoredBlock) (st : ChunkState) : Prop :=
    ∃ done, done ++ left = parsed.blocks ∧ st.Seen tok options done
  have hstart : I parsed.blocks {} :=
    ⟨[], rfl, .inl ⟨[], ⟨layout_nil, rfl, rfl, rfl, rfl, rfl⟩, rfl, nofun⟩⟩
  have hend : I [] st := by
    refine Except.foldlM_invariant (fun block left st₁ st₂ ⟨done, hdone, hst₁⟩ hturn => ?_)
      hstart hfold
    have hblock : block ∈ parsed.blocks := by simp [← hdone]
    have hblank := hparsed.trim_ne_nil block hblock
    have hsentences : sentences block.text ≠ [] :=
      sentences_ne_nil (fun hnil => hblank (by rw [hnil]; rfl)) (hparsed.last block hblock)
    exact ⟨done ++ [block], by rw [← hdone]; simp, hst₁.addBlock hblank hsentences hturn⟩
  obtain ⟨done, hdone, hseen⟩ := hend
  obtain rfl : done = parsed.blocks := by rwa [List.append_nil] at hdone
  obtain ⟨st', hflush, h⟩ := Except.bind_eq_ok.mp h
  obtain ⟨turns, hturn, hblocks⟩ := hseen.flush hflush
  obtain rfl := Except.ok.inj h
  exact ⟨turns, hturn.layout, hblocks.symm, hturn.chunks.symm⟩

/-! ## Chunked documents -/

/-- An element of lists put together is in one of them. -/
theorem exists_of_flatMap_eq {α β : Type} {f : α → List β} {l : List α} {xs ys : List β} {x : β}
    (h : l.flatMap f = xs ++ x :: ys) : ∃ before a after us vs, l = before ++ a :: after ∧
      f a = us ++ x :: vs ∧ xs = before.flatMap f ++ us ∧ ys = vs ++ after.flatMap f := by
  induction l generalizing xs with
  | nil => simp at h
  | cons a l ih =>
    rw [List.flatMap_cons, List.append_eq_append_iff] at h
    obtain ⟨us, rfl, hrest⟩ | ⟨vs, ha, hrest⟩ := h
    · obtain ⟨before, a', after, us', vs, rfl, ha', rfl, rfl⟩ := ih hrest
      exact ⟨a :: before, a', after, us', vs, rfl, ha', by simp, rfl⟩
    · cases vs with
      | nil =>
        have hnext : l.flatMap f = [] ++ x :: ys := by simpa using hrest.symm
        obtain ⟨before, a', after, us', vs, rfl, ha', hxs, rfl⟩ := ih hnext
        exact ⟨a :: before, a', after, us', vs, rfl, ha', by simp [ha, hxs], rfl⟩
      | cons y vs =>
        obtain ⟨rfl, rfl⟩ := List.cons.inj hrest
        exact ⟨[], a, l, xs, vs, rfl, ha, rfl, rfl⟩

/-- **A chunked document**, with its turns. -/
structure Chunked (tok : Tokenizer) (options : ChunkOptions) (parsed : ParsedDocument)
    (chunks : List ChunkDraft) (turns : List Turn) : Prop where
  wellFormed : parsed.WellFormed
  layout : Layout tok options turns
  blocks : turns.flatMap (·.blocks) = parsed.blocks
  chunks : turns.flatMap (·.chunks) = chunks

theorem exists_chunked {parsed : ParsedDocument} (hparsed : parsed.WellFormed)
    {chunks : List ChunkDraft} (h : chunkDocument tok options parsed = .ok chunks) :
    ∃ turns, Chunked tok options parsed chunks turns := by
  obtain ⟨turns, hlayout, hblocks, hchunks⟩ := exists_layout hparsed h
  exact ⟨turns, hparsed, hlayout, hblocks, hchunks⟩

section

variable {parsed : ParsedDocument} {chunks : List ChunkDraft}
  {before after : List Turn} {turn : Turn}

/-- The same turns, seen from the next one. -/
theorem Chunked.next (h : Chunked tok options parsed chunks (before ++ turn :: after)) :
    Chunked tok options parsed chunks ((before ++ [turn]) ++ after) := by
  rwa [List.append_assoc]

theorem Chunked.blocks_eq (h : Chunked tok options parsed chunks (before ++ turn :: after)) :
    parsed.blocks = before.flatMap (·.blocks) ++ (turn.blocks ++ after.flatMap (·.blocks)) := by
  rw [← h.blocks, List.flatMap_append, List.flatMap_cons]

theorem Chunked.valid (h : Chunked tok options parsed chunks (before ++ turn :: after)) :
    turn.Valid tok options before :=
  h.layout before turn after rfl

/-- **Where a chunk comes from**: its turn and its body. -/
theorem Chunked.exists_turn {turns : List Turn} (h : Chunked tok options parsed chunks turns)
    {xs ys : List ChunkDraft} {c : ChunkDraft} (hchunks : chunks = xs ++ c :: ys) :
    ∃ before s us vs after, turns = before ++ .segment s (us ++ c :: vs) :: after ∧
      xs = before.flatMap (·.chunks) ++ us ∧ ys = vs ++ after.flatMap (·.chunks) := by
  obtain ⟨before, turn, after, us, vs, rfl, hturn, rfl, rfl⟩ :=
    exists_of_flatMap_eq (h.chunks.trans hchunks)
  match turn with
  | .heading block => simp [Turn.chunks] at hturn
  | .segment s cs =>
    obtain rfl : cs = us ++ c :: vs := hturn
    exact ⟨before, s, us, vs, after, rfl, rfl, rfl⟩

end

end

end Ingestion

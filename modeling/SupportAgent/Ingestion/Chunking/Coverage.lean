import SupportAgent.Ingestion.Chunking.Anchors
import SupportAgent.Ingestion.Chunking.Layout

/-!
# Ingestion/Chunking/Coverage — the chunks of a document cover its body exactly once

A turn's groups are its heading by itself or the bodies of its chunks.  Their blocks follow one
another in the text, lie within the document's blocks and leave nothing of them out
(`Turn.Partitions`), so the ranges of the chunks are those of the body.
-/

namespace Ingestion

open JsString Packing Ranges

/-- `p` is all or a part of `b`. -/
structure AnchoredBlock.Within (p b : AnchoredBlock) : Prop where
  start : b.charStart ≤ p.charStart
  lt : p.charStart < p.charEnd
  stop : p.charEnd ≤ b.charEnd
  heading : p.heading = b.heading
  page : p.page = b.page

/-- Blocks that follow one another. -/
def InOrder (blocks : List AnchoredBlock) : Prop :=
  Ordered (fun b : AnchoredBlock => b.charStart) (fun b => b.charEnd) blocks

/-- The position `i` is in the block. -/
def AnchoredBlock.Holds (b : AnchoredBlock) (i : ℕ) : Prop := b.charStart ≤ i ∧ i < b.charEnd

/-- The position `i` is in the body of the chunk. -/
def ChunkDraft.Holds (c : ChunkDraft) (i : ℕ) : Prop := c.charStart ≤ i ∧ i < c.charEnd

section

variable (tok : Tokenizer) (options : ChunkOptions)

/-- The bodies of a turn's chunks, or its heading. -/
def Turn.groups : Turn → List (List AnchoredBlock)
  | heading block => [[block]]
  | segment s _ => s.bodies tok options

/-- **The groups of a turn are its blocks**: in order, and with nothing left out. -/
structure Turn.Partitions (turn : Turn) : Prop where
  ne_nil : ∀ g ∈ turn.groups tok options, g ≠ []
  inOrder : InOrder (turn.groups tok options).flatten
  within : ∀ p ∈ (turn.groups tok options).flatten, ∃ b ∈ turn.blocks, p.Within b
  covers : ∀ b ∈ turn.blocks, ∀ i, b.Holds i →
    ∃ p ∈ (turn.groups tok options).flatten, p.heading = b.heading ∧ p.Holds i

end

/-! ## The parts of an oversized block -/

/-- Where a part lies. -/
theorem part_eq (b : AnchoredBlock) {run : List (ℕ × ℕ)} (hne : run ≠ []) : b.part run =
    { text := slice b.text (run.head hne).1 (run.getLast hne).2
      page := b.page
      charStart := b.charStart + (run.head hne).1
      charEnd := b.charStart + (run.getLast hne).2 } := by
  rw [AnchoredBlock.part, List.head?_eq_some_head hne, List.getLast?_eq_some_getLast hne]
  rfl

section

variable {tok : Tokenizer} {options : ChunkOptions} {text : JsString} {b : AnchoredBlock}

theorem length_text (hb : b.AnchoredIn text) : b.charStart + b.text.length = b.charEnd := by
  have hlength : b.text.length = b.charEnd - b.charStart := by rw [← hb.slice, length_slice hb.le]
  have := hb.lt
  omega

theorem isInfix_of_mem_parts {run : List (ℕ × ℕ)} (hrun : run ∈ b.parts tok options) :
    run <:+: sentences b.text :=
  isInfix_of_mem_pack hrun

theorem within_of_mem_parts (hb : b.AnchoredIn text) (hheading : b.heading = false)
    (hend : ∀ c ∈ b.text.getLast?, isSpace c = false) {run : List (ℕ × ℕ)}
    (hrun : run ∈ b.parts tok options) : (b.part run).Within b := by
  have hne : run ≠ [] := ne_nil_of_mem_pack hrun
  have hin := isInfix_of_mem_parts hrun
  have hsentences := consecutive_sentences hend
  have hfirst := (hsentences.bounds (hin.subset (List.head_mem hne))).2.1
  have hlast := (hsentences.bounds (hin.subset (List.getLast_mem hne))).2.2
  have hle := ((hsentences.ordered.stretch hin).bounds hne (List.head_mem hne)).2
  have hlength := length_text hb
  rw [part_eq b hne]
  exact ⟨Nat.le_add_right _ _, by dsimp only; omega, by dsimp only; omega, hheading.symm, rfl⟩

/-- **The parts of an oversized block follow one another.** -/
theorem inOrder_parts (hb : b.AnchoredIn text) (hheading : b.heading = false)
    (hend : ∀ c ∈ b.text.getLast?, isSpace c = false) :
    InOrder ((b.parts tok options).map b.part) := by
  have hsentences : Ordered Prod.fst Prod.snd (b.parts tok options).flatten := by
    rw [AnchoredBlock.parts, flatten_pack]
    exact (consecutive_sentences hend).ordered
  refine ⟨fun p hp => ?_, List.pairwise_map.2 ?_⟩
  · obtain ⟨run, hrun, rfl⟩ := List.mem_map.1 hp
    exact (within_of_mem_parts hb hheading hend hrun).lt
  · refine (List.pairwise_flatten.1 hsentences.pairwise).2.imp_of_mem
      fun {run run'} hrun hrun' hlt => ?_
    have hne : run ≠ [] := ne_nil_of_mem_pack hrun
    have hne' : run' ≠ [] := ne_nil_of_mem_pack hrun'
    have hle := hlt _ (List.getLast_mem hne) _ (List.head_mem hne')
    rw [part_eq b hne, part_eq b hne']
    dsimp only
    omega

/-- **The parts of an oversized block leave nothing of it out.** -/
theorem exists_part_holds (hb : b.AnchoredIn text)
    (hend : ∀ c ∈ b.text.getLast?, isSpace c = false) {i : ℕ} (hi : b.Holds i) :
    ∃ run ∈ b.parts tok options, (b.part run).Holds i := by
  have hlength := length_text hb
  obtain ⟨hstart, hstop⟩ := hi
  obtain ⟨r, hr, hr₁, hr₂⟩ := (consecutive_sentences hend).exists_of_between
    (Nat.zero_le (i - b.charStart)) (by omega)
  have hflatten : (b.parts tok options).flatten = sentences b.text := flatten_pack
  rw [← hflatten] at hr
  obtain ⟨run, hrun, hr⟩ := List.mem_flatten.1 hr
  have hne : run ≠ [] := List.ne_nil_of_mem hr
  have hbounds :=
    ((consecutive_sentences hend).ordered.stretch (isInfix_of_mem_parts hrun)).bounds hne hr
  refine ⟨run, hrun, ?_⟩
  rw [part_eq b hne]
  exact ⟨by dsimp only; omega, by dsimp only; omega⟩

/-! ## Turns -/

theorem Anchored.inOrder {blocks : List AnchoredBlock} (h : Anchored text blocks) :
    InOrder blocks :=
  ⟨fun b hb => (h.anchored b hb).lt, h.pairwise.imp Nat.le_of_lt⟩

theorem AnchoredBlock.AnchoredIn.within_self (hb : b.AnchoredIn text) : b.Within b :=
  ⟨le_rfl, hb.lt, le_rfl, rfl, rfl⟩

/-- **A turn's groups are its blocks.** -/
theorem partitions_of_valid {turn : Turn} {before : List Turn} (hblocks : Anchored text turn.blocks)
    (hend : ∀ b ∈ turn.blocks, ∀ c ∈ b.text.getLast?, isSpace c = false)
    (hturn : turn.Valid tok options before) : turn.Partitions tok options := by
  have hself : ∀ b ∈ turn.blocks, ∃ b' ∈ turn.blocks, b.Within b' := fun b hb =>
    ⟨b, hb, (hblocks.anchored b hb).within_self⟩
  have hinOrder : InOrder turn.blocks := hblocks.inOrder
  match turn with
  | .heading block =>
    refine ⟨fun g hg => ?_, hinOrder, hself, fun b hb i hi => ⟨b, hb, rfl, hi⟩⟩
    rw [List.mem_singleton.1 hg]
    exact List.cons_ne_nil _ _
  | .segment (.stretch stretch) cs =>
    have hflatten : ((Turn.segment (.stretch stretch) cs).groups tok options).flatten = stretch :=
      flatten_pack
    refine ⟨fun g hg => ne_nil_of_mem_pack hg, ?_, ?_, ?_⟩
    · rw [hflatten]
      exact hinOrder
    · rw [hflatten]
      exact hself
    · rw [hflatten]
      exact fun b hb i hi => ⟨b, hb, rfl, hi⟩
  | .segment (.oversized block) cs =>
    have hmem : block ∈ (Turn.segment (.oversized block) cs).blocks := List.mem_singleton_self _
    have hheading : block.heading = false := eq_false_of_oversized hturn.1
    have hflatten : ((Turn.segment (.oversized block) cs).groups tok options).flatten =
        (block.parts tok options).map block.part := by
      rw [List.map_eq_flatMap]
      rfl
    refine ⟨fun g hg => ?_, ?_, fun p hp => ?_, fun b hb i hi => ?_⟩
    · obtain ⟨run, -, rfl⟩ := List.mem_map.1 hg
      exact List.cons_ne_nil _ _
    · rw [hflatten]
      exact inOrder_parts (hblocks.anchored block hmem) hheading (hend block hmem)
    · rw [hflatten] at hp
      obtain ⟨run, hrun, rfl⟩ := List.mem_map.1 hp
      exact ⟨block, hmem, within_of_mem_parts (hblocks.anchored block hmem) hheading
        (hend block hmem) hrun⟩
    · obtain rfl := List.mem_singleton.1 hb
      obtain ⟨run, hrun, hholds⟩ := exists_part_holds (hblocks.anchored b hmem) (hend b hmem) hi
      rw [hflatten]
      exact ⟨b.part run, List.mem_map_of_mem hrun, hheading.symm, hholds⟩

/-! ## Chunks -/

theorem Turn.Partitions.inOrder_group {turn : Turn} (h : turn.Partitions tok options)
    {g : List AnchoredBlock} (hg : g ∈ turn.groups tok options) : InOrder g :=
  Ordered.stretch h.inOrder (List.infix_of_mem_flatten hg)

/-- The chunk of a body reaches over its blocks. -/
theorem Drafted.bounds {headings : List HeadingRef} {overlap : JsString} {g : List AnchoredBlock}
    {c : ChunkDraft} (h : Drafted headings overlap g c) (hg : InOrder g) {p : AnchoredBlock}
    (hp : p ∈ g) : c.charStart ≤ p.charStart ∧ p.charEnd ≤ c.charEnd := by
  rw [h.charStart, h.charEnd]
  exact Ordered.bounds hg h.ne_nil hp

/-- The chunks of a turn follow one another. -/
theorem Flushed.pairwise {headings : List HeadingRef} {last : Option ChunkDraft}
    {bodies : List (List AnchoredBlock)} {cs : List ChunkDraft}
    (h : Flushed tok options headings last bodies cs)
    (hbodies : bodies.flatten.Pairwise fun b b' => b.charEnd ≤ b'.charStart) :
    cs.Pairwise fun c c' => c.charEnd ≤ c'.charStart := by
  induction h with
  | nil last => exact List.Pairwise.nil
  | @cons last overlap g gs c cs htail hdraft hrest ih =>
    rw [List.flatten_cons, List.pairwise_append] at hbodies
    obtain ⟨-, hgs, hcross⟩ := hbodies
    refine List.pairwise_cons.2 ⟨fun c' hc' => ?_, ih hgs⟩
    obtain ⟨xs, ys, hcs⟩ := List.append_of_mem hc'
    obtain ⟨before, g', after, overlap', rfl, -, hdraft', -, -⟩ := hrest.exists_body hcs
    rw [hdraft.charEnd, hdraft'.charStart]
    refine hcross _ (List.getLast_mem hdraft.ne_nil) _ ?_
    exact List.mem_flatten.2 ⟨g', by simp, List.head_mem hdraft'.ne_nil⟩

section

variable {parsed : ParsedDocument} {chunks : List ChunkDraft}
  {before after : List Turn} {turn : Turn}

theorem Chunked.partitions (h : Chunked tok options parsed chunks (before ++ turn :: after)) :
    turn.Partitions tok options := by
  have hturn : turn.blocks <:+: parsed.blocks := ⟨_, _, by rw [h.blocks_eq, List.append_assoc]⟩
  exact partitions_of_valid (h.wellFormed.anchored.stretch hturn)
    (fun b hb => h.wellFormed.last b (hturn.subset hb)) h.valid

/-- The blocks of a segment are no headings. -/
theorem Segment.Valid.heading_eq_false {s : Segment} {blocks : List AnchoredBlock}
    (h : s.Valid tok options blocks) {b : AnchoredBlock} (hb : b ∈ s.blocks) :
    b.heading = false := by
  match s with
  | .stretch blocks => exact eq_false_of_fits (h.2.1 b hb)
  | .oversized block =>
    rw [List.mem_singleton.1 hb]
    exact eq_false_of_oversized h

theorem Segment.Valid.blocks_ne_nil {s : Segment} {blocks : List AnchoredBlock}
    (h : s.Valid tok options blocks) : s.blocks ≠ [] := by
  match s with
  | .stretch bs => exact h.1
  | .oversized block => exact List.cons_ne_nil _ _

/-- A segment makes chunks. -/
theorem Chunked.chunks_ne_nil {s : Segment} {cs : List ChunkDraft}
    (h : Chunked tok options parsed chunks (before ++ .segment s cs :: after)) : cs ≠ [] := by
  obtain ⟨b, hb⟩ := List.exists_mem_of_ne_nil _ h.valid.1.blocks_ne_nil
  have hmem : b ∈ parsed.blocks := by
    rw [h.blocks_eq]
    exact List.mem_append_right _ (List.mem_append_left _ hb)
  have hlt := (h.wellFormed.anchored.anchored b hmem).lt
  obtain ⟨p, hp, -⟩ := h.partitions.covers b hb b.charStart ⟨le_rfl, hlt⟩
  obtain ⟨g, hg, -⟩ := List.mem_flatten.1 hp
  obtain ⟨c, hc, -⟩ := h.valid.2.exists_chunk hg
  exact List.ne_nil_of_mem hc

/-- **The range of a chunk** begins in a block of its turn and ends in one. -/
theorem Chunked.range {s : Segment} {cs : List ChunkDraft} {c : ChunkDraft}
    (h : Chunked tok options parsed chunks (before ++ .segment s cs :: after)) (hc : c ∈ cs) :
    c.charStart < c.charEnd ∧
      (∃ b ∈ s.blocks, b.Holds c.charStart ∧ c.page = b.page) ∧
      ∃ b ∈ s.blocks, b.charStart < c.charEnd ∧ c.charEnd ≤ b.charEnd := by
  have hpart := h.partitions
  obtain ⟨us, vs, hcs⟩ := List.append_of_mem hc
  obtain ⟨gs, g, gs', overlap, hbodies, -, hdraft, -, -⟩ := h.valid.2.exists_body hcs
  have hmem : ∀ p ∈ g, p ∈ ((Turn.segment s cs).groups tok options).flatten := fun p hp =>
    List.mem_flatten.2 ⟨g, by rw [Turn.groups, hbodies]; simp, hp⟩
  obtain ⟨b, hb, hwithin⟩ := hpart.within _ (hmem _ (List.head_mem hdraft.ne_nil))
  obtain ⟨b', hb', hwithin'⟩ := hpart.within _ (hmem _ (List.getLast_mem hdraft.ne_nil))
  have hg : InOrder g := hpart.inOrder_group (by rw [Turn.groups, hbodies]; simp)
  have hfirst := hdraft.bounds hg (List.head_mem hdraft.ne_nil)
  have hstart := hdraft.charStart
  have hend := hdraft.charEnd
  have := hwithin.lt
  refine ⟨by omega, ⟨b, hb, ⟨by rw [hstart]; exact hwithin.start, ?_⟩, ?_⟩, b', hb', ?_, ?_⟩
  · have := hwithin.stop
    omega
  · rw [hdraft.page]
    exact hwithin.page
  · have := hwithin'.start
    have := hwithin'.lt
    omega
  · rw [hend]
    exact hwithin'.stop

variable {turns : List Turn}

/-- The blocks of a document follow one another, turn by turn. -/
theorem Chunked.pairwise_turns (h : Chunked tok options parsed chunks turns) :
    turns.Pairwise fun t t' => ∀ b ∈ t.blocks, ∀ b' ∈ t'.blocks, b.charEnd < b'.charStart := by
  have hblocks := h.wellFormed.anchored.pairwise
  rw [← h.blocks] at hblocks
  exact (List.pairwise_flatMap.1 hblocks).2

/-- **The chunks follow one another.** -/
theorem Chunked.pairwise_chunks (h : Chunked tok options parsed chunks turns) :
    chunks.Pairwise fun c c' => c.charEnd ≤ c'.charStart := by
  rw [← h.chunks, List.pairwise_flatMap]
  constructor
  · intro t ht
    obtain ⟨before, after, rfl⟩ := List.append_of_mem ht
    match t with
    | .heading block => exact List.Pairwise.nil
    | .segment s cs => exact h.valid.2.pairwise h.partitions.inOrder.pairwise
  · refine h.pairwise_turns.imp_of_mem fun {t t'} ht ht' hlt c hc c' hc' => ?_
    match t, t' with
    | .heading block, _ => cases hc
    | _, .heading block => cases hc'
    | .segment s cs, .segment s' cs' =>
      obtain ⟨before, after, rfl⟩ := List.append_of_mem ht
      obtain ⟨-, -, b, hb, -, hend⟩ := h.range hc
      obtain ⟨before', after', hturns⟩ := List.append_of_mem ht'
      rw [hturns] at h
      obtain ⟨-, ⟨b', hb', ⟨hstart, -⟩, -⟩, -⟩ := h.range hc'
      have := hlt b hb b' hb'
      omega

/-- **Every position of the body is in a chunk.** -/
theorem Chunked.exists_chunk_holds (h : Chunked tok options parsed chunks turns) {b : AnchoredBlock}
    (hb : b ∈ parsed.blocks) (hbody : b.heading = false) {i : ℕ} (hi : b.Holds i) :
    ∃ c ∈ chunks, c.Holds i := by
  rw [← h.blocks] at hb
  obtain ⟨t, ht, hbt⟩ := List.mem_flatMap.1 hb
  obtain ⟨before, after, rfl⟩ := List.append_of_mem ht
  have hpart := h.partitions
  match t with
  | .heading block =>
    have hheading : block.heading = true := h.valid
    obtain rfl : b = block := List.mem_singleton.1 hbt
    rw [hheading] at hbody
    cases hbody
  | .segment s cs =>
    obtain ⟨p, hp, -, hstart, hstop⟩ := hpart.covers b hbt i hi
    obtain ⟨g, hg, hpg⟩ := List.mem_flatten.1 hp
    obtain ⟨c, hc, overlap, hdraft⟩ := h.valid.2.exists_chunk hg
    have hbounds := hdraft.bounds (hpart.inOrder_group hg) hpg
    refine ⟨c, ?_, by omega, by omega⟩
    rw [← h.chunks]
    exact List.mem_flatMap.2 ⟨_, ht, hc⟩

/-- A block of another turn is before all of a chunk or after it. -/
theorem Chunked.apart {s : Segment} {cs : List ChunkDraft} {c : ChunkDraft} {b : AnchoredBlock}
    (h : Chunked tok options parsed chunks (before ++ .segment s cs :: after)) (hc : c ∈ cs) :
    (b ∈ before.flatMap (·.blocks) → b.charEnd < c.charStart) ∧
      (b ∈ after.flatMap (·.blocks) → c.charEnd < b.charStart) := by
  have hturns := h.pairwise_turns
  rw [List.pairwise_append, List.pairwise_cons] at hturns
  obtain ⟨-, ⟨hafter, -⟩, hbefore⟩ := hturns
  obtain ⟨-, ⟨first, hfirst, ⟨hstart, -⟩, -⟩, final, hfinal, -, hend⟩ := h.range hc
  refine ⟨fun hb => ?_, fun hb => ?_⟩
  · obtain ⟨t, ht, hb⟩ := List.mem_flatMap.1 hb
    have := hbefore t ht _ List.mem_cons_self b hb first hfirst
    omega
  · obtain ⟨t, ht, hb⟩ := List.mem_flatMap.1 hb
    have := hafter t ht final hfinal b hb
    omega

/-- **A heading is before all of a chunk or after it.** -/
theorem Chunked.heading_apart (h : Chunked tok options parsed chunks turns) {b : AnchoredBlock}
    (hb : b ∈ parsed.blocks) (hheading : b.heading = true) {c : ChunkDraft} (hc : c ∈ chunks) :
    b.charEnd < c.charStart ∨ c.charEnd < b.charStart := by
  obtain ⟨xs, ys, hchunks⟩ := List.append_of_mem hc
  obtain ⟨before, s, us, vs, after, rfl, -, -⟩ := h.exists_turn hchunks
  have hmem : c ∈ us ++ c :: vs := by simp
  rw [h.blocks_eq] at hb
  obtain hb | hb := List.mem_append.1 hb
  · exact .inl ((h.apart hmem).1 hb)
  obtain hb | hb := List.mem_append.1 hb
  · rw [h.valid.1.heading_eq_false hb] at hheading
    cases hheading
  · exact .inr ((h.apart hmem).2 hb)

end

end

/-! ## Anchors and coverage -/

/-- A document of a heading, a short block and one of two sentences. -/
def sampleResult : FormatParseResult where
  blocks := [{ text := js "H", page := 1, heading := true, level := some 1 },
    { text := js "A.", page := 1 }, { text := js " B. C. ", page := 2 }]
  pageCount := 2
  warnings := []

def sampleOptions : ChunkOptions := ⟨.ofNat 3, .ofNat 1⟩

/-- Its chunks: the short block and the two sentences. -/
def sampleChunks : List ChunkDraft :=
  [{ content := js "[Section: H]\n\nA.", text := js "A.", page := 1, sectionText := some (js "H"),
     charStart := 3, charEnd := 5, tokenCount := 16 },
   { content := js "[Section: H]\n\nB. ", text := js "B. ", page := 2, sectionText := some (js "H"),
     charStart := 7, charEnd := 10, tokenCount := 17 },
   { content := js "[Section: H]\n\n \n\nC.", text := js "C.", page := 2,
     sectionText := some (js "H"), charStart := 10, charEnd := 12, tokenCount := 19 }]

theorem chunkDocument_sampleResult :
    chunkDocument sampleEncoder.tokenizer sampleOptions (assemble sampleResult) =
      .ok sampleChunks := by
  decide +kernel

/-- **Citation anchors are exact**: the offsets of a block and of a chunk cut out its text, and a
chunk's page is that of the block it begins in. -/
theorem anchors_exact (tok : Tokenizer) (options : ChunkOptions) (result : FormatParseResult) :
    let d := assemble result
    (∀ b ∈ d.blocks, slice d.text b.charStart b.charEnd = b.text) ∧
    ∀ chunks, chunkDocument tok options d = .ok chunks → ∀ c ∈ chunks,
      c.charStart < c.charEnd ∧ c.charEnd ≤ d.text.length ∧
      slice d.text c.charStart c.charEnd = c.text ∧
      (∃ b ∈ d.blocks, b.Holds c.charStart) ∧
      ∀ b ∈ d.blocks, b.Holds c.charStart → c.page = b.page := by
  intro d
  have hd : d.WellFormed := wellFormed_assemble result
  refine ⟨fun b hb => (hd.anchored.anchored b hb).slice, fun chunks h c hc => ?_⟩
  have hslice := (cutFrom_chunkDocument hd.anchored hd.trim_ne_nil h c hc).slice
  obtain ⟨turns, hchunked⟩ := exists_chunked hd h
  obtain ⟨xs, ys, hsplit⟩ := List.append_of_mem hc
  obtain ⟨before, s, us, vs, after, rfl, -, -⟩ := hchunked.exists_turn hsplit
  obtain ⟨hlt, ⟨b, hb, hholds, hpage⟩, b', hb', -, hend⟩ :=
    hchunked.range (List.mem_append_right us List.mem_cons_self)
  have hmem : ∀ b ∈ s.blocks, b ∈ d.blocks := fun b hb => by
    rw [hchunked.blocks_eq]
    exact List.mem_append_right _ (List.mem_append_left _ hb)
  refine ⟨hlt, hend.trans (hd.anchored.anchored b' (hmem b' hb')).le, hslice,
    ⟨b, hmem b hb, hholds⟩,
    fun b₁ hb₁ hholds₁ => ?_⟩
  rw [hpage, Ordered.eq_of_mem hd.anchored.inOrder (hmem b hb) hb₁ hholds hholds₁]

theorem anchors_exact_sample : ∀ c ∈ sampleChunks,
    slice (assemble sampleResult).text c.charStart c.charEnd = c.text := fun c hc =>
  ((anchors_exact _ _ sampleResult).2 _ chunkDocument_sampleResult c hc).2.2.1

/-- **Chunking loses and duplicates no body text.** -/
theorem chunks_cover_body (tok : Tokenizer) (options : ChunkOptions) (result : FormatParseResult)
    (chunks : List ChunkDraft) (h : chunkDocument tok options (assemble result) = .ok chunks) :
    (∀ c ∈ chunks, c.charStart < c.charEnd) ∧
    chunks.Pairwise (fun c c' => c.charEnd ≤ c'.charStart) ∧
    (∀ b ∈ (assemble result).blocks, b.heading = false → ∀ i, b.Holds i → ∃ c ∈ chunks, c.Holds i) ∧
    ∀ b ∈ (assemble result).blocks, b.heading = true → ∀ i, b.Holds i → ∀ c ∈ chunks,
      ¬ c.Holds i := by
  obtain ⟨turns, hchunked⟩ := exists_chunked (wellFormed_assemble result) h
  refine ⟨fun c hc => ?_, hchunked.pairwise_chunks,
    fun b hb hbody i hi => hchunked.exists_chunk_holds hb hbody hi,
      fun b hb hheading i hi c hc hci => ?_⟩
  · obtain ⟨xs, ys, hsplit⟩ := List.append_of_mem hc
    obtain ⟨before, s, us, vs, after, rfl, -, -⟩ := hchunked.exists_turn hsplit
    exact (hchunked.range (List.mem_append_right us List.mem_cons_self)).1
  · obtain ⟨hstart, hstop⟩ := hi
    obtain ⟨hstart', hstop'⟩ := hci
    have := hchunked.heading_apart hb hheading hc
    omega

theorem chunks_cover_body_sample :
    sampleChunks.length = 3 ∧ sampleChunks.Pairwise (fun c c' => c.charEnd ≤ c'.charStart) :=
  ⟨rfl, (chunks_cover_body _ _ _ _ chunkDocument_sampleResult).2.1⟩

end Ingestion

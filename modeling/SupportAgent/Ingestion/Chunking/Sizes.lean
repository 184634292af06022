import SupportAgent.Ingestion.Chunking.Overlap

/-!
# Ingestion/Chunking/Sizes — how much a chunk holds

A chunk is made of blocks that together keep the cap, or of sentences of a block over it; and what
it left to the next chunk would have been too much.  A chunk's offsets say which blocks or sentences
these are, so the two kinds and their runs are read off the document alone.
-/

namespace Ingestion

open JsString Packing Ranges

section

variable (tok : Tokenizer) (options : ChunkOptions) (blocks : List AnchoredBlock)

/-- **A chunk of whole blocks**: consecutive ones of the body, together within the cap. -/
structure ChunkDraft.PacksBlocks (c : ChunkDraft) (run : List AnchoredBlock) : Prop where
  ne_nil : run ≠ []
  stretch : run <:+: blocks
  body : ∀ b ∈ run, b.heading = false
  counted : ∀ b ∈ run, tok.countTokens b.text = .ok (b.size tok)
  small : ∀ b ∈ run, options.over (b.size tok) = false
  total : options.over (weight (·.size tok) run) = false
  text : c.text = join blankLine (run.map (·.text))
  charStart : c.charStart = (run.head ne_nil).charStart
  charEnd : c.charEnd = (run.getLast ne_nil).charEnd

/-- **A chunk of sentences**: consecutive ones of a block over the cap, together within it, or a
single one. -/
structure ChunkDraft.PacksSentences (c : ChunkDraft) (b : AnchoredBlock) (run : List (ℕ × ℕ)) :
    Prop where
  mem : b ∈ blocks
  body : b.heading = false
  counted : tok.countTokens b.text = .ok (b.size tok)
  large : options.over (b.size tok) = true
  ne_nil : run ≠ []
  stretch : run <:+: sentences b.text
  sentencesCounted : ∀ s ∈ run, tok.countTokens (slice b.text s.1 s.2) = .ok (b.sentenceSize tok s)
  total : options.over (weight (b.sentenceSize tok) run) = false ∨ run.length = 1
  text : c.text = slice b.text (run.head ne_nil).1 (run.getLast ne_nil).2
  charStart : c.charStart = b.charStart + (run.head ne_nil).1
  charEnd : c.charEnd = b.charStart + (run.getLast ne_nil).2

end

section

variable {tok : Tokenizer} {options : ChunkOptions} {parsed : ParsedDocument}
  {chunks : List ChunkDraft}

/-! ## What was counted -/

theorem Tokenizer.countTokens_eq {text : JsString} {n : ℕ} (h : tok.countTokens text = .ok n) :
    tok.countTokens text = .ok (tok.size text) := by
  rw [Tokenizer.size_eq h, h]

/-- A chunked document had every block of its body counted, and the sentences of those over the
cap. -/
theorem counted_of_chunkDocument (h : chunkDocument tok options parsed = .ok chunks)
    {b : AnchoredBlock}
    (hb : b ∈ parsed.blocks) (hbody : b.heading = false) (hblank : trim b.text ≠ []) :
    tok.countTokens b.text = .ok (b.size tok) ∧ (options.over (b.size tok) = true →
      ∀ s ∈ sentences b.text, tok.countTokens (slice b.text s.1 s.2) =
        .ok (b.sentenceSize tok s)) := by
  obtain ⟨st, hfold, -⟩ := Except.bind_eq_ok.mp h
  obtain ⟨t, t', hadd⟩ := Except.exists_of_foldlM_eq_ok hfold hb
  rw [ChunkState.addBlock, if_neg (by rw [hbody]; exact Bool.false_ne_true), if_neg hblank] at hadd
  obtain ⟨n, hn, hadd⟩ := Except.bind_eq_ok.mp hadd
  obtain rfl : b.size tok = n := Tokenizer.size_eq hn
  refine ⟨hn, fun hover s hs => ?_⟩
  rw [if_pos (by exact hover)] at hadd
  obtain ⟨t₁, -, hadd⟩ := Except.bind_eq_ok.mp hadd
  obtain ⟨subs, hsubs, -⟩ := Except.bind_eq_ok.mp hadd
  obtain ⟨st', hsplit, -⟩ := Except.bind_eq_ok.mp hsubs
  obtain ⟨u, u', hstep⟩ := Except.exists_of_foldlM_eq_ok hsplit hs
  obtain ⟨k, hk, -⟩ := Except.bind_eq_ok.mp hstep
  exact Tokenizer.countTokens_eq hk

/-! ## The two kinds of chunks -/

variable {before after : List Turn} {cs : List ChunkDraft} {c : ChunkDraft}
  {headings : List HeadingRef} {overlap : JsString}

theorem Chunked.mem_blocks {turn : Turn}
    (h : Chunked tok options parsed chunks (before ++ turn :: after)) {b : AnchoredBlock}
    (hb : b ∈ turn.blocks) : b ∈ parsed.blocks := by
  rw [h.blocks_eq]
  exact List.mem_append_right _ (List.mem_append_left _ hb)

/-- **The chunks of a stretch** are made of whole blocks. -/
theorem Chunked.packsBlocks {bs g : List AnchoredBlock}
    (hok : chunkDocument tok options parsed = .ok chunks)
    (h : Chunked tok options parsed chunks (before ++ .segment (.stretch bs) cs :: after))
    (hg : g ∈ (Segment.stretch bs).bodies tok options) (hdraft : Drafted headings overlap g c) :
    c.PacksBlocks tok options parsed.blocks g := by
  have hbs : g <:+: bs := isInfix_of_mem_pack hg
  have hblocks : bs <:+: parsed.blocks := ⟨_, _, by rw [h.blocks_eq, List.append_assoc]; rfl⟩
  have hfits : ∀ b ∈ bs, b.heading = false ∧ options.over (b.size tok) = false := fun b hb => by
    have hb' := h.valid.1.2.1 b hb
    rw [AnchoredBlock.fits, Bool.and_eq_true, Bool.not_eq_true', Bool.not_eq_true'] at hb'
    exact hb'
  refine ⟨hdraft.ne_nil, hbs.trans hblocks, fun b hb => (hfits b (hbs.subset hb)).1, fun b hb => ?_,
    fun b hb => (hfits b (hbs.subset hb)).2, ?_, hdraft.text, hdraft.charStart, hdraft.charEnd⟩
  · have hmem : b ∈ parsed.blocks := (hbs.trans hblocks).subset hb
    exact (counted_of_chunkDocument hok hmem (hfits b (hbs.subset hb)).1
      (h.wellFormed.trim_ne_nil b hmem)).1
  · exact not_over_of_fits (fun b hb => (hfits b hb).2) hg

/-- **The chunks of an oversized block** are made of sentences. -/
theorem Chunked.packsSentences {b : AnchoredBlock} {run : List (ℕ × ℕ)}
    (hok : chunkDocument tok options parsed = .ok chunks)
    (h : Chunked tok options parsed chunks (before ++ .segment (.oversized b) cs :: after))
    (hrun : run ∈ b.parts tok options) (hdraft : Drafted headings overlap [b.part run] c) :
    c.PacksSentences tok options parsed.blocks b run := by
  have hmem : b ∈ parsed.blocks := h.mem_blocks (List.mem_singleton_self b)
  have hover : b.oversized tok options = true := h.valid.1
  have hbody := eq_false_of_oversized hover
  rw [AnchoredBlock.oversized, Bool.and_eq_true] at hover
  obtain ⟨hcounted, hsentences⟩ :=
    counted_of_chunkDocument hok hmem hbody (h.wellFormed.trim_ne_nil b hmem)
  have hne : run ≠ [] := ne_nil_of_mem_pack hrun
  have htext := hdraft.text
  have hstart := hdraft.charStart
  have hend := hdraft.charEnd
  rw [List.map_singleton, join, List.intercalate_singleton, part_eq b hne] at htext
  rw [List.head_singleton, part_eq b hne] at hstart
  rw [List.getLast_singleton, part_eq b hne] at hend
  exact ⟨hmem, hbody, hcounted, hover.2, hne, isInfix_of_mem_parts hrun,
    fun s hs => hsentences hover.2 s ((isInfix_of_mem_parts hrun).subset hs),
      not_over_of_mem_pack hrun,
    htext, hstart, hend⟩

/-- A chunk of either kind begins in the first of its blocks, or in its block. -/
theorem ChunkDraft.PacksBlocks.holds (hparsed : parsed.WellFormed) {run : List AnchoredBlock}
    (h : c.PacksBlocks tok options parsed.blocks run) : (run.head h.ne_nil).Holds c.charStart := by
  have hmem := h.stretch.subset (List.head_mem h.ne_nil)
  rw [h.charStart]
  exact ⟨le_rfl, (hparsed.anchored.anchored _ hmem).lt⟩

theorem ChunkDraft.PacksSentences.holds (hparsed : parsed.WellFormed) {b : AnchoredBlock}
    {run : List (ℕ × ℕ)} (h : c.PacksSentences tok options parsed.blocks b run) :
    b.Holds c.charStart := by
  have hlength := length_text (hparsed.anchored.anchored b h.mem)
  have hfirst := (consecutive_sentences (hparsed.last b h.mem)).bounds
    (h.stretch.subset (List.head_mem h.ne_nil))
  rw [h.charStart]
  exact ⟨Nat.le_add_right _ _, by omega⟩

/-- **A chunk is of one kind only.** -/
theorem ChunkDraft.PacksBlocks.not_packsSentences (hparsed : parsed.WellFormed)
    {run : List AnchoredBlock} (h : c.PacksBlocks tok options parsed.blocks run) {b : AnchoredBlock}
    {run' : List (ℕ × ℕ)} (h' : c.PacksSentences tok options parsed.blocks b run') : False := by
  have hmem := List.head_mem h.ne_nil
  have heq : run.head h.ne_nil = b := Ordered.eq_of_mem hparsed.anchored.inOrder
    (h.stretch.subset hmem) h'.mem (h.holds hparsed) (h'.holds hparsed)
  have hsmall := h.small _ hmem
  rw [heq, h'.large] at hsmall
  cases hsmall

/-- **The offsets of a chunk fix its blocks.** -/
theorem ChunkDraft.PacksBlocks.unique (hparsed : parsed.WellFormed) {run run' : List AnchoredBlock}
    (h : c.PacksBlocks tok options parsed.blocks run)
    (h' : c.PacksBlocks tok options parsed.blocks run') : run = run' := by
  rw [Ordered.eq_filter hparsed.anchored.inOrder h.stretch h.ne_nil,
    Ordered.eq_filter hparsed.anchored.inOrder h'.stretch h'.ne_nil, ← h.charStart, ← h.charEnd,
    ← h'.charStart, ← h'.charEnd]

/-- **The offsets of a chunk fix its sentences.** -/
theorem ChunkDraft.PacksSentences.unique (hparsed : parsed.WellFormed) {b b' : AnchoredBlock}
    {run run' : List (ℕ × ℕ)} (h : c.PacksSentences tok options parsed.blocks b run)
    (h' : c.PacksSentences tok options parsed.blocks b' run') : b = b' ∧ run = run' := by
  obtain rfl : b = b' := Ordered.eq_of_mem hparsed.anchored.inOrder h.mem h'.mem (h.holds hparsed)
    (h'.holds hparsed)
  have hsentences := (consecutive_sentences (hparsed.last b h.mem)).ordered
  have hstart := h.charStart
  have hstart' := h'.charStart
  have hend := h.charEnd
  have hend' := h'.charEnd
  refine ⟨rfl, ?_⟩
  rw [hsentences.eq_filter h.stretch h.ne_nil, hsentences.eq_filter h'.stretch h'.ne_nil]
  refine List.filter_congr fun s _ => ?_
  rw [decide_eq_decide]
  omega

/-! ## Consecutive chunks -/

variable {p : ChunkDraft} {us vs : List ChunkDraft} {turns : List Turn}

/-- **Two chunks of one stretch**: the first block of the second did not fit the first. -/
theorem Chunked.overflows_blocks {bs run run' : List AnchoredBlock}
    (hok : chunkDocument tok options parsed = .ok chunks)
    (h : Chunked tok options parsed chunks
      (before ++ .segment (.stretch bs) (us ++ p :: c :: vs) :: after))
    (hp : p.PacksBlocks tok options parsed.blocks run)
    (hc : c.PacksBlocks tok options parsed.blocks run') :
    Overflows (·.size tok) options.over run run' := by
  obtain ⟨gs, g, g', gs', overlap, overlap', hbodies, hdraft, hdraft', -⟩ := h.valid.2.exists_next
  have hg : g ∈ (Segment.stretch bs).bodies tok options := by simp [hbodies]
  have hg' : g' ∈ (Segment.stretch bs).bodies tok options := by simp [hbodies]
  rw [hp.unique h.wellFormed (h.packsBlocks hok hg hdraft),
    hc.unique h.wellFormed (h.packsBlocks hok hg' hdraft')]
  have hchain : (gs ++ g :: g' :: gs').IsChain (Overflows (·.size tok) options.over) :=
    hbodies ▸ isChain_pack
  exact (List.isChain_append_cons_cons.1 hchain).2.1

/-- **Two chunks of one oversized block**: the first sentence of the second did not fit the
first. -/
theorem Chunked.overflows_sentences {b b' : AnchoredBlock} {run run' : List (ℕ × ℕ)}
    (hok : chunkDocument tok options parsed = .ok chunks)
    (h : Chunked tok options parsed chunks
      (before ++ .segment (.oversized b') (us ++ p :: c :: vs) :: after))
    (hp : p.PacksSentences tok options parsed.blocks b run)
    (hc : c.PacksSentences tok options parsed.blocks b run') :
    Overflows (b.sentenceSize tok) options.over run run' := by
  obtain ⟨gs, g, g', gs', overlap, overlap', hbodies, hdraft, hdraft', -⟩ := h.valid.2.exists_next
  have hparts : (b'.parts tok options).map (fun run => [b'.part run]) = gs ++ g :: g' :: gs' :=
    hbodies
  obtain ⟨rs, rest, hrs, -, hrest⟩ := List.map_eq_append_iff.1 hparts
  obtain ⟨r, rest, rfl, rfl, hnext⟩ := List.map_eq_cons_iff.1 hrest
  obtain ⟨r', rs', rfl, rfl, -⟩ := List.map_eq_cons_iff.1 hnext
  obtain ⟨rfl, rfl⟩ := hp.unique h.wellFormed (h.packsSentences hok (by simp [hrs]) hdraft)
  obtain ⟨-, rfl⟩ := hc.unique h.wellFormed (h.packsSentences hok (by simp [hrs]) hdraft')
  have hchain : (rs ++ run :: run' :: rs').IsChain (Overflows (b.sentenceSize tok) options.over) :=
    hrs ▸ isChain_pack
  exact (List.isChain_append_cons_cons.1 hchain).2.1

/-- The block of a chunk of sentences is in the chunk's turn. -/
theorem Chunked.mem_turn {s : Segment} {b : AnchoredBlock} {run : List (ℕ × ℕ)}
    (h : Chunked tok options parsed chunks (before ++ .segment s cs :: after))
    (hpacks : c.PacksSentences tok options parsed.blocks b run) (hc : c ∈ cs) : b ∈ s.blocks := by
  obtain ⟨-, ⟨b', hb', hholds, -⟩, -⟩ := h.range hc
  have heq : b = b' := Ordered.eq_of_mem h.wellFormed.anchored.inOrder hpacks.mem (h.mem_blocks hb')
    (hpacks.holds h.wellFormed) hholds
  rwa [heq]

/-- Between two chunks of one block is no heading. -/
theorem ChunkDraft.PacksSentences.contiguous (hparsed : parsed.WellFormed) {b : AnchoredBlock}
    {run run' : List (ℕ × ℕ)} (hp : p.PacksSentences tok options parsed.blocks b run)
    (hc : c.PacksSentences tok options parsed.blocks b run') : parsed.Contiguous p c := by
  intro e he hheading ⟨hstart, hend⟩
  have helt := (hparsed.anchored.anchored e he).lt
  have hpend := hp.charEnd
  have hstop := (hc.holds hparsed).2
  have heq : e = b := Ordered.eq_of_mem hparsed.anchored.inOrder he hp.mem ⟨le_rfl, helt⟩
    ⟨by omega, by omega⟩
  rw [heq, hp.body] at hheading
  cases hheading

/-- A stretch does not follow a stretch. -/
theorem Chunked.not_two_stretches {bs bs' : List AnchoredBlock} {cs' : List ChunkDraft}
    (h : Chunked tok options parsed chunks
      (before ++ .segment (.stretch bs) cs :: .segment (.stretch bs') cs' :: after)) : False := by
  have hnext := h.next
  obtain ⟨hne, hfits, -⟩ := h.valid.1
  have hlast : bs.getLast hne ∈
      ((before ++ [Turn.segment (.stretch bs) cs]).flatMap (·.blocks)).getLast? := by
    rw [List.flatMap_append, List.flatMap_singleton, Turn.blocks, Segment.blocks,
      List.getLast?_append, List.getLast?_eq_some_getLast hne]
    rfl
  have hnot := hnext.valid.1.2.2 _ hlast
  rw [hfits _ (List.getLast_mem hne)] at hnot
  cases hnot

/-- **A chunk is of one kind or the other**, by its turn. -/
theorem Chunked.packs {s : Segment} (hok : chunkDocument tok options parsed = .ok chunks)
    (h : Chunked tok options parsed chunks (before ++ .segment s cs :: after)) (hc : c ∈ cs) :
    (∃ bs run, s = .stretch bs ∧ c.PacksBlocks tok options parsed.blocks run) ∨
      ∃ b run, s = .oversized b ∧ c.PacksSentences tok options parsed.blocks b run := by
  obtain ⟨us, vs, rfl⟩ := List.append_of_mem hc
  obtain ⟨gs, g, gs', overlap, hbodies, -, hdraft, -, -⟩ := h.valid.2.exists_body rfl
  have hg : g ∈ s.bodies tok options := by simp [hbodies]
  rcases s with bs | b
  · exact .inl ⟨bs, g, rfl, h.packsBlocks hok hg hdraft⟩
  · obtain ⟨run, hrun, rfl⟩ := List.mem_map.1 hg
    exact .inr ⟨b, run, rfl, h.packsSentences hok hrun hdraft⟩

end

/-- **Chunk sizes respect the cap and packing is greedy.** -/
theorem chunk_sizes (tok : Tokenizer) (options : ChunkOptions) (result : FormatParseResult)
    (chunks : List ChunkDraft) (hok : chunkDocument tok options (assemble result) = .ok chunks) :
    let d := assemble result
    (∀ c ∈ chunks, (∃ run, c.PacksBlocks tok options d.blocks run) ∨
      ∃ b run, c.PacksSentences tok options d.blocks b run) ∧
    ∀ xs p c ys, chunks = xs ++ p :: c :: ys →
      (∀ run run', p.PacksBlocks tok options d.blocks run →
        c.PacksBlocks tok options d.blocks run' →
        d.Contiguous p c →
        ∀ b ∈ run'.head?, options.over (weight (·.size tok) run + b.size tok) = true) ∧
      ∀ b run run', p.PacksSentences tok options d.blocks b run →
        c.PacksSentences tok options d.blocks b run' →
        ∀ s ∈ run'.head?, options.over (weight (b.sentenceSize tok) run + b.sentenceSize tok s) =
          true := by
  intro d
  have hd : d.WellFormed := wellFormed_assemble result
  obtain ⟨turns, h⟩ := exists_chunked hd hok
  refine ⟨fun c hc => ?_, fun xs p c ys hchunks => ⟨fun run run' hp hc hcontiguous => ?_,
    fun b run run' hp hc => ?_⟩⟩
  · obtain ⟨xs, ys, hsplit⟩ := List.append_of_mem hc
    obtain ⟨before, s, us, vs, after, rfl, -, -⟩ := h.exists_turn hsplit
    obtain ⟨-, run, -, hpacks⟩ | ⟨b, run, -, hpacks⟩ :=
      h.packs hok (List.mem_append_right us List.mem_cons_self)
    · exact .inl ⟨run, hpacks⟩
    · exact .inr ⟨b, run, hpacks⟩
  · obtain ⟨before, s, us, vs, after, rfl⟩ | ⟨before, s, us, s', vs, after, rfl⟩ :=
      h.exists_turns hchunks hcontiguous
    · have hmem : p ∈ us ++ p :: c :: vs := List.mem_append_right _ List.mem_cons_self
      obtain ⟨bs, -, rfl, -⟩ | ⟨b, run₁, -, hpacks⟩ := h.packs hok hmem
      · exact h.overflows_blocks hok hp hc
      · exact (hp.not_packsSentences hd hpacks).elim
    · -- two stretches on end would be one
      have hnext := h.next
      obtain ⟨bs, -, rfl, -⟩ | ⟨b, run₁, -, hpacks⟩ :=
        h.packs hok (List.mem_append_right us (List.mem_singleton_self p))
      · obtain ⟨bs', -, rfl, -⟩ | ⟨b, run₁, -, hpacks⟩ := hnext.packs hok List.mem_cons_self
        · exact (h.not_two_stretches).elim
        · exact (hc.not_packsSentences hd hpacks).elim
      · exact (hp.not_packsSentences hd hpacks).elim
  · obtain ⟨before, s, us, vs, after, rfl⟩ | ⟨before, s, us, s', vs, after, rfl⟩ :=
      h.exists_turns hchunks (hp.contiguous hd hc)
    · have hmem : p ∈ us ++ p :: c :: vs := List.mem_append_right _ List.mem_cons_self
      obtain ⟨bs, run₁, -, hpacks⟩ | ⟨b', -, rfl, -⟩ := h.packs hok hmem
      · exact (hpacks.not_packsSentences hd hp).elim
      · exact h.overflows_sentences hok hp hc
    · -- the block would be in two turns
      have hnext := h.next
      have hb' : b ∈ (Turn.segment s' (c :: vs)).blocks := hnext.mem_turn hc List.mem_cons_self
      have hp' : p ∈ us ++ [p] := List.mem_append_right us (List.mem_singleton_self p)
      have hafter := (h.apart hp').2 (List.mem_flatMap.2 ⟨_, List.mem_cons_self, hb'⟩)
      have := (h.range hp').1
      have := (hp.holds hd).1
      omega

theorem chunk_sizes_sample : sampleChunks ≠ [] ∧ ∀ c ∈ sampleChunks,
    (∃ run, c.PacksBlocks sampleEncoder.tokenizer sampleOptions
      (assemble sampleResult).blocks run) ∨
      ∃ b run, c.PacksSentences sampleEncoder.tokenizer sampleOptions
        (assemble sampleResult).blocks b run :=
  ⟨List.cons_ne_nil _ _, (chunk_sizes _ _ _ _ chunkDocument_sampleResult).1⟩

end Ingestion

import Mathlib.Data.List.DropRight
import SupportAgent.Ingestion.Chunking.Sections

/-!
# Ingestion/Chunking/Overlap — where the tail of a chunk is carried into the next

Consecutive chunks with no heading between them come from one turn or from two turns on end.  The
second carries the tail of the first, but where the second turn is an oversized block: there the
tail is dropped.
-/

namespace Ingestion

open JsString Packing

section

variable (tok : Tokenizer) (options : ChunkOptions)

/-- **Overlap is continuous inside a section**: a chunk carries the tail of the one before it, when
no heading lies between. -/
def OverlapContinuous (parsed : ParsedDocument) (chunks : List ChunkDraft) : Prop :=
  ∀ xs p c ys, chunks = xs ++ p :: c :: ys → parsed.Contiguous p c →
    ∀ tail, tok.takeLastTokens p.text options.overlapTokens = .ok tail → tail ≠ [] →
      sectionHeader c.sectionText ++ tail <+: c.content

/-- The body packed last out of these blocks, when no heading ends them. -/
def lastBody (blocks : List AnchoredBlock) : Option (List AnchoredBlock) :=
  match blocks.getLast? with
  | none => none
  | some b =>
    if b.heading then none
    else if options.over (b.size tok) then
      ((b.parts tok options).map fun run => [b.part run]).getLast?
    else (pack (·.size tok) options.over (blocks.rtakeWhile (·.fits tok options))).getLast?

/-- No oversized block cuts a tail off: the tail of the body packed right before it is empty, or the
block begins with it anyway. -/
def TailsKept (blocks : List AnchoredBlock) : Prop :=
  ∀ before b after, blocks = before ++ b :: after → b.oversized tok options = true →
    ∀ body ∈ lastBody tok options before, ∀ first ∈ (b.parts tok options).head?, ∀ tail,
      tok.takeLastTokens (join blankLine (body.map (·.text))) options.overlapTokens = .ok tail →
      tail <+: (b.part first).text

end

section

variable {tok : Tokenizer} {options : ChunkOptions} {parsed : ParsedDocument}
  {chunks : List ChunkDraft} {before after : List Turn} {turns : List Turn}

/-- A turn without chunks is a heading. -/
theorem Chunked.heading_of_chunks_eq_nil {turn : Turn}
    (h : Chunked tok options parsed chunks (before ++ turn :: after)) (hturn : turn.chunks = []) :
    ∃ block, turn = .heading block ∧ block.heading = true := by
  match turn with
  | .heading block => exact ⟨block, rfl, h.valid⟩
  | .segment s cs => exact absurd hturn h.chunks_ne_nil

/-- **Consecutive chunks with no heading between them** come from one turn or from two on end. -/
theorem Chunked.exists_turns (h : Chunked tok options parsed chunks turns) {xs ys : List ChunkDraft}
    {p c : ChunkDraft} (hchunks : chunks = xs ++ p :: c :: ys)
    (hcontiguous : parsed.Contiguous p c) :
    (∃ before s us vs after, turns = before ++ .segment s (us ++ p :: c :: vs) :: after) ∨
    ∃ before s us s' vs after,
      turns = before ++ .segment s (us ++ [p]) :: .segment s' (c :: vs) :: after := by
  have hc : chunks = (xs ++ [p]) ++ c :: ys := by simp [hchunks]
  obtain ⟨before, s', us, vs, after, rfl, hxs, -⟩ := h.exists_turn hc
  obtain rfl | ⟨us, p', rfl⟩ := us.eq_nil_or_concat'
  · right
    rw [List.append_nil] at hxs
    obtain ⟨before, turn, between, us, vs', rfl, hturn, -, hnil⟩ := exists_of_flatMap_eq hxs.symm
    obtain ⟨rfl, hbetween⟩ := List.append_eq_nil_iff.1 hnil.symm
    match turn with
    | .heading block => simp [Turn.chunks] at hturn
    | .segment s cs =>
      obtain rfl : cs = us ++ [p] := hturn
      rcases between with _ | ⟨t, between⟩
      · exact ⟨before, s, us, s', vs, after, by simp⟩
      · -- a heading would lie between them
        exfalso
        rw [List.append_assoc, List.cons_append, List.cons_append] at h
        have h₁ := h.next
        obtain ⟨block, rfl, hheading⟩ :=
          h₁.heading_of_chunks_eq_nil (List.append_eq_nil_iff.1 hbetween).1
        have hblock : block ∈ parsed.blocks := by
          rw [h₁.blocks_eq]
          simp [Turn.blocks]
        have hp := (h.apart (b := block) (List.mem_append_right us List.mem_cons_self)).2
          (by simp [Turn.blocks])
        have h₂ : Chunked tok options parsed chunks
            ((before ++ .segment s (us ++ [p]) :: .heading block :: between) ++
              .segment s' ([] ++ c :: vs) :: after) := by
          rwa [List.append_assoc]
        have hc := (h₂.apart (b := block) List.mem_cons_self).1 (by simp [Turn.blocks])
        exact hcontiguous block hblock hheading ⟨hp.le, hc.le⟩
  · left
    rw [← List.append_assoc] at hxs
    obtain rfl := List.singleton_inj.1 (List.append_inj' hxs rfl).2
    exact ⟨before, s', us, vs, after, by simp⟩

/-- A chunk made with the tail of another carries it. -/
theorem Drafted.carries {headings : List HeadingRef} {overlap : JsString} {g : List AnchoredBlock}
    {c : ChunkDraft} (h : Drafted headings overlap g c) (hne : overlap ≠ []) :
    contextHeader c.sectionText ++ overlap <+: c.content := by
  rw [h.content, if_neg hne, List.append_assoc, List.append_assoc, List.prefix_append_right_inj]
  exact List.prefix_append _ _

/-- The last body flushed is that of the last chunk. -/
theorem Flushed.getLast?_eq {headings : List HeadingRef} {last : Option ChunkDraft}
    {bodies : List (List AnchoredBlock)} {us : List ChunkDraft} {p : ChunkDraft}
    (h : Flushed tok options headings last bodies (us ++ [p])) :
    ∃ g overlap, bodies.getLast? = some g ∧ Drafted headings overlap g p := by
  obtain ⟨gs, g, gs', overlap, rfl, -, hdraft, -, hrest⟩ := h.exists_body rfl
  have hnil : gs' = [] := List.length_eq_zero_iff.1 hrest.length_eq
  rw [hnil]
  exact ⟨g, overlap, List.getLast?_concat, hdraft⟩

/-- What is taken from the end goes as far as the predicate holds. -/
theorem rtakeWhile_append {α : Type} {q : α → Bool} {xs ys : List α}
    (hxs : ∀ x ∈ xs.getLast?, q x = false) (hys : ∀ y ∈ ys, q y = true) :
    (xs ++ ys).rtakeWhile q = ys := by
  induction ys using List.reverseRecOn with
  | nil =>
    rw [List.append_nil, List.rtakeWhile_eq_nil_iff]
    intro hne
    rw [hxs _ (List.getLast?_eq_some_getLast hne)]
    exact Bool.false_ne_true
  | append_singleton ys y ih =>
    rw [← List.append_assoc, List.rtakeWhile_concat_pos _ _ _ (hys y (by simp)),
      ih fun z hz => hys z (List.mem_append_left _ hz)]

/-- The last body of blocks that end in a stretch. -/
theorem lastBody_stretch {blocks bs : List AnchoredBlock} (hne : bs ≠ [])
    (hfits : ∀ b ∈ bs, b.fits tok options = true)
    (hbefore : ∀ b ∈ blocks.getLast?, b.fits tok options = false) :
    lastBody tok options (blocks ++ bs) = (pack (·.size tok) options.over bs).getLast? := by
  have hlast : (blocks ++ bs).getLast? = some (bs.getLast hne) := by
    rw [List.getLast?_append, List.getLast?_eq_some_getLast hne, Option.some_or]
  have hb := hfits _ (List.getLast_mem hne)
  have hsize : options.over ((bs.getLast hne).size tok) = false := by
    rw [AnchoredBlock.fits, Bool.and_eq_true, Bool.not_eq_true', Bool.not_eq_true'] at hb
    exact hb.2
  rw [lastBody, hlast]
  dsimp only
  rw [eq_false_of_fits hb, hsize, rtakeWhile_append hbefore hfits]
  rfl

/-- **The last body before a turn** that follows a segment is that segment's last. -/
theorem Chunked.lastBody_eq {s : Segment} {cs : List ChunkDraft}
    (h : Chunked tok options parsed chunks (before ++ .segment s cs :: after)) :
    lastBody tok options ((before ++ [Turn.segment s cs]).flatMap (·.blocks)) =
      (s.bodies tok options).getLast? := by
  have hblocks : (before ++ [Turn.segment s cs]).flatMap (·.blocks) =
      before.flatMap (·.blocks) ++ s.blocks := by
    rw [List.flatMap_append, List.flatMap_singleton]
    rfl
  rw [hblocks]
  rcases s with bs | block
  · obtain ⟨hne, hfits, hbefore⟩ := h.valid.1
    exact lastBody_stretch hne hfits hbefore
  · have hover : block.oversized tok options = true := h.valid.1
    have hsize : options.over (block.size tok) = true := by
      rw [AnchoredBlock.oversized, Bool.and_eq_true] at hover
      exact hover.2
    rw [lastBody]
    dsimp only [Segment.blocks]
    rw [List.getLast?_concat]
    dsimp only
    rw [eq_false_of_oversized hover, hsize]
    rfl

/-- **The chunks on the two sides of the start of an oversized block.** -/
theorem Chunked.continuous_iff_of_oversized {s : Segment} {b : AnchoredBlock}
    {us vs : List ChunkDraft} {p c : ChunkDraft} {first : List (ℕ × ℕ)}
    (h : Chunked tok options parsed chunks
      (before ++ .segment s (us ++ [p]) :: .segment (.oversized b) (c :: vs) :: after))
    (hfirst : first ∈ (b.parts tok options).head?) (tail : JsString) :
    sectionHeader c.sectionText ++ tail <+: c.content ↔ tail <+: (b.part first).text := by
  have h' := h.next
  obtain ⟨gs, g, gs', overlap, hbodies, hlength, hdraft, htail, -⟩ :=
    h'.valid.2.exists_body (List.nil_append (c :: vs)).symm
  obtain rfl : gs = [] := List.length_eq_zero_iff.1 hlength
  obtain rfl : overlap = [] := htail
  have hg : g = [b.part first] := by
    obtain ⟨rest, hparts⟩ := List.head?_eq_some_iff.1 hfirst
    have hcons : (b.parts tok options).map (fun run => [b.part run]) = g :: gs' := hbodies
    rw [hparts, List.map_cons] at hcons
    exact (List.cons.inj hcons).1.symm
  have htext : c.text = (b.part first).text := by
    rw [hdraft.text, hg, List.map_singleton, join, List.intercalate_singleton]
  rw [← (h'.section_eq hdraft).2, hdraft.content, if_pos rfl, List.append_nil,
    List.prefix_append_right_inj, htext]

/-- The turns of an oversized block and of the body before it. -/
theorem Chunked.exists_oversized {blocks rest body : List AnchoredBlock} {b : AnchoredBlock}
    (h : Chunked tok options parsed chunks turns) (hblocks : parsed.blocks = blocks ++ b :: rest)
    (hover : b.oversized tok options = true) (hbody : body ∈ lastBody tok options blocks) :
    ∃ before s cs cs' after, turns = before ++ .segment s cs :: .segment (.oversized b)
      cs' :: after ∧
      blocks = (before ++ [Turn.segment s cs]).flatMap (·.blocks) := by
  obtain ⟨before, turn, after, us, vs, rfl, hturn, rfl, -⟩ :=
    exists_of_flatMap_eq (h.blocks.trans hblocks)
  have hmem : b ∈ turn.blocks := by simp [hturn]
  match turn with
  | .heading block =>
    have hheading : block.heading = true := h.valid
    rw [← List.mem_singleton.1 hmem, eq_false_of_oversized hover] at hheading
    cases hheading
  | .segment (.stretch bs) cs' =>
    have hfits := h.valid.1.2.1 b hmem
    rw [AnchoredBlock.oversized, Bool.and_eq_true] at hover
    rw [AnchoredBlock.fits, hover.2, Bool.and_comm] at hfits
    cases hfits
  | .segment (.oversized b') cs' =>
    obtain rfl : b = b' := List.mem_singleton.1 hmem
    obtain rfl : us = [] := by
      have hlength := congrArg List.length hturn
      rw [List.length_append, List.length_cons] at hlength
      exact List.length_eq_zero_iff.1 (by simp [Turn.blocks, Segment.blocks] at hlength; omega)
    rw [List.append_nil] at hbody ⊢
    obtain rfl | ⟨before, turn, rfl⟩ := before.eq_nil_or_concat'
    · cases hbody
    rcases turn with block | ⟨s, cs⟩
    · have hheading : block.heading = true := by
        rw [List.append_assoc] at h
        exact h.valid
      rw [List.flatMap_append, List.flatMap_singleton, lastBody, Turn.blocks,
        List.getLast?_concat] at hbody
      dsimp only at hbody
      rw [if_pos hheading] at hbody
      cases hbody
    · exact ⟨before, s, cs, cs', after, by simp, rfl⟩

end

/-- **When overlap is continuous inside a section**: exactly when no oversized block cuts a tail
off. -/
theorem overlap_continuous_iff (tok : Tokenizer) (options : ChunkOptions)
    (result : FormatParseResult)
    (chunks : List ChunkDraft) (h : chunkDocument tok options (assemble result) = .ok chunks) :
    OverlapContinuous tok options (assemble result) chunks ↔
      TailsKept tok options (assemble result).blocks := by
  obtain ⟨turns, hchunked⟩ := exists_chunked (wellFormed_assemble result) h
  constructor
  · intro hcontinuous before b after hblocks hover body hbody first hfirst tail htail
    obtain rfl | hne := eq_or_ne tail []
    · exact List.nil_prefix
    obtain ⟨before', s, cs, cs', after', rfl, rfl⟩ := hchunked.exists_oversized hblocks hover hbody
    obtain rfl | ⟨us, p, rfl⟩ := cs.eq_nil_or_concat'
    · exact absurd rfl hchunked.chunks_ne_nil
    have hnext := hchunked.next
    rcases cs' with _ | ⟨c, vs⟩
    · exact absurd rfl hnext.chunks_ne_nil
    obtain ⟨g, overlap, hg, hdraft⟩ := hchunked.valid.2.getLast?_eq
    rw [hchunked.lastBody_eq, hg] at hbody
    obtain rfl : g = body := Option.some.inj hbody
    rw [← hdraft.text] at htail
    have hchunks : chunks = (before'.flatMap (·.chunks) ++ us) ++ p :: c ::
        (vs ++ after'.flatMap (·.chunks)) := by
      rw [← hchunked.chunks]
      simp [Turn.chunks]
    have hcontiguous : (assemble result).Contiguous p c :=
      hchunked.contiguous_of_next (by simp) List.mem_cons_self
    rw [← hchunked.continuous_iff_of_oversized hfirst]
    exact hcontinuous _ p c _ hchunks hcontiguous tail htail hne
  · intro hkept xs p c ys hchunks hcontiguous tail htail hne
    obtain ⟨before, s, us, vs, after, rfl⟩ | ⟨before, s, us, s', vs, after, rfl⟩ :=
      hchunked.exists_turns hchunks hcontiguous
    · have hsplit : us ++ p :: c :: vs = (us ++ [p]) ++ c :: vs := by simp
      obtain ⟨gs, g, gs', overlap, -, -, hdraft, htail', -⟩ := hchunked.valid.2.exists_body hsplit
      rw [List.getLast?_concat, Option.some_or] at htail'
      obtain rfl : tail = overlap := Except.ok.inj (htail.symm.trans htail')
      rw [← (hchunked.section_eq hdraft).2]
      exact hdraft.carries hne
    have hnext := hchunked.next
    obtain ⟨gs, g, gs', overlap, hbodies, hlength, hdraft, htail', -⟩ :=
      hnext.valid.2.exists_body (List.nil_append (c :: vs)).symm
    rcases s' with bs | b
    · have hlast : lastChunk (before ++ [Turn.segment s (us ++ [p])]) = some p := by
        rw [lastChunk_concat]
        exact List.getLast?_concat
      rw [List.getLast?_nil, Option.none_or, Segment.joins, hlast] at htail'
      obtain rfl : tail = overlap := Except.ok.inj (htail.symm.trans htail')
      rw [← (hnext.section_eq hdraft).2]
      exact hdraft.carries hne
    · obtain ⟨first, hfirst⟩ : ∃ first, first ∈ (b.parts tok options).head? := by
        have hbodies' : (b.parts tok options).map (fun run => [b.part run]) = gs ++ g :: gs' :=
          hbodies
        rcases hparts : b.parts tok options with _ | ⟨first, rest⟩
        · rw [hparts] at hbodies'
          simp at hbodies'
        · exact ⟨first, rfl⟩
      obtain ⟨body, overlap', hbody, hdraft'⟩ := hchunked.valid.2.getLast?_eq
      rw [hchunked.continuous_iff_of_oversized hfirst]
      rw [hdraft'.text] at htail
      refine hkept _ b (after.flatMap (·.blocks))
        hnext.blocks_eq hnext.valid.1 body ?_ first hfirst tail
        htail
      rw [hchunked.lastBody_eq]
      exact hbody

/-- Two short blocks that do not fit one chunk. -/
theorem overlap_continuous_iff_shortBlocks : OverlapContinuous sampleEncoder.tokenizer sampleOptions
    (assemble ⟨[{ text := js "A.", page := 1 }, { text := js "B.", page := 1 }], 1, []⟩)
    [{ content := js "A.", text := js "A.", page := 1, sectionText := none, charStart := 0,
       charEnd := 2, tokenCount := 2 },
     { content := js ".\n\nB.", text := js "B.", page := 1, sectionText := none, charStart := 4,
       charEnd := 6, tokenCount := 5 }] := by
  refine (overlap_continuous_iff _ _ _ _ (by decide +kernel)).mpr
    fun before b after hblocks hover => ?_
  have hshort :
      ∀ b ∈ (assemble ⟨[{ text := js "A.", page := 1 }, { text := js "B.", page := 1 }], 1,
      []⟩).blocks, b.oversized sampleEncoder.tokenizer sampleOptions = false := by
    decide +kernel
  rw [hshort b (by simp [hblocks])] at hover
  cases hover

/-- **A paragraph over the cap starts without the tail of the one before it.** -/
theorem not_overlap_continuous : ¬ ∀ (tok : Tokenizer) (options : ChunkOptions)
    (result : FormatParseResult) (chunks : List ChunkDraft),
    (JsNumber.ofNat 0).lt options.overlapTokens = true →
    chunkDocument tok options (assemble result) = .ok chunks →
    OverlapContinuous tok options (assemble result) chunks := by
  intro hclaim
  have hcontiguous : ∀ b ∈ (assemble sampleResult).blocks, b.heading = true →
      ¬ (5 ≤ b.charStart ∧ b.charEnd ≤ 7) := by
    decide +kernel
  have hcarried := hclaim _ _ _ _ (by decide) chunkDocument_sampleResult [] _ _ _ rfl hcontiguous
    (js ".") (by decide +kernel) (by decide)
  exact absurd hcarried (by decide +kernel)

end Ingestion

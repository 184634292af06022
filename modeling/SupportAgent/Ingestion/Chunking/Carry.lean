import SupportAgent.Ingestion.Chunking.Overlap

/-!
# Ingestion/Chunking/Carry — what a chunk has in front of its body, from the blocks alone

The body packed last before a chunk (`bodyBefore`) is found by the chunk's first position: among the
blocks that end by it, or among the parts of the block that holds it.

* `Chunked.content_eq` — the chunk's content is its header, the tail of that body and its own text.
-/

namespace Ingestion

open JsString Packing Ranges

section

variable (tok : Tokenizer) (options : ChunkOptions) (blocks : List AnchoredBlock)

/-- The block lies before a position. -/
def AnchoredBlock.endsBy (start : ℕ) (b : AnchoredBlock) : Bool := decide (b.charEnd ≤ start)

/-- The body packed right before a chunk that begins at `start`, where no heading and no start of an
oversized block lies between. -/
def bodyBefore (start : ℕ) : Option (List AnchoredBlock) :=
  match blocks.dropWhile (·.endsBy start) with
  | [] => none
  | b :: _ =>
    if options.over (b.size tok) then
      ((b.parts tok options).takeWhile fun run =>
        decide ((b.part run).charStart < start)).getLast?.map
        fun run => [b.part run]
    else lastBody tok options (blocks.takeWhile (·.endsBy start))

/-- The tail of a body; without a body there is none. -/
def tailOf : Option (List AnchoredBlock) → JsString
  | none => []
  | some body =>
    (tok.takeLastTokens (join blankLine (body.map (·.text))) options.overlapTokens).toOption.getD []

/-- **What a chunk that begins at `start` carries over** from the one before it. -/
def carried (start : ℕ) : JsString :=
  let tail := tailOf tok options (bodyBefore tok options blocks start)
  if tail = [] then [] else tail ++ blankLine

/-- The header of a chunk that begins at `start`. -/
def headerAt (start : ℕ) : JsString :=
  sectionHeader (sectionOf (blocks.filter fun b => b.heading && b.endsBy start))

end

/-! ## The blocks before a position -/

section

variable {tok : Tokenizer} {options : ChunkOptions} {start : ℕ}

/-- The blocks cut at a position that the block `b` reaches past. -/
theorem cut_blocks {before : List AnchoredBlock} (after : List AnchoredBlock) {b : AnchoredBlock}
    (hbefore : ∀ a ∈ before, a.charEnd ≤ start) (hb : start < b.charEnd) :
    (before ++ b :: after).dropWhile (·.endsBy start) = b :: after ∧
      (before ++ b :: after).takeWhile (·.endsBy start) = before := by
  have hpass : ∀ a ∈ before, a.endsBy start = true := fun a ha => decide_eq_true (hbefore a ha)
  have hstop : ¬ b.endsBy start = true := by
    rw [AnchoredBlock.endsBy, decide_eq_true_eq]
    omega
  rw [List.dropWhile_append_of_pos hpass, List.takeWhile_append_of_pos hpass,
    List.dropWhile_cons_of_neg hstop, List.takeWhile_cons_of_neg hstop, List.append_nil]
  exact ⟨rfl, rfl⟩

theorem bodyBefore_of_fits {before after : List AnchoredBlock} {b : AnchoredBlock}
    (hbefore : ∀ a ∈ before, a.charEnd ≤ start) (hb : start < b.charEnd)
    (hfits : b.fits tok options = true) :
    bodyBefore tok options (before ++ b :: after) start = lastBody tok options before := by
  obtain ⟨hdrop, htake⟩ := cut_blocks after hbefore hb
  rw [AnchoredBlock.fits, Bool.and_eq_true, Bool.not_eq_true', Bool.not_eq_true'] at hfits
  rw [bodyBefore, hdrop, htake]
  dsimp only
  rw [hfits.2]
  rfl

theorem bodyBefore_of_oversized {before after : List AnchoredBlock} {b : AnchoredBlock}
    {rs rs' : List (List (ℕ × ℕ))} {run : List (ℕ × ℕ)} (hbefore : ∀ a ∈ before, a.charEnd ≤ start)
    (hb : start < b.charEnd) (hover : b.oversized tok options = true)
    (hparts : b.parts tok options = rs ++ run :: rs')
    (hrs : ∀ r ∈ rs, (b.part r).charStart < start) (hrun : start ≤ (b.part run).charStart) :
    bodyBefore tok options (before ++ b :: after) start = rs.getLast?.map fun r => [b.part r] := by
  obtain ⟨hdrop, -⟩ := cut_blocks after hbefore hb
  rw [AnchoredBlock.oversized, Bool.and_eq_true] at hover
  rw [bodyBefore, hdrop]
  dsimp only
  rw [if_pos hover.2, hparts, List.takeWhile_append_of_pos fun r hr => decide_eq_true (hrs r hr),
    List.takeWhile_cons_of_neg (by simp [hrun]), List.append_nil]

/-- **The first chunk of a section carries nothing**, and neither does the first part of an
oversized block. -/
theorem carried_first {blocks before after : List AnchoredBlock} {b : AnchoredBlock}
    (hblocks : blocks = before ++ b :: after) (hbefore : ∀ a ∈ before, a.charEnd ≤ b.charStart)
    (hb : b.charStart < b.charEnd) (hfirst : b.oversized tok options = true ∨
      b.fits tok options = true ∧ ∀ a ∈ before.getLast?, a.heading = true) :
    carried tok options blocks b.charStart = [] := by
  have hnone : bodyBefore tok options (before ++ b :: after) b.charStart = none := by
    obtain hover | ⟨hfits, hopens⟩ := hfirst
    · obtain ⟨hdrop, -⟩ := cut_blocks after hbefore hb
      rw [AnchoredBlock.oversized, Bool.and_eq_true] at hover
      have hparts : (b.parts tok options).takeWhile
          (fun run => decide ((b.part run).charStart < b.charStart)) = [] := by
        rw [List.takeWhile_eq_nil_iff]
        intro hpos
        simp [AnchoredBlock.part]
      rw [bodyBefore, hdrop]
      dsimp only
      rw [if_pos hover.2, hparts]
      rfl
    · rw [bodyBefore_of_fits hbefore hb hfits, lastBody]
      split
      · rfl
      · rename_i a ha
        rw [if_pos (hopens a ha)]
  rw [hblocks, carried, hnone]
  rfl

/-- The tail a chunk takes over is the tail of the body of the chunk before it. -/
theorem Tail.eq_tailOf {headings : List HeadingRef} {overlap overlap' : JsString} {p : ChunkDraft}
    {g : List AnchoredBlock} (htail : Tail tok options (some p) overlap)
    (hdraft : Drafted headings overlap' g p) : overlap = tailOf tok options (some g) := by
  rw [tailOf, ← hdraft.text, show tok.takeLastTokens p.text options.overlapTokens = _ from htail]
  rfl

end

/-! ## Chunks -/

section

variable {tok : Tokenizer} {options : ChunkOptions} {parsed : ParsedDocument}
  {chunks : List ChunkDraft} {before after : List Turn} {turn : Turn} {us vs : List ChunkDraft}
  {c : ChunkDraft}

/-- Between two turns, the tail is that of the last body. -/
theorem Chunked.tail_lastBody (h : Chunked tok options parsed chunks (before ++ turn :: after))
    {overlap : JsString} (htail : Tail tok options (lastChunk before) overlap) :
    overlap = tailOf tok options (lastBody tok options (before.flatMap (·.blocks))) := by
  obtain rfl | ⟨before, last, rfl⟩ := before.eq_nil_or_concat'
  · exact htail
  rw [lastChunk_concat] at htail
  rw [List.append_assoc] at h
  rcases last with block | ⟨s, cs⟩
  · have hheading : block.heading = true := h.valid
    rw [List.flatMap_append, List.flatMap_singleton, lastBody, Turn.blocks, List.getLast?_concat]
    dsimp only
    rw [if_pos hheading]
    exact htail
  · obtain rfl | ⟨cs, p, rfl⟩ := cs.eq_nil_or_concat'
    · exact absurd rfl h.chunks_ne_nil
    obtain ⟨g, overlap', hg, hdraft⟩ := h.valid.2.getLast?_eq
    rw [h.lastBody_eq, hg]
    rw [Turn.chunks, List.getLast?_concat] at htail
    exact htail.eq_tailOf hdraft

/-- Before a chunk of a stretch, the blocks that end by it are those of the bodies before its
own. -/
theorem Chunked.bodyBefore_stretch {bs g : List AnchoredBlock} {gs gs' : List (List AnchoredBlock)}
    {cs : List ChunkDraft} {headings : List HeadingRef} {overlap : JsString}
    (h : Chunked tok options parsed chunks (before ++ .segment (.stretch bs) cs :: after))
    (hpack : pack (·.size tok) options.over bs = gs ++ g :: gs')
    (hdraft : Drafted headings overlap g c) :
    bodyBefore tok options parsed.blocks c.charStart =
      lastBody tok options (before.flatMap (·.blocks) ++ gs.flatten) := by
  have hbs : bs = gs.flatten ++ g ++ gs'.flatten := by
    have hflatten : (pack (·.size tok) options.over bs).flatten = bs := flatten_pack
    rw [← hflatten, hpack]
    simp
  obtain ⟨b, rest, rfl⟩ := List.exists_cons_of_ne_nil hdraft.ne_nil
  have hstart : c.charStart = b.charStart := hdraft.charStart
  have hblocks : parsed.blocks = (before.flatMap (·.blocks) ++ gs.flatten) ++
      b :: (rest ++ gs'.flatten ++ after.flatMap (·.blocks)) := by
    rw [h.blocks_eq, Turn.blocks, Segment.blocks, hbs]
    simp
  have hanchored := h.wellFormed.anchored
  rw [hblocks] at hanchored ⊢
  refine bodyBefore_of_fits (fun a ha => ?_) ?_ (h.valid.1.2.1 b (by simp [hbs]))
  · rw [hstart]
    exact ((List.pairwise_append.1 hanchored.pairwise).2.2 a ha b List.mem_cons_self).le
  · rw [hstart]
    exact (hanchored.anchored b (by simp)).lt

/-- **A chunk of a stretch** carries the tail of the body before it. -/
theorem Chunked.exists_draft_stretch {bs : List AnchoredBlock}
    (h : Chunked tok options parsed chunks
      (before ++ .segment (.stretch bs) (us ++ c :: vs) :: after)) :
    ∃ g, Drafted (headingStack (before.flatMap (·.blocks)))
      (tailOf tok options (bodyBefore tok options parsed.blocks c.charStart)) g c := by
  obtain ⟨-, hfits, hlast⟩ := h.valid.1
  obtain rfl | ⟨us, p, rfl⟩ := us.eq_nil_or_concat'
  · -- the first chunk: the turn before has the last body
    obtain ⟨gs, g, gs', overlap, hbodies, hlength, hdraft, htail, -⟩ := h.valid.2.exists_body rfl
    obtain rfl : gs = [] := List.length_eq_zero_iff.1 hlength
    rw [h.bodyBefore_stretch hbodies hdraft, List.flatten_nil, List.append_nil,
      ← h.tail_lastBody htail]
    exact ⟨g, hdraft⟩
  · -- a later one: the stretch up to it is packed as it would be by itself
    rw [List.append_assoc] at h
    obtain ⟨gs, g, g', gs', overlap, overlap', hbodies, hdraft, hdraft', htail⟩ :=
      h.valid.2.exists_next
    have hpack : pack (·.size tok) options.over bs = (gs ++ [g]) ++ g' :: gs' := by
      rw [List.append_assoc]
      exact hbodies
    have hfirst : pack (·.size tok) options.over (gs ++ [g]).flatten = gs ++ [g] :=
      pack_flatten_left hpack (List.cons_ne_nil _ _)
    have hsub : ∀ b ∈ (gs ++ [g]).flatten, b.fits tok options = true := by
      intro b hb
      have hflatten : (pack (·.size tok) options.over bs).flatten = bs := flatten_pack
      refine hfits b ?_
      rw [← hflatten, hpack, List.flatten_append]
      exact List.mem_append_left _ hb
    have hne : (gs ++ [g]).flatten ≠ [] := by
      obtain ⟨b, rest, rfl⟩ := List.exists_cons_of_ne_nil hdraft.ne_nil
      simp
    rw [h.bodyBefore_stretch hpack hdraft', lastBody_stretch hne hsub hlast, hfirst,
      List.getLast?_concat, ← htail.eq_tailOf hdraft]
    exact ⟨g', hdraft'⟩

/-- **A chunk of an oversized block** carries the tail of the part before it; the first one none. -/
theorem Chunked.exists_draft_oversized {b : AnchoredBlock}
    (h : Chunked tok options parsed chunks
      (before ++ .segment (.oversized b) (us ++ c :: vs) :: after)) :
    ∃ g, Drafted (headingStack (before.flatMap (·.blocks)))
      (tailOf tok options (bodyBefore tok options parsed.blocks c.charStart)) g c := by
  have hover : b.oversized tok options = true := h.valid.1
  have hc : c ∈ us ++ c :: vs := List.mem_append_right _ List.mem_cons_self
  obtain ⟨hlt, -, b', hb', -, hstop⟩ := h.range hc
  obtain rfl := List.mem_singleton.1 hb'
  have hb : c.charStart < b'.charEnd := by omega
  have hbefore : ∀ a ∈ before.flatMap (·.blocks), a.charEnd ≤ c.charStart := fun a ha =>
    ((h.apart hc).1 ha).le
  have hmem : b' ∈ parsed.blocks := by
    rw [h.blocks_eq]
    simp [Turn.blocks, Segment.blocks]
  have horder : InOrder ((b'.parts tok options).map b'.part) :=
    inOrder_parts (h.wellFormed.anchored.anchored b' hmem) (eq_false_of_oversized hover)
      (h.wellFormed.last b' hmem)
  have hblocks : parsed.blocks = before.flatMap (·.blocks) ++ b' :: after.flatMap (·.blocks) :=
    h.blocks_eq
  obtain rfl | ⟨us, p, rfl⟩ := us.eq_nil_or_concat'
  · obtain ⟨gs, g, gs', overlap, hbodies, hlength, hdraft, htail, -⟩ := h.valid.2.exists_body rfl
    obtain rfl : gs = [] := List.length_eq_zero_iff.1 hlength
    have hparts : (b'.parts tok options).map (fun run => [b'.part run]) = [] ++ g :: gs' := hbodies
    obtain ⟨run, rs', hrs, rfl, -⟩ := List.map_eq_cons_iff.1 hparts
    have hstart : c.charStart = (b'.part run).charStart := hdraft.charStart
    obtain rfl : overlap = [] := htail
    have hnone : ∀ r ∈ ([] : List (List (ℕ × ℕ))), (b'.part r).charStart < c.charStart :=
      List.forall_mem_nil _
    rw [hblocks, bodyBefore_of_oversized hbefore hb hover hrs hnone hstart.le]
    exact ⟨_, hdraft⟩
  · rw [List.append_assoc] at h
    obtain ⟨gs, g, g', gs', overlap, overlap', hbodies, hdraft, hdraft', htail⟩ :=
      h.valid.2.exists_next
    have hparts : (b'.parts tok options).map (fun run => [b'.part run]) = gs ++ g :: g' :: gs' :=
      hbodies
    obtain ⟨rs, rest, hrs, rfl, hrest⟩ := List.map_eq_append_iff.1 hparts
    obtain ⟨r, rest, rfl, rfl, hnext⟩ := List.map_eq_cons_iff.1 hrest
    obtain ⟨r', rs', rfl, rfl, -⟩ := List.map_eq_cons_iff.1 hnext
    have hstart : c.charStart = (b'.part r').charStart := hdraft'.charStart
    have hsplit : b'.parts tok options = (rs ++ [r]) ++ r' :: rs' := by simp [hrs]
    have hfirst : ∀ a ∈ rs ++ [r], (b'.part a).charStart < c.charStart := by
      intro a ha
      rw [hsplit, List.map_append, List.map_cons] at horder
      have hlt := horder.lt (b'.part a)
        (List.mem_append_left _ (List.mem_map_of_mem ha))
      have hle := (List.pairwise_append.1 horder.pairwise).2.2 _ (List.mem_map_of_mem ha) _
        List.mem_cons_self
      omega
    rw [hblocks, bodyBefore_of_oversized hbefore hb hover hsplit hfirst hstart.le,
      List.getLast?_concat, Option.map_some, ← htail.eq_tailOf hdraft]
    exact ⟨_, hdraft'⟩

/-- **What a chunk has in front of its body** is what the blocks before its first position make. -/
theorem Chunked.content_eq {turns : List Turn} (h : Chunked tok options parsed chunks turns)
    (hc : c ∈ chunks) : contextHeader c.sectionText = headerAt parsed.blocks c.charStart ∧
      c.content = headerAt parsed.blocks c.charStart ++
        carried tok options parsed.blocks c.charStart ++ c.text := by
  obtain ⟨xs, ys, hchunks⟩ := List.append_of_mem hc
  obtain ⟨before, s, us, vs, after, rfl, -, -⟩ := h.exists_turn hchunks
  have hmem : c ∈ us ++ c :: vs := List.mem_append_right _ List.mem_cons_self
  obtain ⟨g, hdraft⟩ : ∃ g, Drafted (headingStack (before.flatMap (·.blocks)))
      (tailOf tok options (bodyBefore tok options parsed.blocks c.charStart)) g c := by
    rcases s with bs | b
    · exact h.exists_draft_stretch
    · exact h.exists_draft_oversized
  obtain ⟨hsection, hheader⟩ := h.section_eq hdraft
  rw [← h.headingsBefore_eq hmem] at hsection
  have hat : contextHeader c.sectionText = headerAt parsed.blocks c.charStart := by
    rw [hheader, hsection]
    rfl
  refine ⟨hat, ?_⟩
  rw [hdraft.content, hat]
  rfl

end

end Ingestion

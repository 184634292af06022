import SupportAgent.Ingestion.Chunking.Coverage
import SupportAgent.Machinery.MonotoneStack

/-!
# Ingestion/Chunking/Sections — the section a chunk is said to be in

The heading stack is a monotone stack, so what it holds before a chunk are the headings that no
later one closed (`openHeadings`).  A heading reaches the corpus only through the chunks under it:
one whose section has no body leaves no trace.
-/

namespace Ingestion

open JsString Packing MonotoneStack

/-- The level of a heading; a missing one counts as 1. -/
def AnchoredBlock.headingLevel (h : AnchoredBlock) : ℕ := h.level.getD 1

/-- The headings no later one is as shallow as. -/
def openHeadings (headings : List AnchoredBlock) : List AnchoredBlock :=
  survivors AnchoredBlock.headingLevel headings

/-- The headings of a document before a chunk. -/
def ParsedDocument.headingsBefore (parsed : ParsedDocument) (c : ChunkDraft) : List AnchoredBlock :=
  parsed.blocks.filter fun b => b.heading && decide (b.charEnd ≤ c.charStart)

/-- The section these headings make. -/
def sectionOf (headings : List AnchoredBlock) : Option JsString :=
  if headings = [] then none
  else some (join (js " > ") ((openHeadings headings).map (·.text)))

/-- The header of a chunk in a section. -/
def sectionHeader : Option JsString → JsString
  | none => []
  | some s => js "[Section: " ++ s ++ js "]\n\n"

/-- No heading lies between two chunks. -/
def ParsedDocument.Contiguous (parsed : ParsedDocument) (p c : ChunkDraft) : Prop :=
  ∀ b ∈ parsed.blocks, b.heading = true → ¬ (p.charEnd ≤ b.charStart ∧ b.charEnd ≤ c.charStart)

/-! ## The heading stack -/

/-- **The heading stack holds the open headings.** -/
theorem headingStack_eq (blocks : List AnchoredBlock) :
    headingStack blocks = (openHeadings (blocks.filter (·.heading))).map fun h =>
      ⟨h.headingLevel, h.text⟩ := by
  have hpush : ∀ (hs : List AnchoredBlock) (stack : List HeadingRef),
      hs.foldl (fun stack h => updateHeadings stack (h.level.getD 1) h.text) stack =
        (hs.map fun h => (⟨h.headingLevel, h.text⟩ : HeadingRef)).foldl (push HeadingRef.level)
          stack := by
    intro hs stack
    rw [List.foldl_map]
    rfl
  rw [headingStack, hpush, foldl_push, survivors_map]
  rfl

theorem sectionPath_headingStack (blocks : List AnchoredBlock) :
    sectionPath (headingStack blocks) = sectionOf (blocks.filter (·.heading)) := by
  have hnil : headingStack blocks = [] ↔ blocks.filter (·.heading) = [] := by
    rw [headingStack_eq, List.map_eq_nil_iff, openHeadings, survivors_eq_nil]
  rw [sectionPath, sectionOf]
  by_cases h : blocks.filter (·.heading) = []
  · rw [if_pos (hnil.2 h), if_pos h]
  · rw [if_neg (fun h' => h (hnil.1 h')), if_neg h, headingStack_eq, List.map_map]
    rfl

/-- A path of titles is not empty. -/
theorem contextHeader_sectionOf {headings : List AnchoredBlock} (h : ∀ b ∈ headings, b.text ≠ []) :
    contextHeader (sectionOf headings) = sectionHeader (sectionOf headings) := by
  rw [sectionOf]
  split
  · rfl
  · rename_i hne
    have hopen : openHeadings headings ≠ [] := fun hnil => hne (survivors_eq_nil.1 hnil)
    obtain ⟨first, rest, hcons⟩ := List.exists_cons_of_ne_nil hopen
    have hfirst : first.text ≠ [] :=
      h first (survivors_sublist.subset
        (hcons ▸ List.mem_cons_self : first ∈ openHeadings headings))
    have hjoin : join (js " > ") ((openHeadings headings).map (·.text)) ≠ [] := by
      intro hnil
      have hmem : first.text ∈ (openHeadings headings).map (·.text) := by
        rw [hcons]
        exact List.mem_cons_self
      have hin : first.text <:+: join (js " > ") ((openHeadings headings).map (·.text)) :=
        infix_join hmem
      rw [hnil] at hin
      exact hfirst (List.infix_nil.1 hin)
    rw [contextHeader, if_neg hjoin, sectionHeader]

/-! ## Chunks -/

section

variable {tok : Tokenizer} {options : ChunkOptions} {parsed : ParsedDocument}
  {chunks : List ChunkDraft} {before after : List Turn} {turns : List Turn}

/-- **The headings before a chunk are those of the turns before it.** -/
theorem Chunked.headingsBefore_eq {s : Segment} {cs : List ChunkDraft} {c : ChunkDraft}
    (h : Chunked tok options parsed chunks (before ++ .segment s cs :: after)) (hc : c ∈ cs) :
    parsed.headingsBefore c = (before.flatMap (·.blocks)).filter (·.heading) := by
  have hlt := (h.range hc).1
  have hanchored := h.wellFormed.anchored.anchored
  rw [ParsedDocument.headingsBefore]
  rw [h.blocks_eq] at hanchored ⊢
  rw [List.filter_append, List.filter_append]
  have hbefore : ∀ b ∈ before.flatMap (·.blocks),
      (b.heading && decide (b.charEnd ≤ c.charStart)) = b.heading := fun b hb => by
    rw [decide_eq_true ((h.apart hc).1 hb).le, Bool.and_true]
  have hturn : s.blocks.filter (fun b => b.heading && decide (b.charEnd ≤ c.charStart)) = [] :=
    List.filter_eq_nil_iff.2 fun b hb => by
      rw [h.valid.1.heading_eq_false hb]
      exact Bool.false_ne_true
  have hafter : (after.flatMap (·.blocks)).filter
      (fun b => b.heading && decide (b.charEnd ≤ c.charStart)) = [] :=
    List.filter_eq_nil_iff.2 fun b hb => by
      have := (h.apart hc).2 hb
      have := (hanchored b (by simp [hb])).lt
      rw [decide_eq_false (by omega), Bool.and_false]
      exact Bool.false_ne_true
  rw [List.filter_congr hbefore]
  change _ ++ (s.blocks.filter _ ++ _) = _
  rw [hturn, hafter, List.append_nil, List.append_nil]

/-- **The section of a chunk**: the headings of the turns before it. -/
theorem Chunked.section_eq {turn : Turn} {overlap : JsString} {g : List AnchoredBlock}
    {c : ChunkDraft} (h : Chunked tok options parsed chunks (before ++ turn :: after))
    (hdraft : Drafted (headingStack (before.flatMap (·.blocks))) overlap g c) :
    c.sectionText = sectionOf ((before.flatMap (·.blocks)).filter (·.heading)) ∧
      contextHeader c.sectionText = sectionHeader c.sectionText := by
  have hsection := hdraft.sectionText
  rw [sectionPath_headingStack] at hsection
  refine ⟨hsection, ?_⟩
  rw [hsection]
  refine contextHeader_sectionOf fun b hb hnil => ?_
  have hmem : b ∈ parsed.blocks := by
    rw [h.blocks_eq]
    exact List.mem_append_left _ (List.mem_filter.1 hb).1
  exact h.wellFormed.trim_ne_nil b hmem (by rw [hnil]; rfl)

/-- Chunks of one turn have no heading between them. -/
theorem Chunked.contiguous_of_turn {s : Segment} {cs : List ChunkDraft} {p c : ChunkDraft}
    (h : Chunked tok options parsed chunks (before ++ .segment s cs :: after)) (hp : p ∈ cs)
    (hc : c ∈ cs) : parsed.Contiguous p c := by
  intro b hb hheading ⟨hstart, hend⟩
  have hblt := (h.wellFormed.anchored.anchored b hb).lt
  have := (h.range hp).1
  have := (h.range hc).1
  rw [h.blocks_eq] at hb
  obtain hb | hb := List.mem_append.1 hb
  · have := (h.apart hp).1 hb
    omega
  obtain hb | hb := List.mem_append.1 hb
  · rw [h.valid.1.heading_eq_false hb] at hheading
    cases hheading
  · have := (h.apart hc).2 hb
    omega

/-- Chunks of two turns on end have no heading between them. -/
theorem Chunked.contiguous_of_next {s s' : Segment} {cs cs' : List ChunkDraft} {p c : ChunkDraft}
    (h : Chunked tok options parsed chunks (before ++ .segment s cs :: .segment s' cs' :: after))
    (hp : p ∈ cs) (hc : c ∈ cs') : parsed.Contiguous p c := by
  have h' := h.next
  intro b hb hheading ⟨hstart, hend⟩
  have hblt := (h.wellFormed.anchored.anchored b hb).lt
  have := (h.range hp).1
  have := (h'.range hc).1
  rw [h.blocks_eq] at hb
  obtain hb | hb := List.mem_append.1 hb
  · have := (h.apart hp).1 hb
    omega
  obtain hb | hb := List.mem_append.1 hb
  · rw [h.valid.1.heading_eq_false hb] at hheading
    cases hheading
  rw [List.flatMap_cons] at hb
  obtain hb | hb := List.mem_append.1 hb
  · rw [h'.valid.1.heading_eq_false hb] at hheading
    cases hheading
  · have := (h'.apart hc).2 hb
    omega

/-- The chunk before, where a chunk may continue it. -/
theorem Chunked.contiguous_of_joins {s : Segment} {us vs : List ChunkDraft} {p c : ChunkDraft}
    (h : Chunked tok options parsed chunks (before ++ .segment s (us ++ c :: vs) :: after))
    (hp : us.getLast?.or (s.joins (lastChunk before)) = some p) :
    (before.flatMap (·.chunks) ++ us).getLast? = some p ∧ parsed.Contiguous p c := by
  obtain rfl | ⟨us, p', rfl⟩ := us.eq_nil_or_concat'
  · have hlast : lastChunk before = some p := by
      match s with
      | .stretch blocks => exact hp
      | .oversized block => cases hp
    obtain rfl | ⟨before, turn, rfl⟩ := before.eq_nil_or_concat'
    · cases hlast
    rw [lastChunk_concat] at hlast
    match turn with
    | .heading block => cases hlast
    | .segment s' cs' =>
      have hlast' : cs'.getLast? = some p := hlast
      refine ⟨?_, ?_⟩
      · rw [List.append_nil, List.flatMap_append, List.flatMap_singleton]
        change (_ ++ cs').getLast? = some p
        rw [List.getLast?_append, hlast', Option.some_or]
      · rw [List.append_assoc] at h
        exact h.contiguous_of_next (List.mem_of_getLast? hlast') List.mem_cons_self
  · rw [List.getLast?_concat, Option.some_or] at hp
    obtain rfl := Option.some.inj hp
    refine ⟨by rw [← List.append_assoc, List.getLast?_concat], h.contiguous_of_turn ?_ ?_⟩
    · simp
    · simp

end

/-! ## Sections -/

/-- **Sections are right and never bleed.** -/
theorem sections_right (tok : Tokenizer) (options : ChunkOptions) (result : FormatParseResult)
    (chunks : List ChunkDraft) (h : chunkDocument tok options (assemble result) = .ok chunks)
    (xs ys : List ChunkDraft) (c : ChunkDraft) (hc : chunks = xs ++ c :: ys) :
    let d := assemble result
    (∀ b ∈ d.blocks, b.heading = true → ¬ (c.charStart < b.charEnd ∧ b.charStart < c.charEnd)) ∧
    c.sectionText = sectionOf (d.headingsBefore c) ∧
    ∃ overlap, c.content = sectionHeader c.sectionText ++ overlap ++ c.text ∧
      (overlap = [] ∨ ∃ p tail, xs.getLast? = some p ∧ d.Contiguous p c ∧
        tok.takeLastTokens p.text options.overlapTokens = .ok tail ∧
        overlap = tail ++ js "\n\n") := by
  intro d
  have hd : d.WellFormed := wellFormed_assemble result
  obtain ⟨turns, hchunked⟩ := exists_chunked hd h
  refine ⟨fun b hb hheading hin => ?_, ?_⟩
  · have := hchunked.heading_apart hb hheading (hc ▸ List.mem_append_right _ List.mem_cons_self)
    omega
  obtain ⟨before, s, us, vs, after, rfl, rfl, -⟩ := hchunked.exists_turn hc
  obtain ⟨gs, g, gs', overlap, -, -, hdraft, htail, -⟩ := hchunked.valid.2.exists_body rfl
  obtain ⟨hsection, hheader⟩ := hchunked.section_eq hdraft
  rw [← hchunked.headingsBefore_eq (List.mem_append_right us List.mem_cons_self)] at hsection
  refine ⟨hsection, _, by rw [← hheader]; exact hdraft.content, ?_⟩
  split
  · exact .inl rfl
  · rename_i hoverlap
    right
    rcases hlast : us.getLast?.or (s.joins (lastChunk before)) with _ | p
    · rw [hlast] at htail
      exact absurd htail hoverlap
    · rw [hlast] at htail
      obtain ⟨hp, hcontiguous⟩ := hchunked.contiguous_of_joins hlast
      exact ⟨p, overlap, hp, hcontiguous, htail, rfl⟩

theorem sections_right_sample : ∃ overlap, js "[Section: H]\n\n \n\nC." =
    sectionHeader (some (js "H")) ++ overlap ++ js "C." := by
  obtain ⟨-, -, overlap, hcontent, -⟩ :=
    sections_right _ _ _ _ chunkDocument_sampleResult (sampleChunks.take 2) [] _ rfl
  exact ⟨overlap, hcontent⟩

/-- An element of a list that is not in its end is in its beginning. -/
theorem exists_of_append_eq {α : Type} {xs ys us vs : List α} {x : α} (h : xs ++ x :: ys = us ++ vs)
    (hx : x ∉ vs) : ∃ ys₁, ys₁ <+: ys ∧ us = xs ++ x :: ys₁ := by
  rw [List.append_eq_append_iff] at h
  obtain ⟨as, rfl, hrest⟩ | ⟨as, rfl, rfl⟩ := h
  · rcases as with _ | ⟨a, as⟩
    · rw [List.nil_append] at hrest
      exact absurd (hrest ▸ List.mem_cons_self) hx
    · obtain ⟨rfl, rfl⟩ := List.cons.inj hrest
      exact ⟨as, List.prefix_append _ _, rfl⟩
  · exact absurd (List.mem_append_right _ List.mem_cons_self) hx

/-- **A heading over a body block is in the section header of a chunk.** -/
theorem headings_reach_chunks (tok : Tokenizer) (options : ChunkOptions)
    (result : FormatParseResult)
    (chunks : List ChunkDraft) (h : chunkDocument tok options (assemble result) = .ok chunks)
    (before under after : List AnchoredBlock) (hd b : AnchoredBlock)
    (hblocks : (assemble result).blocks = before ++ hd :: (under ++ b :: after))
    (hheading : hd.heading = true) (hbody : b.heading = false)
    (hunder : ∀ h' ∈ under, h'.heading = true → hd.headingLevel < h'.headingLevel) :
    ∃ c ∈ chunks, ∃ title, c.sectionText = some title ∧ hd.text <:+: title ∧
      sectionHeader (some title) <+: c.content := by
  have hd' : (assemble result).WellFormed := wellFormed_assemble result
  obtain ⟨turns, hchunked⟩ := exists_chunked hd' h
  have hsplit : (assemble result).blocks = (before ++ hd :: under) ++ b :: after := by
    simp [hblocks]
  obtain ⟨turns₁, turn, turns₂, us, vs, rfl, hturn, hbefore, -⟩ :=
    exists_of_flatMap_eq (hchunked.blocks.trans hsplit)
  match turn with
  | .heading block =>
    have hturn' : [block] = us ++ b :: vs := hturn
    have hb : b ∈ [block] := hturn' ▸ List.mem_append_right us List.mem_cons_self
    have hblock : block.heading = true := hchunked.valid
    rw [← List.mem_singleton.1 hb, hbody] at hblock
    cases hblock
  | .segment s cs =>
    have hus : hd ∉ us := fun hmem => by
      have hturn' : s.blocks = us ++ b :: vs := hturn
      have hin : hd ∈ s.blocks := hturn' ▸ List.mem_append_left _ hmem
      rw [hchunked.valid.1.heading_eq_false hin] at hheading
      cases hheading
    obtain ⟨under₁, hunder₁, hblocks₁⟩ := exists_of_append_eq hbefore hus
    obtain ⟨c, hc⟩ := List.exists_mem_of_ne_nil _ hchunked.chunks_ne_nil
    obtain ⟨cs₁, cs₂, rfl⟩ := List.append_of_mem hc
    obtain ⟨gs, g, gs', overlap, -, -, hdraft, -, -⟩ := hchunked.valid.2.exists_body rfl
    have hopen : hd ∈ openHeadings ((turns₁.flatMap (·.blocks)).filter (·.heading)) := by
      rw [hblocks₁, List.filter_append, List.filter_cons_of_pos (by exact hheading)]
      refine mem_survivors fun h' hh' => ?_
      obtain ⟨hmem, hheading'⟩ := List.mem_filter.1 hh'
      exact hunder h' (hunder₁.subset hmem) hheading'
    obtain ⟨hsection, hheader⟩ := hchunked.section_eq hdraft
    have hne : (turns₁.flatMap (·.blocks)).filter (·.heading) ≠ [] :=
      List.ne_nil_of_mem (survivors_sublist.subset hopen)
    rw [sectionOf, if_neg hne] at hsection
    refine ⟨c, ?_, _, hsection, infix_join (List.mem_map_of_mem hopen), ?_⟩
    · rw [← hchunked.chunks]
      simp [Turn.chunks]
    · rw [← hsection, ← hheader, hdraft.content, List.append_assoc]
      exact List.prefix_append _ _

theorem headings_reach_chunks_sample : ∃ c ∈ sampleChunks, ∃ title, c.sectionText = some title ∧
    js "H" <:+: title ∧ sectionHeader (some title) <+: c.content :=
  headings_reach_chunks _ _ sampleResult _ chunkDocument_sampleResult [] []
    [{ text := js "B. C.", page := 2, charStart := 7, charEnd := 12 }]
    { text := js "H", page := 1, heading := true, level := some 1, charStart := 0, charEnd := 1 }
    { text := js "A.", page := 1, charStart := 3, charEnd := 5 } (by decide) rfl rfl nofun

/-- **A heading with nothing under it vanishes**: here one at the end of a document. -/
theorem not_headings_reach_chunks : ¬ ∀ (tok : Tokenizer) (options : ChunkOptions)
    (result : FormatParseResult) (chunks : List ChunkDraft),
    chunkDocument tok options (assemble result) = .ok chunks → chunks ≠ [] →
    ∀ b ∈ (assemble result).blocks, b.heading = true → ∃ c ∈ chunks, b.text <:+: c.content := by
  intro hclaim
  have hchunks : chunkDocument sampleEncoder.tokenizer sampleOptions (assemble
      { blocks := [{ text := js "A.", page := 1 }, { text := js "H", page := 1, heading := true }]
        pageCount := 1, warnings := [] }) =
      .ok [{ content := js "A.", text := js "A.", page := 1, sectionText := none, charStart := 0,
             charEnd := 2, tokenCount := 2 }] := by
    decide +kernel
  obtain ⟨c, hc, hin⟩ := hclaim _ _ _ _ hchunks (List.cons_ne_nil _ _)
    { text := js "H", page := 1, heading := true, charStart := 4, charEnd := 5 } (by decide) rfl
  rw [List.mem_singleton.1 hc] at hin
  exact absurd hin (by decide)

end Ingestion

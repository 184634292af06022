import SupportAgent.Ingestion.Chunking.Chunker

/-!
# Ingestion/Chunking/Anchors — a chunk's body is the stretch its offsets name

`chunkDocument` makes every chunk in `flush`, from a body that is either consecutive blocks of the
document or one part of an oversized block.  Both are one stretch of the assembled text
(`Stretch`), so the chunk's own text is what its offsets cut out of it; its content puts the header
and the overlap in front.
-/

namespace Ingestion

open JsString

/-- What stands in a chunk's content between its header and its own text. -/
def ChunkDraft.overlapPrefix (c : ChunkDraft) : JsString :=
  let rest := c.content.drop (contextHeader c.sectionText).length
  rest.take (rest.length - c.text.length)

/-- **A chunk cut out of a text**: header, overlap and body make its content, and its offsets its
body. -/
structure ChunkDraft.CutFrom (text : JsString) (c : ChunkDraft) : Prop where
  content : c.content = contextHeader c.sectionText ++ c.overlapPrefix ++ c.text
  slice : slice text c.charStart c.charEnd = c.text

theorem overlapPrefix_eq {c : ChunkDraft} {q : JsString}
    (h : c.content = contextHeader c.sectionText ++ q ++ c.text) : c.overlapPrefix = q := by
  rw [ChunkDraft.overlapPrefix, h, List.append_assoc, List.drop_left]
  simp

/-- Blocks that make one stretch of a text when they are joined. -/
def Stretch (text : JsString) (body : List AnchoredBlock) : Prop :=
  ∀ first rest, body = first :: rest →
    slice text first.charStart ((first :: rest).getLast (List.cons_ne_nil first rest)).charEnd =
      join blankLine ((first :: rest).map (·.text))

theorem Anchored.isStretch {text : JsString} {body : List AnchoredBlock} (h : Anchored text body) :
    Stretch text body := by
  rintro first rest rfl
  exact Anchored.slice_join first rest h

theorem stretch_singleton {text : JsString} {b : AnchoredBlock}
    (h : slice text b.charStart b.charEnd = b.text) : Stretch text [b] := by
  intro first rest heq
  obtain ⟨rfl, rfl⟩ := List.cons.inj heq
  simpa [join, List.intercalate] using h

/-! ## Flushing -/

section

variable {tok : Tokenizer} {options : ChunkOptions} {text : JsString}

/-- **A flushed stretch is a chunk cut from the text.** -/
theorem cutFrom_flush {st st' : ChunkState} (hchunks : ∀ c ∈ st.chunks, c.CutFrom text)
    (hbody : Stretch text st.body) (h : st.flush tok options = .ok st') :
    (∀ c ∈ st'.chunks, c.CutFrom text) ∧ st'.body = [] := by
  rw [ChunkState.flush] at h
  split at h
  case h_1 hnil =>
    obtain rfl := Except.ok.inj h
    exact ⟨hchunks, hnil⟩
  case h_2 first rest hcons =>
    obtain ⟨chunk, hdraft, h⟩ := Except.bind_eq_ok.mp h
    obtain ⟨overlap, -, h⟩ := Except.bind_eq_ok.mp h
    obtain rfl := Except.ok.inj h
    obtain ⟨tokenCount, -, hchunk⟩ := Except.bind_eq_ok.mp hdraft
    obtain rfl := Except.ok.inj hchunk
    refine ⟨fun c hc => ?_, rfl⟩
    rcases List.mem_append.mp hc with hc | hc
    · exact hchunks c hc
    · obtain rfl := List.mem_singleton.mp hc
      refine ⟨?_, hbody first rest hcons⟩
      rw [overlapPrefix_eq rfl]

/-- Parts of an oversized block, each flushed by itself. -/
theorem cutFrom_addParts {subs : List AnchoredBlock} {st st' : ChunkState}
    (hchunks : ∀ c ∈ st.chunks, c.CutFrom text) (hbody : st.body = [])
    (hsubs : ∀ sub ∈ subs, slice text sub.charStart sub.charEnd = sub.text)
    (h : st.addParts tok options subs = .ok st') :
    (∀ c ∈ st'.chunks, c.CutFrom text) ∧ st'.body = [] := by
  let I (left : List AnchoredBlock) (st : ChunkState) : Prop :=
    (∀ sub ∈ left, slice text sub.charStart sub.charEnd = sub.text) ∧
      (∀ c ∈ st.chunks, c.CutFrom text) ∧ st.body = []
  have hend : I [] st' := by
    refine Except.foldlM_invariant (fun sub left st₁ st₂ ⟨hleft, hchunks₁, _⟩ hturn => ?_)
      ⟨hsubs, hchunks, hbody⟩ h
    obtain ⟨hsub, hleft⟩ := List.forall_mem_cons.mp hleft
    obtain ⟨bodyTokens, -, hflush⟩ := Except.bind_eq_ok.mp hturn
    exact ⟨hleft, cutFrom_flush (by exact hchunks₁) (by exact stretch_singleton hsub) hflush⟩
  exact hend.2

end

/-! ## Splitting an oversized block -/

/-- The ends of sentences lie within the text. -/
theorem le_of_mem_sentenceEnds {fuel pos : ℕ} {s : JsString} {e : ℕ}
    (h : e ∈ sentenceEnds fuel pos s) : e ≤ pos + s.length := by
  induction fuel generalizing pos s with
  | zero => simp [sentenceEnds] at h
  | succ fuel ih =>
    rcases s with _ | ⟨c, s⟩
    · simp [sentenceEnds] at h
    rw [sentenceEnds] at h
    split at h
    case h_1 n hn =>
      have hle : n ≤ (c :: s).length := by
        have hsplit := List.takeWhile_append_dropWhile (p := isTerminator) (l := c :: s)
        have hspaces :=
          (List.takeWhile_sublist isSpace (l := (c :: s).dropWhile isTerminator)).length_le
        have hlen := congrArg List.length hsplit
        rw [List.length_append] at hlen
        simp only [sentenceEnd] at hn
        split at hn
        · cases hn
        · split at hn
          · obtain rfl := Option.some.inj hn
            omega
          · cases hn
      rcases List.mem_cons.mp h with rfl | h
      · omega
      · have := ih h
        rw [List.length_drop] at this
        omega
    case h_2 =>
      have := ih h
      rw [List.length_cons]
      omega

/-- The ranges of sentences lie within the text. -/
theorem le_of_mem_sentencesFrom {text : JsString} {ends : List ℕ} {last : ℕ}
    (hends : ∀ e ∈ ends, e ≤ text.length) {s : ℕ × ℕ} (h : s ∈ sentencesFrom text last ends) :
    s.2 ≤ text.length := by
  induction ends generalizing last with
  | nil =>
    rw [sentencesFrom] at h
    split at h
    · rw [List.mem_singleton.mp h]
    · cases h
  | cons e ends ih =>
    obtain ⟨he, hends⟩ := List.forall_mem_cons.mp hends
    rw [sentencesFrom] at h
    split at h
    · rcases List.mem_cons.mp h with rfl | h
      · exact he
      · exact ih hends h
    · exact ih hends h

theorem le_of_mem_sentences {text : JsString} {s : ℕ × ℕ} (h : s ∈ sentences text) :
    s.2 ≤ text.length := by
  refine le_of_mem_sentencesFrom (fun e he => ?_) h
  simpa using le_of_mem_sentenceEnds he

section

variable {text : JsString} {block : AnchoredBlock}

/-- The parts packed so far are cut from the text, and the open one ends within the block. -/
structure SplitState.CutFrom (text : JsString) (block : AnchoredBlock) (st : SplitState) :
    Prop where
  subs : ∀ sub ∈ st.subs, slice text sub.charStart sub.charEnd = sub.text
  curEnd : st.curEnd ≤ block.text.length

theorem SplitState.CutFrom.push {st : SplitState} (hblock : block.AnchoredIn text)
    (h : st.CutFrom text block) : (st.push block).CutFrom text block := by
  rw [SplitState.push]
  split
  · exact h
  case h_2 curStart _ =>
    refine ⟨fun sub hsub => ?_, h.curEnd⟩
    rcases List.mem_append.mp hsub with hsub | hsub
    · exact h.subs sub hsub
    · obtain rfl := List.mem_singleton.mp hsub
      have hlen : block.text.length = block.charEnd - block.charStart := by
        rw [← hblock.slice, length_slice hblock.le]
      have hlt := hblock.lt
      have hcur := h.curEnd
      have hslice := slice_slice text (a := block.charStart) (b := block.charEnd) (c := curStart)
        (d := st.curEnd) (by omega)
      rw [hblock.slice] at hslice
      exact hslice.symm

theorem SplitState.CutFrom.add {st : SplitState} (hblock : block.AnchoredIn text)
    (h : st.CutFrom text block) {maxTokens : JsNumber} {s : ℕ × ℕ} {t : ℕ}
    (hs : s.2 ≤ block.text.length) : (st.add block maxTokens s t).CutFrom text block := by
  refine ⟨fun sub hsub => ?_, hs⟩
  dsimp only [SplitState.add] at hsub
  split at hsub
  · exact (h.push hblock).subs sub hsub
  · exact h.subs sub hsub

/-- **The parts of a split block are cut from the text.** -/
theorem slice_of_mem_splitOversizedBlock {tok : Tokenizer} {maxTokens : JsNumber}
    {subs : List AnchoredBlock} (hblock : block.AnchoredIn text)
    (h : splitOversizedBlock tok block maxTokens = .ok subs) :
    ∀ sub ∈ subs, slice text sub.charStart sub.charEnd = sub.text := by
  obtain ⟨st, hfold, h⟩ := Except.bind_eq_ok.mp h
  let I (left : List (ℕ × ℕ)) (st : SplitState) : Prop :=
    (∀ s ∈ left, s.2 ≤ block.text.length) ∧ st.CutFrom text block
  have hst : I [] st := by
    refine Except.foldlM_invariant (fun s left st₁ st₂ ⟨hleft, hst₁⟩ hturn => ?_)
      ⟨fun s hs => le_of_mem_sentences hs, by simp, Nat.zero_le _⟩ hfold
    obtain ⟨hs, hleft⟩ := List.forall_mem_cons.mp hleft
    obtain ⟨t, -, hturn⟩ := Except.bind_eq_ok.mp hturn
    obtain rfl := Except.ok.inj hturn
    exact ⟨hleft, hst₁.add hblock hs⟩
  obtain rfl := Except.ok.inj h
  split
  · intro sub hsub
    rw [List.mem_singleton.mp hsub]
    exact hblock.slice
  · exact (hst.2.push hblock).subs

end

/-! ## The loop over the blocks -/

section

variable {tok : Tokenizer} {options : ChunkOptions} {text : JsString}

/-- What `chunkDocument` keeps over its blocks: its chunks are cut from the text, and its body is
the last blocks it has seen. -/
structure ChunkState.CutFrom (text : JsString) (done : List AnchoredBlock) (st : ChunkState) :
    Prop where
  chunks : ∀ c ∈ st.chunks, c.CutFrom text
  body : st.body <:+ done

/-- **One turn of the loop.** -/
theorem ChunkState.CutFrom.addBlock {done : List AnchoredBlock} {block : AnchoredBlock}
    {st st' : ChunkState} (hdone : Anchored text (done ++ [block])) (hblank : trim block.text ≠ [])
    (h : st.CutFrom text done) (hadd : st.addBlock tok options block = .ok st') :
    st'.CutFrom text (done ++ [block]) := by
  have hstretch : Stretch text st.body :=
    (hdone.stretch (h.body.isInfix.trans (List.prefix_append _ _).isInfix)).isStretch
  have hblock := hdone.anchored block (by simp)
  have hpush : st.body ++ [block] <:+ done ++ [block] := by
    obtain ⟨before, rfl⟩ := h.body
    exact ⟨before, (List.append_assoc _ _ _).symm⟩
  rw [ChunkState.addBlock] at hadd
  split at hadd
  · obtain ⟨st₁, hst₁, hadd⟩ := Except.bind_eq_ok.mp hadd
    obtain ⟨hchunks, hbody⟩ := cutFrom_flush h.chunks hstretch hst₁
    obtain rfl := Except.ok.inj hadd
    exact ⟨hchunks, hbody ▸ List.nil_suffix⟩
  obtain ⟨blockTokens, -, hadd⟩ := Except.bind_eq_ok.mp hadd
  split at hadd
  · obtain ⟨st₁, hst₁, hadd⟩ := Except.bind_eq_ok.mp hadd
    obtain ⟨subs, hsubs, hadd⟩ := Except.bind_eq_ok.mp hadd
    obtain ⟨hchunks, hbody⟩ := cutFrom_flush h.chunks hstretch hst₁
    obtain ⟨hchunks', hbody'⟩ := cutFrom_addParts (by exact hchunks) (by exact hbody)
      (slice_of_mem_splitOversizedBlock hblock hsubs) hadd
    exact ⟨hchunks', hbody' ▸ List.nil_suffix⟩
  split at hadd
  · obtain ⟨st₁, hst₁, hadd⟩ := Except.bind_eq_ok.mp hadd
    obtain ⟨hchunks, hbody⟩ := cutFrom_flush h.chunks hstretch hst₁
    obtain rfl := Except.ok.inj hadd
    refine ⟨hchunks, ?_⟩
    dsimp only
    rw [hbody]
    exact List.suffix_append _ _
  · obtain ⟨st₁, hst₁, hadd⟩ := Except.bind_eq_ok.mp hadd
    obtain rfl := Except.ok.inj hst₁
    obtain rfl := Except.ok.inj hadd
    exact ⟨h.chunks, hpush⟩

/-- **Every chunk of a laid-out document is cut from its text.** -/
theorem cutFrom_chunkDocument {parsed : ParsedDocument}
    (hparsed : Anchored parsed.text parsed.blocks)
    (hblank : ∀ block ∈ parsed.blocks, trim block.text ≠ []) {chunks : List ChunkDraft}
    (h : chunkDocument tok options parsed = .ok chunks) : ∀ c ∈ chunks, c.CutFrom parsed.text := by
  obtain ⟨st, hfold, h⟩ := Except.bind_eq_ok.mp h
  let I (left : List AnchoredBlock) (st : ChunkState) : Prop :=
    ∃ done, done ++ left = parsed.blocks ∧ st.CutFrom parsed.text done
  obtain ⟨done, hdone, hst⟩ : I [] st := by
    refine Except.foldlM_invariant (fun block left st₁ st₂ ⟨done, hblocks, hst₁⟩ hturn => ?_)
      ⟨[], rfl, by simp, List.suffix_rfl⟩ hfold
    have hblocks' : done ++ [block] ++ left = parsed.blocks := by rw [← hblocks]; simp
    have hdone : Anchored parsed.text (done ++ [block]) :=
      hparsed.stretch (hblocks' ▸ (List.prefix_append _ _).isInfix)
    exact ⟨done ++ [block], hblocks',
      hst₁.addBlock hdone (hblank block (by simp [← hblocks])) hturn⟩
  obtain rfl : done = parsed.blocks := by rwa [List.append_nil] at hdone
  obtain ⟨st', hflush, h⟩ := Except.bind_eq_ok.mp h
  obtain rfl := Except.ok.inj h
  exact (cutFrom_flush hst.chunks (hparsed.stretch hst.body.isInfix).isStretch hflush).1

end

end Ingestion

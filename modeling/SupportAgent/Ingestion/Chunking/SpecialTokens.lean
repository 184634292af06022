import SupportAgent.Ingestion.Chunking.Layout
import SupportAgent.Machinery.Avoids

/-!
# Ingestion/Chunking/SpecialTokens — texts the tokenizer rejects

`encode` of `js-tiktoken` throws on a text in which a special token is spelled out.  Every text
`chunkDocument` counts is put together from blocks of the document, by separators no special token
contains.

* `exists_chunkDocument_iff` — the documents that are chunked.
-/

namespace Ingestion

open JsString Words

/-! ## Special tokens -/

/-- A unit of a special token's name. -/
def isNameUnit (c : UInt16) : Bool := (0x61 ≤ c && c ≤ 0x7A) || c == 0x5F

/-- `<|name|>`, what a special token looks like. -/
def IsSpecial (w : JsString) : Prop :=
  ∃ name, w = js "<|" ++ name ++ js "|>" ∧ ∀ c ∈ name, isNameUnit c = true

/-- **The encoder, by its documentation**: `encode` throws exactly on texts that spell a special
token, and its first or last tokens decode to a part of it, with replacement characters for a
character that was cut and for units that are no character. -/
structure Tiktoken.Rejects (enc : Tiktoken) (specials : List JsString) : Prop where
  special : ∀ w ∈ specials, IsSpecial w
  encode : ∀ text, (∃ tokens, enc.encode text = .ok tokens) ↔ Avoids specials text
  decode_take : ∀ text tokens n, enc.encode text = .ok tokens → ∃ p s k, p <:+: text ∧
    Garbled replacementChar p s ∧ enc.decode (tokens.take n) = s ++ List.replicate k replacementChar
  decode_drop : ∀ text tokens n, enc.encode text = .ok tokens → ∃ p s k, p <:+: text ∧
    Garbled replacementChar p s ∧ enc.decode (tokens.drop n) = List.replicate k replacementChar ++ s

/-- What the tokenizer's callers see of it. -/
structure Tokenizer.Rejects (tok : Tokenizer) (specials : List JsString) : Prop where
  special : ∀ w ∈ specials, IsSpecial w
  countTokens : ∀ text, (∃ n, tok.countTokens text = .ok n) ↔ Avoids specials text
  truncateToTokens : ∀ text n, Avoids specials text →
    ∃ cut, tok.truncateToTokens text n = .ok cut ∧ Avoids specials cut
  takeLastTokens : ∀ text n, Avoids specials text →
    ∃ cut, tok.takeLastTokens text n = .ok cut ∧ Avoids specials cut

section

variable {specials : List JsString} {c : UInt16}

/-- No special token has the unit in it. -/
theorem outside_of_special (hspecial : ∀ w ∈ specials, IsSpecial w)
    (hc : (!isNameUnit c && c != 0x3C && c != 0x7C && c != 0x3E) = true) : Outside specials c := by
  intro w hw hmem
  obtain ⟨name, rfl, hname⟩ := hspecial w hw
  simp only [Bool.and_eq_true, Bool.not_eq_true', bne_iff_ne] at hc
  obtain ⟨⟨⟨hnot, hopen⟩, hbar⟩, hclose⟩ := hc
  rw [List.append_assoc, List.mem_append, List.mem_append] at hmem
  obtain hmem | hmem | hmem := hmem
  · obtain rfl | rfl : c = 0x3C ∨ c = 0x7C := by simpa [js, utf16] using hmem
    · exact hopen rfl
    · exact hbar rfl
  · rw [hname c hmem] at hnot
    cases hnot
  · obtain rfl | rfl : c = 0x7C ∨ c = 0x3E := by simpa [js, utf16] using hmem
    · exact hbar rfl
    · exact hclose rfl

theorem head_of_special (hspecial : ∀ w ∈ specials, IsSpecial w) :
    ∀ w ∈ specials, ∃ v, w = 0x3C :: 0x7C :: v := by
  intro w hw
  obtain ⟨name, rfl, -⟩ := hspecial w hw
  exact ⟨name ++ js "|>", rfl⟩

theorem avoids_nil (hspecial : ∀ w ∈ specials, IsSpecial w) : Avoids specials [] := by
  intro w hw hnil
  obtain ⟨v, rfl⟩ := head_of_special hspecial w hw
  cases List.infix_nil.1 hnil

theorem avoids_replacementChars (hspecial : ∀ w ∈ specials, IsSpecial w) {k : ℕ} :
    ∀ d ∈ List.replicate k replacementChar, Outside specials d := by
  intro d hd
  rw [List.eq_of_mem_replicate hd]
  exact outside_of_special hspecial rfl

variable {enc : Tiktoken}

/-- What is left of a part of a text, cut at its ends, avoids what the text does. -/
theorem Tiktoken.Rejects.avoids_cut (h : enc.Rejects specials) {text p s decoded cut : JsString}
    {k : ℕ} (htext : Avoids specials text) (hp : p <:+: text)
    (hgarbled : Garbled replacementChar p s)
    (hdecoded : decoded = s ++ List.replicate k replacementChar ∨
      decoded = List.replicate k replacementChar ++ s) (hcut : cut <:+: decoded) :
    Avoids specials cut := by
  have hs : Avoids specials s :=
    (htext.of_part hp).garbled (outside_of_special h.special rfl) hgarbled
  refine Avoids.of_part ?_ hcut
  obtain rfl | rfl := hdecoded
  · rwa [avoids_append_outside (avoids_replacementChars h.special)]
  · rwa [avoids_outside_append (avoids_replacementChars h.special)]

/-- **What both trims do**: nothing of a text, all of it, or a cut of it, which avoids what it
does. -/
theorem Tiktoken.Rejects.exists_trimmed (h : enc.Rejects specials) {text : JsString} (n : JsNumber)
    (htext : Avoids specials text) {cut : List ℕ → JsString}
    (hcut : ∀ tokens, enc.encode text = .ok tokens → Avoids specials (cut tokens)) :
    ∃ trimmed, (if n.le (.ofNat 0) then return [] else do
      let tokens ← enc.encode text
      if (JsNumber.ofNat tokens.length).le n then return text
      return cut tokens : Except JsError JsString) = .ok trimmed ∧ Avoids specials trimmed := by
  split
  · exact ⟨[], rfl, avoids_nil h.special⟩
  obtain ⟨tokens, htokens⟩ := (h.encode text).2 htext
  rw [htokens, Except.ok_bind]
  split
  · exact ⟨text, rfl, htext⟩
  · exact ⟨_, rfl, hcut tokens htokens⟩

theorem Tiktoken.Rejects.exists_truncate (h : enc.Rejects specials) {text : JsString} (n : JsNumber)
    (htext : Avoids specials text) :
    ∃ cut, enc.truncateToTokens text n = .ok cut ∧ Avoids specials cut := by
  refine h.exists_trimmed n htext fun tokens htokens => ?_
  obtain ⟨p, s, k, hp, hgarbled, hdecode⟩ :=
    h.decode_take text tokens (n.sliceIndex tokens.length) htokens
  exact h.avoids_cut htext hp hgarbled (.inl hdecode) (List.rdropWhile_prefix _ _).isInfix

theorem Tiktoken.Rejects.exists_takeLast (h : enc.Rejects specials) {text : JsString} (n : JsNumber)
    (htext : Avoids specials text) :
    ∃ cut, enc.takeLastTokens text n = .ok cut ∧ Avoids specials cut := by
  refine h.exists_trimmed n htext fun tokens htokens => ?_
  obtain ⟨p, s, k, hp, hgarbled, hdecode⟩ := h.decode_drop text tokens
    (((JsNumber.ofNat tokens.length).sub n).sliceIndex tokens.length) htokens
  exact h.avoids_cut htext hp hgarbled (.inr hdecode) (List.dropWhile_suffix _).isInfix

/-- **The tokenizer rejects what its encoder does.** -/
theorem Tiktoken.Rejects.tokenizer (h : enc.Rejects specials) : enc.tokenizer.Rejects specials where
  special := h.special
  countTokens text := by
    rw [← h.encode]
    refine ⟨fun ⟨n, hn⟩ => ?_, fun ⟨tokens, htokens⟩ => ⟨tokens.length, ?_⟩⟩
    · obtain ⟨tokens, htokens, -⟩ := Except.bind_eq_ok.mp hn
      exact ⟨tokens, htokens⟩
    · exact Except.bind_eq_ok.mpr ⟨tokens, htokens, rfl⟩
  truncateToTokens text n htext := h.exists_truncate n htext
  takeLastTokens text n htext := h.exists_takeLast n htext

end

/-! ## The text of a chunk -/

section

variable {specials : List JsString} (hspecial : ∀ w ∈ specials, IsSpecial w)

include hspecial

theorem separates_special {d : UInt16} {m : JsString}
    (hd : (!isNameUnit d && d != 0x3C && d != 0x7C && d != 0x3E) = true) (hm : 0x7C ∉ m)
    (hlast : m.getLast? ≠ some 0x3C) : Separates specials (d :: m) :=
  separates_cons (outside_of_special hspecial hd) (head_of_special hspecial) hm hlast

theorem separates_blankLine : Separates specials blankLine :=
  separates_special hspecial (d := 0x0A) rfl (m := [0x0A]) (by decide) (by decide)

theorem avoids_sectionPath {stack : List HeadingRef} :
    Avoids specials (join (js " > ") (stack.map (·.text))) ↔
    ∀ h ∈ stack, Avoids specials h.text := by
  have harrow : Separates specials (js " > ") :=
    separates_special hspecial (d := 0x20) rfl (m := [0x3E, 0x20]) (by decide) (by decide)
  rw [join, harrow.avoids_intercalate (avoids_nil hspecial), List.forall_mem_map]

theorem avoids_contextHeader_append {stack : List HeadingRef} {rest : JsString} :
    Avoids specials (contextHeader (sectionPath stack) ++ rest) ↔
      (∀ h ∈ stack, Avoids specials h.text) ∧ Avoids specials rest := by
  rw [sectionPath]
  split
  · rename_i hnil
    rw [contextHeader, List.nil_append, hnil]
    exact ⟨fun h => ⟨nofun, h⟩, And.right⟩
  have hend : Separates specials (js "]\n\n") :=
    separates_special hspecial (d := 0x5D) rfl (m := [0x0A, 0x0A]) (by decide) (by decide)
  rw [contextHeader]
  split
  · rename_i hpath
    rw [List.nil_append, ← avoids_sectionPath hspecial, hpath]
    exact ⟨fun h => ⟨avoids_nil hspecial, h⟩, And.right⟩
  · rw [List.append_assoc, List.append_assoc,
      avoids_head_append (head_of_special hspecial) (by decide) (by decide), hend,
      avoids_sectionPath hspecial]

/-- **The content of a chunk** avoids what the headings above it, its overlap and its text do. -/
theorem avoids_content {stack : List HeadingRef} {overlap text : JsString} :
    Avoids specials (contextHeader (sectionPath stack) ++
        (if overlap = [] then [] else overlap ++ blankLine) ++ text) ↔
      (∀ h ∈ stack, Avoids specials h.text) ∧ Avoids specials overlap ∧ Avoids specials text := by
  rw [List.append_assoc, avoids_contextHeader_append hspecial]
  refine and_congr_right fun _ => ?_
  split
  · rename_i hnil
    rw [List.nil_append, hnil]
    exact ⟨fun h => ⟨avoids_nil hspecial, h⟩, And.right⟩
  · rw [List.append_assoc, separates_blankLine hspecial]

end

/-! ## Flushing and splitting -/

section

variable {tok : Tokenizer} {options : ChunkOptions} {specials : List JsString} {st st' : ChunkState}

/-- What `chunkDocument` has pending avoids special tokens, and so do the headings above it. -/
structure ChunkState.Plain (specials : List JsString) (st : ChunkState) : Prop where
  body : ∀ b ∈ st.body, Avoids specials b.text
  overlap : Avoids specials st.overlap
  headings : st.body ≠ [] → ∀ h ∈ st.headings, Avoids specials h.text

theorem avoids_body (hspecial : ∀ w ∈ specials, IsSpecial w) {body : List AnchoredBlock} :
    Avoids specials (join blankLine (body.map (·.text))) ↔ ∀ b ∈ body, Avoids specials b.text := by
  rw [join, (separates_blankLine hspecial).avoids_intercalate (avoids_nil hspecial),
    List.forall_mem_map]

/-- **A plain state is flushed.** -/
theorem ChunkState.Plain.exists_flush (h : tok.Rejects specials) (hst : st.Plain specials)
    (options : ChunkOptions) :
    ∃ st', st.flush tok options = .ok st' ∧ st'.Plain specials ∧ st'.headings = st.headings ∧
      st'.body = [] := by
  rw [ChunkState.flush]
  split
  case h_1 hnil => exact ⟨st, rfl, hst, rfl, hnil⟩
  case h_2 first rest hcons =>
    have htext := (avoids_body h.special).2 (hcons ▸ hst.body)
    have hheadings := hst.headings (by rw [hcons]; exact List.cons_ne_nil _ _)
    obtain ⟨n, hn⟩ := (h.countTokens _).2
      ((avoids_content h.special).2 ⟨hheadings, hst.overlap, htext⟩)
    obtain ⟨tail, htail, hplain⟩ := h.takeLastTokens _ options.overlapTokens htext
    rw [ChunkState.draft, hn, Except.ok_bind]
    exact ⟨_, Except.bind_eq_ok.mpr ⟨_, rfl, Except.bind_eq_ok.mpr ⟨tail, htail, rfl⟩⟩,
      ⟨List.forall_mem_nil _, hplain, fun hne => absurd rfl hne⟩, rfl, rfl⟩

/-- **What is flushed is under plain headings.** -/
theorem avoids_of_flush (h : tok.Rejects specials) (hflush : st.flush tok options = .ok st') :
    st'.headings = st.headings ∧ st'.body = [] ∧
      (st.body ≠ [] → ∀ h ∈ st.headings, Avoids specials h.text) := by
  rw [ChunkState.flush] at hflush
  split at hflush
  case h_1 hnil =>
    obtain rfl := Except.ok.inj hflush
    exact ⟨rfl, hnil, fun hne => absurd hnil hne⟩
  case h_2 first rest hcons =>
    obtain ⟨c, hdraft, hflush⟩ := Except.bind_eq_ok.mp hflush
    obtain ⟨tail, -, hflush⟩ := Except.bind_eq_ok.mp hflush
    obtain rfl := Except.ok.inj hflush
    obtain ⟨n, hn, -⟩ := Except.bind_eq_ok.mp hdraft
    exact ⟨rfl, rfl, fun _ => ((avoids_content h.special).1 ((h.countTokens _).1 ⟨n, hn⟩)).1⟩

theorem part_slice (s : JsString) (a b : ℕ) : slice s a b <:+: s :=
  (List.drop_suffix a _).isInfix.trans (List.take_prefix b s).isInfix

/-- The parts of a block are cut from it. -/
theorem part_push {block : AnchoredBlock} {st : SplitState}
    (hst : ∀ sub ∈ st.subs, sub.text <:+: block.text) :
    ∀ sub ∈ (st.push block).subs, sub.text <:+: block.text := by
  rw [SplitState.push]
  split
  · exact hst
  · intro sub hsub
    obtain hsub | hsub := List.mem_append.1 hsub
    · exact hst sub hsub
    · rw [List.mem_singleton.1 hsub]
      exact part_slice _ _ _

/-- **A plain block is split** into plain parts. -/
theorem exists_split (h : tok.Rejects specials) {block : AnchoredBlock}
    (hblock : Avoids specials block.text) (maxTokens : JsNumber) :
    ∃ subs, splitOversizedBlock tok block maxTokens = .ok subs ∧
      ∀ sub ∈ subs, Avoids specials sub.text := by
  let I (_ : List (ℕ × ℕ)) (st : SplitState) : Prop := ∀ sub ∈ st.subs, sub.text <:+: block.text
  obtain ⟨st, hst, hsubs⟩ : ∃ st, (sentences block.text).foldlM (fun (st : SplitState) s => do
      let t ← tok.countTokens (slice block.text s.1 s.2)
      return st.add block maxTokens s t) {} = .ok st ∧ I [] st := by
    refine Except.exists_foldlM (fun s ss st hst => ?_) nofun
    obtain ⟨t, ht⟩ := (h.countTokens _).2 (hblock.of_part (part_slice block.text s.1 s.2))
    refine ⟨st.add block maxTokens s t, by rw [ht, Except.ok_bind]; rfl, ?_⟩
    rw [SplitState.add]
    split
    · exact part_push hst
    · exact hst
  refine ⟨_, by rw [splitOversizedBlock, hst, Except.ok_bind]; rfl, ?_⟩
  split
  · rw [List.forall_mem_singleton]
    exact hblock
  · exact fun sub hsub => hblock.of_part (part_push hsubs sub hsub)

theorem ne_nil_of_split {block : AnchoredBlock} {maxTokens : JsNumber} {subs : List AnchoredBlock}
    (h : splitOversizedBlock tok block maxTokens = .ok subs) : subs ≠ [] := by
  obtain ⟨st, -, h⟩ := Except.bind_eq_ok.mp h
  obtain rfl := Except.ok.inj h
  split
  · exact List.cons_ne_nil _ _
  · assumption

/-- **Plain parts under plain headings** are chunked. -/
theorem ChunkState.Plain.exists_addParts (h : tok.Rejects specials) (hst : st.Plain specials)
    (options : ChunkOptions) (hheadings : ∀ h ∈ st.headings, Avoids specials h.text)
    {subs : List AnchoredBlock} (hsubs : ∀ sub ∈ subs, Avoids specials sub.text) :
    ∃ st', st.addParts tok options subs = .ok st' ∧ st'.Plain specials ∧
      st'.headings = st.headings := by
  let I (left : List AnchoredBlock) (st' : ChunkState) : Prop :=
    (∀ sub ∈ left, Avoids specials sub.text) ∧ st'.Plain specials ∧ st'.headings = st.headings
  obtain ⟨st', hst', -, hplain, hsame⟩ : ∃ st', st.addParts tok options subs = .ok st' ∧
      I [] st' := by
    refine Except.exists_foldlM (fun sub left st' ⟨hleft, hplain, hsame⟩ => ?_) ⟨hsubs, hst, rfl⟩
    obtain ⟨hsub, hleft⟩ := List.forall_mem_cons.1 hleft
    obtain ⟨n, hn⟩ := (h.countTokens _).2 hsub
    have hpending : ({ st' with body := [sub], bodyTokens := n } : ChunkState).Plain specials :=
      ⟨List.forall_mem_singleton.2 hsub, hplain.overlap, fun _ => hsame ▸ hheadings⟩
    obtain ⟨st'', hflush, hplain', hsame', -⟩ := hpending.exists_flush h options
    exact ⟨st'', by rw [hn, Except.ok_bind, hflush], hleft, hplain', hsame'.trans hsame⟩
  exact ⟨st', hst', hplain, hsame⟩

/-- **The parts of a block are under plain headings.** -/
theorem avoids_of_addParts (h : tok.Rejects specials) {subs : List AnchoredBlock}
    (hparts : st.addParts tok options subs = .ok st') (hne : subs ≠ []) :
    st'.headings = st.headings ∧ ∀ h ∈ st.headings, Avoids specials h.text := by
  let I (left : List AnchoredBlock) (st' : ChunkState) : Prop :=
    st'.headings = st.headings ∧
    (left.length < subs.length → ∀ h ∈ st.headings, Avoids specials h.text)
  have hend : I [] st' := by
    refine Except.foldlM_invariant (fun sub left st₁ st₂ ⟨hsame, _⟩ hturn => ?_)
      ⟨rfl, fun hlt => absurd hlt (lt_irrefl _)⟩ hparts
    obtain ⟨n, -, hflush⟩ := Except.bind_eq_ok.mp hturn
    obtain ⟨hsame', -, hheadings⟩ := avoids_of_flush h hflush
    exact ⟨hsame'.trans hsame, fun _ => hsame ▸ hheadings (List.cons_ne_nil _ _)⟩
  exact ⟨hend.1, hend.2 (List.length_pos_iff.2 hne)⟩

/-! ## The loop over the blocks -/

/-- The headings open after a block. -/
def AnchoredBlock.headingsAfter (stack : List HeadingRef) (b : AnchoredBlock) : List HeadingRef :=
  if b.heading then updateHeadings stack (b.level.getD 1) b.text else stack

/-- A block that is no heading, not blank, and under these headings is plain. -/
def AnchoredBlock.Plain (specials : List JsString) (stack : List HeadingRef)
    (b : AnchoredBlock) : Prop :=
  b.heading = false → trim b.text ≠ [] →
    Avoids specials b.text ∧ ∀ h ∈ stack, Avoids specials h.text

/-- **A plain block is taken.** -/
theorem ChunkState.Plain.exists_addBlock (h : tok.Rejects specials) (hst : st.Plain specials)
    (options : ChunkOptions) {b : AnchoredBlock} (hb : b.Plain specials st.headings) :
    ∃ st', st.addBlock tok options b = .ok st' ∧ st'.Plain specials ∧
      st'.headings = b.headingsAfter st.headings := by
  rw [ChunkState.addBlock, AnchoredBlock.headingsAfter]
  obtain ⟨st₁, hflush, hplain, hsame, hbody⟩ := hst.exists_flush h options
  split
  · rw [hflush, Except.ok_bind]
    exact ⟨_, rfl, ⟨hplain.body, avoids_nil h.special, fun hne => absurd hbody hne⟩, by rw [hsame]⟩
  rename_i hbody'
  split
  · exact ⟨st, rfl, hst, rfl⟩
  rename_i hblank
  obtain ⟨htext, hheadings⟩ := hb (Bool.eq_false_of_not_eq_true hbody') hblank
  obtain ⟨n, hn⟩ := (h.countTokens _).2 htext
  rw [hn, Except.ok_bind]
  split
  · obtain ⟨subs, hsplit, hsubs⟩ := exists_split h htext options.maxTokens
    have hstart : ({ st₁ with overlap := [] } : ChunkState).Plain specials :=
      ⟨hplain.body, avoids_nil h.special, hplain.headings⟩
    obtain ⟨st₂, hparts, hplain₂, hsame₂⟩ := hstart.exists_addParts h options
      (hsame ▸ hheadings) hsubs
    exact ⟨st₂, by rw [hflush, Except.ok_bind, hsplit, Except.ok_bind, hparts], hplain₂,
      hsame₂.trans hsame⟩
  · have hpush : ∀ st₂ : ChunkState, st₂.Plain specials → st₂.headings = st.headings →
        ({ st₂ with body := st₂.body ++ [b], bodyTokens := st₂.bodyTokens + n } : ChunkState).Plain
          specials := fun st₂ hplain₂ hsame₂ =>
      ⟨List.forall_mem_append.2 ⟨hplain₂.body, List.forall_mem_singleton.2 htext⟩, hplain₂.overlap,
        fun _ => hsame₂ ▸ hheadings⟩
    split
    · rw [hflush, Except.ok_bind]
      exact ⟨_, rfl, hpush st₁ hplain hsame, hsame⟩
    · exact ⟨_, rfl, hpush st hst rfl, rfl⟩

/-- **What a turn of the loop shows**: the block is plain, but for the headings above it while it is
pending, and the headings above what was pending are plain unless it still is. -/
theorem plain_of_addBlock (h : tok.Rejects specials) {b : AnchoredBlock}
    (hadd : st.addBlock tok options b = .ok st') :
    st'.headings = b.headingsAfter st.headings ∧
      (st.body ≠ [] → (st'.body ≠ [] ∧ st'.headings = st.headings) ∨
        ∀ h ∈ st.headings, Avoids specials h.text) ∧
      (b.heading = false → trim b.text ≠ [] → Avoids specials b.text ∧
        ((st'.body ≠ [] ∧ st'.headings = st.headings) ∨ ∀ h ∈ st.headings,
          Avoids specials h.text)) := by
  rw [ChunkState.addBlock] at hadd
  rw [AnchoredBlock.headingsAfter]
  split at hadd
  · rename_i hheading
    obtain ⟨st₁, hflush, hadd⟩ := Except.bind_eq_ok.mp hadd
    obtain ⟨hsame, -, hheadings⟩ := avoids_of_flush h hflush
    obtain rfl := Except.ok.inj hadd
    rw [if_pos hheading]
    refine ⟨by rw [← hsame], fun hne => .inr (hheadings hne), fun hbody => ?_⟩
    rw [hheading] at hbody
    cases hbody
  rename_i hbody
  rw [if_neg hbody]
  split at hadd
  · rename_i hblank
    obtain rfl := Except.ok.inj hadd
    exact ⟨rfl, fun hne => .inl ⟨hne, rfl⟩, fun _ hne => absurd hblank hne⟩
  obtain ⟨n, hn, hadd⟩ := Except.bind_eq_ok.mp hadd
  have htext : Avoids specials b.text := (h.countTokens _).1 ⟨n, hn⟩
  split at hadd
  · obtain ⟨st₁, hflush, hadd⟩ := Except.bind_eq_ok.mp hadd
    obtain ⟨subs, hsplit, hadd⟩ := Except.bind_eq_ok.mp hadd
    obtain ⟨hsame, -, -⟩ := avoids_of_flush h hflush
    obtain ⟨hsame', hheadings⟩ := avoids_of_addParts h hadd (ne_nil_of_split hsplit)
    rw [show ({ st₁ with overlap := [] } : ChunkState).headings =
      st.headings from hsame] at hheadings hsame'
    exact ⟨hsame', fun _ => .inr hheadings, fun _ _ => ⟨htext, .inr hheadings⟩⟩
  · have hpending : st'.body ≠ [] ∧ st'.headings = st.headings := by
      split at hadd
      · obtain ⟨st₁, hflush, hadd⟩ := Except.bind_eq_ok.mp hadd
        obtain rfl := Except.ok.inj hadd
        exact ⟨by simp, (avoids_of_flush h hflush).1⟩
      · obtain rfl := Except.ok.inj hadd
        exact ⟨by simp, rfl⟩
    exact ⟨hpending.2, fun _ => .inl hpending, fun _ _ => ⟨htext, .inl hpending⟩⟩

/-- Every block is plain under the headings open above it, `stack` at first. -/
def PlainFrom (specials : List JsString) (stack : List HeadingRef)
    (blocks : List AnchoredBlock) : Prop :=
  ∀ before b after, blocks = before ++ b :: after →
    b.Plain specials (before.foldl (fun stack b => b.headingsAfter stack) stack)

theorem plainFrom_cons {stack : List HeadingRef} {b : AnchoredBlock} {blocks : List AnchoredBlock} :
    PlainFrom specials stack (b :: blocks) ↔
      b.Plain specials stack ∧ PlainFrom specials (b.headingsAfter stack) blocks := by
  constructor
  · intro h
    refine ⟨h [] b blocks rfl, fun before b' after hsplit => ?_⟩
    exact h (b :: before) b' after (congrArg (b :: ·) hsplit)
  · rintro ⟨hb, hblocks⟩ before b' after hsplit
    rcases before with _ | ⟨b'', before⟩
    · obtain ⟨rfl, rfl⟩ := List.cons.inj hsplit
      exact hb
    · obtain ⟨rfl, htail⟩ := List.cons.inj hsplit
      exact hblocks before b' after htail

/-- **Plain blocks are taken.** -/
theorem ChunkState.Plain.exists_run (h : tok.Rejects specials) (hst : st.Plain specials)
    (options : ChunkOptions) {blocks : List AnchoredBlock}
    (hblocks : PlainFrom specials st.headings blocks) :
    ∃ st', blocks.foldlM (fun (st : ChunkState) b => st.addBlock tok options b) st = .ok st' ∧
      st'.Plain specials := by
  let I (left : List AnchoredBlock) (st : ChunkState) : Prop :=
    st.Plain specials ∧ PlainFrom specials st.headings left
  obtain ⟨st', hst', hplain, -⟩ : ∃ st', blocks.foldlM
      (fun (st : ChunkState) b => st.addBlock tok options b) st = .ok st' ∧ I [] st' := by
    refine Except.exists_foldlM (fun b left st ⟨hplain, hleft⟩ => ?_) ⟨hst, hblocks⟩
    obtain ⟨hb, hleft⟩ := plainFrom_cons.1 hleft
    obtain ⟨st', hadd, hplain', hsame⟩ := hplain.exists_addBlock h options hb
    exact ⟨st', hadd, hplain', hsame ▸ hleft⟩
  exact ⟨st', hst', hplain⟩

/-- **Blocks that were taken and flushed are plain**, and so are the headings above what was pending
before them. -/
theorem plain_of_run (h : tok.Rejects specials) {blocks : List AnchoredBlock} {st₁ st₂ : ChunkState}
    (hrun : blocks.foldlM (fun (st : ChunkState) b => st.addBlock tok options b) st = .ok st₁)
    (hflush : st₁.flush tok options = .ok st₂) :
    (st.body ≠ [] → ∀ h ∈ st.headings, Avoids specials h.text) ∧
      PlainFrom specials st.headings blocks := by
  induction blocks generalizing st with
  | nil =>
    obtain rfl := Except.ok.inj hrun
    exact ⟨(avoids_of_flush h hflush).2.2, fun before b after hsplit => by simp at hsplit⟩
  | cons b blocks ih =>
    rw [List.foldlM_cons] at hrun
    obtain ⟨st', hadd, hrun⟩ := Except.bind_eq_ok.mp hrun
    obtain ⟨hpending, hplain⟩ := ih hrun
    obtain ⟨hsame, hbefore, hb⟩ := plain_of_addBlock h hadd
    -- what is still pending is flushed later, under the same headings
    have hlater : (st'.body ≠ [] ∧ st'.headings = st.headings) ∨
        (∀ h ∈ st.headings, Avoids specials h.text) → ∀ h ∈ st.headings,
        Avoids specials h.text := by
      rintro (⟨hne, hsame⟩ | hheadings)
      · exact hsame ▸ hpending hne
      · exact hheadings
    refine ⟨fun hne => hlater (hbefore hne),
      plainFrom_cons.2 ⟨fun hheading hblank => ?_, hsame ▸ hplain⟩⟩
    exact ⟨(hb hheading hblank).1, hlater (hb hheading hblank).2⟩

/-- **A plain document**: no special token in a block that is chunked, nor in a heading above
one. -/
def ParsedDocument.Plain (specials : List JsString) (parsed : ParsedDocument) : Prop :=
  ∀ before b after, parsed.blocks = before ++ b :: after → b.Plain specials (headingStack before)

theorem headingStack_eq_foldl (blocks : List AnchoredBlock) :
    headingStack blocks = blocks.foldl (fun stack b => b.headingsAfter stack) [] := by
  rw [headingStack, List.foldl_filter]
  rfl

/-- **The documents that are chunked** are the plain ones. -/
theorem exists_chunkDocument_iff (h : tok.Rejects specials) {parsed : ParsedDocument} :
    (∃ chunks, chunkDocument tok options parsed = .ok chunks) ↔ parsed.Plain specials := by
  have hplain : parsed.Plain specials ↔ PlainFrom specials [] parsed.blocks := by
    simp only [ParsedDocument.Plain, PlainFrom, headingStack_eq_foldl]
  rw [hplain]
  constructor
  · rintro ⟨chunks, hchunks⟩
    obtain ⟨st₁, hrun, hchunks⟩ := Except.bind_eq_ok.mp hchunks
    obtain ⟨st₂, hflush, -⟩ := Except.bind_eq_ok.mp hchunks
    exact (plain_of_run h hrun hflush).2
  · intro hblocks
    have hstart : ({} : ChunkState).Plain specials :=
      ⟨List.forall_mem_nil _, avoids_nil h.special, fun hne => absurd rfl hne⟩
    obtain ⟨st₁, hrun, hst₁⟩ := hstart.exists_run h options hblocks
    obtain ⟨st₂, hflush, -⟩ := hst₁.exists_flush h options
    exact ⟨st₂.chunks, by rw [chunkDocument, hrun, Except.ok_bind, hflush]; rfl⟩

end

end Ingestion

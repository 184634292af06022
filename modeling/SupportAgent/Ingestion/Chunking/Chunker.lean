import SupportAgent.Ingestion.Chunking.Tokenizer
import SupportAgent.Ingestion.Parsing.Assemble

/-!
# Ingestion/Chunking/Chunker — structure-aware chunking

`chunkDocument` folds over the blocks of a document with the heading stack, the pending body and the
previous chunk's tail as its state; `flush` is the one place where a chunk is made.
-/

namespace Ingestion

open JsString

/-- A chunk produced from a parsed document, ready for dedup and embedding. -/
structure ChunkDraft where
  content : JsString
  text : JsString
  page : ℕ
  sectionText : Option JsString
  charStart : ℕ
  charEnd : ℕ
  tokenCount : ℕ
  deriving DecidableEq

/-- `minTokens` is advisory and read nowhere. -/
structure ChunkOptions where
  maxTokens : JsNumber
  overlapTokens : JsNumber

def DEFAULT_CHUNK_OPTIONS : ChunkOptions where
  maxTokens := .ofNat 800
  overlapTokens := .ofNat 100

structure HeadingRef where
  level : ℕ
  text : JsString
  deriving DecidableEq

def sectionPath (stack : List HeadingRef) : Option JsString :=
  if stack = [] then none else some (join (js " > ") (stack.map (·.text)))

/-- The generated header; an absent and an empty section have none. -/
def contextHeader (sectionText : Option JsString) : JsString :=
  match sectionText with
  | some s => if s = [] then [] else js "[Section: " ++ s ++ js "]\n\n"
  | none => []

/-- Pop headings at the same or deeper level, then push the new one. -/
def updateHeadings (stack : List HeadingRef) (level : ℕ) (text : JsString) : List HeadingRef :=
  stack.rdropWhile (fun h => decide (level ≤ h.level)) ++ [⟨level, text⟩]

/-! ## Sentences -/

/-- The terminators `[.!?]`. -/
def isTerminator (c : UInt16) : Bool := c == 0x2E || c == 0x21 || c == 0x3F

/-- The length of the match of `/[.!?]+(?:\s+|$)/` at the very start of `s`. -/
def sentenceEnd (s : JsString) : Option ℕ :=
  let terminators := s.takeWhile isTerminator
  let after := s.dropWhile isTerminator
  let spaces := after.takeWhile isSpace
  if terminators = [] then none
  else if after = [] || spaces ≠ [] then some (terminators.length + spaces.length)
  else none

/-- The ends of the successive matches of `/[.!?]+(?:\s+|$)/g` in `s`, which starts at `pos`. -/
def sentenceEnds : (fuel pos : ℕ) → JsString → List ℕ
  | 0, _, _ => []
  | _, _, [] => []
  | fuel + 1, pos, c :: s =>
    match sentenceEnd (c :: s) with
    | some n => (pos + n) :: sentenceEnds fuel (pos + n) ((c :: s).drop n)
    | none => sentenceEnds fuel (pos + 1) s

/-- The stretches between `last` and the successive `ends`, blank ones left out, then what
remains. -/
def sentencesFrom (text : JsString) : (last : ℕ) → List ℕ → List (ℕ × ℕ)
  | last, [] =>
    if last < text.length && trim (slice text last text.length) ≠ [] then [(last, text.length)]
    else []
  | last, e :: ends =>
    if trim (slice text last e) ≠ [] then (last, e) :: sentencesFrom text e ends
    else sentencesFrom text e ends

/-- The sentences of a block, as ranges of its text. -/
def sentences (text : JsString) : List (ℕ × ℕ) :=
  sentencesFrom text 0 (sentenceEnds text.length 0 text)

/-- The state of the packing loop of `splitOversizedBlock`. -/
structure SplitState where
  subs : List AnchoredBlock := []
  curStart : Option ℕ := none
  curEnd : ℕ := 0
  curTokens : ℕ := 0

/-- `push()` of `splitOversizedBlock`. -/
def SplitState.push (block : AnchoredBlock) (st : SplitState) : SplitState :=
  match st.curStart with
  | none => st
  | some curStart =>
    { st with
      subs := st.subs ++ [{
        text := slice block.text curStart st.curEnd
        page := block.page
        charStart := block.charStart + curStart
        charEnd := block.charStart + st.curEnd }]
      curStart := none
      curTokens := 0 }

/-- One turn of the packing loop. -/
def SplitState.add (block : AnchoredBlock) (maxTokens : JsNumber) (st : SplitState)
    (s : ℕ × ℕ) (t : ℕ) : SplitState :=
  let st := if st.curStart.isSome && maxTokens.lt (.ofNat (st.curTokens + t)) then st.push block
    else st
  { st with
    curStart := some (st.curStart.getD s.1)
    curEnd := s.2
    curTokens := st.curTokens + t }

/-- Split an oversized paragraph into sub-blocks on sentence boundaries. -/
def splitOversizedBlock (tok : Tokenizer) (block : AnchoredBlock) (maxTokens : JsNumber) :
    Except JsError (List AnchoredBlock) := do
  let st ← (sentences block.text).foldlM (fun (st : SplitState) s => do
    let t ← tok.countTokens (slice block.text s.1 s.2)
    return st.add block maxTokens s t) {}
  let st := st.push block
  return if st.subs = [] then [block] else st.subs

/-! ## `chunkDocument` -/

/-- The variables of `chunkDocument`. -/
structure ChunkState where
  chunks : List ChunkDraft := []
  headings : List HeadingRef := []
  body : List AnchoredBlock := []
  bodyTokens : ℕ := 0
  overlap : JsString := []

variable (tok : Tokenizer) (options : ChunkOptions)

/-- The chunk `flush` makes of a body `first :: rest`. -/
def ChunkState.draft (st : ChunkState) (first : AnchoredBlock) (rest : List AnchoredBlock) :
    Except JsError ChunkDraft := do
  let sectionText := sectionPath st.headings
  let text := join blankLine ((first :: rest).map (·.text))
  let overlapPrefix := if st.overlap = [] then [] else st.overlap ++ blankLine
  let content := contextHeader sectionText ++ overlapPrefix ++ text
  return {
    content, text, sectionText
    page := first.page
    charStart := first.charStart
    charEnd := ((first :: rest).getLast (by simp)).charEnd
    tokenCount := ← tok.countTokens content }

def ChunkState.flush (st : ChunkState) : Except JsError ChunkState :=
  match st.body with
  | [] => return st
  | first :: rest => do
    let chunk ← st.draft tok first rest
    return { st with
      chunks := st.chunks ++ [chunk]
      overlap := ← tok.takeLastTokens chunk.text options.overlapTokens
      body := []
      bodyTokens := 0 }

/-- The loop over the parts of an oversized block: each part is a chunk of its own. -/
def ChunkState.addParts (st : ChunkState) (subs : List AnchoredBlock) : Except JsError ChunkState :=
  subs.foldlM (fun st sub => do
    let bodyTokens ← tok.countTokens sub.text
    { st with body := [sub], bodyTokens }.flush tok options) st

/-- One turn of the loop over the blocks. -/
def ChunkState.addBlock (st : ChunkState) (block : AnchoredBlock) : Except JsError ChunkState := do
  if block.heading then
    let st ← st.flush tok options
    return { st with
      overlap := []
      headings := updateHeadings st.headings (block.level.getD 1) block.text }
  else if trim block.text = [] then
    return st
  else
    let blockTokens ← tok.countTokens block.text
    if options.maxTokens.lt (.ofNat blockTokens) then
      let st ← st.flush tok options
      let subs ← splitOversizedBlock tok block options.maxTokens
      { st with overlap := [] }.addParts tok options subs
    else
      let st ←
        if options.maxTokens.lt (.ofNat (st.bodyTokens + blockTokens)) then st.flush tok options
        else pure st
      return { st with body := st.body ++ [block], bodyTokens := st.bodyTokens + blockTokens }

/-- Structure-aware chunking. -/
def chunkDocument (parsed : ParsedDocument) : Except JsError (List ChunkDraft) := do
  let st ← parsed.blocks.foldlM (fun (st : ChunkState) block => st.addBlock tok options block) {}
  return (← st.flush tok options).chunks

end Ingestion

import SupportAgent.Machinery.Js

/-!
# Ingestion/Chunking/Tokenizer — counting and cutting text by tokens

`js-tiktoken` is outside the repository, so its encoder is a parameter (`Tiktoken`); its `encode`
may throw.  `Tiktoken.tokenizer` is what the module exports, and `Tokenizer` what its callers see of
it — they are stated for any.
-/

namespace Ingestion

/-- An encoder of `js-tiktoken`: `encode` may throw, `decode` does not. -/
structure Tiktoken where
  encode : JsString → Except JsError (List ℕ)
  decode : List ℕ → JsString

/-- The three functions exported by the tokenizer module. -/
structure Tokenizer where
  countTokens : JsString → Except JsError ℕ
  truncateToTokens : JsString → JsNumber → Except JsError JsString
  takeLastTokens : JsString → JsNumber → Except JsError JsString

/-- U+FFFD, what decoding makes of the half of a character left at a cut. -/
def replacementChar : UInt16 := 0xFFFD

namespace Tiktoken

variable (enc : Tiktoken)

def countTokens (text : JsString) : Except JsError ℕ :=
  return (← enc.encode text).length

/-- The first `n` tokens of `text`, decoded back to a string (budget trimming). -/
def truncateToTokens (text : JsString) (n : JsNumber) : Except JsError JsString :=
  if n.le (.ofNat 0) then return []
  else do
    let tokens ← enc.encode text
    if (JsNumber.ofNat tokens.length).le n then return text
    return (enc.decode (tokens.take (n.sliceIndex tokens.length))).rdropWhile (· == replacementChar)

/-- The last `n` tokens of `text`, decoded back to a string (for chunk overlap). -/
def takeLastTokens (text : JsString) (n : JsNumber) : Except JsError JsString :=
  if n.le (.ofNat 0) then return []
  else do
    let tokens ← enc.encode text
    if (JsNumber.ofNat tokens.length).le n then return text
    let first := ((JsNumber.ofNat tokens.length).sub n).sliceIndex tokens.length
    return (enc.decode (tokens.drop first)).dropWhile (· == replacementChar)

/-- The tokenizer module over an encoder. -/
def tokenizer : Tokenizer where
  countTokens := enc.countTokens
  truncateToTokens := enc.truncateToTokens
  takeLastTokens := enc.takeLastTokens

/-- **Tokens spell a text in order**: its first tokens decode to the text's beginning, with
replacement characters where a character was cut in two. -/
def Spells (text : JsString) : Prop :=
  ∀ tokens n, enc.encode text = .ok tokens →
    ∃ p k, p <+: text ∧ enc.decode (tokens.take n) = p ++ List.replicate k replacementChar

end Tiktoken

/-- An encoder with one token per code unit. -/
def sampleEncoder : Tiktoken where
  encode text := pure (text.map UInt16.toNat)
  decode tokens := tokens.map UInt16.ofNat

theorem sampleEncoder_counts (text : JsString) :
    sampleEncoder.tokenizer.countTokens text = .ok text.length :=
  congrArg Except.ok (List.length_map _)

theorem sampleEncoder_spells (text : JsString) : sampleEncoder.Spells text := by
  intro tokens n htokens
  obtain rfl := Except.ok.inj htokens
  refine ⟨text.take n, 0, List.take_prefix n text, ?_⟩
  simp [sampleEncoder, List.map_take, Function.comp_def]

theorem sampleEncoder_cuts (text : JsString) (n : JsNumber) :
    ∃ cut, sampleEncoder.tokenizer.truncateToTokens text n = .ok cut := by
  change ∃ cut, sampleEncoder.truncateToTokens text n = .ok cut
  rw [Tiktoken.truncateToTokens]
  split
  · exact ⟨_, rfl⟩
  · rw [show sampleEncoder.encode text = .ok (text.map UInt16.toNat) from rfl, Except.ok_bind]
    split
    · exact ⟨_, rfl⟩
    · exact ⟨_, rfl⟩

/-- Cutting a text to a number of tokens leaves a beginning of it. -/
def Tokenizer.Truncates (tok : Tokenizer) (text : JsString) : Prop :=
  ∀ n cut, tok.truncateToTokens text n = .ok cut → cut <+: text

/-- Replacement characters at the end of a text are dropped, the text before them kept to a
prefix. -/
theorem strip_replacementChars (p : JsString) (k : ℕ) :
    (p ++ List.replicate k replacementChar).rdropWhile (· == replacementChar) <+: p := by
  induction k with
  | zero => simpa using List.rdropWhile_prefix _ _
  | succ k ih =>
    rw [List.replicate_succ', ← List.append_assoc, List.rdropWhile_concat_pos _ _ _ (by simp)]
    exact ih

/-- **Truncation keeps a prefix** — the replacement characters of the cut are stripped again. -/
theorem Tiktoken.truncates {enc : Tiktoken} {text : JsString} (h : enc.Spells text) :
    enc.tokenizer.Truncates text := by
  intro n cut hcut
  change enc.truncateToTokens text n = .ok cut at hcut
  rw [truncateToTokens] at hcut
  split at hcut
  · obtain rfl : [] = cut := by simpa [pure, Except.pure] using hcut
    exact List.nil_prefix
  · obtain ⟨tokens, htok, hcut⟩ := Except.bind_eq_ok.mp hcut
    split at hcut
    · obtain rfl : text = cut := by simpa [pure, Except.pure] using hcut
      exact List.prefix_rfl
    · obtain ⟨p, k, hp, hdec⟩ := h tokens (n.sliceIndex tokens.length) htok
      obtain rfl : _ = cut := by simpa [pure, Except.pure] using hcut
      rw [hdec]
      exact (strip_replacementChars p k).trans hp

end Ingestion

import Mathlib.Data.List.Chain
import Mathlib.Tactic.IntervalCases
import SupportAgent.Machinery.Json.Value

/-!
# Machinery/Json/Lex — reading tokens

The lexer is a machine that takes one code unit at a time, so a text that stops inside a string
leaves it in a state that is no end.  `lex_texts` reads written tokens back, and `lex_cut` says that
nothing is read from a text cut where a string held a line separator.
-/

namespace Json

open JsString

/-! ## The machine -/

/-- Where the lexer stands. -/
inductive LexState
  | between
  | atom (text : JsString)
  | string (text : JsString)
  | escape (text : JsString)
  | unicode (text : JsString) (digits value : ℕ)

/-- The white space of JSON. -/
def isJsonSpace (c : UInt16) : Bool := c == 0x20 || c == 0x09 || c == 0x0A || c == 0x0D

def punctuation (c : UInt16) : Option Token :=
  if c = 0x7B then some .leftBrace
  else if c = 0x7D then some .rightBrace
  else if c = 0x5B then some .leftBracket
  else if c = 0x5D then some .rightBracket
  else if c = 0x3A then some .colon
  else if c = 0x2C then some .comma
  else none

/-- A number, or one of the three words. -/
def classify (text : JsString) : Option Token :=
  if text = js "null" then some .null
  else if text = js "true" then some (.bool true)
  else if text = js "false" then some (.bool false)
  else if h : isNumber text = true then some (.num ⟨text, h⟩)
  else none

/-- What an escape of two characters stands for. -/
def unescape (c : UInt16) : Option UInt16 :=
  if c = 0x22 ∨ c = 0x5C ∨ c = 0x2F then some c
  else if c = 0x62 then some 0x08
  else if c = 0x66 then some 0x0C
  else if c = 0x6E then some 0x0A
  else if c = 0x72 then some 0x0D
  else if c = 0x74 then some 0x09
  else none

/-- A code unit outside of any token. -/
def lexBetween (c : UInt16) : Option (List Token × LexState) :=
  if isJsonSpace c then some ([], .between)
  else if c = 0x22 then some ([], .string [])
  else if isAtomChar c then some ([], .atom [c])
  else (punctuation c).map fun t => ([t], .between)

/-- One code unit: the tokens that end with it, and the next state. -/
def LexState.step : LexState → UInt16 → Option (List Token × LexState)
  | between, c => lexBetween c
  | atom text, c =>
    if isAtomChar c then some ([], .atom (text ++ [c]))
    else (classify text).bind fun t => (lexBetween c).map fun (ts, st) => (t :: ts, st)
  | string text, c =>
    if c = 0x22 then some ([.str text], .between)
    else if c = 0x5C then some ([], .escape text)
    else if c < 0x20 then none
    else some ([], .string (text ++ [c]))
  | escape text, c =>
    if c = 0x75 then some ([], .unicode text 0 0)
    else (unescape c).map fun c => ([], .string (text ++ [c]))
  | unicode text digits value, c =>
    (hexValue c).map fun d =>
      if digits = 3 then ([], .string (text ++ [UInt16.ofNat (16 * value + d)]))
      else ([], .unicode text (digits + 1) (16 * value + d))

/-- The tokens left open at the end of the text. -/
def LexState.finish : LexState → Option (List Token)
  | between => some []
  | atom text => (classify text).map fun t => [t]
  | _ => none

def lexFrom : LexState → JsString → Option (List Token)
  | st, [] => st.finish
  | st, c :: s => (st.step c).bind fun (ts, st) => (lexFrom st s).map (ts ++ ·)

/-- The tokens of a text. -/
def lex (s : JsString) : Option (List Token) := lexFrom .between s

/-- A step, then the rest. -/
theorem lexFrom_cons {st st' : LexState} {c : UInt16} (s : JsString) {ts : List Token}
    (h : st.step c = some (ts, st')) : lexFrom st (c :: s) = (lexFrom st' s).map (ts ++ ·) := by
  rw [lexFrom, h]
  rfl

/-- A step that ends no token. -/
theorem lexFrom_cons_nil {st st' : LexState} {c : UInt16} (s : JsString)
    (h : st.step c = some ([], st')) : lexFrom st (c :: s) = lexFrom st' s := by
  rw [lexFrom_cons s h]
  exact Option.map_id'

theorem step_openQuote : LexState.between.step 0x22 = some ([], .string []) := rfl

theorem step_closeQuote (text : JsString) :
    (LexState.string text).step 0x22 = some ([.str text], .between) := rfl

theorem step_backslash (text : JsString) :
    (LexState.string text).step 0x5C = some ([], .escape text) := rfl

theorem step_u (text : JsString) :
    (LexState.escape text).step 0x75 = some ([], .unicode text 0 0) := rfl

/-! ## Reading strings -/

/-- U+2028 and U+2029, which end a line for a regular expression and may stand in a string. -/
def isSeparator (c : UInt16) : Bool := c == 0x2028 || c == 0x2029

/-- How a code unit may be quoted. -/
inductive Quoted (c : UInt16) : JsString → Prop
  | raw : c ≠ 0x22 → c ≠ 0x5C → ¬c < 0x20 → Quoted c [c]
  | short (e : UInt16) : e ≠ 0x75 → unescape e = some c → isLineTerminator e = false →
      isSeparator c = false → Quoted c [0x5C, e]
  | unicode : isSeparator c = false → Quoted c (unicodeEscape c)

theorem isSeparator_eq_false {c : UInt16}
    (h : c < 0x20 ∨ isHighSurrogate c = true ∨ isLowSurrogate c = true) :
    isSeparator c = false := by
  by_contra hsep
  obtain rfl | rfl : c = 0x2028 ∨ c = 0x2029 := by
    simpa only [Bool.not_eq_false, isSeparator, Bool.or_eq_true, beq_iff_eq] using hsep
  all_goals revert h; decide

theorem Quoted.of_short {c e : UInt16} (h : e ≠ 0x75 ∧ unescape e = some c ∧
    isLineTerminator e = false ∧ isSeparator c = false) : Quoted c [0x5C, e] :=
  .short e h.1 h.2.1 h.2.2.1 h.2.2.2

theorem quoted_quoteUnit (paired : Bool) (c : UInt16) (next : Option UInt16) :
    Quoted c (quoteUnit paired c next) := by
  unfold quoteUnit
  split
  · subst c; exact .of_short (e := 0x22) (by decide)
  split
  · subst c; exact .of_short (e := 0x5C) (by decide)
  split
  · subst c; exact .of_short (e := 0x62) (by decide)
  split
  · subst c; exact .of_short (e := 0x66) (by decide)
  split
  · subst c; exact .of_short (e := 0x6E) (by decide)
  split
  · subst c; exact .of_short (e := 0x72) (by decide)
  split
  · subst c; exact .of_short (e := 0x74) (by decide)
  split
  · exact .unicode (isSeparator_eq_false (.inl ‹_›))
  split
  case isTrue h => exact .unicode (isSeparator_eq_false (.inr (.inl (Bool.and_eq_true_iff.mp h).1)))
  split
  case isTrue h => exact .unicode (isSeparator_eq_false (.inr (.inr (Bool.and_eq_true_iff.mp h).1)))
  · exact .raw ‹_› ‹_› ‹_›

theorem hexValue_hexDigit {n : ℕ} (h : n < 16) : hexValue (hexDigit n) = some n := by
  interval_cases n <;> decide

/-- The four digits of an escape. -/
theorem lexFrom_unicodeEscape (text : JsString) (c : UInt16) (s : JsString) :
    lexFrom (.string text) (unicodeEscape c ++ s) = lexFrom (.string (text ++ [c])) s := by
  have hlt := c.toNat_lt
  have hstep : ∀ {digits value n : ℕ}, n < 16 → digits ≠ 3 →
      (LexState.unicode text digits value).step
      (hexDigit n) = some ([], .unicode text (digits + 1) (16 * value + n)) := by
    intro digits value n hn hdigits
    rw [LexState.step, hexValue_hexDigit hn, Option.map_some, if_neg hdigits]
  have hlast : ∀ {value n : ℕ}, n < 16 → (LexState.unicode text 3 value).step (hexDigit n) =
      some ([], .string (text ++ [UInt16.ofNat (16 * value + n)])) := by
    intro value n hn
    rw [LexState.step, hexValue_hexDigit hn, Option.map_some, if_pos rfl]
  change lexFrom (.string text) (0x5C :: 0x75 :: hexDigit _ :: hexDigit _ :: hexDigit _ ::
    hexDigit _ :: s) = _
  rw [lexFrom_cons_nil _ (step_backslash text), lexFrom_cons_nil _ (step_u text),
    lexFrom_cons_nil _ (hstep (by omega) (by decide)),
    lexFrom_cons_nil _ (hstep (by omega) (by decide)),
    lexFrom_cons_nil _ (hstep (by omega) (by decide)), lexFrom_cons_nil _ (hlast (by omega))]
  have hvalue : 16 * (16 * (16 * (16 * 0 + c.toNat / 0x1000) + c.toNat / 0x100 % 16) +
      c.toNat / 0x10 % 16) + c.toNat % 16 = c.toNat := by omega
  rw [hvalue, UInt16.ofNat_toNat]

/-- **A quoted code unit is read back.** -/
theorem lexFrom_quoted {c : UInt16} {t : JsString} (h : Quoted c t) (text s : JsString) :
    lexFrom (.string text) (t ++ s) = lexFrom (.string (text ++ [c])) s := by
  cases h with
  | raw hquote hbackslash hcontrol =>
    refine lexFrom_cons_nil _ ?_
    rw [LexState.step, if_neg hquote, if_neg hbackslash, if_neg hcontrol]
  | short e he hunescape =>
    change lexFrom _ (0x5C :: e :: s) = _
    rw [lexFrom_cons_nil _ (step_backslash text)]
    refine lexFrom_cons_nil _ ?_
    rw [LexState.step, if_neg he, hunescape]
    rfl
  | unicode => exact lexFrom_unicodeEscape text c s

theorem lexFrom_quoteFrom (paired : Bool) (string text s : JsString) :
    lexFrom (.string text)
      (quoteFrom paired string ++ s) = lexFrom (.string (text ++ string)) s := by
  induction string generalizing paired text with
  | nil => rw [quoteFrom, List.nil_append, List.append_nil]
  | cons c string ih =>
    rw [quoteFrom, List.append_assoc, lexFrom_quoted (quoted_quoteUnit ..), ih, List.append_assoc]
    rfl

/-- **A quoted string is read back.** -/
theorem lexFrom_quote (string s : JsString) :
    lexFrom .between (quote string ++ s) = (lexFrom .between s).map (.str string :: ·) := by
  rw [quote, List.cons_append, lexFrom_cons_nil _ step_openQuote, List.append_assoc,
    lexFrom_quoteFrom, List.nil_append]
  exact lexFrom_cons s (step_closeQuote string)

/-! ## Reading numbers and words -/

def Token.isAtom : Token → Bool
  | num _ | bool _ | null => true
  | _ => false

/-- A text that does not go on with a character of an atom. -/
def Delimited (s : JsString) : Prop := ∀ c ∈ s.head?, isAtomChar c = false

theorem lexBetween_atomChar {c : UInt16} (h : isAtomChar c = true) :
    lexBetween c = some ([], .atom [c]) := by
  have hspace : isJsonSpace c = false := by
    by_contra hspace
    obtain ((rfl | rfl) | rfl) | rfl : ((c = 0x20 ∨ c = 0x09) ∨ c = 0x0A) ∨ c = 0x0D := by
      simpa only [Bool.not_eq_false, isJsonSpace, Bool.or_eq_true, beq_iff_eq] using hspace
    all_goals revert h; decide
  have hquote : c ≠ 0x22 := by
    rintro rfl
    revert h; decide
  rw [lexBetween, hspace, if_neg (by decide), if_neg hquote, if_pos h]

theorem lexFrom_atomChars {p : JsString} (h : ∀ c ∈ p, isAtomChar c = true) (text s : JsString) :
    lexFrom (.atom text) (p ++ s) = lexFrom (.atom (text ++ p)) s := by
  induction p generalizing text with
  | nil => rw [List.nil_append, List.append_nil]
  | cons c p ih =>
    obtain ⟨hc, hp⟩ := List.forall_mem_cons.mp h
    have hstep : (LexState.atom text).step c = some ([], .atom (text ++ [c])) := if_pos hc
    rw [List.cons_append, lexFrom_cons_nil _ hstep, ih hp, List.append_assoc]
    rfl

/-- An atom ends where no character of it follows. -/
theorem lexFrom_atom_end {text s : JsString} {t : Token} (ht : classify text = some t)
    (hs : Delimited s) : lexFrom (.atom text) s = (lexFrom .between s).map (t :: ·) := by
  cases s with
  | nil =>
    rw [lexFrom, LexState.finish, ht]
    rfl
  | cons c s =>
    have hc : isAtomChar c = false := hs c rfl
    have hstep : (LexState.atom text).step c =
        (lexBetween c).map fun (ts, st) => (t :: ts, st) := by
      rw [LexState.step, if_neg (by rw [hc]; decide), ht]
      rfl
    rw [lexFrom, lexFrom, hstep, LexState.step]
    cases lexBetween c with
    | none => rfl
    | some r => exact (Option.map_map (t :: ·) (r.1 ++ ·) (lexFrom r.2 s)).symm

theorem isAtomChar_text {t : Token} (h : t.isAtom = true) : ∀ c ∈ t.text, isAtomChar c = true := by
  cases t with
  | num n => exact n.isAtomChar
  | bool b => cases b <;> exact List.all_eq_true.mp rfl
  | null => exact List.all_eq_true.mp rfl
  | _ => cases h

theorem classify_text {t : Token} (h : t.isAtom = true) : classify t.text = some t := by
  cases t with
  | num n =>
    have hne : ∀ {word}, isNumber word = false → n.text ≠ word := by
      rintro word hword rfl
      exact absurd n.valid (by rw [hword]; decide)
    change classify n.text = _
    rw [classify, if_neg (hne (by decide)), if_neg (hne (by decide)), if_neg (hne (by decide)),
      dif_pos n.valid]
  | bool b => cases b <;> decide
  | null => decide
  | _ => cases h

/-- **A number or a word is read back.** -/
theorem lexFrom_atom {t : Token} (h : t.isAtom = true) {s : JsString} (hs : Delimited s) :
    lexFrom .between (t.text ++ s) = (lexFrom .between s).map (t :: ·) := by
  have hchars := isAtomChar_text h
  have hclassify := classify_text h
  cases htext : t.text with
  | nil =>
    rw [htext] at hclassify
    have hnone : classify [] = none := by decide
    rw [hnone] at hclassify
    cases hclassify
  | cons c p =>
    rw [htext] at hchars hclassify
    obtain ⟨hc, hp⟩ := List.forall_mem_cons.mp hchars
    have hstep : LexState.between.step c = some ([], .atom [c]) := lexBetween_atomChar hc
    rw [List.cons_append, lexFrom_cons_nil _ hstep, lexFrom_atomChars hp]
    exact lexFrom_atom_end hclassify hs

/-! ## Reading a text -/

/-- Two numbers or words never stand side by side. -/
def Separated (ts : List Token) : Prop := ts.IsChain fun a b => a.isAtom = true → b.isAtom = false

theorem lexFrom_punctuation {c : UInt16} {t : Token} (h : lexBetween c = some ([t], .between))
    (s : JsString) : lexFrom .between ([c] ++ s) = (lexFrom .between s).map (t :: ·) :=
  lexFrom_cons s (show LexState.between.step c = _ from h)

/-- Every other token says where it ends. -/
theorem lexFrom_text {t : Token} (h : t.isAtom = false) (s : JsString) :
    lexFrom .between (t.text ++ s) = (lexFrom .between s).map (t :: ·) := by
  cases t with
  | str string => exact lexFrom_quote string s
  | leftBrace => exact lexFrom_punctuation (c := 0x7B) rfl s
  | rightBrace => exact lexFrom_punctuation (c := 0x7D) rfl s
  | leftBracket => exact lexFrom_punctuation (c := 0x5B) rfl s
  | rightBracket => exact lexFrom_punctuation (c := 0x5D) rfl s
  | colon => exact lexFrom_punctuation (c := 0x3A) rfl s
  | comma => exact lexFrom_punctuation (c := 0x2C) rfl s
  | num | bool | null => cases h

theorem delimited_text {t : Token} (h : t.isAtom = false) (s : JsString) :
    Delimited (t.text ++ s) := by
  cases t with
  | num | bool | null => cases h
  | _ =>
    intro c hc
    obtain rfl := Option.some.inj hc
    decide

/-- One token, then the rest. -/
theorem lexFrom_token {t : Token} {s : JsString} (hs : t.isAtom = true → Delimited s) :
    lexFrom .between (t.text ++ s) = (lexFrom .between s).map (t :: ·) := by
  cases hatom : t.isAtom with
  | false => exact lexFrom_text hatom s
  | true => exact lexFrom_atom hatom (hs hatom)

/-- Behind a number or a word of separated tokens something else follows. -/
theorem Separated.delimited {t : Token} {ts : List Token} (hts : Separated (t :: ts)) {s : JsString}
    (hs : Delimited s) (hatom : t.isAtom = true) : Delimited (ts.flatMap (·.text) ++ s) := by
  cases ts with
  | nil => exact hs
  | cons t' ts =>
    rw [List.flatMap_cons, List.append_assoc]
    exact delimited_text (hts.rel_head? rfl hatom) _

/-- **Written tokens are read back.** -/
theorem lexFrom_texts {ts : List Token} (hts : Separated ts) {s : JsString} (hs : Delimited s) :
    lexFrom .between (ts.flatMap (·.text) ++ s) = (lexFrom .between s).map (ts ++ ·) := by
  induction ts with
  | nil => exact (Option.map_id' ..).symm
  | cons t ts ih =>
    rw [List.flatMap_cons, List.append_assoc, lexFrom_token (hts.delimited hs), ih hts.tail,
      Option.map_map]
    rfl

theorem Separated.delimiter {ts : List Token} {t : Token} (hts : Separated ts)
    (ht : t.isAtom = false) : Separated (t :: ts) :=
  List.IsChain.cons hts fun _ _ h => absurd h (by rw [ht]; decide)

mutual

/-- A value's tokens, with something else than an atom behind them, are separated. -/
theorem separated_tokens : ∀ (v : Json) {ts : List Token}, Separated ts →
    (∀ t ∈ ts.head?, t.isAtom = false) → Separated (v.tokens ++ ts)
  | .null, _, hts, hhead => List.IsChain.cons hts fun t ht _ => hhead t ht
  | .bool _, _, hts, hhead => List.IsChain.cons hts fun t ht _ => hhead t ht
  | .num _, _, hts, hhead => List.IsChain.cons hts fun t ht _ => hhead t ht
  | .str _, _, hts, _ => hts.delimiter rfl
  | .arr [], _, hts, _ => (hts.delimiter rfl).delimiter rfl
  | .arr (v :: items), ts, hts, _ => by
    have hitems := separated_itemTokens items hts
    rw [tokens, List.cons_append, List.append_assoc]
    exact (separated_tokens v hitems.1 hitems.2).delimiter rfl
  | .obj [], _, hts, _ => (hts.delimiter rfl).delimiter rfl
  | .obj ((k, v) :: entries), ts, hts, _ => by
    have hentries := separated_entryTokens entries hts
    rw [tokens, List.cons_append, List.cons_append, List.cons_append, List.append_assoc]
    exact (((separated_tokens v hentries.1 hentries.2).delimiter rfl).delimiter rfl).delimiter rfl

theorem separated_itemTokens : ∀ (items : List Json) {ts : List Token}, Separated ts →
    Separated (itemTokens items ++ ts) ∧ ∀ t ∈ (itemTokens items ++ ts).head?, t.isAtom = false
  | [], _, hts => ⟨hts.delimiter rfl, by simp [itemTokens, Token.isAtom]⟩
  | v :: items, ts, hts => by
    have hitems := separated_itemTokens items hts
    rw [itemTokens, List.cons_append, List.append_assoc]
    exact ⟨(separated_tokens v hitems.1 hitems.2).delimiter rfl, by simp [Token.isAtom]⟩

theorem separated_entryTokens : ∀ (entries : List (JsString × Json)) {ts : List Token},
    Separated ts → Separated (entryTokens entries ++ ts) ∧
      ∀ t ∈ (entryTokens entries ++ ts).head?, t.isAtom = false
  | [], _, hts => ⟨hts.delimiter rfl, by simp [entryTokens, Token.isAtom]⟩
  | (k, v) :: entries, ts, hts => by
    have hentries := separated_entryTokens entries hts
    rw [entryTokens, List.cons_append, List.cons_append, List.cons_append, List.append_assoc]
    exact ⟨(((separated_tokens v hentries.1 hentries.2).delimiter rfl).delimiter rfl).delimiter rfl,
      by simp [Token.isAtom]⟩

end

theorem separated_tokens_self (v : Json) : Separated v.tokens := by
  have h : Separated (v.tokens ++ []) := separated_tokens v .nil (by simp)
  rwa [List.append_nil] at h

/-- **What `JSON.stringify` writes is read token by token.** -/
theorem lex_stringify (v : Json) : lex v.stringify = some v.tokens := by
  have h := lexFrom_texts (separated_tokens_self v) (s := []) (by simp [Delimited])
  rw [List.append_nil] at h
  rw [lex, stringify, h]
  simp [lexFrom, LexState.finish]

/-! ## Texts cut at a line separator -/

theorem isLineTerminator_hexDigit {n : ℕ} (h : n < 16) : isLineTerminator (hexDigit n) = false := by
  interval_cases n <;> decide

/-- **Quoting writes no line terminator** but a separator of the string itself. -/
theorem Quoted.eq_of_isLineTerminator {c x : UInt16} {t : JsString} (h : Quoted c t) (hx : x ∈ t)
    (hterm : isLineTerminator x = true) : x = c ∧ isSeparator c = true := by
  cases h with
  | raw hquote hbackslash hcontrol =>
    obtain rfl := List.mem_singleton.mp hx
    refine ⟨rfl, ?_⟩
    simp only [isLineTerminator, Bool.or_eq_true, beq_iff_eq] at hterm
    obtain ((rfl | rfl) | rfl) | rfl := hterm
    · exact absurd (by decide) hcontrol
    · exact absurd (by decide) hcontrol
    · rfl
    · rfl
  | short e he hunescape he' =>
    obtain rfl | rfl : x = 0x5C ∨ x = e := by simpa using hx
    · cases hterm
    · rw [he'] at hterm
      cases hterm
  | unicode =>
    have hlt := c.toNat_lt
    have hdigit : ∀ {n : ℕ}, n < 16 → x ≠ hexDigit n := by
      rintro n hn rfl
      rw [isLineTerminator_hexDigit hn] at hterm
      cases hterm
    have hmem : x ∈ [0x5C, 0x75, hexDigit (c.toNat / 0x1000), hexDigit (c.toNat / 0x100 % 16),
      hexDigit (c.toNat / 0x10 % 16), hexDigit (c.toNat % 16)] := hx
    simp only [List.mem_cons, List.not_mem_nil, or_false] at hmem
    obtain rfl | rfl | h | h | h | h := hmem
    · cases hterm
    · cases hterm
    · exact absurd h (hdigit (by omega))
    · exact absurd h (hdigit (by omega))
    · exact absurd h (hdigit (by omega))
    · exact absurd h (hdigit (by omega))

/-- A separator is quoted as itself. -/
theorem Quoted.eq_of_isSeparator {c : UInt16} {t : JsString} (h : Quoted c t)
    (hc : isSeparator c = true) : t = [c] := by
  cases h with
  | raw => rfl
  | short _ _ _ _ hsep => rw [hc] at hsep; cases hsep
  | unicode hsep => rw [hc] at hsep; cases hsep

theorem restOfLine_append {s : JsString} (hs : ∀ c ∈ s, isLineTerminator c = false) (t : JsString) :
    restOfLine (s ++ t) = s ++ restOfLine t :=
  List.takeWhile_append_of_pos fun c hc => by rw [hs c hc]; rfl

theorem restOfLine_eq_self {s : JsString} (hs : ∀ c ∈ s, isLineTerminator c = false) :
    restOfLine s = s := by
  have h := restOfLine_append hs []
  rwa [List.append_nil, show restOfLine [] = [] from rfl, List.append_nil] at h

/-- A string without separators. -/
def LineSafe (s : JsString) : Prop := ∀ c ∈ s, isSeparator c = false

/-- **No string of the value, and no key, has a line separator.** -/
def LineSafeStrings (v : Json) : Prop := ∀ s ∈ v.strings, LineSafe s

instance (s : JsString) : Decidable (LineSafe s) :=
  decidable_of_iff (s.all (!isSeparator ·) = true) (by simp [LineSafe])

instance (v : Json) : Decidable v.LineSafeStrings :=
  inferInstanceAs (Decidable (∀ s ∈ v.strings, LineSafe s))

theorem mem_of_mem_quoteFrom {paired : Bool} {s : JsString} {x : UInt16}
    (hx : x ∈ quoteFrom paired s)
    (hterm : isLineTerminator x = true) : x ∈ s ∧ isSeparator x = true := by
  induction s generalizing paired with
  | nil => cases hx
  | cons c s ih =>
    rw [quoteFrom] at hx
    rcases List.mem_append.mp hx with hx | hx
    · obtain ⟨rfl, hsep⟩ := (quoted_quoteUnit ..).eq_of_isLineTerminator hx hterm
      exact ⟨List.mem_cons_self, hsep⟩
    · obtain ⟨hmem, hsep⟩ := ih hx
      exact ⟨List.mem_cons_of_mem _ hmem, hsep⟩

/-- **A string cut at its first separator is not read to an end.** -/
theorem lexFrom_quoteFrom_cut {paired : Bool} {string : JsString} (h : ¬LineSafe string)
    (text s : JsString) :
    lexFrom (.string text) (restOfLine (quoteFrom paired string ++ s)) = none := by
  induction string generalizing paired text with
  | nil => exact absurd (by simp [LineSafe]) h
  | cons c string ih =>
    rw [quoteFrom, List.append_assoc]
    cases hc : isSeparator c with
    | true =>
      have hterm : isLineTerminator c = true := by
        rw [isLineTerminator, Bool.or_assoc, ← isSeparator, hc, Bool.or_true]
      have hcut : restOfLine (c :: (quoteFrom (isHighSurrogate c && string.head?.any isLowSurrogate)
          string ++ s)) = [] := by
        rw [restOfLine, List.takeWhile_cons_of_neg (by rw [hterm]; decide)]
      rw [(quoted_quoteUnit ..).eq_of_isSeparator hc, List.singleton_append, hcut]
      rfl
    | false =>
      have hrest : ¬LineSafe string := fun hrest => h (List.forall_mem_cons.mpr ⟨hc, hrest⟩)
      have hunit : ∀ x ∈ quoteUnit paired c string.head?, isLineTerminator x = false := by
        intro x hx
        by_contra hterm
        have hsep := ((quoted_quoteUnit ..).eq_of_isLineTerminator hx (by simpa using hterm)).2
        rw [hc] at hsep
        cases hsep
      rw [restOfLine_append hunit, lexFrom_quoted (quoted_quoteUnit ..)]
      exact ih hrest _

/-- A line terminator in the text of a token is a separator in its string. -/
theorem Token.exists_of_isLineTerminator {t : Token} {x : UInt16} (hx : x ∈ t.text)
    (hterm : isLineTerminator x = true) : ∃ s, t = .str s ∧ x ∈ s ∧ isSeparator x = true := by
  have hnone : ¬t.text.all (!isLineTerminator ·) = true := fun h => by
    have hx := List.all_eq_true.mp h x hx
    rw [hterm] at hx
    cases hx
  cases t with
  | str s =>
    refine ⟨s, rfl, mem_of_mem_quoteFrom (?_ : x ∈ quoteFrom false s) hterm⟩
    rw [text, quote] at hx
    simp only [List.mem_cons, List.mem_append, List.not_mem_nil, or_false] at hx
    obtain rfl | hx | rfl := hx
    · cases hterm
    · exact hx
    · cases hterm
  | num n =>
    have hatom := n.isAtomChar x hx
    simp only [isLineTerminator, Bool.or_eq_true, beq_iff_eq] at hterm
    obtain ((rfl | rfl) | rfl) | rfl := hterm
    all_goals exact absurd hatom (by decide)
  | bool b => exact absurd (by cases b <;> rfl) hnone
  | _ => exact absurd rfl hnone

/-- The token's string, if it has one, has no separator. -/
def Token.LineSafe (t : Token) : Prop := ∀ s, t = .str s → Json.LineSafe s

theorem Token.isLineTerminator_text {t : Token} (h : t.LineSafe) :
    ∀ x ∈ t.text, isLineTerminator x = false := by
  intro x hx
  by_contra hterm
  obtain ⟨s, hs, hmem, hsep⟩ := exists_of_isLineTerminator hx (by simpa using hterm)
  rw [h s hs x hmem] at hsep
  cases hsep

theorem Delimited.restOfLine {s : JsString} (h : Delimited s) : Delimited s.restOfLine := by
  intro c hc
  rw [JsString.restOfLine, List.head?_takeWhile, Option.mem_filter_iff] at hc
  exact h c hc.1

/-- Tokens cut in a string are not read. -/
theorem lexFrom_texts_cut {ts : List Token} (hts : Separated ts) (h : ¬∀ t ∈ ts, t.LineSafe) :
    lexFrom .between (restOfLine (ts.flatMap (·.text))) = none := by
  induction ts with
  | nil => exact absurd (by simp) h
  | cons t ts ih =>
    rw [List.flatMap_cons]
    by_cases ht : t.LineSafe
    · have hrest : ¬∀ t ∈ ts, t.LineSafe := fun hrest => h (List.forall_mem_cons.mpr ⟨ht, hrest⟩)
      rw [restOfLine_append (Token.isLineTerminator_text ht), lexFrom_token, ih hts.tail hrest]
      · rfl
      · intro hatom
        have hdelimited := hts.delimited (s := []) (by simp [Delimited]) hatom
        rw [List.append_nil] at hdelimited
        exact hdelimited.restOfLine
    · simp only [Token.LineSafe, not_forall] at ht
      obtain ⟨s, rfl, hs⟩ := ht
      change lexFrom .between (restOfLine (0x22 :: (quoteFrom false s ++ [0x22]) ++ _)) = none
      rw [List.cons_append, List.append_assoc, restOfLine, List.takeWhile_cons_of_pos (by decide),
        lexFrom_cons_nil _ step_openQuote]
      exact lexFrom_quoteFrom_cut hs _ _

/-- **`JSON.stringify` escapes line feeds and carriage returns.** -/
theorem isSeparator_of_mem_stringify {v : Json} {x : UInt16} (hx : x ∈ v.stringify)
    (hterm : isLineTerminator x = true) : isSeparator x = true := by
  obtain ⟨t, -, hx⟩ := List.mem_flatMap.mp hx
  obtain ⟨s, -, -, hsep⟩ := Token.exists_of_isLineTerminator hx hterm
  exact hsep

/-- **A line of a written value.** -/
theorem restOfLine_stringify {v : Json} (h : v.LineSafeStrings) :
    v.stringify.restOfLine = v.stringify := by
  refine restOfLine_eq_self fun x hx => ?_
  obtain ⟨t, ht, hx⟩ := List.mem_flatMap.mp hx
  refine Token.isLineTerminator_text (fun s hs => h s ?_) x hx
  exact List.mem_filterMap.mpr ⟨t, ht, by rw [hs]⟩

/-- **A written value cut at a separator is no text of any value.** -/
theorem lex_restOfLine_stringify {v : Json} (h : ¬v.LineSafeStrings) :
    lex v.stringify.restOfLine = none := by
  refine lexFrom_texts_cut (separated_tokens_self v) fun hall => h fun s hs => ?_
  obtain ⟨t, ht, hsome⟩ := List.mem_filterMap.mp hs
  split at hsome
  · obtain rfl := Option.some.inj hsome
    exact hall _ ht _ rfl
  · cases hsome

end Json

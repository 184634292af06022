import SupportAgent.Machinery.Js

/-!
# Machinery/Json/Value — JSON values and the text `JSON.stringify` writes

A value is written token by token: `Json.tokens` lists the tokens and `Token.text` spells each.
Only strings need care — control characters and the halves of surrogate pairs are escaped,
everything else is written as it is, U+2028 and U+2029 included.
-/

namespace Json

open JsString

/-! ## Numbers -/

/-- Where a reader stands in `-?(0|[1-9]\d*)(\.\d+)?([eE][+-]?\d+)?`. -/
inductive NumberState
  | start
  | sign
  | zero
  | integer
  | point
  | fraction
  | exponent
  | exponentSign
  | exponentDigits
  deriving DecidableEq

/-- The state after one more character. -/
def NumberState.step (st : NumberState) (c : UInt16) : Option NumberState :=
  if isDigit c then
    match st with
    | start | sign => some (if c = 0x30 then zero else integer)
    | zero => none
    | integer => some integer
    | point | fraction => some fraction
    | exponent | exponentSign | exponentDigits => some exponentDigits
  else if c = 0x2E then
    match st with
    | zero | integer => some point
    | _ => none
  else if c = 0x65 ∨ c = 0x45 then
    match st with
    | zero | integer | fraction => some exponent
    | _ => none
  else if c = 0x2D then
    match st with
    | start => some sign
    | exponent => some exponentSign
    | _ => none
  else if c = 0x2B then
    match st with
    | exponent => some exponentSign
    | _ => none
  else none

def NumberState.accepting : NumberState → Bool
  | zero | integer | fraction | exponentDigits => true
  | _ => false

/-- A number of the grammar. -/
def isNumber (text : JsString) : Bool := (text.foldlM NumberState.step .start).any (·.accepting)

/-- A number, as it is written. -/
structure NumberLiteral where
  text : JsString
  valid : isNumber text = true
  deriving DecidableEq

/-- The characters of numbers and of `true`, `false` and `null`. -/
def isAtomChar (c : UInt16) : Bool :=
  isDigit c || (0x61 ≤ c && c ≤ 0x7A) || c == 0x2E || c == 0x45 || c == 0x2D || c == 0x2B

theorem NumberState.isAtomChar_of_step {st st' : NumberState} {c : UInt16}
    (h : st.step c = some st') : isAtomChar c := by
  by_cases hdigit : isDigit c = true
  · simp [isAtomChar, hdigit]
  by_cases hsymbol : c = 0x2E ∨ (c = 0x65 ∨ c = 0x45) ∨ c = 0x2D ∨ c = 0x2B
  · obtain rfl | (rfl | rfl) | rfl | rfl := hsymbol <;> decide
  · simp only [not_or] at hsymbol
    obtain ⟨h₁, ⟨h₂, h₃⟩, h₄, h₅⟩ := hsymbol
    simp [step, hdigit, h₁, h₂, h₃, h₄, h₅] at h

theorem isAtomChar_of_foldlM {text : JsString} {st st' : NumberState}
    (h : text.foldlM NumberState.step st = some st') : ∀ c ∈ text, isAtomChar c := by
  induction text generalizing st with
  | nil => simp
  | cons c text ih =>
    rw [List.foldlM_cons] at h
    obtain ⟨st₁, hst₁, h⟩ := Option.bind_eq_some_iff.mp h
    exact List.forall_mem_cons.mpr ⟨NumberState.isAtomChar_of_step hst₁, ih h⟩

/-- A number is written in characters of its own. -/
theorem NumberLiteral.isAtomChar (n : NumberLiteral) : ∀ c ∈ n.text, Json.isAtomChar c := by
  have hvalid := n.valid
  rw [isNumber, Option.any_eq_true] at hvalid
  obtain ⟨st, hst, -⟩ := hvalid
  exact isAtomChar_of_foldlM hst

end Json

/-! ## Values -/

/-- A JSON value. -/
inductive Json
  | null
  | bool (b : Bool)
  | num (n : Json.NumberLiteral)
  | str (s : JsString)
  | arr (items : List Json)
  | obj (entries : List (JsString × Json))

namespace Json

open JsString

mutual

/-- **No object names a key twice.** -/
def DistinctKeys : Json → Prop
  | arr items => itemsDistinct items
  | obj entries => (entries.map (·.1)).Nodup ∧ entriesDistinct entries
  | _ => True

def itemsDistinct : List Json → Prop
  | [] => True
  | v :: items => v.DistinctKeys ∧ itemsDistinct items

def entriesDistinct : List (JsString × Json) → Prop
  | [] => True
  | (_, v) :: entries => v.DistinctKeys ∧ entriesDistinct entries

end

/-! ## Tokens -/

inductive Token
  | leftBrace
  | rightBrace
  | leftBracket
  | rightBracket
  | colon
  | comma
  | str (s : JsString)
  | num (n : NumberLiteral)
  | bool (b : Bool)
  | null
  deriving DecidableEq

mutual

/-- The tokens of a value, in the order they are written. -/
def tokens : Json → List Token
  | null => [.null]
  | bool b => [.bool b]
  | num n => [.num n]
  | str s => [.str s]
  | arr [] => [.leftBracket, .rightBracket]
  | arr (v :: items) => .leftBracket :: (v.tokens ++ itemTokens items)
  | obj [] => [.leftBrace, .rightBrace]
  | obj ((k, v) :: entries) => .leftBrace :: .str k :: .colon :: (v.tokens ++ entryTokens entries)

/-- What follows the first item of an array. -/
def itemTokens : List Json → List Token
  | [] => [.rightBracket]
  | v :: items => .comma :: (v.tokens ++ itemTokens items)

/-- What follows the first entry of an object. -/
def entryTokens : List (JsString × Json) → List Token
  | [] => [.rightBrace]
  | (k, v) :: entries => .comma :: .str k :: .colon :: (v.tokens ++ entryTokens entries)

end

/-- The strings of a value, its keys among them. -/
def strings (v : Json) : List JsString :=
  v.tokens.filterMap fun
    | .str s => some s
    | _ => none

/-! ## Quoting -/

def isHighSurrogate (c : UInt16) : Bool := 0xD800 ≤ c && c ≤ 0xDBFF

def isLowSurrogate (c : UInt16) : Bool := 0xDC00 ≤ c && c ≤ 0xDFFF

/-- A hexadecimal digit, in lower case. -/
def hexDigit (n : ℕ) : UInt16 := UInt16.ofNat (if n < 10 then 0x30 + n else 0x57 + n)

/-- The escape `\uXXXX`. -/
def unicodeEscape (c : UInt16) : JsString :=
  js "\\u" ++ [hexDigit (c.toNat / 0x1000), hexDigit (c.toNat / 0x100 % 16),
    hexDigit (c.toNat / 0x10 % 16), hexDigit (c.toNat % 16)]

/-- One code unit of a quoted string; `paired` says it is the second half of a pair, `next` is what
follows it. -/
def quoteUnit (paired : Bool) (c : UInt16) (next : Option UInt16) : JsString :=
  if c = 0x22 then js "\\\""
  else if c = 0x5C then js "\\\\"
  else if c = 0x08 then js "\\b"
  else if c = 0x0C then js "\\f"
  else if c = 0x0A then js "\\n"
  else if c = 0x0D then js "\\r"
  else if c = 0x09 then js "\\t"
  else if c < 0x20 then unicodeEscape c
  else if isHighSurrogate c && !next.any isLowSurrogate then unicodeEscape c
  else if isLowSurrogate c && !paired then unicodeEscape c
  else [c]

def quoteFrom : (paired : Bool) → JsString → JsString
  | _, [] => []
  | paired, c :: s =>
    quoteUnit paired c s.head? ++ quoteFrom (isHighSurrogate c && s.head?.any isLowSurrogate) s

/-- A quoted string. -/
def quote (s : JsString) : JsString := 0x22 :: (quoteFrom false s ++ [0x22])

def Token.text : Token → JsString
  | leftBrace => js "\x7b"
  | rightBrace => js "\x7d"
  | leftBracket => js "["
  | rightBracket => js "]"
  | colon => js ":"
  | comma => js ","
  | str s => quote s
  | num n => n.text
  | bool b => if b then js "true" else js "false"
  | null => js "null"

/-- `JSON.stringify(v)`. -/
def stringify (v : Json) : JsString := v.tokens.flatMap (·.text)

end Json

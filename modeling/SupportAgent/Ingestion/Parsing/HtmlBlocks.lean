import SupportAgent.Chat.PromptAssembly
import SupportAgent.Ingestion.Parsing.Parse
import SupportAgent.Machinery.Matching

/-!
# Ingestion/Parsing/HtmlBlocks — blocks out of the HTML of a DOCX file

`htmlToBlocks` takes the headings and paragraphs out of the HTML that `mammoth` makes of a DOCX
file, by one regular expression; `stripTags` reads the text of each.  The conversion itself is a
parameter.
-/

namespace Ingestion

open JsString Matching

/-! ## The text of an element -/

/-- `String.fromCodePoint(value)`, for a code point. -/
def fromCodePoint (value : ℕ) : JsString :=
  if value < 0x10000 then [UInt16.ofNat value]
  else
    let v := value - 0x10000
    [UInt16.ofNat (0xD800 + v / 0x400), UInt16.ofNat (0xDC00 + v % 0x400)]

def decodeCodePoint (value : ℕ) : JsString := if value ≤ 0x10FFFF then fromCodePoint value else []

def ENTITIES : List (JsString × JsString) :=
  [(js "&amp;", js "&"), (js "&lt;", js "<"), (js "&gt;", js ">"), (js "&quot;", js "\""),
    (js "&#39;", js "'"), (js "&nbsp;", js " ")]

/-- The number written by digits. -/
def numberOf (base : ℕ) (digits : JsString) : ℕ :=
  digits.foldl (fun n c => base * n + (hexValue c).getD 0) 0

/-- A match of `/<[^>]+>/`, which goes. -/
def markupAt : JsString → Option (JsString × ℕ)
  | [] => none
  | c :: s =>
    let inside := s.takeWhile (· != 0x3E)
    if c = 0x3C ∧ inside ≠ [] ∧ inside.length < s.length then some ([], inside.length + 2) else none

/-- A match of `&#`, a mark, digits and `;`, with the character of their value. -/
def numberAt (mark : JsString) (base : ℕ) (isDigit : UInt16 → Bool) (s : JsString) :
    Option (JsString × ℕ) :=
  if mark.isPrefixOf s then
    let digits := (s.drop mark.length).takeWhile isDigit
    if digits ≠ [] ∧ (s.drop (mark.length + digits.length)).head? = some 0x3B then
      some (decodeCodePoint (numberOf base digits), mark.length + digits.length + 1)
    else none
  else none

/-- A match of `/&#x([0-9a-fA-F]+);/`. -/
def hexNumberAt : JsString → Option (JsString × ℕ) :=
  numberAt (js "&#x") 16 fun c => (hexValue c).isSome

/-- A match of `/&#(\d+);/`. -/
def decimalNumberAt : JsString → Option (JsString × ℕ) := numberAt (js "&#") 10 isDigit

/-- A match of `/&amp;|&lt;|&gt;|&quot;|&#39;|&nbsp;/`. -/
def entityAt (s : JsString) : Option (JsString × ℕ) :=
  (ENTITIES.find? fun e => e.1.isPrefixOf s).map fun e => (e.2, e.1.length)

/-- Strip tags, decode named + numeric entities, and collapse whitespace. -/
def stripTags (html : JsString) : JsString :=
  let text := replaceAll markupAt 0 html
  let text := replaceAll hexNumberAt 0 text
  let text := replaceAll decimalNumberAt 0 text
  let text := replaceAll entityAt 0 text
  trim (collapseSpaces false text)

/-! ## Blocks -/

/-- The class `\w`. -/
def isWordUnit (c : UInt16) : Bool :=
  isDigit c || (0x41 ≤ c && c ≤ 0x5A) || (0x61 ≤ c && c ≤ 0x7A) || c == 0x5F

/-- `(h[1-6]|p)`, in lower case. -/
def blockName : JsString → Option JsString
  | [] => none
  | c :: s =>
    if toLowerAscii c = 0x70 then some [0x70]
    else if toLowerAscii c = 0x68 then
      match s with
      | d :: _ => if 0x31 ≤ d ∧ d ≤ 0x36 then some [0x68, d] else none
      | [] => none
    else none

/-- A text begins with the end tag of a block, whatever its case. -/
def endsBlock (name s : JsString) : Bool :=
  (js "</" ++ name ++ js ">").isPrefixOf (s.map toLowerAscii)

/-- What is behind the name of a block's start tag: the rest of the tag, and the content up to the
first end tag of that name.  It comes with the length of all that. -/
def blockBody (name s : JsString) : Option (JsString × ℕ) :=
  let attributes := s.takeWhile (· != 0x3E)
  let body := s.drop (attributes.length + 1)
  -- `\b`, then `[^>]*>`
  if s.head?.any isWordUnit ∨ s.length ≤ attributes.length then none
  else (firstIndex (endsBlock name) body).map fun i =>
    (body.take i, attributes.length + 1 + i + (name.length + 3))

/-- A match of `/<(h[1-6]|p)\b[^>]*>([\s\S]*?)<\/\1>/i`: the name and the content. -/
def blockAt : JsString → Option ((JsString × JsString) × ℕ)
  | [] => none
  | c :: s =>
    if c = 0x3C then
      (blockName s).bind fun name => (blockBody name (s.drop name.length)).map fun body =>
        ((name, body.1), 1 + name.length + body.2)
    else none

/-- The block of a match, unless it has no text. -/
def blockOf (name inner : JsString) : Option RawBlock :=
  let text := stripTags inner
  if text = [] then none
  else
    match name with
    | [_, level] => some { text, page := 1, heading := true, level := some (level.toNat - 0x30) }
    | _ => some { text, page := 1 }

/-- Turn flow HTML into ordered blocks. -/
def htmlToBlocks (html : JsString) : List RawBlock :=
  (scan blockAt 0 html).filterMap fun found => blockOf found.1 found.2

/-- DOCX: convert to HTML, then structure it. -/
def parseDocx (convertToHtml : Bytes → Except JsError JsString) (bytes : Bytes) :
    Except JsError FormatParseResult := do
  let html ← convertToHtml bytes
  let blocks := htmlToBlocks html
  return { blocks, pageCount := 1, warnings := if blocks = [] then [js "no extractable text"]
    else [] }

example : (htmlToBlocks (js "<h1>Big</h1><p>para &amp; text</p><H3 id=\"a\">Small</h3>")).map
    (fun b => (b.text, b.heading, b.level)) =
      [(js "Big", true, some 1), (js "para & text", false, none), (js "Small", true, some 3)] := by
  decide +kernel

end Ingestion

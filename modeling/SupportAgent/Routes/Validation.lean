import SupportAgent.Chat.PromptAssembly
import SupportAgent.Machinery.Json.Value

/-!
# Routes/Validation — what the routes check of their input

The schemas are `zod`'s: `z.string()` takes a string and nothing else, `.uuid()` the same pattern as
the routes' own `UUID_RE`.  A number of a query or a body is taken as `Number` reads it.
-/

open Ingestion JsString

/-- The `UUID_RE` pattern, with the number the digits spell. -/
def Uuid.parse (s : JsString) : Option Uuid :=
  if s.length = 36 ∧ [8, 13, 18, 23].all (fun i => s[i]? == some 0x2D) then
    let digits := slice s 0 8 ++ slice s 9 13 ++ slice s 14 18 ++ slice s 19 23 ++ slice s 24 36
    (digits.mapM hexValue).map fun ns => ns.foldl (fun n d => 16 * n + d) 0
  else none

/-- `z.string()`; `none` is `undefined`. -/
def zodString : Option Json → Option JsString
  | some (.str s) => some s
  | _ => none

/-- `z.string().uuid()`. -/
def zodUuid (v : Option Json) : Option Uuid := (zodString v).bind Uuid.parse

/-- `.optional()`. -/
def zodOptional {α : Type} (schema : Option Json → Option α)
    (v : Option Json) : Option (Option α) :=
  if v.isNone then some none else (schema v).map some

/-- `z.string().min(least).max(most)`, after `change`. -/
def zodText (least most : ℕ) (change : JsString → JsString) (v : Option Json) : Option JsString :=
  ((zodString v).map change).filter fun s => least ≤ s.length && s.length ≤ most

/-- `z.string().trim().min(1).max(4000)`. -/
def zodQuestion (v : Option Json) : Option JsString := zodText 1 4000 trim v

/-! ## File names -/

/-- What looking up an extension in `EXT_TO_SOURCE` finds: a type, or something every object has. -/
inductive FoundType
  | source (t : SourceType)
  | inherited
  deriving DecidableEq

/-- `toLowerCase` where it gives an ASCII letter: of the ASCII capitals, and of the Kelvin sign. -/
def lowerUnit (c : UInt16) : UInt16 := if c = 0x212A then 0x6B else toLowerAscii c

/-- `EXT_TO_SOURCE[ext]`. -/
def EXT_TO_SOURCE (ext : JsString) : Option FoundType :=
  if ext = js "pdf" then some (.source .PDF)
  else if ext = js "docx" then some (.source .DOCX)
  else if ext = js "md" then some (.source .MD)
  else if ext = js "markdown" then some (.source .MD)
  else if ext = js "txt" then some (.source .TXT)
  -- the names of `Object.prototype` that are their own lower case
  else if ext = js "constructor" ∨ ext = js "__proto__" then some .inherited
  else none

/-- Map a filename to its source type. -/
def resolveSourceType (filename : JsString) : Option FoundType :=
  if 0x2E ∈ filename then
    EXT_TO_SOURCE ((filename.rtakeWhile (· != 0x2E)).map lowerUnit)
  else none

/-- The result of `upload.single('file')`. -/
structure UploadedFile where
  originalname : JsString
  buffer : Bytes

/-- A multipart request: over one of the limits, or its text fields and its file. -/
inductive Multipart
  | tooLarge
  | malformed
  | form (assistantId : Option Json) (file : Option UploadedFile)

/-- A `limit` parameter as the `take` of a query, which cuts a fraction off. -/
def listTake (limit : JsNumber) : ℕ :=
  match limit with
  | .nan => 50
  | .posInf => 200
  | .negInf => 1
  | .finite q => (if q = 0 then 50 else min (max q 1) 200).floor.toNat

import Mathlib.Data.List.Nodup
import SupportAgent.Machinery.Json.Lex

/-!
# Machinery/Json/Parse — reading a value

The parser takes one token at a time, with the open brackets on a stack.  `parse_stringify` is the
round trip, and `parse_restOfLine_stringify` what is left of it when only the first line is read.
-/

namespace Json

/-- An open bracket, and what was read since. -/
inductive Context
  | array (items : List Json)
  | object (entries : List (JsString × Json)) (key : JsString)

/-- What has just been read, or may come next. -/
inductive Position
  | value
  | firstItem
  | firstKey
  | key (entries : List (JsString × Json))
  | colon (entries : List (JsString × Json)) (key : JsString)
  | read (v : Json)

structure ParseState where
  position : Position
  stack : List Context

/-- An entry added to an object: a key that is there already is overwritten. -/
def putEntry (entries : List (JsString × Json)) (key : JsString) (v : Json) :
    List (JsString × Json) :=
  if entries.any (·.1 == key) then entries.map fun e => if e.1 == key then (key, v) else e
  else entries ++ [(key, v)]

/-- The first token of a value. -/
def startValue (stack : List Context) : Token → Option ParseState
  | .null => some ⟨.read .null, stack⟩
  | .bool b => some ⟨.read (.bool b), stack⟩
  | .num n => some ⟨.read (.num n), stack⟩
  | .str s => some ⟨.read (.str s), stack⟩
  | .leftBracket => some ⟨.firstItem, stack⟩
  | .leftBrace => some ⟨.firstKey, stack⟩
  | _ => none

def ParseState.step : ParseState → Token → Option ParseState
  | ⟨.value, stack⟩, t => startValue stack t
  | ⟨.firstItem, stack⟩, .rightBracket => some ⟨.read (.arr []), stack⟩
  | ⟨.firstItem, stack⟩, t => startValue (.array [] :: stack) t
  | ⟨.firstKey, stack⟩, .rightBrace => some ⟨.read (.obj []), stack⟩
  | ⟨.firstKey, stack⟩, .str key => some ⟨.colon [] key, stack⟩
  | ⟨.key entries, stack⟩, .str key => some ⟨.colon entries key, stack⟩
  | ⟨.colon entries key, stack⟩, .colon => some ⟨.value, .object entries key :: stack⟩
  | ⟨.read v, .array items :: stack⟩, .comma => some ⟨.value, .array (items ++ [v]) :: stack⟩
  | ⟨.read v, .array items :: stack⟩, .rightBracket => some ⟨.read (.arr (items ++ [v])), stack⟩
  | ⟨.read v, .object entries key :: stack⟩, .comma => some ⟨.key (putEntry entries key v), stack⟩
  | ⟨.read v, .object entries key :: stack⟩, .rightBrace =>
    some ⟨.read (.obj (putEntry entries key v)), stack⟩
  | _, _ => none

/-- The value a text ended with. -/
def ParseState.finish : ParseState → Option Json
  | ⟨.read v, []⟩ => some v
  | _ => none

def parseFrom (st : ParseState) (ts : List Token) : Option Json :=
  (ts.foldlM ParseState.step st).bind (·.finish)

/-- `JSON.parse(s)`. -/
def parse (s : JsString) : Option Json := (lex s).bind (parseFrom ⟨.value, []⟩)

/-! ## The round trip -/

theorem putEntry_of_notMem {entries : List (JsString × Json)} {key : JsString} (v : Json)
    (h : key ∉ entries.map (·.1)) : putEntry entries key v = entries ++ [(key, v)] := by
  refine if_neg fun hany => h ?_
  obtain ⟨e, he, hkey⟩ := List.any_eq_true.mp hany
  exact List.mem_map.mpr ⟨e, he, beq_iff_eq.mp hkey⟩

/-- The first item of an array is a value like the others. -/
theorem parseFrom_firstItem (v : Json) (stack : List Context) (ts : List Token) :
    parseFrom ⟨.firstItem, stack⟩ (v.tokens ++ ts) =
      parseFrom ⟨.value, .array [] :: stack⟩ (v.tokens ++ ts) := by
  match v with
  | .null | .bool _ | .num _ | .str _ | .arr [] | .arr (_ :: _) | .obj [] | .obj
      ((_, _) :: _) => rfl

mutual

/-- **A value's tokens are read back to it.** -/
theorem parseFrom_tokens :
    ∀ (v : Json), v.DistinctKeys → ∀ (stack : List Context) (ts : List Token),
    parseFrom ⟨.value, stack⟩ (v.tokens ++ ts) = parseFrom ⟨.read v, stack⟩ ts
  | .null, _, _, _ => rfl
  | .bool _, _, _, _ => rfl
  | .num _, _, _, _ => rfl
  | .str _, _, _, _ => rfl
  | .arr [], _, _, _ => rfl
  | .arr (v :: items), hv, stack, ts => by
    rw [DistinctKeys] at hv
    rw [tokens, List.cons_append, List.append_assoc]
    change parseFrom ⟨.firstItem, stack⟩ _ = _
    rw [parseFrom_firstItem, parseFrom_tokens v hv.1, parseFrom_itemTokens items hv.2]
    rfl
  | .obj [], _, _, _ => rfl
  | .obj ((k, v) :: entries), hv, stack, ts => by
    rw [DistinctKeys] at hv
    rw [tokens, List.cons_append, List.cons_append, List.cons_append, List.append_assoc]
    change parseFrom ⟨.value, .object [] k :: stack⟩ _ = _
    rw [parseFrom_tokens v hv.2.1, parseFrom_entryTokens entries hv.2.2 [] k v stack ts hv.1]
    rfl

theorem parseFrom_itemTokens : ∀ (items : List Json), itemsDistinct items → ∀ (done : List Json)
    (v : Json) (stack : List Context) (ts : List Token),
    parseFrom ⟨.read v, .array done :: stack⟩ (itemTokens items ++ ts) =
      parseFrom ⟨.read (.arr (done ++ v :: items)), stack⟩ ts
  | [], _, _, _, _, _ => rfl
  | w :: items, hitems, done, v, stack, ts => by
    rw [itemsDistinct] at hitems
    rw [itemTokens, List.cons_append, List.append_assoc]
    change parseFrom ⟨.value, .array (done ++ [v]) :: stack⟩ _ = _
    rw [parseFrom_tokens w hitems.1, parseFrom_itemTokens items hitems.2, List.append_assoc]
    rfl

theorem parseFrom_entryTokens : ∀ (entries : List (JsString × Json)), entriesDistinct entries →
    ∀ (done : List (JsString × Json)) (k : JsString) (v : Json) (stack : List Context)
    (ts : List Token), (done.map (·.1) ++ k :: entries.map (·.1)).Nodup →
    parseFrom ⟨.read v, .object done k :: stack⟩ (entryTokens entries ++ ts) =
      parseFrom ⟨.read (.obj (done ++ (k, v) :: entries)), stack⟩ ts
  | [], _, done, k, v, stack, ts, hkeys => by
    have hk : k ∉ done.map (·.1) := fun h => List.disjoint_of_nodup_append hkeys h (by simp)
    change parseFrom ⟨.read (.obj (putEntry done k v)), stack⟩ ts = _
    rw [putEntry_of_notMem v hk]
  | (k', w) :: entries, hentries, done, k, v, stack, ts, hkeys => by
    have hk : k ∉ done.map (·.1) := fun h => List.disjoint_of_nodup_append hkeys h (by simp)
    have hkeys' : ((done ++ [(k, v)]).map (·.1) ++ k' :: entries.map (·.1)).Nodup := by
      simpa using hkeys
    rw [entriesDistinct] at hentries
    rw [entryTokens, List.cons_append, List.cons_append, List.cons_append, List.append_assoc]
    change parseFrom ⟨.value, .object (putEntry done k v) k' :: stack⟩ _ = _
    rw [putEntry_of_notMem v hk, parseFrom_tokens w hentries.1,
      parseFrom_entryTokens entries hentries.2 _ _ _ _ _ hkeys', List.append_assoc]
    rfl

end

/-- **`JSON.parse` is an inverse of `JSON.stringify`.** -/
theorem parse_stringify {v : Json} (hv : v.DistinctKeys) : parse v.stringify = some v := by
  have h := parseFrom_tokens v hv [] []
  rw [List.append_nil] at h
  rw [parse, lex_stringify, Option.bind_some, h]
  rfl

/-- **The first line of a written value is the value, or no value at all.** -/
theorem parse_restOfLine_stringify {v : Json} (hv : v.DistinctKeys) :
    parse (JsString.restOfLine v.stringify) = if v.LineSafeStrings then some v else none := by
  split
  case isTrue h => rw [restOfLine_stringify h, parse_stringify hv]
  case isFalse h => rw [parse, lex_restOfLine_stringify h, Option.bind_none]

end Json

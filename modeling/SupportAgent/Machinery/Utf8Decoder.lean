import SupportAgent.Machinery.Json.Lex

/-!
# Machinery/Utf8Decoder — text as bytes, and bytes read as they arrive

A string is sent as the UTF-8 of its characters, a half of a surrogate pair as U+FFFD.  A streaming
decoder takes one byte at a time and gives out a character with its last byte, so that it does not
matter where the bytes are cut.

* `run_encode` — the decoder reads back what characters encode.
* `convert_of_has` — one more piece gives the text that one decoding of everything would add.
* `decode_of_convert` — so does a decoder that replaces malformed bytes, where there are none.
* `JsString.encode_append` — well-formed strings may be sent one by one.
* `Json.wellFormed_stringify` — `JSON.stringify` writes no half of a pair.
-/

namespace Utf8

/-! ## One byte -/

/-- A character that has begun: the continuation bytes owed after the next one, the range of the
next one, and the value so far. -/
structure Unfinished where
  owed : ℕ
  low : ℕ
  high : ℕ
  value : ℕ
  deriving DecidableEq

/-- A character begun by `lead`: the second byte excludes the overlong forms, the surrogates and
what lies beyond U+10FFFF. -/
def Unfinished.of (lead owed value : ℕ) : Unfinished where
  owed := owed
  low := if lead = 0xE0 then 0xA0 else if lead = 0xF0 then 0x90 else 0x80
  high := if lead = 0xED then 0x9F else if lead = 0xF4 then 0x8F else 0xBF
  value := value

/-- A first byte. -/
def first (b : ℕ) : Option (Option Unfinished × List Char) :=
  if b < 0x80 then some (none, [Char.ofNat b])
  else if 0xC2 ≤ b ∧ b < 0xE0 then some (some (.of b 0 (b - 0xC0)), [])
  else if 0xE0 ≤ b ∧ b < 0xF0 then some (some (.of b 1 (b - 0xE0)), [])
  else if 0xF0 ≤ b ∧ b < 0xF5 then some (some (.of b 2 (b - 0xF0)), [])
  else none

/-- A continuation byte. -/
def Unfinished.next (u : Unfinished) (b : ℕ) : Option (Option Unfinished × List Char) :=
  if u.low ≤ b ∧ b ≤ u.high then
    let value := 64 * u.value + (b - 0x80)
    match u.owed with
    | 0 => some (none, [Char.ofNat value])
    | owed + 1 => some (some ⟨owed, 0x80, 0xBF, value⟩, [])
  else none

/-- One byte: where the decoder then stands and the character it gives out, or none where the byte
is malformed. -/
def step : Option Unfinished → UInt8 → Option (Option Unfinished × List Char)
  | none, b => first b.toNat
  | some u, b => u.next b.toNat

/-- The bytes one after the other. -/
def run : Option Unfinished → List UInt8 → Option (Option Unfinished × List Char)
  | st, [] => some (st, [])
  | st, b :: bytes => do
    let (st, cs) ← step st b
    let (st, more) ← run st bytes
    return (st, cs ++ more)

/-- **Reading two pieces** is reading the first, then the second. -/
theorem run_append (st : Option Unfinished) (xs ys : List UInt8) :
    run st (xs ++ ys) = (run st xs).bind fun (st', cs) =>
      (run st' ys).map fun (st'', more) => (st'', cs ++ more) := by
  induction xs generalizing st with
  | nil =>
    change run st ys = (run st ys).map fun (st'', more) => (st'', more)
    exact (Option.map_id' ..).symm
  | cons b xs ih =>
    rw [List.cons_append, run, run]
    obtain hnone | ⟨⟨st', cs⟩, hsome⟩ := (step st b).eq_none_or_eq_some
    · rw [hnone]
      rfl
    · rw [hsome]
      change (run st' (xs ++ ys)).bind _ = ((run st' xs).bind _).bind _
      rw [ih]
      obtain hnone | ⟨⟨st₁, cs₁⟩, hsome⟩ := (run st' xs).eq_none_or_eq_some
      · rw [hnone]
        rfl
      · rw [hsome]
        change ((run st₁ ys).map _).bind _ = (run st₁ ys).map _
        obtain hnone | ⟨⟨st₂, cs₂⟩, hsome⟩ := (run st₁ ys).eq_none_or_eq_some
        · rw [hnone]
          rfl
        · rw [hsome]
          exact congrArg (fun l => some (st₂, l)) (List.append_assoc ..).symm

/-! ## One character -/

variable {st : Option Unfinished} {b : UInt8} {bytes : List UInt8}

/-- A byte that gives out nothing. -/
theorem run_cons_begun {u : Unfinished} (h : step st b = some (some u, [])) :
    run st (b :: bytes) = run (some u) bytes := by
  rw [run, h]
  change (run (some u) bytes).bind _ = _
  obtain hnone | ⟨⟨st', cs⟩, hsome⟩ := (run (some u) bytes).eq_none_or_eq_some
  · rw [hnone]
    rfl
  · rw [hsome]
    rfl

/-- The last byte of a character. -/
theorem run_cons_char {c : Char} (h : step st b = some (none, [c])) :
    run st (b :: bytes) = (run none bytes).map fun (st', cs) => (st', c :: cs) := by
  rw [run, h]
  change (run none bytes).bind _ = _
  obtain hnone | ⟨⟨st', cs⟩, hsome⟩ := (run none bytes).eq_none_or_eq_some
  · rw [hnone]
    rfl
  · rw [hsome]
    rfl

/-- A continuation byte with six bits of the character. -/
theorem next_of_range {u : Unfinished} {n : ℕ} (hn : n < 0x40) (hlow : u.low ≤ n + 0x80)
    (hhigh : n + 0x80 ≤ u.high) :
    step (some u) (UInt8.ofNat (n + 0x80)) = match u.owed with
      | 0 => some (none, [Char.ofNat (64 * u.value + n)])
      | owed + 1 => some (some ⟨owed, 0x80, 0xBF, 64 * u.value + n⟩, []) := by
  have hbyte : (UInt8.ofNat (n + 0x80)).toNat = n + 0x80 :=
    UInt8.toNat_ofNat_of_lt' (Nat.lt_of_lt_of_le (Nat.add_lt_add_right hn _) (by decide))
  rw [step, Unfinished.next, hbyte, if_pos ⟨hlow, hhigh⟩, Nat.add_sub_cancel]

theorem first_of_lead {n : ℕ} (hn : n < 0x100) : step none (UInt8.ofNat n) = first n := by
  rw [step, UInt8.toNat_ofNat_of_lt' hn]

/-- **A character is read back**, whatever follows. -/
theorem run_encodeChar (c : Char) (bytes : List UInt8) :
    run none (String.utf8EncodeChar c ++ bytes) =
      (run none bytes).map fun (st, cs) => (st, c :: cs) := by
  have hchar : Char.ofNat c.val.toNat = c := Char.ofNat_toNat c
  have hscalar : c.val.toNat < 0xD800 ∨ 0xDFFF < c.val.toNat ∧ c.val.toNat < 0x110000 := c.valid
  rw [String.utf8EncodeChar]
  dsimp only
  generalize c.val.toNat = v at hchar hscalar ⊢
  split
  case isTrue hv =>
    -- one byte
    refine run_cons_char ?_
    rw [first_of_lead (by omega), first, if_pos (by omega), hchar]
  split
  case isTrue hv _ =>
    -- two bytes
    have hlead : step none (UInt8.ofNat (v / 64 % 0x20 + 0xC0)) =
        some (some (.of (v / 64 % 0x20 + 0xC0) 0 (v / 64 % 0x20)), []) := by
      rw [first_of_lead (by omega), first, if_neg (by omega), if_pos (by omega), Nat.add_sub_cancel]
    rw [List.cons_append, run_cons_begun hlead]
    refine run_cons_char ((next_of_range (Nat.mod_lt _ (by decide)) ?_ ?_).trans ?_)
    · rw [Unfinished.of]
      dsimp only
      split_ifs <;> omega
    · rw [Unfinished.of]
      dsimp only
      split_ifs <;> omega
    · have hvalue : 64 * (v / 64 % 0x20) + v % 0x40 = v := by omega
      change some (none, [Char.ofNat (64 * (v / 64 % 0x20) + v % 0x40)]) = _
      rw [hvalue, hchar]
  split
  case isTrue hv _ _ =>
    -- three bytes
    have hlead : step none (UInt8.ofNat (v / 4096 % 0x10 + 0xE0)) =
        some (some (.of (v / 4096 % 0x10 + 0xE0) 1 (v / 4096 % 0x10)), []) := by
      rw [first_of_lead (by omega), first, if_neg (by omega), if_neg (by omega), if_pos (by omega),
        Nat.add_sub_cancel]
    have hsecond : step (some (.of (v / 4096 % 0x10 + 0xE0) 1 (v / 4096 % 0x10)))
        (UInt8.ofNat (v / 64 % 0x40 + 0x80)) =
          some (some ⟨0, 0x80, 0xBF, 64 * (v / 4096 % 0x10) + v / 64 % 0x40⟩, []) :=
      next_of_range (Nat.mod_lt _ (by decide))
        (by rw [Unfinished.of]; dsimp only; split_ifs <;> omega)
        (by rw [Unfinished.of]; dsimp only; split_ifs <;> omega)
    rw [List.cons_append, run_cons_begun hlead, List.cons_append, run_cons_begun hsecond]
    refine run_cons_char ((next_of_range (Nat.mod_lt _ (by decide)) ?_ ?_).trans ?_)
    · exact Nat.le_add_left _ _
    · change v % 0x40 + 0x80 ≤ 0xBF
      omega
    · have hvalue : 64 * (64 * (v / 4096 % 0x10) + v / 64 % 0x40) + v % 0x40 = v := by omega
      change some (none,
        [Char.ofNat (64 * (64 * (v / 4096 % 0x10) + v / 64 % 0x40) + v % 0x40)]) = _
      rw [hvalue, hchar]
  · -- four bytes
    have hlead : step none (UInt8.ofNat (v / 262144 % 0x08 + 0xF0)) =
        some (some (.of (v / 262144 % 0x08 + 0xF0) 2 (v / 262144 % 0x08)), []) := by
      rw [first_of_lead (by omega), first, if_neg (by omega), if_neg (by omega), if_neg (by omega),
        if_pos (by omega), Nat.add_sub_cancel]
    have hsecond : step (some (.of (v / 262144 % 0x08 + 0xF0) 2 (v / 262144 % 0x08)))
        (UInt8.ofNat (v / 4096 % 0x40 + 0x80)) =
          some (some ⟨1, 0x80, 0xBF, 64 * (v / 262144 % 0x08) + v / 4096 % 0x40⟩, []) :=
      next_of_range (Nat.mod_lt _ (by decide))
        (by rw [Unfinished.of]; dsimp only; split_ifs <;> omega)
        (by rw [Unfinished.of]; dsimp only; split_ifs <;> omega)
    have hthird := next_of_range
      (u := ⟨1, 0x80, 0xBF, 64 * (v / 262144 % 0x08) + v / 4096 % 0x40⟩)
      (n := v / 64 % 0x40) (Nat.mod_lt _ (by decide)) (Nat.le_add_left _ _)
      (by change v / 64 % 0x40 + 0x80 ≤ 0xBF; omega)
    rw [List.cons_append, run_cons_begun hlead, List.cons_append, run_cons_begun hsecond,
      List.cons_append, run_cons_begun hthird]
    refine run_cons_char ((next_of_range (Nat.mod_lt _ (by decide)) ?_ ?_).trans ?_)
    · exact Nat.le_add_left _ _
    · change v % 0x40 + 0x80 ≤ 0xBF
      omega
    · have hvalue : 64 * (64 * (64 * (v / 262144 % 0x08) + v / 4096 % 0x40) + v / 64 % 0x40) +
          v % 0x40 = v := by omega
      change some (none, [Char.ofNat (64 * (64 * (64 * (v / 262144 % 0x08) + v / 4096 % 0x40) +
        v / 64 % 0x40) + v % 0x40)]) = _
      rw [hvalue, hchar]

/-- **What characters encode is read back**, with nothing left unfinished. -/
theorem run_encode (cs : List Char) :
    run none (cs.flatMap String.utf8EncodeChar) = some (none, cs) := by
  induction cs with
  | nil => rfl
  | cons c cs ih => rw [List.flatMap_cons, run_encodeChar, ih, Option.map_some]

/-! ## Pieces -/

/-- A decoder between two pieces; a byte order mark is dropped where the text begins with it. -/
structure Decoder where
  state : Option Unfinished := none
  begun : Bool := false
  deriving DecidableEq

def BOM : Char := Char.ofNat 0xFEFF

/-- The text of one more piece, or none where it is malformed. -/
def Decoder.convert (d : Decoder) (piece : List UInt8) : Option (JsString × Decoder) :=
  (run d.state piece).map fun (state, cs) =>
    let text := if !d.begun && cs.head? == some BOM then cs.tail else cs
    (text.flatMap utf16, { state, begun := d.begun || !cs.isEmpty })

/-- The decoder has read these bytes, and these characters in them. -/
def Decoder.Has (d : Decoder) (read : List UInt8) (cs : List Char) : Prop :=
  run none read = some (d.state, cs) ∧ d.begun = !cs.isEmpty

theorem Decoder.has_nil : Has {} [] [] := ⟨rfl, rfl⟩

/-- **One more piece** gives the text that one decoding of everything adds. -/
theorem Decoder.convert_of_has {d : Decoder} {read piece : List UInt8} {cs all : List Char}
    {st : Option Unfinished} (hd : d.Has read cs) (hall : run none (read ++ piece) = some (st, all))
    (hbom : all.head? ≠ some BOM) : ∃ text d', d.convert piece = some (text, d') ∧
      d'.Has (read ++ piece) all ∧ all.flatMap utf16 = cs.flatMap utf16 ++ text := by
  have hpiece := hall
  rw [run_append, hd.1] at hpiece
  obtain ⟨⟨st', more⟩, hmore, heq⟩ := Option.map_eq_some_iff.1 hpiece
  obtain ⟨rfl, rfl⟩ := Prod.mk.inj heq
  have hkept : (!d.begun && more.head? == some BOM) = false := by
    rw [hd.2]
    cases cs with
    | nil => exact beq_false_of_ne hbom
    | cons c cs => rfl
  refine ⟨more.flatMap utf16, ⟨st', d.begun || !more.isEmpty⟩, ?_, ⟨hall, ?_⟩,
    List.flatMap_append ..⟩
  · rw [convert, hmore]
    change some (List.flatMap utf16 (if (!d.begun && more.head? == some BOM) = true then more.tail
      else more), _) = _
    rw [hkept]
    rfl
  · rw [hd.2]
    cases cs <;> rfl

/-- A part that came before has been read as a part. -/
theorem run_of_isPrefix {xs ys : List UInt8} (hxs : xs <+: ys) {st' : Option Unfinished}
    {cs : List Char} (h : run st ys = some (st', cs)) :
    ∃ st₁ cs₁, run st xs = some (st₁, cs₁) ∧ cs₁ <+: cs := by
  obtain ⟨zs, rfl⟩ := hxs
  rw [run_append] at h
  obtain ⟨⟨st₁, cs₁⟩, hread, hrest⟩ := Option.bind_eq_some_iff.1 h
  obtain ⟨⟨st₂, cs₂⟩, -, heq⟩ := Option.map_eq_some_iff.1 hrest
  obtain ⟨-, rfl⟩ := Prod.mk.inj heq
  exact ⟨st₁, cs₁, hread, List.prefix_append _ _⟩

/-- A beginning of a text without a byte order mark has none. -/
theorem head_of_isPrefix {cs all : List Char} (h : cs <+: all) (hbom : all.head? ≠ some BOM) :
    cs.head? ≠ some BOM := by
  obtain ⟨tail, rfl⟩ := h
  cases cs with
  | nil => exact nofun
  | cons c cs => exact hbom

/-! ## Malformed bytes -/

def REPLACEMENT : Char := Char.ofNat 0xFFFD

/-- One byte, where a malformed one gives U+FFFD: a byte that breaks a character off is read
again. -/
def stepReplacing (st : Option Unfinished) (b : UInt8) : Option Unfinished × List Char :=
  match step st b with
  | some next => next
  | none =>
    match st with
    | none => (none, [REPLACEMENT])
    | some _ =>
      match step none b with
      | some (st', cs) => (st', REPLACEMENT :: cs)
      | none => (none, [REPLACEMENT, REPLACEMENT])

/-- The bytes one after the other. -/
def runReplacing : Option Unfinished → List UInt8 → Option Unfinished × List Char
  | st, [] => (st, [])
  | st, b :: bytes =>
    let (st, cs) := stepReplacing st b
    let (st, more) := runReplacing st bytes
    (st, cs ++ more)

/-- The text of one more piece, as a decoder that never fails reads it. -/
def Decoder.decode (d : Decoder) (piece : List UInt8) : JsString × Decoder :=
  let (state, cs) := runReplacing d.state piece
  let text := if !d.begun && cs.head? == some BOM then cs.tail else cs
  (text.flatMap utf16, { state, begun := d.begun || !cs.isEmpty })

/-- Without a malformed byte nothing is replaced. -/
theorem runReplacing_of_run {st : Option Unfinished} {bytes : List UInt8}
    {last : Option Unfinished × List Char} (h : run st bytes = some last) :
    runReplacing st bytes = last := by
  induction bytes generalizing st last with
  | nil => exact Option.some.inj h
  | cons b bytes ih =>
    obtain ⟨⟨st₁, cs₁⟩, hstep, hrest⟩ := Option.bind_eq_some_iff.1 h
    obtain ⟨⟨st₂, cs₂⟩, hrun, heq⟩ := Option.bind_eq_some_iff.1 hrest
    obtain rfl := Option.some.inj heq
    have hreplacing : stepReplacing st b = (st₁, cs₁) := by rw [stepReplacing.eq_def, hstep]
    rw [runReplacing, hreplacing]
    dsimp only
    rw [ih hrun]

/-- **The two decoders agree** where the strict one does not fail. -/
theorem Decoder.decode_of_convert {d : Decoder} {piece : List UInt8} {next : JsString × Decoder}
    (h : d.convert piece = some next) : d.decode piece = next := by
  obtain ⟨⟨state, cs⟩, hrun, rfl⟩ := Option.map_eq_some_iff.1 h
  rw [decode, runReplacing_of_run hrun]

end Utf8

/-! ## Text as bytes -/

namespace JsString

open Json

/-- The character of one code unit, U+FFFD for half a pair. -/
def unitChar (c : UInt16) : Char :=
  if isHighSurrogate c || isLowSurrogate c then Char.ofNat 0xFFFD else Char.ofNat c.toNat

/-- The character of a pair. -/
def pairChar (high low : UInt16) : Char :=
  Char.ofNat (0x10000 + 0x400 * (high.toNat - 0xD800) + (low.toNat - 0xDC00))

/-- The characters of a string. -/
def scalars : JsString → List Char
  | [] => []
  | [c] => [unitChar c]
  | c :: d :: s =>
    if isHighSurrogate c && isLowSurrogate d then pairChar c d :: scalars s
    else unitChar c :: scalars (d :: s)

/-- `Buffer.from(s)`: the bytes a string is sent as. -/
def encode (s : JsString) : List UInt8 := s.scalars.flatMap String.utf8EncodeChar

/-- **Every half of a pair has its other half.** -/
def WellFormed (s : JsString) : Prop := ∃ cs : List Char, s = cs.flatMap utf16

theorem WellFormed.nil : WellFormed [] := ⟨[], rfl⟩

theorem WellFormed.append {s t : JsString} (hs : WellFormed s) (ht : WellFormed t) :
    WellFormed (s ++ t) := by
  obtain ⟨cs, rfl⟩ := hs
  obtain ⟨ds, rfl⟩ := ht
  exact ⟨cs ++ ds, List.flatMap_append.symm⟩

theorem WellFormed.flatMap {α : Type} {l : List α} {f : α → JsString}
    (h : ∀ x ∈ l, WellFormed (f x)) : WellFormed (l.flatMap f) := by
  induction l with
  | nil => exact .nil
  | cons x l ih =>
    obtain ⟨hx, hl⟩ := List.forall_mem_cons.1 h
    exact hx.append (ih hl)

theorem WellFormed.js (s : String) : WellFormed (js s) := ⟨s.toList, rfl⟩

/-- The first unit of a character: itself, or the high half of its pair. -/
theorem utf16_cases (c : Char) :
    (∃ u, utf16 c = [u] ∧ isHighSurrogate u = false ∧ isLowSurrogate u = false ∧
      unitChar u = c) ∨
    ∃ u v, utf16 c = [u, v] ∧ isHighSurrogate u = true ∧ isLowSurrogate v = true ∧
      pairChar u v = c := by
  have hchar : Char.ofNat c.toNat = c := Char.ofNat_toNat c
  have hscalar : c.toNat < 0xD800 ∨ 0xDFFF < c.toNat ∧ c.toNat < 0x110000 := c.valid
  rw [utf16]
  generalize c.toNat = v at hchar hscalar ⊢
  split
  case isTrue hv =>
    have hunit : (UInt16.ofNat v).toNat = v := UInt16.toNat_ofNat_of_lt' hv
    have hhigh : isHighSurrogate (UInt16.ofNat v) = false := by
      simp only [isHighSurrogate, Bool.and_eq_false_iff, decide_eq_false_iff_not,
        UInt16.le_iff_toNat_le, hunit]
      change ¬0xD800 ≤ v ∨ ¬v ≤ 0xDBFF
      omega
    have hlow : isLowSurrogate (UInt16.ofNat v) = false := by
      simp only [isLowSurrogate, Bool.and_eq_false_iff, decide_eq_false_iff_not,
        UInt16.le_iff_toNat_le, hunit]
      change ¬0xDC00 ≤ v ∨ ¬v ≤ 0xDFFF
      omega
    refine .inl ⟨_, rfl, hhigh, hlow, ?_⟩
    rw [unitChar, hhigh, hlow, if_neg (by decide), hunit, hchar]
  case isFalse hv =>
    have hfirst : (UInt16.ofNat (0xD800 + (v - 0x10000) / 0x400)).toNat =
        0xD800 + (v - 0x10000) / 0x400 := UInt16.toNat_ofNat_of_lt' (by change _ < 0x10000; omega)
    have hsecond : (UInt16.ofNat (0xDC00 + (v - 0x10000) % 0x400)).toNat =
        0xDC00 + (v - 0x10000) % 0x400 := UInt16.toNat_ofNat_of_lt' (by change _ < 0x10000; omega)
    refine .inr ⟨_, _, rfl, ?_, ?_, ?_⟩
    · simp only [isHighSurrogate, Bool.and_eq_true, decide_eq_true_eq, UInt16.le_iff_toNat_le,
        hfirst]
      change 0xD800 ≤ _ ∧ _ ≤ 0xDBFF
      omega
    · simp only [isLowSurrogate, Bool.and_eq_true, decide_eq_true_eq, UInt16.le_iff_toNat_le,
        hsecond]
      change 0xDC00 ≤ _ ∧ _ ≤ 0xDFFF
      omega
    · have hvalue : 0x10000 + 0x400 * (0xD800 + (v - 0x10000) / 0x400 - 0xD800) +
          (0xDC00 + (v - 0x10000) % 0x400 - 0xDC00) = v := by omega
      rw [pairChar, hfirst, hsecond, hvalue, hchar]

theorem scalars_append_utf16 (c : Char) (s : JsString) :
    scalars (utf16 c ++ s) = c :: scalars s := by
  obtain ⟨u, hc, hhigh, -, hunit⟩ | ⟨u, v, hc, hhigh, hlow, hpair⟩ := utf16_cases c
  · rw [hc]
    cases s with
    | nil => exact congrArg (· :: []) hunit
    | cons d s =>
      change scalars (u :: d :: s) = _
      rw [scalars, hhigh, Bool.false_and, if_neg (by decide), hunit]
  · rw [hc]
    change scalars (u :: v :: s) = _
    rw [scalars, hhigh, hlow, Bool.true_and, if_pos rfl, hpair]

/-- **The characters of their own units.** -/
theorem scalars_flatMap_utf16 (cs : List Char) : scalars (cs.flatMap utf16) = cs := by
  induction cs with
  | nil => rfl
  | cons c cs ih => rw [List.flatMap_cons, scalars_append_utf16, ih]

theorem WellFormed.flatMap_scalars {s : JsString} (h : WellFormed s) :
    s.scalars.flatMap utf16 = s := by
  obtain ⟨cs, rfl⟩ := h
  rw [scalars_flatMap_utf16]

/-- **Well-formed strings may be sent one by one.** -/
theorem encode_append {s t : JsString} (hs : WellFormed s) (ht : WellFormed t) :
    encode (s ++ t) = encode s ++ encode t := by
  obtain ⟨cs, rfl⟩ := hs
  obtain ⟨ds, rfl⟩ := ht
  rw [encode, encode, encode, ← List.flatMap_append, scalars_flatMap_utf16, scalars_flatMap_utf16,
    scalars_flatMap_utf16, List.flatMap_append]

theorem encode_flatMap {α : Type} {l : List α} {f : α → JsString}
    (h : ∀ x ∈ l, WellFormed (f x)) : encode (l.flatMap f) = l.flatMap fun x => encode (f x) := by
  induction l with
  | nil => rfl
  | cons x l ih =>
    obtain ⟨hx, hl⟩ := List.forall_mem_cons.1 h
    rw [List.flatMap_cons, encode_append hx (.flatMap hl), ih hl, List.flatMap_cons]

end JsString

/-! ## What `JSON.stringify` writes -/

namespace Json

open JsString

/-- One unit that is no half of a pair. -/
theorem wellFormed_singleton {c : UInt16} (hhigh : isHighSurrogate c = false)
    (hlow : isLowSurrogate c = false) : WellFormed [c] := by
  have hvalid : c.toNat.isValidChar := by
    simp only [isHighSurrogate, isLowSurrogate, Bool.and_eq_false_iff, decide_eq_false_iff_not,
      UInt16.le_iff_toNat_le] at hhigh hlow
    change ¬0xD800 ≤ c.toNat ∨ ¬c.toNat ≤ 0xDBFF at hhigh
    change ¬0xDC00 ≤ c.toNat ∨ ¬c.toNat ≤ 0xDFFF at hlow
    have hlt := c.toNat_lt
    change c.toNat < 0xD800 ∨ 0xDFFF < c.toNat ∧ c.toNat < 0x110000
    omega
  have hnat : (Char.ofNat c.toNat).toNat = c.toNat := by
    rw [Char.ofNat, dif_pos hvalid]
    rfl
  refine ⟨[Char.ofNat c.toNat], ?_⟩
  rw [List.flatMap_singleton, utf16, hnat, if_pos c.toNat_lt, UInt16.ofNat_toNat]

theorem wellFormed_of_forall {s : JsString}
    (h : ∀ c ∈ s, isHighSurrogate c = false ∧ isLowSurrogate c = false) : WellFormed s := by
  have hunits : WellFormed (s.flatMap fun c => [c]) :=
    .flatMap fun c hc => wellFormed_singleton (h c hc).1 (h c hc).2
  rwa [List.flatMap_singleton'] at hunits

/-- A pair. -/
theorem wellFormed_pair {c d : UInt16} (hhigh : isHighSurrogate c = true)
    (hlow : isLowSurrogate d = true) : WellFormed [c, d] := by
  simp only [isHighSurrogate, isLowSurrogate, Bool.and_eq_true, decide_eq_true_eq,
    UInt16.le_iff_toNat_le] at hhigh hlow
  change 0xD800 ≤ c.toNat ∧ c.toNat ≤ 0xDBFF at hhigh
  change 0xDC00 ≤ d.toNat ∧ d.toNat ≤ 0xDFFF at hlow
  have hvalid : (0x10000 + 0x400 * (c.toNat - 0xD800) + (d.toNat - 0xDC00)).isValidChar := by
    change _ ∨ 0xDFFF < _ ∧ _ < 0x110000
    omega
  have hnat : (pairChar c d).toNat = 0x10000 + 0x400 * (c.toNat - 0xD800) + (d.toNat - 0xDC00) := by
    rw [pairChar, Char.ofNat, dif_pos hvalid]
    rfl
  have hfirst : 0xD800 + (0x10000 + 0x400 * (c.toNat - 0xD800) + (d.toNat - 0xDC00) - 0x10000) /
      0x400 = c.toNat := by omega
  have hsecond : 0xDC00 + (0x10000 + 0x400 * (c.toNat - 0xD800) + (d.toNat - 0xDC00) - 0x10000) %
      0x400 = d.toNat := by omega
  refine ⟨[pairChar c d], ?_⟩
  rw [List.flatMap_singleton, utf16, hnat, if_neg (by omega)]
  dsimp only
  rw [hfirst, hsecond, UInt16.ofNat_toNat, UInt16.ofNat_toNat]

theorem wellFormed_hexDigit {n : ℕ} (h : n < 16) :
    isHighSurrogate (hexDigit n) = false ∧ isLowSurrogate (hexDigit n) = false := by
  interval_cases n <;> decide

theorem wellFormed_unicodeEscape (c : UInt16) : WellFormed (unicodeEscape c) := by
  refine (WellFormed.js _).append (wellFormed_of_forall fun x hx => ?_)
  have hlt := c.toNat_lt
  change c.toNat < 0x10000 at hlt
  simp only [List.mem_cons, List.not_mem_nil, or_false] at hx
  obtain rfl | rfl | rfl | rfl := hx
  all_goals exact wellFormed_hexDigit (by omega)

/-- A quoted unit, unless it is half of a pair whose other half stands beside it. -/
theorem wellFormed_quoteUnit {c : UInt16} {next : Option UInt16}
    (h : (isHighSurrogate c && next.any isLowSurrogate) = false) :
    WellFormed (quoteUnit false c next) := by
  rw [quoteUnit]
  split_ifs with _ _ _ _ _ _ _ _ hhigh hlow
  -- the short escapes are literals
  iterate 7 exact WellFormed.js _
  · exact wellFormed_unicodeEscape c
  · exact wellFormed_unicodeEscape c
  · exact wellFormed_unicodeEscape c
  · refine wellFormed_singleton ?_ (by simpa using hlow)
    cases hc : isHighSurrogate c with
    | false => rfl
    | true =>
      rw [hc, Bool.true_and] at h hhigh
      rw [h] at hhigh
      exact absurd rfl hhigh

theorem le_toNat_of_surrogate {c : UInt16}
    (h : isHighSurrogate c = true ∨ isLowSurrogate c = true) : 0xD800 ≤ c.toNat := by
  simp only [isHighSurrogate, isLowSurrogate, Bool.and_eq_true, decide_eq_true_eq,
    UInt16.le_iff_toNat_le] at h
  change (0xD800 ≤ c.toNat ∧ _) ∨ 0xDC00 ≤ c.toNat ∧ _ at h
  omega

/-- The short escapes are for other units than the halves of pairs. -/
theorem quoteUnit_surrogate {c : UInt16} (h : isHighSurrogate c = true ∨ isLowSurrogate c = true)
    (paired : Bool) (next : Option UInt16) : quoteUnit paired c next =
      if isHighSurrogate c && !next.any isLowSurrogate then unicodeEscape c
      else if isLowSurrogate c && !paired then unicodeEscape c
      else [c] := by
  have hne : ∀ u : UInt16, u.toNat < 0xD800 → c ≠ u := fun u hu hc =>
    absurd (hc ▸ le_toNat_of_surrogate h) (not_le.2 hu)
  have hcontrol : ¬c < 0x20 := fun hlt =>
    absurd (UInt16.lt_iff_toNat_lt.1 hlt)
      (not_lt.2 (le_trans (by decide) (le_toNat_of_surrogate h)))
  rw [quoteUnit, if_neg (hne _ (by decide)), if_neg (hne _ (by decide)), if_neg (hne _ (by decide)),
    if_neg (hne _ (by decide)), if_neg (hne _ (by decide)), if_neg (hne _ (by decide)),
    if_neg (hne _ (by decide)), if_neg hcontrol]

/-- A high half is no low half. -/
theorem isHighSurrogate_of_isLowSurrogate {c : UInt16} (h : isLowSurrogate c = true) :
    isHighSurrogate c = false := by
  simp only [isHighSurrogate, isLowSurrogate, Bool.and_eq_true, Bool.and_eq_false_iff,
    decide_eq_true_eq, decide_eq_false_iff_not, UInt16.le_iff_toNat_le] at h ⊢
  change 0xDC00 ≤ c.toNat ∧ _ at h
  change _ ∨ ¬c.toNat ≤ 0xDBFF
  omega

theorem wellFormed_quoteFrom : ∀ s : JsString, WellFormed (quoteFrom false s)
  | [] => .nil
  | [c] => by
    rw [quoteFrom, quoteFrom, List.append_nil]
    exact wellFormed_quoteUnit (Bool.and_false _)
  | c :: d :: s => by
    cases hpair : isHighSurrogate c && isLowSurrogate d with
    | false =>
      have hrest := wellFormed_quoteFrom (d :: s)
      change WellFormed (quoteUnit false c (some d) ++
        quoteFrom (isHighSurrogate c && isLowSurrogate d) (d :: s))
      rw [hpair]
      exact (wellFormed_quoteUnit hpair).append hrest
    | true =>
      -- both halves are written as they are
      obtain ⟨hc, hd⟩ := Bool.and_eq_true_iff.1 hpair
      have hrest := wellFormed_quoteFrom s
      have hhigh : quoteUnit false c (some d) = [c] := by
        rw [quoteUnit_surrogate (.inl hc), hc, Option.any_some, hd,
          Bool.eq_false_of_not_eq_true fun hlow =>
            Bool.false_ne_true ((isHighSurrogate_of_isLowSurrogate hlow).symm.trans hc)]
        rfl
      have hlow : quoteUnit true d s.head? = [d] := by
        rw [quoteUnit_surrogate (.inr hd), isHighSurrogate_of_isLowSurrogate hd, hd]
        rfl
      change WellFormed (quoteUnit false c (some d) ++
        quoteFrom (isHighSurrogate c && isLowSurrogate d) (d :: s))
      rw [hpair, quoteFrom, hhigh, hlow, isHighSurrogate_of_isLowSurrogate hd, Bool.false_and,
        ← List.append_assoc]
      exact (wellFormed_pair hc hd).append hrest

theorem isSurrogate_of_isAtomChar {c : UInt16} (h : isAtomChar c = true) :
    isHighSurrogate c = false ∧ isLowSurrogate c = false := by
  have hlt : c.toNat < 0x80 := by
    simp only [isAtomChar, isDigit, Bool.or_eq_true, Bool.and_eq_true,
      decide_eq_true_eq, beq_iff_eq, UInt16.le_iff_toNat_le, ← UInt16.toNat_inj] at h
    change ((((_ ∧ c.toNat ≤ 0x39 ∨ _ ∧ c.toNat ≤ 0x7A) ∨ c.toNat = 0x2E) ∨ c.toNat = 0x45) ∨
      c.toNat = 0x2D) ∨ c.toNat = 0x2B at h
    omega
  constructor
  · exact Bool.eq_false_of_not_eq_true fun hc => absurd (le_toNat_of_surrogate (.inl hc)) (by omega)
  · exact Bool.eq_false_of_not_eq_true fun hc => absurd (le_toNat_of_surrogate (.inr hc)) (by omega)

theorem Token.wellFormed_text : ∀ t : Token, WellFormed t.text
  | .str s => ((wellFormed_singleton
      (by decide) (by decide)).append (wellFormed_quoteFrom s)).append
      (wellFormed_singleton (by decide) (by decide))
  | .num n => wellFormed_of_forall fun c hc => isSurrogate_of_isAtomChar (n.isAtomChar c hc)
  | .bool true | .bool false | .leftBrace | .rightBrace | .leftBracket | .rightBracket | .colon
  | .comma | .null => .js _

/-- **`JSON.stringify` writes well-formed text**, whatever the strings of the value are. -/
theorem wellFormed_stringify (v : Json) : WellFormed v.stringify :=
  .flatMap fun t _ => t.wellFormed_text

end Json

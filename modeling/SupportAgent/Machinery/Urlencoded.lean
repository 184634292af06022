import SupportAgent.Machinery.Utf8Decoder

/-!
# Machinery/Urlencoded — names and values in the query of an address

`application/x-www-form-urlencoded`: a pair is two texts around an equals sign, pairs are joined by
ampersands, and a text is its UTF-8 with all but a few bytes as a percent sign and two digits.

* `parse_serialize` — what was written is read back, whatever the names and values are.
-/

open JsString

namespace Urlencoded

/-! ## Writing -/

/-- A byte that stands for itself: a letter, a digit, or one of `*-._`. -/
def isPlain (b : UInt8) : Bool :=
  (0x30 ≤ b && b ≤ 0x39) || (0x41 ≤ b && b ≤ 0x5A) || (0x61 ≤ b && b ≤ 0x7A) || b == 0x2A ||
    b == 0x2D || b == 0x2E || b == 0x5F

def upperHexDigit (n : ℕ) : UInt8 := UInt8.ofNat (if n < 10 then 0x30 + n else 0x37 + n)

/-- A byte of a text: a blank is a plus sign. -/
def encodeByte (b : UInt8) : List UInt8 :=
  if b = 0x20 then [0x2B]
  else if isPlain b then [b]
  else [0x25, upperHexDigit (b.toNat / 16), upperHexDigit (b.toNat % 16)]

/-- A name or a value. -/
def encodeText (s : JsString) : List UInt8 := s.encode.flatMap encodeByte

def encodePair (pair : JsString × JsString) : List UInt8 :=
  encodeText pair.1 ++ 0x3D :: encodeText pair.2

/-- The text of the pairs. -/
def serialize (pairs : List (JsString × JsString)) : JsString :=
  ([0x26].intercalate (pairs.map encodePair)).map (·.toUInt16)

/-! ## Reading -/

/-- The bytes meant: a percent sign without two digits stands for itself. -/
def percentDecode : List UInt8 → List UInt8
  | [] => []
  | [b] => [b]
  | [b, c] => [b, c]
  | b :: high :: low :: rest =>
    if b = 0x25 then
      match hexValue high.toUInt16, hexValue low.toUInt16 with
      | some h, some l => UInt8.ofNat (16 * h + l) :: percentDecode rest
      | _, _ => b :: percentDecode (high :: low :: rest)
    else b :: percentDecode (high :: low :: rest)

def plusToSpace (b : UInt8) : UInt8 := if b = 0x2B then 0x20 else b

/-- The text of some bytes: what is malformed or left unfinished gives U+FFFD. -/
def utf8Text (bytes : List UInt8) : JsString :=
  let (st, cs) := Utf8.runReplacing none bytes
  (cs ++ if st.isSome then [Utf8.REPLACEMENT] else []).flatMap utf16

def decodeText (bytes : List UInt8) : JsString := utf8Text (percentDecode (bytes.map plusToSpace))

/-- The first equals sign ends the name. -/
def decodePair (bytes : List UInt8) : JsString × JsString :=
  (decodeText (bytes.takeWhile (· != 0x3D)), decodeText ((bytes.dropWhile (· != 0x3D)).drop 1))

/-- The pairs of a text. -/
def parse (text : JsString) : List (JsString × JsString) :=
  ((text.encode.splitOn 0x26).filter (· ≠ [])).map decodePair

/-- `get`: the value of the first pair of that name. -/
def get (pairs : List (JsString × JsString)) (name : JsString) : Option JsString :=
  (pairs.find? (·.1 == name)).map (·.2)

/-! ## The bytes written -/

/-- What a written byte is: below 128, and none of the signs around a text. -/
structure Written (b : UInt8) : Prop where
  ascii : b.toNat < 0x80
  ampersand : b ≠ 0x26
  equals : b ≠ 0x3D

/-- A byte that stands for itself is no sign with a meaning. -/
theorem of_isPlain {b : UInt8} (h : isPlain b = true) : Written b ∧ b ≠ 0x2B ∧ b ≠ 0x25 := by
  simp only [isPlain, Bool.or_eq_true, Bool.and_eq_true, decide_eq_true_eq, beq_iff_eq,
    UInt8.le_iff_toNat_le, ← UInt8.toNat_inj, UInt8.reduceToNat] at h
  have hne : ∀ {c : UInt8}, b.toNat ≠ c.toNat → b ≠ c := fun hne heq => hne (congrArg _ heq)
  refine ⟨⟨by omega, hne ?_, hne ?_⟩, hne ?_, hne ?_⟩
  all_goals
    simp only [UInt8.reduceToNat]
    omega

theorem hexValue_upperHexDigit {n : ℕ} (h : n < 16) :
    hexValue (upperHexDigit n).toUInt16 = some n := by
  interval_cases n <;> decide

theorem of_upperHexDigit {n : ℕ} (h : n < 16) :
    Written (upperHexDigit n) ∧ plusToSpace (upperHexDigit n) = upperHexDigit n := by
  interval_cases n <;> exact ⟨⟨by decide, by decide, by decide⟩, by decide⟩

/-- The three ways a byte is written. -/
theorem encodeByte_cases (b : UInt8) :
    b = 0x20 ∧ encodeByte b = [0x2B] ∨ isPlain b = true ∧ encodeByte b = [b] ∨
      encodeByte b = [0x25, upperHexDigit (b.toNat / 16), upperHexDigit (b.toNat % 16)] := by
  unfold encodeByte
  split_ifs with hblank hplain
  · exact .inl ⟨hblank, rfl⟩
  · exact .inr (.inl ⟨hplain, rfl⟩)
  · exact .inr (.inr rfl)

theorem written_of_mem_encodeByte {b c : UInt8} (h : c ∈ encodeByte b) : Written c := by
  have hb := b.toNat_lt
  obtain ⟨-, heq⟩ | ⟨hplain, heq⟩ | heq := encodeByte_cases b
  · rw [heq, List.mem_singleton] at h
    exact h ▸ ⟨by decide, by decide, by decide⟩
  · rw [heq, List.mem_singleton] at h
    exact h ▸ (of_isPlain hplain).1
  · rw [heq] at h
    obtain rfl | h := List.mem_cons.1 h
    · exact ⟨by decide, by decide, by decide⟩
    obtain rfl | h := List.mem_cons.1 h
    · exact (of_upperHexDigit (by omega)).1
    · rw [List.mem_singleton.1 h]
      exact (of_upperHexDigit (by omega)).1

theorem written_of_mem_encodeText {s : JsString} {c : UInt8} (h : c ∈ encodeText s) :
    Written c := by
  obtain ⟨b, -, hc⟩ := List.mem_flatMap.1 h
  exact written_of_mem_encodeByte hc

/-! ## The round trip -/

theorem percentDecode_cons {b : UInt8} (h : b ≠ 0x25) (rest : List UInt8) :
    percentDecode (b :: rest) = b :: percentDecode rest := by
  obtain _ | ⟨high, _ | ⟨low, rest⟩⟩ := rest
  · rfl
  · rfl
  · rw [percentDecode, if_neg h]

theorem percentDecode_escape {n : ℕ} (h : n < 256) (rest : List UInt8) :
    percentDecode (0x25 :: upperHexDigit (n / 16) :: upperHexDigit (n % 16) :: rest) =
      UInt8.ofNat n :: percentDecode rest := by
  rw [percentDecode, if_pos rfl,
    hexValue_upperHexDigit (by omega), hexValue_upperHexDigit (by omega)]
  dsimp only
  rw [Nat.div_add_mod]

/-- **A byte is read back.** -/
theorem percentDecode_encodeByte (b : UInt8) (rest : List UInt8) :
    percentDecode ((encodeByte b).map plusToSpace ++ rest) = b :: percentDecode rest := by
  have hb := b.toNat_lt
  obtain ⟨rfl, heq⟩ | ⟨hplain, heq⟩ | heq := encodeByte_cases b
  · rw [heq]
    exact percentDecode_cons (by decide) rest
  · obtain ⟨-, hplus, hpercent⟩ := of_isPlain hplain
    have hsame : plusToSpace b = b := if_neg hplus
    rw [heq, List.map_singleton, hsame]
    exact percentDecode_cons hpercent rest
  · have hpercent : plusToSpace 0x25 = 0x25 := rfl
    rw [heq, List.map_cons, List.map_cons, List.map_singleton, hpercent,
      (of_upperHexDigit (by omega)).2, (of_upperHexDigit (by omega)).2]
    refine (percentDecode_escape hb rest).trans ?_
    rw [UInt8.ofNat_toNat]

theorem percentDecode_flatMap (bytes : List UInt8) :
    percentDecode ((bytes.flatMap encodeByte).map plusToSpace) = bytes := by
  induction bytes with
  | nil => rfl
  | cons b bytes ih => rw [List.flatMap_cons, List.map_append, percentDecode_encodeByte, ih]

/-- **A text is read back.** -/
theorem decodeText_encodeText {s : JsString} (h : s.WellFormed) :
    decodeText (encodeText s) = s := by
  have hrun : Utf8.runReplacing none s.encode = (none, s.scalars) :=
    Utf8.runReplacing_of_run (Utf8.run_encode _)
  rw [decodeText, encodeText, percentDecode_flatMap, utf8Text, hrun]
  dsimp only
  rw [Option.isSome_none, if_neg Bool.false_ne_true, List.append_nil, h.flatMap_scalars]

/-- **A pair is read back.** -/
theorem decodePair_encodePair {pair : JsString × JsString} (hname : pair.1.WellFormed)
    (hvalue : pair.2.WellFormed) : decodePair (encodePair pair) = pair := by
  have hkept : ∀ b ∈ encodeText pair.1, (b != 0x3D) = true := fun b hb =>
    bne_iff_ne.2 (written_of_mem_encodeText hb).equals
  have htake : (encodePair pair).takeWhile (· != 0x3D) = encodeText pair.1 := by
    rw [encodePair, List.takeWhile_append_of_pos hkept]
    exact List.append_nil _
  have hdrop : (encodePair pair).dropWhile (· != 0x3D) = 0x3D :: encodeText pair.2 := by
    rw [encodePair, List.dropWhile_append_of_pos hkept]
    rfl
  rw [decodePair, htake, hdrop, decodeText_encodeText hname]
  exact Prod.ext rfl (decodeText_encodeText hvalue)

/-- ASCII text is sent byte for byte. -/
theorem encode_map_toUInt16 {bytes : List UInt8} (h : ∀ b ∈ bytes, b.toNat < 0x80) :
    WellFormed (bytes.map (·.toUInt16)) ∧ encode (bytes.map (·.toUInt16)) = bytes := by
  have hbyte : ∀ n < 0x80, encode [(UInt8.ofNat n).toUInt16] = [UInt8.ofNat n] ∧
      Json.isHighSurrogate (UInt8.ofNat n).toUInt16 = false ∧
      Json.isLowSurrogate (UInt8.ofNat n).toUInt16 = false := by decide +kernel
  induction bytes with
  | nil => exact ⟨.nil, rfl⟩
  | cons b bytes ih =>
    obtain ⟨hb, hbytes⟩ := List.forall_mem_cons.1 h
    obtain ⟨hencode, hhigh, hlow⟩ := hbyte b.toNat hb
    rw [UInt8.ofNat_toNat] at hencode hhigh hlow
    obtain ⟨hrest, hencodes⟩ := ih hbytes
    have hsingle : WellFormed [b.toUInt16] := Json.wellFormed_singleton hhigh hlow
    exact ⟨hsingle.append hrest, (encode_append hsingle hrest).trans
      (congrArg₂ (· ++ ·) hencode hencodes)⟩

theorem mem_of_mem_intercalate {α : Type} {between : List α} {ls : List (List α)} {c : α}
    (h : c ∈ between.intercalate ls) : c ∈ between ∨ ∃ l ∈ ls, c ∈ l := by
  induction ls with
  | nil => cases h
  | cons l ls ih =>
    obtain _ | ⟨l', ls⟩ := ls
    · rw [List.intercalate_singleton] at h
      exact .inr ⟨l, List.mem_singleton_self l, h⟩
    · rw [List.intercalate_cons_cons, List.append_assoc] at h
      obtain h | h := List.mem_append.1 h
      · exact .inr ⟨l, List.mem_cons_self, h⟩
      obtain h | h := List.mem_append.1 h
      · exact .inl h
      · exact (ih h).imp_right fun ⟨m, hm, hc⟩ => ⟨m, List.mem_cons_of_mem _ hm, hc⟩

/-- **What was written is read back**, whatever the names and the values are. -/
theorem parse_serialize {pairs : List (JsString × JsString)}
    (h : ∀ pair ∈ pairs, pair.1.WellFormed ∧ pair.2.WellFormed) :
    parse (serialize pairs) = pairs := by
  have hwritten : ∀ l ∈ pairs.map encodePair, l ≠ [] ∧ ∀ c ∈ l, c.toNat < 0x80 ∧ c ≠ 0x26 := by
    intro l hl
    obtain ⟨pair, -, rfl⟩ := List.mem_map.1 hl
    refine ⟨List.append_ne_nil_of_right_ne_nil _ (List.cons_ne_nil _ _), fun c hc => ?_⟩
    obtain hc | hc := List.mem_append.1 hc
    · exact ⟨(written_of_mem_encodeText hc).ascii, (written_of_mem_encodeText hc).ampersand⟩
    obtain rfl | hc := List.mem_cons.1 hc
    · exact ⟨by decide, by decide⟩
    · exact ⟨(written_of_mem_encodeText hc).ascii, (written_of_mem_encodeText hc).ampersand⟩
  have hascii : ∀ b ∈ [0x26].intercalate (pairs.map encodePair), b.toNat < 0x80 := by
    intro b hb
    obtain hb | ⟨l, hl, hb⟩ := mem_of_mem_intercalate hb
    · rw [List.mem_singleton.1 hb]
      decide
    · exact ((hwritten l hl).2 b hb).1
  rw [parse, serialize, (encode_map_toUInt16 hascii).2]
  obtain rfl | hne := eq_or_ne pairs []
  · rfl
  rw [List.splitOn_intercalate _ (fun l hl hmem => ((hwritten l hl).2 _ hmem).2 rfl)
    (mt List.map_eq_nil_iff.1 hne), List.filter_eq_self.2 fun l hl =>
      decide_eq_true (hwritten l hl).1,
    List.map_map]
  refine (List.map_congr_left fun pair hpair => ?_).trans (List.map_id _)
  exact decodePair_encodePair (h pair hpair).1 (h pair hpair).2

end Urlencoded

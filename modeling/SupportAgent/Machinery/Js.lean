import Mathlib.Algebra.Order.Ring.Rat
import Mathlib.Data.List.DropRight
import Mathlib.Data.Nat.Cast.Order.Ring

/-!
# Machinery/Js — the JavaScript values the sources compute with

Strings are lists of UTF-16 code units, which is what `length`, `slice` and a regular expression
without the `u` flag see; numbers are rationals with the three non-finite values beside them.
-/

/-- A JavaScript string: its UTF-16 code units. -/
abbrev JsString : Type := List UInt16

/-- The code units of a Unicode scalar value: itself, or a surrogate pair. -/
def utf16 (c : Char) : JsString :=
  if c.toNat < 0x10000 then [UInt16.ofNat c.toNat]
  else
    let v := c.toNat - 0x10000
    [UInt16.ofNat (0xD800 + v / 0x400), UInt16.ofNat (0xDC00 + v % 0x400)]

/-- A string literal. -/
def js (s : String) : JsString := s.toList.flatMap utf16

namespace JsString

/-- `s.slice(a, b)`, for `0 ≤ a` and `0 ≤ b`. -/
def slice (s : JsString) (a b : ℕ) : JsString := (s.take b).drop a

/-- The class `\s`: white space and line terminators. -/
def isSpace (c : UInt16) : Bool :=
  (0x09 ≤ c && c ≤ 0x0D) || c == 0x20 || c == 0xA0 || c == 0x1680 ||
    (0x2000 ≤ c && c ≤ 0x200A) || c == 0x2028 || c == 0x2029 || c == 0x202F || c == 0x205F ||
    c == 0x3000 || c == 0xFEFF

/-- The code units `.` does not match: line feed, carriage return, U+2028 and U+2029. -/
def isLineTerminator (c : UInt16) : Bool :=
  c == 0x0A || c == 0x0D || c == 0x2028 || c == 0x2029

/-- What `.*` matches at the start of a text. -/
def restOfLine (s : JsString) : JsString := s.takeWhile fun c => !isLineTerminator c

/-- The class `\d`. -/
def isDigit (c : UInt16) : Bool := 0x30 ≤ c && c ≤ 0x39

/-- A hexadecimal digit, in either case. -/
def hexValue (c : UInt16) : Option ℕ :=
  if isDigit c then some (c.toNat - 0x30)
  else if 0x61 ≤ c ∧ c ≤ 0x66 then some (c.toNat - 0x57)
  else if 0x41 ≤ c ∧ c ≤ 0x46 then some (c.toNat - 0x37)
  else none

/-- `s.indexOf(needle)`. -/
def indexOf (needle : JsString) : JsString → Option ℕ
  | [] => if needle = [] then some 0 else none
  | c :: s => if needle.isPrefixOf (c :: s) then some 0 else (indexOf needle s).map (· + 1)

/-- `s.trim()`. -/
def trim (s : JsString) : JsString := (s.dropWhile isSpace).rdropWhile isSpace

/-- `ss.join(sep)`. -/
def join (sep : JsString) (ss : List JsString) : JsString := sep.intercalate ss

/-! ## The last of a unit -/

/-- What is behind a unit that does not come again. -/
theorem rtakeWhile_behind {c : UInt16} {before behind : JsString} (h : c ∉ behind) :
    (before ++ c :: behind).rtakeWhile (· != c) = behind := by
  have hall : ∀ d ∈ behind.reverse, (d != c) = true := fun d hd =>
    bne_iff_ne.mpr fun hdc => h (hdc ▸ List.mem_reverse.mp hd)
  rw [List.rtakeWhile, List.reverse_append, List.reverse_cons, List.append_assoc,
    List.takeWhile_append_of_pos hall, List.singleton_append, List.takeWhile_cons_of_neg (by simp),
    List.append_nil, List.reverse_reverse]

theorem notMem_rtakeWhile {c : UInt16} {s : JsString} : c ∉ s.rtakeWhile (· != c) := fun h => by
  simpa using List.mem_rtakeWhile_imp h

/-- A text with a unit in it is split at the last of them. -/
theorem exists_eq_append_rtakeWhile {c : UInt16} {s : JsString} (h : c ∈ s) :
    ∃ before, s = before ++ c :: s.rtakeWhile (· != c) := by
  have hsplit : s.rdropWhile (· != c) ++ s.rtakeWhile (· != c) = s :=
    List.rdropWhile_append_rtakeWhile
  have hne : s.rdropWhile (· != c) ≠ [] := fun hnil => by
    rw [hnil, List.nil_append] at hsplit
    exact notMem_rtakeWhile (hsplit.symm ▸ h)
  have hlast := List.rdropWhile_last_not _ _ hne
  have hconcat := List.dropLast_append_getLast hne
  rw [bne_iff_ne, not_not] at hlast
  rw [hlast] at hconcat
  exact ⟨(s.rdropWhile (· != c)).dropLast, by rw [List.append_cons, hconcat, hsplit]⟩

/-! ## Trimming -/

/-- Only white space trims to nothing. -/
theorem trim_eq_nil_iff {s : JsString} : trim s = [] ↔ ∀ c ∈ s, isSpace c := by
  rw [trim, List.rdropWhile_eq_nil_iff]
  constructor
  · intro h c hc
    rw [← List.takeWhile_append_dropWhile (p := isSpace) (l := s)] at hc
    rcases List.mem_append.mp hc with hc | hc
    · exact List.mem_takeWhile_imp hc
    · exact h c hc
  · exact fun h c hc => h c ((List.dropWhile_sublist _).subset hc)

/-- What is left by trimming ends in something else than white space. -/
theorem trim_trim_ne_nil {s : JsString} (h : trim s ≠ []) : trim (trim s) ≠ [] := by
  rw [ne_eq, trim_eq_nil_iff]
  intro hall
  exact List.rdropWhile_last_not _ _ h (hall _ (List.getLast_mem h))

/-! ## Joining -/

/-- What is joined is in the joined text. -/
theorem infix_join {sep s : JsString} {ss : List JsString} (h : s ∈ ss) : s <:+: join sep ss := by
  induction ss with
  | nil => cases h
  | cons t ts ih =>
    rcases ts with _ | ⟨t', ts⟩
    · obtain rfl := List.mem_singleton.mp h
      exact ⟨[], [], by rw [List.nil_append, List.append_nil, join, List.intercalate_singleton]⟩
    · rw [join, List.intercalate_cons_cons]
      rcases List.mem_cons.mp h with rfl | h
      · rw [List.append_assoc]
        exact (List.prefix_append _ _).isInfix
      · exact (ih h).trans (List.suffix_append _ _).isInfix

/-! ## Searching -/

/-- What is in a text is found there, and nothing else. -/
theorem isSome_indexOf_iff {needle s : JsString} :
    (indexOf needle s).isSome = true ↔ needle <:+: s := by
  induction s with
  | nil =>
    rw [indexOf, List.infix_nil]
    split
    · rename_i hnil
      exact iff_of_true rfl hnil
    · rename_i hne
      exact iff_of_false Bool.false_ne_true hne
  | cons c s ih =>
    rw [indexOf, List.infix_cons_iff, ← List.isPrefixOf_iff_prefix]
    split
    · rename_i hhead
      exact iff_of_true rfl (.inl hhead)
    · rename_i hhead
      rw [Option.isSome_map, ih, or_iff_right hhead]

/-! ## Slices -/

@[simp] theorem slice_full (s : JsString) : slice s 0 s.length = s := by simp [slice]

/-- A slice from the start is a prefix. -/
theorem slice_zero (s : JsString) (b : ℕ) : slice s 0 b = s.take b := by rw [slice, List.drop_zero]

theorem length_slice {s : JsString} {a b : ℕ} (hb : b ≤ s.length) :
    (slice s a b).length = b - a := by
  simp [slice, hb]

/-- A slice of a slice is a slice. -/
theorem slice_slice (s : JsString) {a b c d : ℕ} (hd : a + d ≤ b) :
    slice (slice s a b) c d = slice s (a + c) (a + d) := by
  rw [slice, slice, slice, List.take_drop, List.take_take, List.drop_drop, min_eq_left hd]

/-- Two slices that meet make one. -/
theorem slice_append_slice (s : JsString) {a b c : ℕ} (hab : a ≤ b) (hbc : b ≤ c) :
    slice s a b ++ slice s b c = slice s a c := by
  have hb : (s.take c).take b = s.take b := by rw [List.take_take, min_eq_left hbc]
  rcases le_or_gt b (s.take c).length with hlen | hlen
  · have ha : a ≤ ((s.take c).take b).length := by rw [List.length_take]; omega
    rw [slice, slice, slice, ← hb, ← List.drop_append_of_le_length ha, List.take_append_drop]
  · have hcb : (s.take c).take b = s.take c := List.take_of_length_le hlen.le
    rw [slice, slice, slice, ← hb, hcb, List.drop_of_length_le hlen.le, List.append_nil]

/-- Text added at the end leaves the slices before it alone. -/
theorem slice_append_left {s t : JsString} {a b : ℕ} (hb : b ≤ s.length) :
    slice (s ++ t) a b = slice s a b := by
  rw [slice, slice, List.take_append_of_le_length hb]

/-- The slice that was added last. -/
theorem slice_append_right (s t : JsString) :
    slice (s ++ t) s.length (s ++ t).length = t := by
  rw [slice, List.take_length, List.drop_left]

end JsString

/-! ## Numbers -/

/-- A JavaScript number, in exact arithmetic. -/
inductive JsNumber
  | finite (q : ℚ)
  | posInf
  | negInf
  | nan
  deriving DecidableEq

namespace JsNumber

/-- `Number.isFinite(x)`. -/
def isFinite : JsNumber → Bool
  | finite _ => true
  | _ => false

/-- A length or a count. -/
def ofNat (n : ℕ) : JsNumber := finite n

/-- `a < b`, which `NaN` never is. -/
def lt : JsNumber → JsNumber → Bool
  | finite a, finite b => a < b
  | negInf, finite _ => true
  | negInf, posInf => true
  | finite _, posInf => true
  | _, _ => false

/-- `a <= b`, which `NaN` never is. -/
def le : JsNumber → JsNumber → Bool
  | nan, _ => false
  | _, nan => false
  | a, b => !lt b a

/-- Of two numbers that are not `NaN`, one is below the other or the other way. -/
theorem le_eq_not_lt {a b : JsNumber} (ha : a ≠ nan) (hb : b ≠ nan) : a.le b = !b.lt a := by
  rcases a with p | _ | _ | _ <;> rcases b with q | _ | _ | _
  all_goals first
    | exact absurd rfl ha
    | exact absurd rfl hb
    | rfl

theorem ne_nan_of_le {a b : JsNumber} (h : a.le b = true) : a ≠ nan ∧ b ≠ nan := by
  refine ⟨?_, ?_⟩
  · rintro rfl
    cases h
  · rintro rfl
    rcases a with p | _ | _ | _ <;> cases h

theorem lt_eq_false_of_le {a b : JsNumber} (h : a.le b = true) : b.lt a = false := by
  obtain ⟨ha, hb⟩ := ne_nan_of_le h
  rwa [le_eq_not_lt ha hb, Bool.not_eq_true'] at h

theorem ofNat_ne_nan (n : ℕ) : ofNat n ≠ nan := nofun

/-- Fewer than a bound that is a number. -/
theorem lt_of_le_eq_false {bound : JsNumber} (hnan : bound ≠ nan) {n : ℕ}
    (h : bound.le (ofNat n) = false) : (ofNat n).lt bound = true := by
  rwa [le_eq_not_lt hnan (ofNat_ne_nan n), Bool.not_eq_false'] at h

theorem ofNat_lt_ofNat {m n : ℕ} : (ofNat m).lt (ofNat n) = true ↔ m < n := by
  rw [ofNat, ofNat, lt, decide_eq_true_eq, Nat.cast_lt]

theorem ofNat_le_ofNat {m n : ℕ} : (ofNat m).le (ofNat n) = true ↔ m ≤ n := by
  rw [le_eq_not_lt (ofNat_ne_nan m) (ofNat_ne_nan n), Bool.not_eq_true',
    ← Bool.not_eq_true, ofNat_lt_ofNat, not_lt]

theorem ofNat_le_of_le {bound : JsNumber} {m n : ℕ} (hmn : m ≤ n)
    (h : (ofNat n).le bound = true) : (ofNat m).le bound = true := by
  rcases bound with q | _ | _ | _
  · simp only [ofNat, le, lt, Bool.not_eq_true', decide_eq_false_iff_not,
      not_lt] at h ⊢
    exact le_trans (by exact_mod_cast hmn) h
  all_goals exact h

/-- `a - b`. -/
def sub : JsNumber → JsNumber → JsNumber
  | finite a, finite b => finite (a - b)
  | finite _, posInf => negInf
  | finite _, negInf => posInf
  | posInf, finite _ => posInf
  | posInf, negInf => posInf
  | negInf, finite _ => negInf
  | negInf, posInf => negInf
  | _, _ => nan

/-- `Math.max(a, b)`. -/
def max : JsNumber → JsNumber → JsNumber
  | nan, _ => nan
  | _, nan => nan
  | a, b => if lt a b then b else a

/-- The index `slice` makes of a number on a list of some length: negative ones count from the end,
fractions are cut off. -/
def sliceIndex (len : ℕ) : JsNumber → ℕ
  | finite q => if 0 ≤ q then min q.floor.toNat len else (len + q.ceil).toNat
  | posInf => len
  | negInf => 0
  | nan => 0

theorem sliceIndex_le {n : JsNumber} (len : ℕ) (h : (ofNat 0).le n = true) :
    (ofNat (n.sliceIndex len)).le n = true := by
  rcases n with q | _ | _ | _
  · replace h : 0 ≤ q := by simpa [ofNat, le, lt] using h
    have hfloor : ((q.floor.toNat : ℕ) : ℚ) ≤ q := by
      rw [show ((q.floor.toNat : ℕ) : ℚ) = ((q.floor.toNat : ℤ) : ℚ) by push_cast; rfl,
        Int.toNat_of_nonneg (Rat.le_floor_iff.2 (by simpa using h))]
      exact Rat.floor_le q
    have hmin : ((min q.floor.toNat len : ℕ) : ℚ) ≤ q :=
      le_trans (by exact_mod_cast min_le_left _ _) hfloor
    rw [sliceIndex, if_pos h]
    simpa [ofNat, le, lt] using hmin
  · rfl
  · cases h
  · cases h

end JsNumber

/-! ## Errors -/

/-- A thrown value: the message of an `Error`, and the `status` some providers put on theirs. -/
structure JsError where
  message : JsString
  status : Option ℕ := none
  deriving DecidableEq

/-- `new Error(message)`. -/
def JsError.new (message : JsString) : JsError := { message }

/-- A computation that returned ran its first half to a value and its second half on it. -/
theorem Except.bind_eq_ok {ε α β : Type} {x : Except ε α} {f : α → Except ε β} {b : β} :
    (x >>= f) = .ok b ↔ ∃ a, x = .ok a ∧ f a = .ok b := by
  cases x with
  | error e => simp [bind, Except.bind]
  | ok a => simp [bind, Except.bind]

theorem Except.ok_bind {ε α β : Type} (a : α) (f : α → Except ε β) :
    ((Except.ok a : Except ε α) >>= f) = f a := rfl

/-- In a loop that returned, each turn did. -/
theorem Except.exists_of_foldlM_eq_ok {ε σ α : Type} {f : σ → α → Except ε σ}
    {xs : List α} {s s' : σ}
    (h : xs.foldlM f s = .ok s') {x : α} (hx : x ∈ xs) : ∃ t t', f t x = .ok t' := by
  induction xs generalizing s with
  | nil => cases hx
  | cons y ys ih =>
    rw [List.foldlM_cons] at h
    obtain ⟨t, ht, h⟩ := Except.bind_eq_ok.mp h
    rcases List.mem_cons.mp hx with rfl | hx
    · exact ⟨s, t, ht⟩
    · exact ih h hx

/-- **The rule of a loop that returned**: what every turn keeps, of the elements left, holds at its
end. -/
theorem Except.foldlM_invariant {ε σ α : Type} {f : σ → α → Except ε σ} {I : List α → σ → Prop}
    (hstep : ∀ x xs s s', I (x :: xs) s → f s x = .ok s' → I xs s') {xs : List α} {s s' : σ}
    (hs : I xs s) (h : xs.foldlM f s = .ok s') : I [] s' := by
  induction xs generalizing s with
  | nil =>
    obtain rfl := Except.ok.inj h
    exact hs
  | cons x xs ih =>
    rw [List.foldlM_cons] at h
    obtain ⟨t, ht, h⟩ := Except.bind_eq_ok.mp h
    exact ih (hstep x xs s t hs ht) h

/-- **The rule for a loop to return**: every turn does, and keeps what the next one needs. -/
theorem Except.exists_foldlM {ε σ α : Type} {f : σ → α → Except ε σ} {I : List α → σ → Prop}
    (hstep : ∀ x xs s, I (x :: xs) s → ∃ s', f s x = .ok s' ∧ I xs s') {xs : List α} {s : σ}
    (hs : I xs s) : ∃ s', xs.foldlM f s = .ok s' ∧ I [] s' := by
  induction xs generalizing s with
  | nil => exact ⟨s, rfl, hs⟩
  | cons x xs ih =>
    obtain ⟨t, ht, hnext⟩ := hstep x xs s hs
    obtain ⟨s', hs', hend⟩ := ih hnext
    exact ⟨s', by rw [List.foldlM_cons, ht, Except.ok_bind, hs'], hend⟩

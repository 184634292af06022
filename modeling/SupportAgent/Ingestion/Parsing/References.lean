import SupportAgent.Ingestion.Parsing.HtmlBlocks
import SupportAgent.Machinery.Visible

/-!
# Ingestion/Parsing/References — what `stripTags` reads of character references

`stripTags` replaces hexadecimal references, then decimal ones, then named ones, each in the text
the one before left.  A text is given as its items, units and references; a pass over it reads its
own references, and whatever an `&` of an earlier pass makes with the units behind it (`Pass.run`).

* `ReadOnce` — no `&` that a numeric reference stands for begins another.
* `visible_stripTags` — such a text shows what it stands for, and any other shows less.
-/

namespace Ingestion

open JsString Matching

/-! ## Items -/

inductive Entity
  | amp
  | lt
  | gt
  | quot
  | nbsp
  deriving DecidableEq

/-- The reference as it is written. -/
def Entity.key : Entity → JsString
  | amp => js "&amp;"
  | lt => js "&lt;"
  | gt => js "&gt;"
  | quot => js "&quot;"
  | nbsp => js "&nbsp;"

/-- The character a reference stands for. -/
def Entity.text : Entity → JsString
  | amp => js "&"
  | lt => js "<"
  | gt => js ">"
  | quot => js "\""
  | nbsp => [0xA0]

/-- A piece of character data. -/
inductive Item
  | unit (c : UInt16)
  | entity (e : Entity)
  | decimal (digits : JsString)
  | hex (digits : JsString)
  deriving DecidableEq

namespace Item

def write : Item → JsString
  | unit c => [c]
  | entity e => e.key
  | decimal digits => js "&#" ++ (digits ++ js ";")
  | hex digits => js "&#x" ++ (digits ++ js ";")

/-- The text an item stands for. -/
def decoded : Item → JsString
  | unit c => [c]
  | entity e => e.text
  | decimal digits => fromCodePoint (numberOf 10 digits)
  | hex digits => fromCodePoint (numberOf 16 digits)

/-- A numeric reference is to a character. -/
def Proper : Item → Prop
  | decimal digits => digits ≠ [] ∧ digits.all isDigit = true ∧ (numberOf 10 digits).isValidChar
  | hex digits => digits ≠ [] ∧ digits.all (fun c => (hexValue c).isSome) = true ∧
      (numberOf 16 digits).isValidChar
  | _ => True

/-- Character data as it may be written: `<` and `&` by reference. -/
def WellFormed : Item → Prop
  | unit c => c ≠ 0x3C ∧ c ≠ 0x26
  | x => x.Proper

end Item

def writeItems (xs : List Item) : JsString := xs.flatMap Item.write

def decodedItems (xs : List Item) : JsString := xs.flatMap Item.decoded

/-- The characters a text shows. -/
def weight (xs : List Item) : ℕ := (visible (decodedItems xs)).length

theorem writeItems_cons (x : Item) (xs : List Item) :
    writeItems (x :: xs) = x.write ++ writeItems xs := rfl

theorem visible_decodedItems_cons (x : Item) (xs : List Item) :
    visible (decodedItems (x :: xs)) = visible x.decoded ++ visible (decodedItems xs) := by
  rw [decodedItems, List.flatMap_cons, visible_append]
  rfl

theorem weight_cons (x : Item) (xs : List Item) :
    weight (x :: xs) = (visible x.decoded).length + weight xs := by
  rw [weight, visible_decodedItems_cons, List.length_append]
  rfl

theorem writeItems_units (t : JsString) (xs : List Item) :
    writeItems (t.map .unit ++ xs) = t ++ writeItems xs := by
  induction t with
  | nil => rfl
  | cons c t ih => exact congrArg (c :: ·) ih

theorem decodedItems_units (t : JsString) (xs : List Item) :
    decodedItems (t.map .unit ++ xs) = t ++ decodedItems xs := by
  induction t with
  | nil => rfl
  | cons c t ih => exact congrArg (c :: ·) ih

theorem weight_units (t : JsString) (xs : List Item) :
    weight (t.map .unit ++ xs) = (visible t).length + weight xs := by
  rw [weight, decodedItems_units, visible_append, List.length_append]
  rfl

/-- Every reference begins with `&`. -/
theorem exists_write_eq (x : Item) : (∃ c, x = .unit c) ∨ ∃ s, x.write = 0x26 :: s := by
  rcases x with c | e | digits | digits
  · exact .inl ⟨c, rfl⟩
  · exact .inr (by cases e <;> exact ⟨_, rfl⟩)
  · exact .inr ⟨_, rfl⟩
  · exact .inr ⟨_, rfl⟩

/-- A text without `&` at the front of some items is of units. -/
theorem units_of_writeItems {u s : JsString} {xs : List Item} (hu : 0x26 ∉ u)
    (h : writeItems xs = u ++ s) : ∃ ys, xs = u.map .unit ++ ys ∧ writeItems ys = s := by
  induction u generalizing xs with
  | nil => exact ⟨xs, rfl, h⟩
  | cons c u ih =>
    rw [List.mem_cons, not_or] at hu
    rcases xs with _ | ⟨x, xs⟩
    · cases h
    rw [writeItems_cons] at h
    obtain ⟨d, rfl⟩ | ⟨w, hw⟩ := exists_write_eq x
    · obtain ⟨hcd, hrest⟩ := List.cons.inj h
      obtain ⟨ys, rfl, hys⟩ := ih hu.2 hrest
      exact ⟨ys, by rw [show d = c from hcd]; rfl, hys⟩
    · rw [hw] at h
      exact absurd (List.cons.inj h).1 hu.1

/-! ## A pass -/

/-- What a pass leaves of an item. -/
def resolve (hit : Item → Option JsString) (x : Item) : List Item :=
  match hit x with
  | some t => t.map .unit
  | none => [x]

/-- No `&` among the units begins a reference of the pattern. -/
def Quiet (m : JsString → Option (JsString × ℕ)) : List Item → Prop
  | [] => True
  | x :: xs => (x = .unit 0x26 → m (writeItems (x :: xs)) = none) ∧ Quiet m xs

instance decidableQuiet (m : JsString → Option (JsString × ℕ)) :
    (xs : List Item) → Decidable (Quiet m xs)
  | [] => .isTrue trivial
  | x :: xs =>
    have := decidableQuiet m xs
    inferInstanceAs (Decidable ((x = .unit 0x26 → m (writeItems (x :: xs)) = none) ∧ Quiet m xs))

/-- **A pass over the items `A`**: it reads the ones it is for, as they are meant, and finds nothing
in the others; what it finds in units is written in more characters than it stands for. -/
structure Pass (A : Item → Prop) (m : JsString → Option (JsString × ℕ))
    (hit : Item → Option JsString) : Prop where
  unit : ∀ c, A (.unit c) ∧ hit (.unit c) = none
  found : ∀ s t n, m s = some (t, n) → ∃ u rest, s = 0x26 :: (u ++ rest) ∧ n = u.length + 1 ∧
    0x26 ∉ u ∧ (visible t).length < (visible (0x26 :: u)).length
  reads : ∀ x t s, A x → hit x = some t → m (x.write ++ s) = some (t, x.write.length)
  same : ∀ x t, A x → hit x = some t → visible t = visible x.decoded
  clear : ∀ x, A x → hit x = none → (∀ c, x ≠ .unit c) →
    Clear (fun s => (m s).isSome = true) x.write

/-- What a pass makes of some items. -/
structure Passed (A : Item → Prop) (m : JsString → Option (JsString × ℕ))
    (hit : Item → Option JsString) (xs ys : List Item) : Prop where
  write : replaceAll m 0 (writeItems xs) = writeItems ys
  items : ∀ y ∈ ys, A y ∧ hit y = none
  quiet : Quiet m xs → ys = xs.flatMap (resolve hit)
  lighter : weight ys ≤ weight xs ∧ (¬Quiet m xs → weight ys < weight xs)

namespace Pass

variable {A : Item → Prop} {m : JsString → Option (JsString × ℕ)} {hit : Item → Option JsString}

/-- The items made of a text are units. -/
theorem items_units (hp : Pass A m hit) (t : JsString) {ys : List Item}
    (hys : ∀ y ∈ ys, A y ∧ hit y = none) : ∀ y ∈ t.map .unit ++ ys, A y ∧ hit y = none := by
  intro y hy
  rcases List.mem_append.mp hy with hy | hy
  · obtain ⟨c, -, rfl⟩ := List.mem_map.mp hy
    exact hp.unit c
  · exact hys y hy

variable {x : Item} {xs ys : List Item} {t : JsString}

/-- A reference the pass is for. -/
theorem cons_read (hp : Pass A m hit) (hx : A x) (ht : hit x = some t) (h : Passed A m hit xs ys) :
    Passed A m hit (x :: xs) (t.map .unit ++ ys) := by
  have hnot : ∀ c, x ≠ .unit c := fun c hc => by cases (hp.unit c).2.symm.trans (hc ▸ ht)
  have hquiet : Quiet m (x :: xs) ↔ Quiet m xs := and_iff_right fun hc => absurd hc (hnot _)
  refine ⟨?_, hp.items_units t h.items, fun hq => ?_, ?_⟩
  · obtain ⟨c, hc⟩ | ⟨w, hw⟩ := exists_write_eq x
    · exact absurd hc (hnot c)
    have hread := hp.reads x t (writeItems xs) hx ht
    rw [hw] at hread
    rw [writeItems_cons, hw, List.cons_append, replaceAll_match hread, writeItems_units, h.write]
  · rw [List.flatMap_cons, ← h.quiet (hquiet.mp hq), resolve, ht]
  · rw [weight_units, weight_cons, hp.same x t hx ht, hquiet]
    exact ⟨Nat.add_le_add_left h.lighter.1 _, fun hq => Nat.add_lt_add_left (h.lighter.2 hq) _⟩

/-- An item the pass goes over: another reference, or a unit. -/
theorem cons_kept (hx : A x) (hnone : hit x = none) (h : Passed A m hit xs ys)
    (hwrite : replaceAll m 0 (x.write ++ writeItems xs) = x.write ++ replaceAll m 0 (writeItems xs))
    (hquiet : x = .unit 0x26 → m (writeItems (x :: xs)) = none) : Passed A m hit (x :: xs)
    (x :: ys) := by
  have hsame : Quiet m (x :: xs) ↔ Quiet m xs := and_iff_right hquiet
  refine ⟨?_, List.forall_mem_cons.mpr ⟨⟨hx, hnone⟩, h.items⟩, fun hq => ?_, ?_⟩
  · rw [writeItems_cons, hwrite, h.write, writeItems_cons]
  · rw [List.flatMap_cons, ← h.quiet (hsame.mp hq), resolve, hnone]
    rfl
  · rw [weight_cons, weight_cons, hsame]
    exact ⟨Nat.add_le_add_left h.lighter.1 _, fun hq => Nat.add_lt_add_left (h.lighter.2 hq) _⟩

/-- **An `&` that begins a reference** takes the units behind it along. -/
theorem cons_found (hp : Pass A m hit) {c : UInt16} {u : JsString}
    (hfound : m (c :: (u ++ writeItems xs)) = some (t, u.length + 1)) (hc : c = 0x26)
    (hshort : (visible t).length < (visible (c :: u)).length) (h : Passed A m hit xs ys) :
    Passed A m hit (.unit c :: (u.map .unit ++ xs)) (t.map .unit ++ ys) := by
  have hloud : ¬Quiet m (.unit c :: (u.map .unit ++ xs)) := by
    rintro ⟨hnone, -⟩
    rw [writeItems_cons, writeItems_units] at hnone
    cases (hnone (hc ▸ rfl)).symm.trans hfound
  have hlighter : weight (t.map .unit ++ ys) < weight (.unit c :: (u.map .unit ++ xs)) := by
    have hle := h.lighter.1
    rw [← List.cons_append, ← List.map_cons, weight_units, weight_units]
    omega
  refine ⟨?_, hp.items_units t h.items, fun hq => absurd hq hloud, hlighter.le, fun _ => hlighter⟩
  rw [writeItems_cons, writeItems_units, writeItems_units, ← h.write]
  exact replaceAll_match hfound

/-- **A pass**, item by item. -/
theorem run (hp : Pass A m hit) {xs : List Item} (hxs : ∀ x ∈ xs, A x) :
    ∃ ys, Passed A m hit xs ys := by
  induction hn : xs.length using Nat.strong_induction_on generalizing xs with
  | _ n ih =>
    rcases xs with _ | ⟨x, xs⟩
    · exact ⟨[], rfl, by simp, fun _ => rfl, le_refl _, fun h => absurd trivial h⟩
    obtain ⟨hx, hrest⟩ := List.forall_mem_cons.mp hxs
    rw [List.length_cons] at hn
    obtain ⟨ys, hys⟩ := ih xs.length (by omega) hrest rfl
    rcases hhit : hit x with _ | t
    · by_cases hunit : ∃ c, x = .unit c
      · obtain ⟨c, rfl⟩ := hunit
        rcases hm : m (c :: writeItems xs) with _ | ⟨t, k⟩
        · exact ⟨_, cons_kept hx hhit hys (replaceAll_none hm) fun _ => hm⟩
        -- the units that are read are those of the items behind
        obtain ⟨u, s, hs, rfl, hu, hshort⟩ := hp.found _ t k hm
        obtain ⟨rfl, hwrite⟩ := List.cons.inj hs
        obtain ⟨xs, rfl, rfl⟩ := units_of_writeItems hu hwrite
        rw [hwrite] at hm
        obtain ⟨ys, hys⟩ := ih xs.length (by rw [← hn, List.length_append]; omega)
          (fun x hx => hrest x (List.mem_append_right _ hx)) rfl
        exact ⟨_, hp.cons_found hm rfl hshort hys⟩
      · have hnot : ∀ c, x ≠ .unit c := fun c hc => hunit ⟨c, hc⟩
        exact ⟨_, cons_kept hx hhit hys (replaceAll_clear (hp.clear x hx hhit hnot) _) fun hc =>
          absurd hc (hnot _)⟩
    · exact ⟨_, hp.cons_read hx hhit hys⟩

end Pass

/-! ## The patterns of `stripTags` -/

section numeric

variable {mark : JsString} {base : ℕ} {isDigit : UInt16 → Bool} {s t : JsString} {n : ℕ}

/-- A numeric reference that is read. -/
theorem exists_of_numberAt (h : numberAt mark base isDigit s = some (t, n)) :
    ∃ digits rest, s = mark ++ (digits ++ 0x3B :: rest) ∧ digits ≠ [] ∧ digits.all isDigit = true ∧
      t = decodeCodePoint (numberOf base digits) ∧ n = mark.length + digits.length + 1 := by
  simp only [numberAt] at h
  split at h
  · rename_i hmark
    obtain ⟨rest, rfl⟩ := List.isPrefixOf_iff_prefix.mp hmark
    rw [List.drop_left] at h
    split at h
    · rename_i hdigits
      obtain ⟨rfl, rfl⟩ := Prod.mk.inj (Option.some.inj h)
      obtain ⟨hne, hend⟩ := hdigits
      rw [← List.drop_drop, List.drop_left] at hend
      have hsplit := List.takeWhile_append_dropWhile (p := isDigit) (l := rest)
      have hdrop : rest.drop (rest.takeWhile isDigit).length = rest.dropWhile isDigit := by
        calc rest.drop (rest.takeWhile isDigit).length
            = (rest.takeWhile isDigit ++ rest.dropWhile isDigit).drop
              (rest.takeWhile isDigit).length := by
              rw [hsplit]
          _ = rest.dropWhile isDigit := List.drop_left
      rw [hdrop] at hend
      obtain ⟨tail, htail⟩ := List.head?_eq_some_iff.mp hend
      refine ⟨rest.takeWhile isDigit, tail, ?_, hne, List.all_takeWhile, rfl, rfl⟩
      rw [← htail, hsplit]
    · cases h
  · cases h

/-- A numeric reference is read as it is written. -/
theorem numberAt_write {digits : JsString} (hne : digits ≠ []) (hdigits : digits.all isDigit = true)
    (hend : isDigit 0x3B = false) :
    numberAt mark base isDigit (mark ++ (digits ++ [0x3B]) ++ s) =
      some (decodeCodePoint (numberOf base digits), (mark ++ (digits ++ [0x3B])).length) := by
  have htake : (digits ++ 0x3B :: s).takeWhile isDigit = digits := by
    rw [List.takeWhile_append_of_pos (List.all_eq_true.mp hdigits),
      List.takeWhile_cons_of_neg (by rw [hend]; exact Bool.false_ne_true), List.append_nil]
  have hhead : ((mark ++ (digits ++ 0x3B :: s)).drop (mark.length + digits.length)).head? =
      some 0x3B := by
    rw [← List.drop_drop, List.drop_left, List.drop_left]
    rfl
  have hlength : (mark ++ (digits ++ [0x3B])).length = mark.length + digits.length + 1 := by
    rw [List.length_append, List.length_append, Nat.add_assoc]
    rfl
  rw [hlength, List.append_assoc, List.append_assoc, List.singleton_append]
  simp only [numberAt]
  rw [if_pos (List.isPrefixOf_iff_prefix.mpr ⟨_, rfl⟩), List.drop_left, htake, if_pos ⟨hne, hhead⟩]

theorem length_decodeCodePoint (value : ℕ) : (decodeCodePoint value).length ≤ 2 := by
  rw [decodeCodePoint, fromCodePoint]
  split
  · split <;> simp
  · simp

theorem decodeCodePoint_of_isValidChar {value : ℕ} (h : value.isValidChar) :
    decodeCodePoint value = fromCodePoint value := by
  refine if_pos ?_
  rcases h with h | h <;> omega

/-- **A numeric reference** is written in more characters than it stands for. -/
theorem found_of_numberAt (name : JsString) (hname : 0x26 ∉ name) (hamp : isDigit 0x26 = false)
    (h : numberAt (0x26 :: 0x23 :: name) base isDigit s = some (t, n)) :
    ∃ u rest, s = 0x26 :: (u ++ rest) ∧ n = u.length + 1 ∧ 0x26 ∉ u ∧
      (visible t).length < (visible (0x26 :: u)).length := by
  obtain ⟨digits, rest, rfl, -, hdigits, rfl, rfl⟩ := exists_of_numberAt h
  refine ⟨0x23 :: (name ++ (digits ++ [0x3B])), rest, by simp, by simp; omega, ?_, ?_⟩
  · have hnot : 0x26 ∉ digits := fun hmem =>
      Bool.false_ne_true (hamp.symm.trans (List.all_eq_true.mp hdigits _ hmem))
    simp [hname, hnot]
  · have hle : (visible (decodeCodePoint (numberOf base digits))).length ≤ 2 :=
      (List.length_filter_le _ _).trans (length_decodeCodePoint _)
    have hends : visible (0x26 :: 0x23 :: (name ++ (digits ++ [0x3B]))) =
        0x26 :: 0x23 :: (visible (name ++ digits) ++ [0x3B]) := by
      rw [← List.append_assoc, visible_cons, visible_cons 0x23, visible_append _ [0x3B]]
      rfl
    rw [hends]
    simp only [List.length_cons, List.length_append, List.length_nil]
    omega

/-- A numeric reference begins with its mark. -/
theorem prefix_of_numberAt (h : (numberAt mark base isDigit s).isSome = true) : mark <+: s := by
  obtain ⟨⟨t, n⟩, h⟩ := Option.isSome_iff_exists.mp h
  obtain ⟨digits, rest, rfl, -⟩ := exists_of_numberAt h
  exact List.prefix_append _ _

/-- No numeric reference is in a named one. -/
theorem clear_key {name : JsString} (e : Entity) :
    Clear (fun s => (numberAt (0x26 :: 0x23 :: name) base isDigit s).isSome = true) e.key := by
  obtain ⟨c, k, hkey, hc, hk⟩ : ∃ c k, e.key = 0x26 :: c :: k ∧ c ≠ 0x23 ∧ 0x26 ∉ c :: k := by
    cases e <;> exact ⟨_, _, rfl, by decide, by decide⟩
  rw [hkey]
  refine clear_cons (fun s hs => ?_) (fun s hs => ?_) hk
  · obtain ⟨rest, rfl⟩ := prefix_of_numberAt hs
    rfl
  · obtain ⟨rest, hrest⟩ := prefix_of_numberAt hs
    exact hc (List.cons.inj (List.cons.inj hrest).2).1.symm

end numeric

/-- The code points of hexadecimal references. -/
def hexHit : Item → Option JsString
  | .hex digits => some (fromCodePoint (numberOf 16 digits))
  | _ => none

/-- The code points of decimal references. -/
def decimalHit : Item → Option JsString
  | .decimal digits => some (fromCodePoint (numberOf 10 digits))
  | _ => none

/-- The texts of named references: a space for a no-break space. -/
def entityHit : Item → Option JsString
  | .entity .nbsp => some (js " ")
  | .entity e => some e.text
  | _ => none

/-- **The first pass** reads the hexadecimal references. -/
theorem hexPass : Pass Item.Proper hexNumberAt hexHit where
  unit _ := ⟨trivial, rfl⟩
  found _ _ _ h := found_of_numberAt (js "x") (by decide) rfl h
  reads x t s hx ht := by
    rcases x with c | e | digits | digits <;> cases ht
    rw [← decodeCodePoint_of_isValidChar hx.2.2]
    exact numberAt_write hx.1 hx.2.1 rfl
  same x t _ ht := by
    rcases x with c | e | digits | digits <;> cases ht
    rfl
  clear x hx hnone hunit := by
    rcases x with c | e | digits | digits
    · exact absurd rfl (hunit c)
    · exact clear_key e
    · have hwrite : (Item.decimal digits).write = 0x26 :: 0x23 :: (digits ++ [0x3B]) := rfl
      rw [hwrite]
      refine clear_cons (d := 0x26) (fun s hs => ?_) (fun s hs => ?_) ?_
      · obtain ⟨rest, rfl⟩ := prefix_of_numberAt hs
        rfl
      · obtain ⟨rest, hrest⟩ := prefix_of_numberAt hs
        obtain ⟨d, digits, rfl⟩ := List.exists_cons_of_ne_nil hx.1
        obtain rfl : 0x78 = d := (List.cons.inj (List.cons.inj (List.cons.inj hrest).2).2).1
        cases hx.2.1
      · have hnot : 0x26 ∉ digits := fun hmem => by cases List.all_eq_true.mp hx.2.1 _ hmem
        simp [hnot]
    · cases hnone

/-- **The second pass** reads the decimal references. -/
theorem decimalPass : Pass (fun x => x.Proper ∧ hexHit x = none) decimalNumberAt decimalHit where
  unit _ := ⟨⟨trivial, rfl⟩, rfl⟩
  found _ _ _ h := found_of_numberAt [] List.not_mem_nil rfl h
  reads x t s hx ht := by
    rcases x with c | e | digits | digits <;> cases ht
    rw [← decodeCodePoint_of_isValidChar hx.1.2.2]
    exact numberAt_write hx.1.1 hx.1.2.1 rfl
  same x t _ ht := by
    rcases x with c | e | digits | digits <;> cases ht
    rfl
  clear x hx hnone hunit := by
    rcases x with c | e | digits | digits
    · exact absurd rfl (hunit c)
    · exact clear_key e
    · cases hnone
    · cases hx.2

/-- The named references. -/
theorem entities_found : ∀ e ∈ ENTITIES, ∃ u, e.1 = 0x26 :: u ∧ 0x26 ∉ u ∧
    (visible e.2).length < (visible e.1).length := by
  intro e he
  have hall : ENTITIES.all (fun e => e.1.head? == some 0x26 && !e.1.tail.contains 0x26 &&
    decide ((visible e.2).length < (visible e.1).length)) = true := rfl
  have h := List.all_eq_true.mp hall e he
  simp only [Bool.and_eq_true, beq_iff_eq, Bool.not_eq_true', decide_eq_true_eq] at h
  obtain ⟨⟨hhead, htail⟩, hlength⟩ := h
  obtain ⟨u, hu⟩ := List.head?_eq_some_iff.mp hhead
  refine ⟨u, hu, fun hmem => ?_, hlength⟩
  rw [hu, List.tail_cons, List.contains_iff_mem.mpr hmem] at htail
  cases htail

/-- **The third pass** reads the named references. -/
theorem entityPass :
    Pass (fun x => (x.Proper ∧ hexHit x = none) ∧ decimalHit x = none) entityAt entityHit where
  unit _ := ⟨⟨⟨trivial, rfl⟩, rfl⟩, rfl⟩
  found s t n h := by
    obtain ⟨e, he, hen⟩ := Option.map_eq_some_iff.mp h
    obtain ⟨rfl, rfl⟩ := Prod.mk.inj hen
    obtain ⟨u, hu, hamp, hlength⟩ := entities_found e (List.mem_of_find?_eq_some he)
    have hprefix : e.1.isPrefixOf s = true :=
      List.find?_some (p := fun e : JsString × JsString => e.1.isPrefixOf s) he
    obtain ⟨rest, rfl⟩ := List.isPrefixOf_iff_prefix.mp hprefix
    exact ⟨u, rest, by rw [hu]; rfl, by rw [hu]; rfl, hamp, by rwa [← hu]⟩
  reads x t s hx ht := by
    rcases x with c | e | digits | digits
    · cases ht
    · cases e <;> cases ht <;> rfl
    · cases ht
    · cases ht
  same x t _ ht := by
    rcases x with c | e | digits | digits
    · cases ht
    · cases e <;> cases ht <;> rfl
    · cases ht
    · cases ht
  clear x hx hnone hunit := by
    rcases x with c | e | digits | digits
    · exact absurd rfl (hunit c)
    · cases e <;> cases hnone
    · cases hx.2
    · cases hx.1.2

/-! ## What is left of the text -/

/-- **No `&` that a numeric reference stands for begins another reference**, with the units behind
it. -/
def ReadOnce (xs : List Item) : Prop :=
  Quiet decimalNumberAt (xs.flatMap (resolve hexHit)) ∧
    Quiet entityAt ((xs.flatMap (resolve hexHit)).flatMap (resolve decimalHit))

instance (xs : List Item) : Decidable (ReadOnce xs) := inferInstanceAs (Decidable (_ ∧ _))

/-- A quiet pass keeps what the items show. -/
theorem Pass.visible_resolve {A : Item → Prop} {m : JsString → Option (JsString × ℕ)}
    {hit : Item → Option JsString} (hp : Pass A m hit) {xs : List Item} (hxs : ∀ x ∈ xs, A x) :
    visible (decodedItems (xs.flatMap (resolve hit))) = visible (decodedItems xs) := by
  induction xs with
  | nil => rfl
  | cons x xs ih =>
    obtain ⟨hx, hrest⟩ := List.forall_mem_cons.mp hxs
    rw [List.flatMap_cons, visible_decodedItems_cons, ← ih hrest, resolve]
    rcases hhit : hit x with _ | t
    · exact visible_decodedItems_cons _ _
    · rw [← hp.same x t hx hhit, ← visible_append]
      exact congrArg visible (decodedItems_units t _)

/-- Character data has no `&` by itself. -/
theorem quiet_of_wellFormed {m : JsString → Option (JsString × ℕ)} {xs : List Item}
    (hxs : ∀ x ∈ xs, x.WellFormed) : Quiet m xs := by
  induction xs with
  | nil => trivial
  | cons x xs ih =>
    obtain ⟨hx, hrest⟩ := List.forall_mem_cons.mp hxs
    refine ⟨fun hunit => ?_, ih hrest⟩
    rw [hunit] at hx
    exact absurd rfl hx.2

theorem Item.WellFormed.proper {x : Item} (hx : x.WellFormed) : x.Proper := by
  rcases x with c | e | digits | digits
  · trivial
  · exact hx
  · exact hx
  · exact hx

/-- The last pass leaves units. -/
theorem writeItems_eq_decodedItems {ys : List Item}
    (hys : ∀ y ∈ ys, ((y.Proper ∧ hexHit y = none) ∧ decimalHit y = none) ∧ entityHit y = none) :
    writeItems ys = decodedItems ys := by
  refine List.flatMap_congr fun y hy => ?_
  obtain ⟨⟨⟨-, hhex⟩, hdecimal⟩, hentity⟩ := hys y hy
  rcases y with c | e | digits | digits
  · rfl
  · cases e <;> cases hentity
  · cases hdecimal
  · cases hhex

theorem visible_collapseSpaces (inSpace : Bool) (s : JsString) :
    visible (collapseSpaces inSpace s) = visible s := by
  induction s generalizing inSpace with
  | nil => rfl
  | cons c s ih =>
    rw [collapseSpaces]
    split
    · rename_i hspace
      rw [visible_append, ih, visible_cons_of_space hspace]
      cases inSpace <;> rfl
    · rw [visible_cons, ih, ← visible_cons]

/-- **What is left of character data**: items that show as much as it does, if each reference is
read once, and less otherwise. -/
theorem visible_stripTags {html : JsString} {xs : List Item} (hxs : ∀ x ∈ xs, x.WellFormed)
    (hhtml : replaceAll markupAt 0 html = writeItems xs) :
    (ReadOnce xs → visible (stripTags html) = visible (decodedItems xs)) ∧
      (visible (stripTags html)).length ≤ weight xs ∧
      (¬ReadOnce xs → (visible (stripTags html)).length < weight xs) := by
  have hproper : ∀ x ∈ xs, x.Proper := fun x hx => (hxs x hx).proper
  obtain ⟨ys, hys⟩ := hexPass.run hproper
  obtain ⟨zs, hzs⟩ := decimalPass.run hys.items
  obtain ⟨us, hus⟩ := entityPass.run hzs.items
  have hout : visible (stripTags html) = visible (decodedItems us) := by
    rw [stripTags, hhtml, hys.write, hzs.write, hus.write, writeItems_eq_decodedItems hus.items,
      visible_trim, visible_collapseSpaces]
  obtain rfl := hys.quiet (quiet_of_wellFormed hxs)
  have hle : weight us ≤ weight xs := hus.lighter.1.trans (hzs.lighter.1.trans hys.lighter.1)
  rw [hout]
  refine ⟨fun hread => ?_, hle, fun hloud => ?_⟩
  · obtain rfl := hzs.quiet hread.1
    obtain rfl := hus.quiet hread.2
    rw [entityPass.visible_resolve hzs.items, decimalPass.visible_resolve hys.items,
      hexPass.visible_resolve hproper]
  · by_cases hquiet : Quiet decimalNumberAt (xs.flatMap (resolve hexHit))
    · obtain rfl := hzs.quiet hquiet
      exact (hus.lighter.2 fun hlast => hloud ⟨hquiet, hlast⟩).trans_le
        (hzs.lighter.1.trans hys.lighter.1)
    · exact hus.lighter.1.trans_lt ((hzs.lighter.2 hquiet).trans_le hys.lighter.1)

end Ingestion

import Mathlib.Algebra.Order.BigOperators.Group.List
import SupportAgent.Ingestion.Parsing.Lossless
import SupportAgent.Ingestion.Parsing.References

/-!
# Ingestion/Parsing/Html — the text of an HTML document, and what its blocks show of it

A document is a tree, in which headings and paragraphs hold no others; it may have text outside
them, as an item of a list has.  The pattern of `htmlToBlocks` finds the headings and paragraphs of
the tree, each up to its own end tag (`scan_write`), and the markup within them goes
(`replaceAll_write`).

* `visible_htmlToBlocks` — the blocks of a document are what its headings and paragraphs show.
* `html_blocks_keep_text_iff` — they show its text exactly if it has none elsewhere, and each
  reference of it is read once.
-/

namespace Ingestion

open JsString Matching

/-- Some nodes: the first one, with its children, and those next to it. -/
inductive Html
  | nil
  | text (x : Item) (next : Html)
  | void (name attributes : JsString) (next : Html)
  | element (name attributes : JsString) (children next : Html)

namespace Html

/-- The names of headings and paragraphs. -/
def BLOCKS : List JsString := [js "p", js "h1", js "h2", js "h3", js "h4", js "h5", js "h6"]

def isBlock (name : JsString) : Bool := BLOCKS.contains name

/-- A tag, as it is written. -/
def tag (inside : JsString) : JsString := 0x3C :: (inside ++ [0x3E])

def write : Html → JsString
  | nil => []
  | text x next => x.write ++ next.write
  | void name attributes next => tag (name ++ attributes) ++ next.write
  | element name attributes children next =>
    tag (name ++ attributes) ++ (children.write ++ (tag (0x2F :: name) ++ next.write))

/-- The character data, in the order of the document. -/
def items : Html → List Item
  | nil => []
  | text x next => x :: next.items
  | void _ _ next => next.items
  | element _ _ children next => children.items ++ next.items

/-- The decoded text of a document. -/
def textContent (doc : Html) : JsString := decodedItems doc.items

/-- The headings and paragraphs, with their content. -/
def blocks : Html → List (JsString × Html)
  | nil => []
  | text _ next => next.blocks
  | void _ _ next => next.blocks
  | element name _ children next =>
    if isBlock name then (name, children) :: next.blocks else children.blocks ++ next.blocks

/-- The character data outside headings and paragraphs. -/
def loose : Html → List Item
  | nil => []
  | text x next => x :: next.loose
  | void _ _ next => next.loose
  | element name _ children next =>
    if isBlock name then next.loose else children.loose ++ next.loose

/-- The units of a name: digits and lower-case letters. -/
def isNameUnit (c : UInt16) : Bool := isDigit c || (0x61 ≤ c && c ≤ 0x7A)

/-- A name and the rest of a start tag: attributes, with `<` and `>` by reference. -/
structure IsTag (name attributes : JsString) : Prop where
  name_ne_nil : name ≠ []
  isNameUnit : ∀ c ∈ name, isNameUnit c = true
  isWordUnit : ∀ c ∈ attributes.head?, isWordUnit c = false
  lt : 0x3C ∉ attributes
  gt : 0x3E ∉ attributes

/-- Headings and paragraphs hold no others. -/
def WellFormed : (inBlock : Bool) → Html → Prop
  | _, nil => True
  | inBlock, text x next => x.WellFormed ∧ next.WellFormed inBlock
  | inBlock, void name attributes next =>
    (IsTag name attributes ∧ isBlock name = false) ∧ next.WellFormed inBlock
  | inBlock, element name attributes children next =>
    (IsTag name attributes ∧ (isBlock name = true → inBlock = false)) ∧
      children.WellFormed (inBlock || isBlock name) ∧ next.WellFormed inBlock

/-- A text, before some nodes. -/
def ofText (s : JsString) (next : Html) : Html := s.foldr (fun c doc => text (.unit c) doc) next

theorem wellFormed_ofText {s : JsString} {next : Html} {inBlock : Bool}
    (hs : s.all (fun c => c != 0x3C && c != 0x26) = true) (hnext : next.WellFormed inBlock) :
    (ofText s next).WellFormed inBlock := by
  induction s with
  | nil => exact hnext
  | cons c s ih =>
    rw [List.all_cons, Bool.and_eq_true, Bool.and_eq_true, bne_iff_ne, bne_iff_ne] at hs
    exact And.intro hs.1 (ih hs.2)

/-- An element without attributes. -/
theorem wellFormed_element (name : JsString) {children next : Html} (hne : name ≠ [])
    (hname : name.all isNameUnit = true) (hchildren : children.WellFormed (isBlock name))
    (hnext : next.WellFormed false) : (element name [] children next).WellFormed false := by
  have htag : IsTag name [] :=
    ⟨hne, List.all_eq_true.mp hname, fun _ h => (by cases h), List.not_mem_nil, List.not_mem_nil⟩
  exact And.intro ⟨htag, fun _ => rfl⟩ ⟨hchildren, hnext⟩

/-! ## Tags -/

section tags

variable {name attributes : JsString} {c : UInt16}

theorem toLowerAscii_of_isNameUnit (h : Html.isNameUnit c = true) : toLowerAscii c = c := by
  refine if_neg fun hupper => ?_
  simp only [Html.isNameUnit, isDigit, Bool.or_eq_true, Bool.and_eq_true, decide_eq_true_eq,
    UInt16.le_iff_toNat_le] at h hupper
  simp at h hupper
  omega

theorem isWordUnit_of_isNameUnit (h : Html.isNameUnit c = true) :
    Ingestion.isWordUnit c = true := by
  rw [Html.isNameUnit, Bool.or_eq_true] at h
  rw [Ingestion.isWordUnit, Bool.or_eq_true, Bool.or_eq_true, Bool.or_eq_true]
  exact .inl (h.imp_left .inl)

/-- The tags of a name have no other `<` or `>`. -/
theorem IsTag.notMem (h : IsTag name attributes) :
    (0x3C ∉ name ∧ 0x3C ∉ attributes) ∧ 0x3E ∉ name ∧ 0x3E ∉ attributes :=
  ⟨⟨fun hmem => (by cases h.isNameUnit _ hmem), h.lt⟩, fun hmem =>
    (by cases h.isNameUnit _ hmem), h.gt⟩

theorem IsTag.map_toLowerAscii (h : IsTag name attributes) : name.map toLowerAscii = name :=
  (List.map_congr_left (g := id) fun c hc => toLowerAscii_of_isNameUnit (h.isNameUnit c hc)).trans
    (List.map_id name)

/-- What is behind a name does not go on with it. -/
theorem IsTag.any_isWordUnit (h : IsTag name attributes) (s : JsString) :
    (attributes ++ 0x3E :: s).head?.any Ingestion.isWordUnit = false := by
  rcases hattributes : attributes with _ | ⟨c, rest⟩
  · rfl
  · exact h.isWordUnit c (by rw [hattributes]; rfl)

/-- The name of a block at the front of a text. -/
theorem exists_of_blockName {s b : JsString} (h : blockName s = some b) :
    (∃ c rest, s = c :: rest ∧ toLowerAscii c = 0x70 ∧ b = [0x70]) ∨
      ∃ c d rest, s = c :: d :: rest ∧ toLowerAscii c = 0x68 ∧ (0x31 ≤ d ∧ d ≤ 0x36) ∧
        b = [0x68, d] := by
  rcases s with _ | ⟨c, s⟩
  · cases h
  simp only [blockName] at h
  split at h
  · rename_i hp
    exact .inl ⟨c, s, rfl, hp, (Option.some.inj h).symm⟩
  · split at h
    · rename_i hh
      rcases s with _ | ⟨d, s⟩
      · cases h
      · simp only at h
        split at h
        · rename_i hd
          exact .inr ⟨c, d, s, rfl, hh, hd, (Option.some.inj h).symm⟩
        · cases h
    · cases h

/-- The levels of headings. -/
theorem isBlock_of_level {d : UInt16} (h : 0x31 ≤ d ∧ d ≤ 0x36) : isBlock [0x68, d] = true := by
  have hlevel : d = 0x31 ∨ d = 0x32 ∨ d = 0x33 ∨ d = 0x34 ∨ d = 0x35 ∨ d = 0x36 := by
    simp only [UInt16.le_iff_toNat_le] at h
    simp only [← UInt16.toNat_inj]
    simp at h ⊢
    omega
  rcases hlevel with rfl | rfl | rfl | rfl | rfl | rfl <;> decide

theorem isWordUnit_of_level {d : UInt16} (h : 0x31 ≤ d ∧ d ≤ 0x36) :
    Ingestion.isWordUnit d = true := by
  simp only [Ingestion.isWordUnit, isDigit, Bool.or_eq_true, Bool.and_eq_true, decide_eq_true_eq,
    UInt16.le_iff_toNat_le] at h ⊢
  simp at h ⊢
  omega

/-- A name that goes on is not the name of a block. -/
theorem blockBody_eq_none {b s : JsString} (hc : Ingestion.isWordUnit c = true) :
    blockBody b (c :: s) = none := if_pos (.inl hc)

/-- The start tag of another element is passed over. -/
theorem IsTag.blockAt_start (h : IsTag name attributes) (hname : isBlock name = false)
    (s : JsString) : blockAt (tag (name ++ attributes) ++ s) = none := by
  have hshape : tag (name ++ attributes) ++ s = 0x3C :: (name ++ (attributes ++ 0x3E :: s)) := by
    simp [tag]
  have hafter := h.any_isWordUnit s
  have hunit : ∀ c ∈ name, Ingestion.isWordUnit c = true := fun c hc =>
    isWordUnit_of_isNameUnit (h.isNameUnit c hc)
  rw [hshape, blockAt, if_pos rfl, Option.bind_eq_none_iff]
  intro b hb
  rw [Option.map_eq_none_iff]
  rcases name with _ | ⟨c, name⟩
  · exact absurd rfl h.name_ne_nil
  have hc := toLowerAscii_of_isNameUnit (h.isNameUnit c List.mem_cons_self)
  obtain ⟨c', rest, hs, hp, rfl⟩ | ⟨c', d, rest, hs, hh, hd, rfl⟩ := exists_of_blockName hb
  · obtain ⟨rfl, -⟩ := List.cons.inj hs
    rcases name with _ | ⟨d, name⟩
    · rw [hc] at hp
      rw [hp] at hname
      cases hname
    · exact blockBody_eq_none (hunit d (by simp))
  · obtain ⟨rfl, hrest⟩ := List.cons.inj hs
    rcases name with _ | ⟨d', name⟩
    · rw [show attributes ++ 0x3E :: s = d :: rest from hrest] at hafter
      exact absurd (isWordUnit_of_level hd) (Bool.eq_false_iff.mp hafter)
    · obtain ⟨rfl, -⟩ := List.cons.inj hrest
      rcases name with _ | ⟨d'', name⟩
      · rw [hc] at hh
        rw [hh, isBlock_of_level hd] at hname
        cases hname
      · exact blockBody_eq_none (hunit d'' (by simp))

/-- What is before `>`. -/
theorem takeWhile_gt {u : JsString} (hu : 0x3E ∉ u) (s : JsString) :
    (u ++ 0x3E :: s).takeWhile (· != 0x3E) = u := by
  have hall : ∀ c ∈ u, (c != 0x3E) = true := by
    intro c hc
    rw [bne_iff_ne]
    rintro rfl
    exact hu hc
  rw [List.takeWhile_append_of_pos hall, List.takeWhile_cons_of_neg (by simp), List.append_nil]

theorem eq_of_isBlock (hname : isBlock name = true) :
    name = js "p" ∨ name = js "h1" ∨ name = js "h2" ∨
    name = js "h3" ∨ name = js "h4" ∨ name = js "h5" ∨ name = js "h6" := by
  simpa only [BLOCKS, List.mem_cons, List.not_mem_nil,
    or_false] using List.contains_iff_mem.mp hname

theorem blockName_append (hname : isBlock name = true) (s : JsString) :
    blockName (name ++ s) = some name := by
  rcases eq_of_isBlock hname with rfl | rfl | rfl | rfl | rfl | rfl | rfl <;> rfl

/-- An end tag is in lower case. -/
theorem IsTag.map_endTag (h : IsTag name attributes) :
    (tag (0x2F :: name)).map toLowerAscii = tag (0x2F :: name) := by
  rw [tag, List.map_cons, List.map_append, List.map_cons, h.map_toLowerAscii]
  rfl

theorem IsTag.endsBlock_self (h : IsTag name attributes) (s : JsString) :
    endsBlock name (tag (0x2F :: name) ++ s) = true := by
  refine List.isPrefixOf_iff_prefix.mpr ⟨s.map toLowerAscii, ?_⟩
  have hwrite : js "</" ++ name ++ js ">" = tag (0x2F :: name) := rfl
  rw [List.map_append, h.map_endTag, hwrite]

/-- **A heading or paragraph** is found up to its end tag, if there is none of its name before. -/
theorem IsTag.blockAt_block (h : IsTag name attributes) (hname : isBlock name = true)
    {content : JsString}
    (hclear : Clear (fun s => Ingestion.endsBlock name s = true) content) (s : JsString) :
    blockAt (tag (name ++ attributes) ++ (content ++ (tag (0x2F :: name) ++ s))) =
      some ((name, content),
        ((name ++ attributes ++ [0x3E]) ++ (content ++ tag (0x2F :: name))).length + 1) := by
  have hshape : tag (name ++ attributes) ++ (content ++ (tag (0x2F :: name) ++ s)) =
      0x3C :: (name ++ (attributes ++ 0x3E :: (content ++ (tag (0x2F :: name) ++ s)))) := by
    simp [tag]
  have hbody : blockBody name (attributes ++ 0x3E :: (content ++ (tag (0x2F :: name) ++ s))) =
      some (content, attributes.length + 1 + content.length + (name.length + 3)) := by
    simp only [blockBody, takeWhile_gt h.gt]
    rw [if_neg (by rw [h.any_isWordUnit]; simp), ← List.drop_drop, List.drop_left, List.drop_one,
      List.tail_cons, firstIndex_clear hclear (h.endsBlock_self s)
        (by simp [tag]), Option.map_some, List.take_left]
  rw [hshape, blockAt, if_pos rfl, blockName_append hname, Option.bind_some, List.drop_left, hbody,
    Option.map_some]
  simp [tag]
  omega

/-- A tag goes as markup. -/
theorem markupAt_tag {inside : JsString} (hne : inside ≠ []) (hgt : 0x3E ∉ inside) (s : JsString) :
    markupAt (0x3C :: ((inside ++ [0x3E]) ++ s)) = some ([], (inside ++ [0x3E]).length + 1) := by
  rw [List.append_assoc, List.singleton_append]
  simp only [markupAt, takeWhile_gt hgt]
  rw [if_pos (by simp [hne]), List.length_append]
  rfl

/-! ## Where tags begin -/

theorem head?_of_blockAt {s : JsString} (h : (blockAt s).isSome = true) : s.head? = some 0x3C := by
  rcases s with _ | ⟨c, s⟩
  · cases h
  · rw [blockAt] at h
    split at h
    · rename_i hc
      rw [hc]
      rfl
    · cases h

theorem head?_of_markupAt {s : JsString} (h : (markupAt s).isSome = true) :
    s.head? = some 0x3C := by
  rcases s with _ | ⟨c, s⟩
  · cases h
  · simp only [markupAt] at h
    split at h
    · rename_i hc
      rw [hc.1]
      rfl
    · cases h

theorem toLowerAscii_eq_lt (h : toLowerAscii c = 0x3C) : c = 0x3C := by
  rw [toLowerAscii] at h
  split at h
  · rename_i hupper
    rw [Bool.and_eq_true, decide_eq_true_eq, decide_eq_true_eq, UInt16.le_iff_toNat_le,
      UInt16.le_iff_toNat_le] at hupper
    have hsum := congrArg UInt16.toNat h
    rw [UInt16.toNat_add] at hsum
    simp at hupper hsum
    omega
  · exact h

theorem head?_of_endsBlock {s : JsString} (h : endsBlock name s = true) : s.head? = some 0x3C := by
  obtain ⟨rest, hrest⟩ := List.isPrefixOf_iff_prefix.mp h
  rcases s with _ | ⟨c, s⟩
  · cases hrest
  · rw [List.map_cons] at hrest
    exact congrArg some (toLowerAscii_eq_lt (List.cons.inj hrest).1.symm)

variable {q : JsString → Prop}

/-- A tag that is not matched. -/
theorem IsTag.clear_start (h : IsTag name attributes) (hq : ∀ s, q s → s.head? = some 0x3C)
    (hnot : ∀ s, ¬q (tag (name ++ attributes) ++ s)) : Clear q (tag (name ++ attributes)) :=
  clear_cons (d := 0x3C) hq hnot (by simp [h.notMem])

theorem IsTag.clear_end (h : IsTag name attributes) (hq : ∀ s, q s → s.head? = some 0x3C)
    (hnot : ∀ s, ¬q (tag (0x2F :: name) ++ s)) : Clear q (tag (0x2F :: name)) :=
  clear_cons (d := 0x3C) hq hnot (by simp [h.notMem])

theorem lt_notMem_number {mark digits : JsString} {isDigit : UInt16 → Bool} (hmark : 0x3C ∉ mark)
    (hdigits : digits.all isDigit = true) (hlt : isDigit 0x3C = false) :
    0x3C ∉ mark ++ (digits ++ js ";") := by
  have hnot : 0x3C ∉ digits := fun hmem =>
    Bool.false_ne_true (hlt.symm.trans (List.all_eq_true.mp hdigits _ hmem))
  rw [List.mem_append, List.mem_append, not_or, not_or]
  exact ⟨hmark, hnot, by decide⟩

/-- Character data has no tags. -/
theorem clear_item {x : Item} (hx : x.WellFormed) (hq : ∀ s, q s → s.head? = some 0x3C) :
    Clear q x.write := by
  refine clear_of_notMem hq ?_
  rcases x with c | e | digits | digits
  · exact fun hmem => hx.1 (List.mem_singleton.mp hmem).symm
  · cases e <;> decide
  · exact lt_notMem_number (by decide) hx.2.1 rfl
  · exact lt_notMem_number (by decide) hx.2.1 rfl

/-- An end tag begins no block. -/
theorem blockAt_end (name s : JsString) : blockAt (tag (0x2F :: name) ++ s) = none := rfl

/-- An end tag of another element ends no block. -/
theorem IsTag.not_endsBlock_end (h : IsTag name attributes) {block : JsString}
    (hblock : 0x3E ∉ block)
    (hne : name ≠ block) (s : JsString) : ¬endsBlock block (tag (0x2F :: name) ++ s) = true := by
  intro hends
  obtain ⟨rest, hrest⟩ := List.isPrefixOf_iff_prefix.mp hends
  have hwrite : 0x3C :: 0x2F :: (block ++ 0x3E :: rest) =
      0x3C :: 0x2F :: (name ++ 0x3E :: s.map toLowerAscii) := by
    calc 0x3C :: 0x2F :: (block ++ 0x3E :: rest)
        = js "</" ++ block ++ js ">" ++ rest := by
          rw [List.append_assoc, List.append_assoc]
          rfl
      _ = (tag (0x2F :: name) ++ s).map toLowerAscii := hrest
      _ = 0x3C :: 0x2F :: (name ++ 0x3E :: s.map toLowerAscii) := by
          rw [List.map_append, h.map_endTag]
          simp [tag]
  have hinside := (List.cons.inj (List.cons.inj hwrite).2).2
  have htake := congrArg (List.takeWhile (· != 0x3E)) hinside
  rw [takeWhile_gt hblock, takeWhile_gt h.notMem.2.1] at htake
  exact hne htake.symm

/-- A start tag ends no block. -/
theorem IsTag.not_endsBlock_start (h : IsTag name attributes) (block s : JsString) :
    ¬endsBlock block (tag (name ++ attributes) ++ s) = true := by
  intro hends
  obtain ⟨rest, hrest⟩ := List.isPrefixOf_iff_prefix.mp hends
  obtain ⟨c, name, rfl⟩ := List.exists_cons_of_ne_nil h.name_ne_nil
  have hc := h.isNameUnit c List.mem_cons_self
  obtain hslash : 0x2F = toLowerAscii c := (List.cons.inj (List.cons.inj hrest).2).1
  rw [toLowerAscii_of_isNameUnit hc] at hslash
  rw [← hslash] at hc
  cases hc

end tags

/-! ## Documents -/

section documents

variable {doc : Html} {inBlock : Bool}

theorem gt_notMem_of_isBlock {name : JsString} (hname : isBlock name = true) : 0x3E ∉ name := by
  rcases eq_of_isBlock hname with rfl | rfl | rfl | rfl | rfl | rfl | rfl <;> decide

theorem WellFormed.items (h : doc.WellFormed inBlock) : ∀ x ∈ doc.items, x.WellFormed := by
  induction doc generalizing inBlock with
  | nil => simp [Html.items]
  | text x next ih => exact List.forall_mem_cons.mpr ⟨h.1, ih h.2⟩
  | void name attributes next ih => exact ih h.2
  | element name attributes children next ihc ihn =>
    intro x hx
    rcases List.mem_append.mp hx with hx | hx
    · exact ihc h.2.1 x hx
    · exact ihn h.2.2 x hx

/-- **No end tag of a block is within a block.** -/
theorem WellFormed.clear_endsBlock (h : doc.WellFormed true) {block : JsString}
    (hblock : isBlock block = true) : Clear (fun s => endsBlock block s = true) doc.write := by
  have hhead : ∀ s, endsBlock block s = true → s.head? = some 0x3C := fun _ => head?_of_endsBlock
  induction doc with
  | nil => trivial
  | text x next ih => exact (clear_item h.1 hhead).append (ih h.2)
  | void name attributes next ih =>
    exact (h.1.1.clear_start hhead (h.1.1.not_endsBlock_start block)).append (ih h.2)
  | element name attributes children next ihc ihn =>
    obtain ⟨⟨htag, hname⟩, hchildren, hnext⟩ := h
    have hother : name ≠ block := by
      rintro rfl
      cases hname hblock
    have hend := htag.not_endsBlock_end (gt_notMem_of_isBlock hblock) hother
    exact (htag.clear_start hhead (htag.not_endsBlock_start block)).append
      ((ihc hchildren).append ((htag.clear_end hhead hend).append (ihn hnext)))

/-- **The headings and paragraphs of a document are found**, in their order, and nothing else. -/
theorem scan_write (h : doc.WellFormed false) (s : JsString) :
    scan blockAt 0 (doc.write ++ s) = doc.blocks.map (fun b => (b.1, b.2.write)) ++
      scan blockAt 0 s := by
  have hnone : ∀ {a : JsString}, (∀ s, blockAt (a ++ s) = none) →
      ∀ s, ¬(blockAt (a ++ s)).isSome = true :=
    fun ha s => Option.not_isSome_iff_eq_none.mpr (ha s)
  induction doc generalizing s with
  | nil => rfl
  | text x next ih =>
    rw [write, List.append_assoc, scan_clear (clear_item h.1 fun _ => head?_of_blockAt), ih h.2]
    rfl
  | void name attributes next ih =>
    have hstart := h.1.1.clear_start (fun _ => head?_of_blockAt) (hnone (h.1.1.blockAt_start h.1.2))
    rw [write, List.append_assoc, scan_clear hstart, ih h.2]
    rfl
  | element name attributes children next ihc ihn =>
    obtain ⟨⟨htag, hname⟩, hchildren, hnext⟩ := h
    by_cases hblock : isBlock name = true
    · rw [hblock] at hchildren
      have hfound := htag.blockAt_block hblock (hchildren.clear_endsBlock hblock) (next.write ++ s)
      have hshape :
          tag (name ++ attributes) ++
          (children.write ++ (tag (0x2F :: name) ++ (next.write ++ s))) =
          0x3C :: ((name ++ attributes ++ [0x3E]) ++ (children.write ++ tag (0x2F :: name)) ++
            (next.write ++ s)) := by
        simp [tag]
      rw [hshape] at hfound
      rw [write, List.append_assoc, List.append_assoc, List.append_assoc, hshape, scan_match hfound,
        ihn hnext, blocks, if_pos hblock]
      rfl
    · have hother : isBlock name = false := Bool.eq_false_of_not_eq_true hblock
      rw [hother] at hchildren
      have hstart := htag.clear_start (fun _ => head?_of_blockAt)
        (hnone (htag.blockAt_start hother))
      have hend := htag.clear_end (fun _ => head?_of_blockAt) (hnone (blockAt_end name))
      rw [write, List.append_assoc, scan_clear hstart, List.append_assoc, ihc hchildren,
        List.append_assoc,
        scan_clear hend, ihn hnext, blocks, if_neg hblock, List.map_append, List.append_assoc]

/-- **The markup of a document goes**, and its character data stays. -/
theorem replaceAll_write (h : doc.WellFormed inBlock) (s : JsString) :
    replaceAll markupAt 0 (doc.write ++ s) = writeItems doc.items ++ replaceAll markupAt 0 s := by
  have hgo : ∀ {inside : JsString}, inside ≠ [] → 0x3E ∉ inside → ∀ s,
      replaceAll markupAt 0 (tag inside ++ s) = replaceAll markupAt 0 s :=
    fun hne hgt s => replaceAll_match (markupAt_tag hne hgt s)
  induction doc generalizing inBlock s with
  | nil => rfl
  | text x next ih =>
    rw [write, List.append_assoc, replaceAll_clear (clear_item h.1 fun _ => head?_of_markupAt),
      ih h.2, ← List.append_assoc]
    rfl
  | void name attributes next ih =>
    have htag := h.1.1
    rw [write, List.append_assoc, hgo (by simp [htag.name_ne_nil]) (by simp [htag.notMem]), ih h.2]
    rfl
  | element name attributes children next ihc ihn =>
    obtain ⟨⟨htag, -⟩, hchildren, hnext⟩ := h
    rw [write, List.append_assoc, hgo (by simp [htag.name_ne_nil]) (by simp [htag.notMem]),
      List.append_assoc, ihc hchildren, List.append_assoc,
      hgo (by simp) (by simp [htag.notMem]), ihn hnext,
      items, writeItems, writeItems, writeItems, List.flatMap_append, List.append_assoc]

/-- The content of headings and paragraphs is well-formed. -/
theorem WellFormed.blocks (h : doc.WellFormed false) : ∀ b ∈ doc.blocks, b.2.WellFormed true := by
  induction doc with
  | nil => simp [Html.blocks]
  | text x next ih => exact ih h.2
  | void name attributes next ih => exact ih h.2
  | element name attributes children next ihc ihn =>
    obtain ⟨-, hchildren, hnext⟩ := h
    rw [Html.blocks]
    split
    · rename_i hblock
      rw [hblock] at hchildren
      exact List.forall_mem_cons.mpr ⟨hchildren, ihn hnext⟩
    · rename_i hblock
      rw [Bool.eq_false_of_not_eq_true hblock] at hchildren
      intro b hb
      rcases List.mem_append.mp hb with hb | hb
      · exact ihc hchildren b hb
      · exact ihn hnext b hb

theorem decodedItems_append (xs ys : List Item) :
    decodedItems (xs ++ ys) = decodedItems xs ++ decodedItems ys := List.flatMap_append

theorem weight_append (xs ys : List Item) : weight (xs ++ ys) = weight xs + weight ys := by
  rw [weight, decodedItems_append, visible_append, List.length_append]
  rfl

/-- The text of a document is in its headings and paragraphs, or loose. -/
theorem weight_items (doc : Html) :
    weight doc.items = weight doc.loose + (doc.blocks.map fun b => weight b.2.items).sum := by
  induction doc with
  | nil => rfl
  | text x next ih => rw [items, loose, Html.blocks, weight_cons, weight_cons, ih, Nat.add_assoc]
  | void name attributes next ih => exact ih
  | element name attributes children next ihc ihn =>
    rw [items, weight_append, ihn, loose, Html.blocks]
    split
    · rw [List.map_cons, List.sum_cons]
      dsimp only
      omega
    · rw [ihc, weight_append, List.map_append, List.sum_append]
      omega

/-- A document without loose text shows what its headings and paragraphs show. -/
theorem visible_items (h : visible (decodedItems doc.loose) = []) :
    visible (decodedItems doc.items) = doc.blocks.flatMap fun b =>
      visible (decodedItems b.2.items) := by
  induction doc with
  | nil => rfl
  | text x next ih =>
    rw [loose, visible_decodedItems_cons, List.append_eq_nil_iff] at h
    rw [items, visible_decodedItems_cons, h.1, List.nil_append, ih h.2]
    rfl
  | void name attributes next ih => exact ih h
  | element name attributes children next ihc ihn =>
    rw [loose] at h
    rw [items, decodedItems_append, visible_append, Html.blocks]
    split at h
    · rename_i hblock
      rw [if_pos hblock, List.flatMap_cons, ihn h]
    · rename_i hblock
      rw [decodedItems_append, visible_append, List.append_eq_nil_iff] at h
      rw [if_neg hblock, List.flatMap_append, ihc h.1, ihn h.2]

end documents

end Html

/-! ## What the blocks show -/

theorem visible_blockOf (name inner : JsString) :
    ((blockOf name inner).map fun b => visible b.text).getD [] = visible (stripTags inner) := by
  simp only [blockOf]
  split
  · rename_i hnil
    rw [hnil]
    rfl
  · split <;> rfl

/-- The blocks show the texts of what is found. -/
theorem visibleBlocks_filterMap (found : List (JsString × JsString)) :
    visibleBlocks (found.filterMap fun f => blockOf f.1 f.2) = found.flatMap fun f =>
      visible (stripTags f.2) := by
  induction found with
  | nil => rfl
  | cons f found ih =>
    have hf := visible_blockOf f.1 f.2
    rw [List.flatMap_cons, ← ih, ← hf]
    rcases hblock : blockOf f.1 f.2 with _ | b
    · rw [List.filterMap_cons, hblock]
      rfl
    · rw [List.filterMap_cons, hblock]
      rfl

/-- **The blocks of a document** are what its headings and paragraphs show. -/
theorem visible_htmlToBlocks {doc : Html} (h : doc.WellFormed false) :
    visibleBlocks (htmlToBlocks doc.write) = doc.blocks.flatMap fun b =>
      visible (stripTags b.2.write) := by
  have hscan := Html.scan_write h []
  rw [List.append_nil] at hscan
  rw [htmlToBlocks, visibleBlocks_filterMap, hscan, scan, List.append_nil, List.flatMap_map]

/-- What is left of the content of a heading or a paragraph. -/
theorem visible_stripTags_write {doc : Html} {inBlock : Bool} (h : doc.WellFormed inBlock) :
    (ReadOnce doc.items → visible (stripTags doc.write) = visible doc.textContent) ∧
      (visible (stripTags doc.write)).length ≤ weight doc.items ∧
      (¬ReadOnce doc.items → (visible (stripTags doc.write)).length < weight doc.items) := by
  have hmarkup := Html.replaceAll_write h []
  rw [List.append_nil, replaceAll, List.append_nil] at hmarkup
  exact visible_stripTags h.items hmarkup

/-- **The headings and paragraphs of a document show its text** exactly if none of it is outside
them, and no `&` a numeric reference of them stands for begins another reference. -/
theorem Html.keeps_text_iff {doc : Html} (h : doc.WellFormed false) :
    (doc.blocks.flatMap fun b => visible (stripTags b.2.write)) = visible doc.textContent ↔
      visible (decodedItems doc.loose) = [] ∧ ∀ b ∈ doc.blocks, ReadOnce b.2.items := by
  constructor
  · intro heq
    have hlength : (doc.blocks.map fun b => (visible (stripTags b.2.write)).length).sum =
        weight doc.loose + (doc.blocks.map fun b => weight b.2.items).sum := by
      rw [← Html.weight_items, weight, ← Html.textContent, ← heq, List.length_flatMap]
    have hle : ∀ b ∈ doc.blocks, (visible (stripTags b.2.write)).length ≤ weight b.2.items :=
      fun b hb => (visible_stripTags_write (h.blocks b hb)).2.1
    have hsum := List.sum_le_sum hle
    refine ⟨List.length_eq_zero_iff.mp ?_, fun b hb => ?_⟩
    · rw [← weight]
      omega
    · by_contra hloud
      have hlt := List.sum_lt_sum _ _ hle ⟨b, hb,
        (visible_stripTags_write (h.blocks b hb)).2.2 hloud⟩
      omega
  · rintro ⟨hloose, hread⟩
    rw [Html.textContent, Html.visible_items hloose]
    exact List.flatMap_congr fun b hb => (visible_stripTags_write (h.blocks b hb)).1 (hread b hb)

/-- **The blocks of a document show its text** under this condition. -/
theorem html_blocks_keep_text_iff (doc : Html) (h : doc.WellFormed false) :
    visibleBlocks (htmlToBlocks doc.write) = visible doc.textContent ↔
      visible (decodedItems doc.loose) = [] ∧ ∀ b ∈ doc.blocks, ReadOnce b.2.items := by
  rw [visible_htmlToBlocks h]
  exact Html.keeps_text_iff h

/-- A row of one cell, with a paragraph. -/
def Html.row : Html :=
  .element (js "tr") [] (.element (js "td") [] (.element (js "p") []
    (.text (.entity .amp) (.text (.decimal (js "169")) .nil)) .nil) .nil) .nil

theorem Html.wellFormed_row : Html.row.WellFormed false := by
  have hparagraph : WellFormed true (.text (.entity .amp) (.text (.decimal (js "169")) .nil)) :=
    And.intro trivial (And.intro ⟨by decide, rfl, by decide⟩ trivial)
  exact wellFormed_element _ (by decide) rfl (wellFormed_element _ (by decide) rfl
    (wellFormed_element _ (by decide) rfl hparagraph trivial) trivial) trivial

/-- A heading and a table. -/
def Html.sample : Html :=
  .element (js "h1") [] (.ofText (js "Plan") .nil) (.element (js "table") [] Html.row .nil)

/-- A paragraph in the cell of a table is read, with its references. -/
theorem html_blocks_keep_text_iff_sample :
    visibleBlocks (htmlToBlocks Html.sample.write) = visible Html.sample.textContent ∧
      visible Html.sample.textContent = js "Plan&©" := by
  refine ⟨(html_blocks_keep_text_iff Html.sample (Html.wellFormed_element _ (by decide) rfl
    (Html.wellFormed_ofText rfl trivial)
    (Html.wellFormed_element _ (by decide) rfl Html.wellFormed_row trivial))).2 ⟨rfl, ?_⟩, by
      decide⟩
  decide +kernel

/-- A list of one item. -/
def Html.list : Html :=
  .element (js "ul") [] (.element (js "li") [] (.ofText (js "one") .nil) .nil) .nil

theorem Html.wellFormed_list : Html.list.WellFormed false :=
  wellFormed_element _ (by decide) rfl
    (wellFormed_element _ (by decide) rfl (wellFormed_ofText rfl trivial) trivial) trivial

/-- **The text of a list is lost.** -/
theorem not_html_blocks_keep_text :
    Html.list.WellFormed false ∧ Html.list.write = js "<ul><li>one</li></ul>" ∧
      htmlToBlocks Html.list.write = [] ∧ visible Html.list.textContent = js "one" ∧
        ¬visibleBlocks (htmlToBlocks Html.list.write) = visible Html.list.textContent := by
  have hblocks : htmlToBlocks Html.list.write = [] := rfl
  have htext : visible Html.list.textContent = js "one" := rfl
  refine ⟨Html.wellFormed_list, rfl, hblocks, htext, fun heq => ?_⟩
  rw [hblocks, htext] at heq
  cases heq

/-! ## DOCX -/

/-- **A DOCX file shows** what the headings and paragraphs of its conversion do, and all its text
under the condition above. -/
theorem parseDocument_docx {convertToHtml : Bytes → Except JsError JsString}
    (parsePdf : Bytes → Except JsError FormatParseResult) {bytes : Bytes} {doc : Html}
    (hsniff : contentMatchesType .DOCX bytes = true) (h : doc.WellFormed false)
    (hconvert : convertToHtml bytes = .ok doc.write) : ∃ parsed,
      parseDocument (formatsOf (parseDocx convertToHtml) parsePdf) bytes .DOCX = .ok parsed ∧
      (visible parsed.text = visible doc.textContent ↔
        visible (decodedItems doc.loose) = [] ∧ ∀ b ∈ doc.blocks, ReadOnce b.2.items) := by
  have hparse : parseDocument (formatsOf (parseDocx convertToHtml) parsePdf) bytes .DOCX =
      assemble <$> parseDocx convertToHtml bytes := by
    rw [parseDocument]
    change (if !contentMatchesType .DOCX bytes then _ else _) = _
    rw [hsniff]
    rfl
  rw [hparse, parseDocx, hconvert]
  refine ⟨_, rfl, ?_⟩
  rw [visible_assemble, ← Html.keeps_text_iff h, ← visible_htmlToBlocks h]

end Ingestion

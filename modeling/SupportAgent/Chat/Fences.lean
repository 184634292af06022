import Mathlib.Algebra.Order.BigOperators.Group.List
import SupportAgent.Chat.SpecialTokens
import SupportAgent.Machinery.Visible

/-!
# Chat/Fences — the prompt's sources read back out of their text

`cutTags` cuts a text at its `<source>` and `</source>` tags, whatever their case.  Line feeds and
quotes are in no tag, so a text is cut on either side of one by itself (`cutTags_append_splits`);
what the fence lets through has no tag (`tagFree_neutralize`).

* `Reads` — the pieces of a text are those of these sources.
* `sources_fenced_iff` — the block of sources reads back, exactly when no header shows a tag.
-/

open Ingestion JsString Words

/-! ## Tags -/

inductive SourceTag
  | opening
  | closing

def SourceTag.text : SourceTag → JsString
  | opening => js "<source>"
  | closing => js "</source>"

/-- The tag a text begins with. -/
def tagAt (s : JsString) : Option SourceTag :=
  let lower := s.map toLowerAscii
  if (js "<source>").isPrefixOf lower then some .opening
  else if (js "</source>").isPrefixOf lower then some .closing
  else none

/-- A text in pieces: what comes before the first tag, and every tag with what comes before the
next. -/
abbrev Pieces : Type := JsString × List (SourceTag × JsString)

/-- **A text cut at its tags**; `skip` units of a tag are still to be passed over. -/
def cutTags : (skip : ℕ) → JsString → Pieces
  | _, [] => ([], [])
  | skip + 1, _ :: s => cutTags skip s
  | 0, c :: s =>
    match tagAt (c :: s) with
    | some tag =>
      let (next, rest) := cutTags (tag.text.length - 1) s
      ([], (tag, next) :: rest)
    | none =>
      let (head, rest) := cutTags 0 s
      (c :: head, rest)

/-- The number of tags of a text. -/
def tagCount (s : JsString) : ℕ := (cutTags 0 s).2.length

/-- Two texts' pieces put together. -/
def glueFrom (head : JsString) : List (SourceTag × JsString) → Pieces → Pieces
  | [], q => (head ++ q.1, q.2)
  | (tag, next) :: rest, q => (head, (tag, (glueFrom next rest q).1) :: (glueFrom next rest q).2)

def glue (p q : Pieces) : Pieces := glueFrom p.1 p.2 q

/-- A unit of no tag. -/
def Splits (d : UInt16) : Prop := toLowerAscii d = d ∧ ∀ tag : SourceTag, d ∉ tag.text

theorem splits_newline : Splits 0x0A := ⟨rfl, fun tag => by cases tag <;> decide⟩

theorem splits_quote : Splits 0x22 := ⟨rfl, fun tag => by cases tag <;> decide⟩

variable {s t a b : JsString} {d : UInt16} {skip : ℕ}

theorem prefix_append_cons_iff {α : Type} {w a b : List α} {d : α} (hd : d ∉ w) :
    w <+: a ++ d :: b ↔ w <+: a := by
  refine ⟨fun h => ?_, fun h => h.trans (List.prefix_append _ _)⟩
  induction w generalizing a with
  | nil => exact List.nil_prefix
  | cons x w ih =>
    rw [List.mem_cons, not_or] at hd
    rcases a with _ | ⟨y, a⟩
    · exact absurd (List.cons_prefix_cons.1 h).1.symm hd.1
    · rw [List.cons_append, List.cons_prefix_cons] at h
      exact List.cons_prefix_cons.2 ⟨h.1, ih hd.2 h.2⟩

theorem tagAt_eq_some {tag : SourceTag} :
    tagAt s = some tag ↔ tag.text <+: s.map toLowerAscii := by
  have hopen : js "<source>" = SourceTag.opening.text := rfl
  have hclose : js "</source>" = SourceTag.closing.text := rfl
  rw [tagAt, hopen, hclose]
  simp only [List.isPrefixOf_iff_prefix]
  by_cases ho : SourceTag.opening.text <+: s.map toLowerAscii
  · rw [if_pos ho]
    rcases tag with _ | _
    · exact iff_of_true rfl ho
    · refine iff_of_false (fun h => by cases h) fun hc => ?_
      -- the second unit tells the tags apart
      have hsame := List.prefix_of_prefix_length_le ho hc (by decide)
      exact absurd hsame (by decide)
  · rw [if_neg ho]
    rcases tag with _ | _
    · refine iff_of_false (fun h => ?_) ho
      split at h <;> cases h
    · by_cases hc : SourceTag.closing.text <+: s.map toLowerAscii
      · exact iff_of_true (if_pos hc) hc
      · rw [if_neg hc]
        exact iff_of_false (fun h => by cases h) hc

theorem tagAt_append (hd : Splits d) : tagAt (a ++ d :: b) = tagAt a := by
  have hsame : ∀ tag, tagAt (a ++ d :: b) = some tag ↔ tagAt a = some tag := fun tag => by
    rw [tagAt_eq_some, tagAt_eq_some, List.map_append, List.map_cons, hd.1,
      prefix_append_cons_iff (hd.2 tag)]
  exact Option.ext hsame

/-- A tag is all there. -/
theorem length_of_tagAt {tag : SourceTag} (h : tagAt s = some tag) :
    tag.text.length ≤ s.length := by
  have hle := (tagAt_eq_some.1 h).length_le
  rwa [List.length_map] at hle

theorem cutTags_cons_some {c : UInt16} {tag : SourceTag} (h : tagAt (c :: s) = some tag) :
    cutTags 0 (c :: s) = ([], (tag, (cutTags (tag.text.length - 1) s).1) ::
      (cutTags (tag.text.length - 1) s).2) := by
  rw [cutTags, h]

theorem cutTags_cons_none {c : UInt16} (h : tagAt (c :: s) = none) :
    cutTags 0 (c :: s) = (c :: (cutTags 0 s).1, (cutTags 0 s).2) := by
  rw [cutTags, h]

/-- **A unit of no tag keeps its two sides apart.** -/
theorem cutTags_append_splits (hd : Splits d) (hskip : skip ≤ a.length) :
    cutTags skip (a ++ d :: b) = glue (cutTags skip a) (d :: (cutTags 0 b).1, (cutTags 0 b).2) := by
  induction a generalizing skip with
  | nil =>
    obtain rfl : skip = 0 := Nat.le_zero.1 hskip
    have hnone : tagAt (d :: b) = none := (tagAt_append (a := []) hd).trans rfl
    rw [List.nil_append, cutTags_cons_none hnone]
    rfl
  | cons c a ih =>
    rcases skip with _ | skip
    · rw [List.cons_append]
      have hsame : tagAt (c :: (a ++ d :: b)) = tagAt (c :: a) := tagAt_append (a := c :: a) hd
      rcases htag : tagAt (c :: a) with _ | tag
      · rw [cutTags_cons_none (hsame.trans htag), cutTags_cons_none htag, ih (Nat.zero_le _)]
        rcases cutTags 0 a with ⟨head, _ | ⟨⟨tag, next⟩, rest⟩⟩ <;> rfl
      · have hlength := length_of_tagAt htag
        rw [List.length_cons] at hlength
        rw [cutTags_cons_some (hsame.trans htag), cutTags_cons_some htag, ih (by omega)]
        rfl
    · exact ih (Nat.le_of_succ_le_succ hskip)

theorem length_glue (p q : Pieces) : (glue p q).2.length = p.2.length + q.2.length := by
  obtain ⟨head, rest⟩ := p
  rw [glue]
  dsimp only
  induction rest generalizing head with
  | nil => exact (Nat.zero_add _).symm
  | cons piece rest ih =>
    rw [glueFrom, List.length_cons, ih, List.length_cons]
    omega

theorem tagCount_append (hd : Splits d) : tagCount (a ++ d :: b) = tagCount a + tagCount b := by
  rw [tagCount, cutTags_append_splits hd (Nat.zero_le _), length_glue]
  rfl

theorem cutTags_length_append (a b : JsString) : cutTags a.length (a ++ b) = cutTags 0 b := by
  induction a with
  | nil => rfl
  | cons c a ih => exact ih

/-- **A tag is cut out.** -/
theorem cutTags_tag (tag : SourceTag) (b : JsString) :
    cutTags 0 (tag.text ++ b) = ([], (tag, (cutTags 0 b).1) :: (cutTags 0 b).2) := by
  have hlower : tag.text.map toLowerAscii = tag.text := by cases tag <;> rfl
  have hat : tagAt (tag.text ++ b) = some tag := by
    rw [tagAt_eq_some, List.map_append, hlower]
    exact List.prefix_append _ _
  obtain ⟨c, rest, htext⟩ : ∃ c rest, tag.text = c :: rest := by cases tag <;> exact ⟨_, _, rfl⟩
  rw [htext, List.cons_append] at hat ⊢
  rw [cutTags_cons_some hat, htext, List.length_cons, Nat.add_sub_cancel, cutTags_length_append]

theorem tagCount_tag (tag : SourceTag) (b : JsString) :
    tagCount (tag.text ++ b) = 1 + tagCount b := by
  rw [tagCount, cutTags_tag, List.length_cons, tagCount, Nat.add_comm]

/-! ## Texts without tags -/

/-- No tag occurs in the text, whatever its case. -/
def TagFree (s : JsString) : Prop := ∀ tag : SourceTag, ¬tag.text <:+: s.map toLowerAscii

theorem SourceTag.exists_text (tag : SourceTag) : ∃ v, tag.text = 0x3C :: v := by
  cases tag <;> exact ⟨_, rfl⟩

theorem tagFree_cons_iff {c : UInt16} : TagFree (c :: s) ↔ tagAt (c :: s) = none ∧ TagFree s := by
  have hnone : tagAt (c :: s) = none ↔
      ∀ tag : SourceTag, ¬tag.text <+: (c :: s).map toLowerAscii := by
    rw [Option.eq_none_iff_forall_ne_some]
    exact forall_congr' fun tag => not_congr tagAt_eq_some
  rw [hnone, TagFree, TagFree, ← forall_and]
  refine forall_congr' fun tag => ?_
  rw [List.map_cons, List.infix_cons_iff, not_or]

/-- **A text without tags is one piece**, and no other text is. -/
theorem tagCount_eq_zero_iff : tagCount s = 0 ↔ TagFree s := by
  induction s with
  | nil =>
    refine iff_of_true rfl fun tag h => ?_
    obtain ⟨v, hv⟩ := tag.exists_text
    rw [hv] at h
    exact absurd (List.infix_nil.1 h) (List.cons_ne_nil _ _)
  | cons c s ih =>
    rw [tagFree_cons_iff, ← ih, tagCount]
    rcases htag : tagAt (c :: s) with _ | tag
    · rw [cutTags_cons_none htag, and_iff_right rfl, tagCount]
    · rw [cutTags_cons_some htag]
      exact iff_of_false (Nat.succ_ne_zero _) fun h => by cases h.1

theorem TagFree.cutTags_eq (h : TagFree s) : cutTags 0 s = (s, []) := by
  induction s with
  | nil => rfl
  | cons c s ih =>
    obtain ⟨htag, hrest⟩ := tagFree_cons_iff.1 h
    rw [cutTags_cons_none htag, ih hrest]

/-- A text without tags in front of a unit of none stays with it. -/
theorem TagFree.cutTags_append (h : TagFree a) (hd : Splits d) :
    cutTags 0 (a ++ d :: b) = (a ++ d :: (cutTags 0 b).1, (cutTags 0 b).2) := by
  rw [cutTags_append_splits hd (Nat.zero_le _), h.cutTags_eq]
  rfl

/-- A text without `<`. -/
theorem tagFree_of_notMem (h : 0x3C ∉ s) : TagFree s := by
  intro tag hpart
  obtain ⟨v, hv⟩ := tag.exists_text
  rw [hv] at hpart
  obtain ⟨c, hc, hlower⟩ := List.mem_map.1 (hpart.subset List.mem_cons_self)
  exact h (toLowerAscii_eq hlower ▸ hc)

/-- What the fence leaves of the beginning of a tag was there. -/
theorem prefix_map_neutralize {v : JsString} (hopen : 0x3C ∉ v) (hbracket : 0x5B ∉ v)
    (h : v <+: (neutralize 0 s).map toLowerAscii) : v <+: s.map toLowerAscii := by
  induction v generalizing s with
  | nil => exact List.nil_prefix
  | cons x v ih =>
    rw [List.mem_cons, not_or] at hopen hbracket
    rcases s with _ | ⟨c, s⟩
    · exact h
    rw [neutralize] at h
    split at h
    · exact absurd (List.cons_prefix_cons.1 h).1.symm hbracket.1
    · split at h
      · exact absurd (List.cons_prefix_cons.1 h).1.symm hbracket.1
      · rw [List.map_cons, List.cons_prefix_cons] at h ⊢
        exact ⟨h.1, ih hopen.2 hbracket.2 h.2⟩

/-- **The fence leaves no tag.** -/
theorem tagFree_neutralize (skip : ℕ) (s : JsString) : TagFree (neutralize skip s) := by
  have hreplaced : ∀ {m b : JsString}, 0x3C ∉ m.map toLowerAscii → TagFree b →
      TagFree (m ++ b) := by
    intro m b hm hb tag h
    rw [List.map_append, part_append_of_head_notMem tag.exists_text hm] at h
    exact hb tag h
  fun_induction neutralize skip s with
  | case1 => exact tagCount_eq_zero_iff.1 rfl
  | case2 skip c s ih => exact ih
  | case3 c s lower hmatch ih => exact hreplaced (by decide) ih
  | case4 c s lower hmatch hmatch' ih => exact hreplaced (by decide) ih
  | case5 c s lower hmatch hmatch' ih =>
    refine tagFree_cons_iff.2 ⟨?_, ih⟩
    refine Option.eq_none_iff_forall_ne_some.2 fun tag htag => ?_
    -- a tag that begins here was there before
    have hhere : tag.text <+: (c :: s).map toLowerAscii := by
      have htext := tagAt_eq_some.1 htag
      obtain ⟨v, hv, hopen, hbracket⟩ : ∃ v, tag.text = 0x3C :: v ∧ 0x3C ∉ v ∧ 0x5B ∉ v := by
        cases tag <;> exact ⟨_, rfl, by decide, by decide⟩
      rw [hv, List.map_cons, List.cons_prefix_cons] at htext ⊢
      exact ⟨htext.1, prefix_map_neutralize hopen hbracket htext.2⟩
    rcases tag with _ | _
    · exact hmatch (List.isPrefixOf_iff_prefix.2 hhere)
    · exact hmatch' (List.isPrefixOf_iff_prefix.2 hhere)

/-! ## Lines -/

/-- The lines of a text that are not empty. -/
def nonEmptyLines (s : JsString) : List JsString := (s.splitOnP isLineTerminator).filter (· ≠ [])

theorem nonEmptyLines_cons {c : UInt16} (hc : isLineTerminator c = true) :
    nonEmptyLines (c :: s) = nonEmptyLines s := by
  have hsplit : (c :: s).splitOnP isLineTerminator = [] :: s.splitOnP isLineTerminator :=
    List.splitOnP_append_cons_of_forall_mem (List.forall_mem_nil _) c hc s
  rw [nonEmptyLines, hsplit]
  rfl

/-- **A line and the end of it.** -/
theorem nonEmptyLines_line {line : JsString} (hne : line ≠ [])
    (hline : ∀ c ∈ line, isLineTerminator c = false) {c : UInt16} (hc : isLineTerminator c = true) :
    nonEmptyLines (line ++ c :: s) = line :: nonEmptyLines s := by
  have hsplit : (line ++ c :: s).splitOnP isLineTerminator = line :: s.splitOnP isLineTerminator :=
    List.splitOnP_append_cons_of_forall_mem hline c hc s
  rw [nonEmptyLines, hsplit, List.filter_cons_of_pos (by simpa using hne)]
  rfl

/-! ## Headers -/

theorem isLineTerminator_of_mem_collapseSpaces {inSpace : Bool} {c : UInt16}
    (hc : c ∈ collapseSpaces inSpace s) : isLineTerminator c = false := by
  have hvisible : ∀ d : UInt16, isSpace d = false → isLineTerminator d = false := by
    intro d hd
    refine Bool.eq_false_of_not_eq_true fun hline => ?_
    simp only [isLineTerminator, Bool.or_eq_true, beq_iff_eq] at hline
    obtain ((rfl | rfl) | rfl) | rfl := hline <;> cases hd
  induction s generalizing inSpace with
  | nil => cases hc
  | cons d s ih =>
    rw [collapseSpaces] at hc
    split at hc
    · rcases List.mem_append.1 hc with hc | hc
      · split at hc
        · cases hc
        · obtain rfl := List.mem_singleton.1 hc
          rfl
      · exact ih hc
    · rename_i hspace
      rcases List.mem_cons.1 hc with rfl | hc
      · exact hvisible c (Bool.eq_false_of_not_eq_true hspace)
      · exact ih hc

/-- A field of a header is on one line. -/
theorem isLineTerminator_of_mem_headerField {c : UInt16} (hc : c ∈ headerField s) :
    isLineTerminator c = false := by
  have hfiltered : c ∈ (collapseSpaces false s).filter (· != 0x22) :=
    (List.dropWhile_sublist _).subset ((List.rdropWhile_prefix _ _).subset hc)
  exact isLineTerminator_of_mem_collapseSpaces (List.mem_of_mem_filter hfiltered)

/-- The text around the fields of a header: no `<`, and one line. -/
def isPlain (c : UInt16) : Bool := c != 0x3C && !isLineTerminator c

theorem isPlain_toString (n : ℕ) : (js (toString n)).all isPlain = true := by
  refine List.all_eq_true.2 fun c hc => ?_
  have hdigit := isDigit_of_mem_toString hc
  rw [isPlain, Bool.and_eq_true, bne_iff_ne, Bool.not_eq_true']
  refine ⟨?_, Bool.eq_false_of_not_eq_true fun hline => ?_⟩
  · rintro rfl
    cases hdigit
  · simp only [isLineTerminator, Bool.or_eq_true, beq_iff_eq] at hline
    obtain ((rfl | rfl) | rfl) | rfl := hline
    all_goals cases hdigit

/-- The section as a header shows it, from its opening quote on. -/
def sectionField : Option JsString → JsString
  | some (c :: text) => 0x22 :: (headerField (c :: text) ++ [0x22])
  | _ => []

/-- Where a source is: plain text, and the field of its section. -/
theorem exists_loc_eq (page : Option ℕ) (sectionText : Option JsString) (title : JsString)
    (marker : ℕ) : ∃ between : JsString, between.all isPlain = true ∧
      headerLine ⟨marker, title, page, sectionText⟩ =
        js "[" ++ js (toString marker) ++ js "] \"" ++ headerField title ++ js "\"" ++
          (between ++ sectionField sectionText) := by
  have hpage : ∀ p : ℕ, (js " — " ++ (js "page " ++ js (toString p))).all isPlain = true := by
    intro p
    rw [List.all_append, List.all_append, isPlain_toString]
    decide
  have hquote : js "section \"" = js "section " ++ [0x22] := rfl
  have hend : js "\"" = [0x22] := rfl
  rcases page with _ | p
  · rcases sectionText with _ | _ | ⟨c, text⟩
    · exact ⟨[], rfl, rfl⟩
    · exact ⟨[], rfl, rfl⟩
    · refine ⟨js " — section ", by decide, ?_⟩
      simp [headerLine, sectionField, join, js, utf16]
  · rcases sectionText with _ | _ | ⟨c, text⟩
    · refine ⟨_, hpage p, ?_⟩
      simp [headerLine, sectionField, join, js, utf16]
    · refine ⟨_, hpage p, ?_⟩
      simp [headerLine, sectionField, join, js, utf16]
    · refine ⟨js " — " ++ (js "page " ++ js (toString p)) ++ js ", section ", ?_, ?_⟩
      · rw [List.all_append, hpage]
        decide
      · simp [headerLine, sectionField, join, js, utf16, List.intercalate_cons_cons]

/-- **A header is two quoted fields**, between plain text. -/
theorem exists_headerLine_eq (s : SourceHeader) : ∃ before between : JsString,
    before.all isPlain = true ∧ between.all isPlain = true ∧
      js "[" ++ js (toString s.marker) ++ js "] \"" = before ++ [0x22] ∧
      headerLine s = before ++ 0x22 :: (headerField s.title ++
        0x22 :: (between ++ sectionField s.sectionText)) := by
  obtain ⟨marker, title, page, sectionText⟩ := s
  obtain ⟨between, hbetween, heq⟩ := exists_loc_eq page sectionText title marker
  have hquote : js "] \"" = js "] " ++ [0x22] := rfl
  refine ⟨js "[" ++ js (toString marker) ++ js "] ", between, ?_, hbetween, ?_, ?_⟩
  · rw [List.all_append, List.all_append, isPlain_toString]
    decide
  · rw [hquote, List.append_assoc _ (js "] ")]
  · have hend : js "\"" = [0x22] := rfl
    rw [heq, hquote, hend]
    simp only [List.append_assoc, List.cons_append, List.nil_append]

/-- A header is one line. -/
theorem isLineTerminator_of_mem_headerLine {h : SourceHeader} {c : UInt16} (hc : c ∈ headerLine h) :
    isLineTerminator c = false := by
  obtain ⟨before, between, hbefore, hbetween, -, heq⟩ := exists_headerLine_eq h
  have hplain : ∀ {text : JsString}, text.all isPlain = true → c ∈ text →
      isLineTerminator c = false := by
    intro text htext hmem
    have hunit := List.all_eq_true.1 htext c hmem
    rw [isPlain, Bool.and_eq_true, Bool.not_eq_true'] at hunit
    exact hunit.2
  have hsection : c ∈ sectionField h.sectionText → isLineTerminator c = false := by
    rcases h.sectionText with _ | _ | ⟨d, text⟩
    · exact fun hmem => absurd hmem List.not_mem_nil
    · exact fun hmem => absurd hmem List.not_mem_nil
    · intro hmem
      rcases List.mem_cons.1 hmem with rfl | hmem
      · rfl
      rcases List.mem_append.1 hmem with hmem | hmem
      · exact isLineTerminator_of_mem_headerField hmem
      · obtain rfl := List.mem_singleton.1 hmem
        rfl
  rw [heq] at hc
  rcases List.mem_append.1 hc with hc | hc
  · exact hplain hbefore hc
  rcases List.mem_cons.1 hc with rfl | hc
  · rfl
  rcases List.mem_append.1 hc with hc | hc
  · exact isLineTerminator_of_mem_headerField hc
  rcases List.mem_cons.1 hc with rfl | hc
  · rfl
  rcases List.mem_append.1 hc with hc | hc
  · exact hplain hbetween hc
  · exact hsection hc

theorem tagFree_of_isPlain (h : s.all isPlain = true) : TagFree s := by
  refine tagFree_of_notMem fun hmem => ?_
  have hunit := List.all_eq_true.1 h _ hmem
  cases hunit

theorem tagFree_append_iff (hd : Splits d) : TagFree (a ++ d :: b) ↔ TagFree a ∧ TagFree b := by
  rw [← tagCount_eq_zero_iff, tagCount_append hd, Nat.add_eq_zero_iff, tagCount_eq_zero_iff,
    tagCount_eq_zero_iff]

/-- No tag in what a header shows of a title and a section. -/
def FieldsTagFree (title : JsString) (sectionText : Option JsString) : Prop :=
  TagFree (headerField title) ∧ ∀ text ∈ sectionText, TagFree (headerField text)

/-- **A header has the tags of its fields.** -/
theorem tagFree_headerLine_iff {h : SourceHeader} :
    TagFree (headerLine h) ↔ FieldsTagFree h.title h.sectionText := by
  obtain ⟨before, between, hbefore, hbetween, -, heq⟩ := exists_headerLine_eq h
  have hnil : TagFree [] := tagCount_eq_zero_iff.1 rfl
  have hsection : TagFree (between ++ sectionField h.sectionText) ↔
      ∀ text ∈ h.sectionText, TagFree (headerField text) := by
    rcases h.sectionText with _ | _ | ⟨c, text⟩
    · simp only [sectionField, List.append_nil]
      exact iff_of_true (tagFree_of_isPlain hbetween) fun text htext => by cases htext
    · simp only [sectionField, List.append_nil]
      refine iff_of_true (tagFree_of_isPlain hbetween) fun text htext => ?_
      obtain rfl := Option.some.inj htext
      exact hnil
    · rw [sectionField, tagFree_append_iff splits_quote, tagFree_append_iff splits_quote,
        and_iff_right (tagFree_of_isPlain hbetween), and_iff_left hnil]
      exact ⟨fun hfree text htext => Option.some.inj htext ▸ hfree, fun hfree => hfree _ rfl⟩
  rw [heq, tagFree_append_iff splits_quote, tagFree_append_iff splits_quote, hsection,
    and_iff_right (tagFree_of_isPlain hbefore), FieldsTagFree]

/-! ## The block of sources -/

/-- The content of a source as the prompt shows it. -/
def AssembledSource.shown (s : AssembledSource) : JsString := neutralize 0 s.content

/-- **The pieces of a text are these sources**, numbered from `n` on: each has one line outside of
the tags that begins with its number and a quote, then a pair of tags with its content between them
on lines of its own; behind the last pair there is nothing. -/
inductive Reads : (n : ℕ) → List AssembledSource → Pieces → Prop
  | nil {n : ℕ} {outside : JsString} : nonEmptyLines outside = [] → Reads n [] (outside, [])
  | cons {n : ℕ} {s : AssembledSource} {sources : List AssembledSource}
      {outside line after : JsString}
      {rest : List (SourceTag × JsString)} : nonEmptyLines outside = [line] →
      js "[" ++ js (toString n) ++ js "] \"" <+: line → Reads (n + 1) sources (after, rest) →
      Reads n (s :: sources)
        (outside, (.opening, js "\n" ++ s.shown ++ js "\n") :: (.closing, after) :: rest)

/-- **The block parses back**: its pieces are the sources, numbered from 1 on, and no others. -/
def ParsesBack (text : JsString) (sources : List AssembledSource) : Prop :=
  Reads 1 sources (cutTags 0 text) ∧ ∀ sources', Reads 1 sources' (cutTags 0 text) →
    sources'.map (·.shown) = sources.map (·.shown)

variable {n : ℕ} {sources sources' : List AssembledSource} {pieces : Pieces}

/-- The first source is the one between the first tags. -/
theorem Reads.of_cons {tag tag' : SourceTag} {outside text after : JsString}
    {rest : List (SourceTag × JsString)}
    (h : Reads n sources (outside, (tag, text) :: (tag', after) :: rest)) :
    ∃ s sources', sources = s :: sources' ∧ text = js "\n" ++ s.shown ++ js "\n" ∧
      Reads (n + 1) sources' (after, rest) := by
  rcases h with _ | ⟨hline, hprefix, hrest⟩
  exact ⟨_, _, rfl, rfl, hrest⟩

/-- **A text is read in one way.** -/
theorem Reads.unique (h : Reads n sources pieces) (h' : Reads n sources' pieces) :
    sources'.map (·.shown) = sources.map (·.shown) := by
  induction h generalizing sources' with
  | nil hlines =>
    rcases h' with _ | _
    rfl
  | cons hlines hprefix hrest ih =>
    obtain ⟨s', sources', rfl, hshown, hrest'⟩ := h'.of_cons
    have hsame := List.append_cancel_left (List.append_cancel_right hshown)
    rw [List.map_cons, List.map_cons, ih hrest', hsame]

theorem Reads.newline {outside : JsString} {rest : List (SourceTag × JsString)}
    (h : Reads n sources (outside, rest)) : Reads n sources (0x0A :: outside, rest) := by
  have hlines : nonEmptyLines (0x0A :: outside) = nonEmptyLines outside := nonEmptyLines_cons rfl
  rcases h with hnil | ⟨hline, hprefix, hrest⟩
  · exact .nil (hlines.trans hnil)
  · exact .cons (hlines.trans hline) hprefix hrest

/-- Every source has two tags. -/
theorem Reads.length_eq (h : Reads n sources pieces) : pieces.2.length = 2 * sources.length := by
  induction h with
  | nil hlines => rfl
  | cons hlines hprefix hrest ih =>
    rw [List.length_cons, List.length_cons, List.length_cons, ih]
    omega

/-! ## What assembling puts together -/

/-- The entry of a source in the block, in front of more text. -/
theorem entry_append (s : AssembledSource) (rest : JsString) : s.entry ++ rest =
    headerLine ⟨s.marker, s.title, s.page, s.sectionText⟩ ++ 0x0A :: (SourceTag.opening.text ++
      0x0A :: (s.shown ++ 0x0A :: (SourceTag.closing.text ++ rest))) := by
  simp [AssembledSource.entry, entryText, fencedContent, AssembledSource.shown,
    SourceTag.text, js, utf16]

theorem tagCount_entry_append (s : AssembledSource) (rest : JsString) : tagCount (s.entry ++ rest) =
    tagCount (headerLine ⟨s.marker, s.title, s.page, s.sectionText⟩) + 2 + tagCount rest := by
  have hnil : tagCount [] = 0 := rfl
  have hshown : tagCount s.shown = 0 := tagCount_eq_zero_iff.2 (tagFree_neutralize 0 _)
  have hopen : ∀ b, tagCount (SourceTag.opening.text ++ 0x0A :: b) = 1 + tagCount b := by
    intro b
    have hline := tagCount_append (a := []) (b := b) splits_newline
    rw [List.nil_append, hnil, Nat.zero_add] at hline
    rw [tagCount_tag, hline]
  rw [entry_append, tagCount_append splits_newline, hopen, tagCount_append splits_newline, hshown,
    tagCount_tag]
  omega

/-- **An entry whose header has no tag**, cut at its tags. -/
theorem cutTags_entry_append {s : AssembledSource} (rest : JsString)
    (hfree : TagFree (headerLine ⟨s.marker, s.title, s.page, s.sectionText⟩)) :
    cutTags 0 (s.entry ++ rest) =
      (headerLine ⟨s.marker, s.title, s.page, s.sectionText⟩ ++ [0x0A],
        (.opening, js "\n" ++ s.shown ++ js "\n") :: (.closing, (cutTags 0 rest).1) ::
          (cutTags 0 rest).2) := by
  have hnil : TagFree [] := tagCount_eq_zero_iff.1 rfl
  have hshown : TagFree s.shown := tagFree_neutralize 0 _
  have hline : ∀ b, cutTags 0 (0x0A :: b) = (0x0A :: (cutTags 0 b).1, (cutTags 0 b).2) := fun b =>
    hnil.cutTags_append splits_newline
  have hnewline : js "\n" = [0x0A] := rfl
  rw [entry_append, hfree.cutTags_append splits_newline, cutTags_tag, hline,
    hshown.cutTags_append splits_newline, cutTags_tag, hnewline]
  rfl

theorem nonEmptyLines_headerLine (h : SourceHeader) :
    nonEmptyLines (headerLine h ++ [0x0A]) = [headerLine h] := by
  obtain ⟨before, between, -, -, -, heq⟩ := exists_headerLine_eq h
  have hne : headerLine h ≠ [] := by
    rw [heq]
    simp
  exact nonEmptyLines_line (s := []) hne (fun _ => isLineTerminator_of_mem_headerLine) rfl

theorem sourcesBlock_cons_cons (s s' : AssembledSource) (sources : List AssembledSource) :
    sourcesBlock (s :: s' :: sources) = s.entry ++ 0x0A :: 0x0A :: sourcesBlock
      (s' :: sources) := by
  rw [sourcesBlock, List.map_cons, List.map_cons, join, List.intercalate_cons_cons,
    List.append_assoc]
  rfl

theorem sourcesBlock_singleton (s : AssembledSource) : sourcesBlock [s] = s.entry := by
  rw [sourcesBlock, List.map_singleton, join, List.intercalate_singleton]
  rfl

/-- **Headers without tags** make a block that is read back. -/
theorem reads_sourcesBlock (hmarkers : sources.map (·.marker) = List.range' n sources.length)
    (hfree : ∀ s ∈ sources, TagFree (headerLine ⟨s.marker, s.title, s.page, s.sectionText⟩)) :
    Reads n sources (cutTags 0 (sourcesBlock sources)) := by
  have hnil : TagFree [] := tagCount_eq_zero_iff.1 rfl
  have hline : ∀ b, cutTags 0 (0x0A :: b) = (0x0A :: (cutTags 0 b).1, (cutTags 0 b).2) := fun b =>
    hnil.cutTags_append splits_newline
  induction sources generalizing n with
  | nil => exact .nil rfl
  | cons s sources ih =>
    rw [List.map_cons, List.length_cons, List.range'_succ, List.cons.injEq] at hmarkers
    obtain ⟨hs, hmarkers⟩ := hmarkers
    obtain ⟨hheader, hfree⟩ := List.forall_mem_cons.1 hfree
    have hrest := ih hmarkers hfree
    obtain ⟨before, between, -, -, hbefore, heq⟩ :=
      exists_headerLine_eq ⟨s.marker, s.title, s.page, s.sectionText⟩
    have hprefix : js "[" ++ js (toString n) ++ js "] \"" <+:
        headerLine ⟨s.marker, s.title, s.page, s.sectionText⟩ := by
      dsimp only at hbefore
      rw [hs] at hbefore
      rw [hbefore, heq]
      exact List.prefix_append_right_inj before |>.2 (List.prefix_append [0x22] _)
    rcases sources with _ | ⟨s', sources⟩
    · rw [sourcesBlock_singleton, ← List.append_nil s.entry, cutTags_entry_append [] hheader]
      exact .cons (nonEmptyLines_headerLine _) hprefix hrest
    · rw [sourcesBlock_cons_cons, cutTags_entry_append _ hheader, hline, hline]
      exact .cons (nonEmptyLines_headerLine _) hprefix hrest.newline.newline

/-- The tags of a block: a pair for each source, and those of the headers. -/
theorem tagCount_sourcesBlock (sources : List AssembledSource) : tagCount (sourcesBlock sources) =
    2 * sources.length +
      (sources.map
        fun s => tagCount (headerLine ⟨s.marker, s.title, s.page, s.sectionText⟩)).sum := by
  have hnil : tagCount [] = 0 := rfl
  have hline : ∀ b, tagCount (0x0A :: b) = tagCount b := by
    intro b
    have hline := tagCount_append (a := []) (b := b) splits_newline
    rwa [List.nil_append, hnil, Nat.zero_add] at hline
  induction sources with
  | nil => rfl
  | cons s sources ih =>
    rw [List.map_cons, List.sum_cons, List.length_cons]
    rcases sources with _ | ⟨s', sources⟩
    · rw [sourcesBlock_singleton, ← List.append_nil s.entry, tagCount_entry_append, hnil]
      simp only [List.map_nil, List.sum_nil, List.length_nil]
      omega
    · rw [sourcesBlock_cons_cons, tagCount_entry_append, hline, hline, ih]
      omega

/-- **A block parses back** exactly when no header has a tag. -/
theorem parsesBack_sourcesBlock_iff
    (hmarkers : sources.map (·.marker) = List.range' 1 sources.length) :
    ParsesBack (sourcesBlock sources) sources ↔
      ∀ s ∈ sources, FieldsTagFree s.title s.sectionText := by
  constructor
  · rintro ⟨hreads, -⟩ s hs
    have hcount := tagCount_sourcesBlock sources
    rw [tagCount, hreads.length_eq] at hcount
    have hsum := Nat.left_eq_add.1 hcount
    rw [← tagFree_headerLine_iff (h := ⟨s.marker, s.title, s.page, s.sectionText⟩),
      ← tagCount_eq_zero_iff]
    exact List.sum_eq_zero_iff.1 hsum _ (List.mem_map_of_mem hs)
  · intro hfree
    have hreads := reads_sourcesBlock hmarkers fun s hs => tagFree_headerLine_iff.2 (hfree s hs)
    exact ⟨hreads, fun sources' => hreads.unique⟩

/-! ## The hits in the block -/

section

variable {tok : Tokenizer} {options : AssembleOptions} {hits : List ChunkHit}

/-- **The loop shows the hits there is room for.** -/
theorem fields_assembleSources {sources result : List AssembledSource} {used : ℕ}
    (h : assembleSources tok options hits sources used = .ok result) :
    result.map (fun s => (s.title, s.sectionText)) =
      sources.map (fun s => (s.title, s.sectionText)) ++
      (hitsWithRoom tok options hits sources.length used).map fun hit =>
        (hit.title, hit.sectionText) := by
  induction hits generalizing sources used with
  | nil =>
    obtain rfl := Except.ok.inj h
    exact (List.append_nil _).symm
  | cons hit hits ih =>
    rw [hitsWithRoom]
    obtain ⟨rfl, hstops⟩ | ⟨content, k, hroom, htaken, hrest⟩ := assembleSources_cases h
    · rw [usedAfter_of_stops hstops]
      exact (List.append_nil _).symm
    · rw [usedAfter_of_taken hroom htaken, ih hrest, List.length_append, List.length_singleton,
        List.map_append, List.append_assoc]
      rfl

/-- The sources of a context are the hits there is room for, best first. -/
theorem fields_assembleContext {context : AssembledContext}
    (h : assembleContext tok options hits = .ok context) :
    context.sources.map (fun s => (s.title, s.sectionText)) =
      (hitsWithRoom tok options (promptOrder hits) 0 0).map fun hit =>
        (hit.title, hit.sectionText) := by
  obtain ⟨sources, hsources, h⟩ := Except.bind_eq_ok.mp h
  obtain ⟨totalTokens, -, h⟩ := Except.bind_eq_ok.mp h
  obtain rfl := Except.ok.inj h
  exact fields_assembleSources hsources

end

/-- **The sources block parses back** into its sources exactly when none of the hits there is room
for has a tag in what the header shows of its title or its section. -/
theorem sources_fenced_iff (tok : Tokenizer) (options : AssembleOptions) (hits : List ChunkHit)
    (context : AssembledContext) (h : assembleContext tok options hits = .ok context) :
    ParsesBack context.text context.sources ↔
      ∀ hit ∈ hitsWithRoom tok options (promptOrder hits) 0 0,
        FieldsTagFree hit.title hit.sectionText := by
  have hfields := fields_assembleContext h
  have hsame : (∀ s ∈ context.sources, FieldsTagFree s.title s.sectionText) ↔
      ∀ fields ∈ context.sources.map (fun s => (s.title, s.sectionText)),
        FieldsTagFree fields.1 fields.2 := by
    rw [List.forall_mem_map]
  rw [text_assembleContext h, parsesBack_sourcesBlock_iff (markers_assembleContext h),
    hsame, hfields, List.forall_mem_map]

/-- Every list of hits assembles, with a tokenizer that takes every text. -/
theorem exists_sampleContext (hits : List ChunkHit) : ∃ context,
    assembleContext sampleEncoder.tokenizer DEFAULT_ASSEMBLE_OPTIONS hits = .ok context :=
  exists_assembleContext (fun text => ⟨_, sampleEncoder_counts text⟩) sampleEncoder_cuts hits

theorem sources_fenced_plain : ∃ context,
    assembleContext sampleEncoder.tokenizer DEFAULT_ASSEMBLE_OPTIONS
      [titledHit (js "Refund policy")] = .ok context ∧ ParsesBack context.text context.sources := by
  obtain ⟨context, h⟩ := exists_sampleContext [titledHit (js "Refund policy")]
  refine ⟨context, h, (sources_fenced_iff _ _ _ _ h).2 fun hit hhit => ?_⟩
  obtain rfl := List.mem_singleton.1 (List.mem_mergeSort.1 (mem_of_mem_hitsWithRoom hhit))
  exact ⟨tagFree_of_notMem (by decide), fun text htext => by cases htext⟩

/-- A file name that opens a fence of its own. -/
theorem not_sources_fenced :
    ¬ ∀ (tok : Tokenizer) (options : AssembleOptions) (hits : List ChunkHit)
    (context : AssembledContext), assembleContext tok options hits = .ok context →
      ParsesBack context.text context.sources := by
  intro hclaim
  obtain ⟨context, h⟩ := exists_sampleContext [titledHit (js "<source>.md")]
  have hback := hclaim _ _ _ _ h
  have hfields := fields_assembleContext h
  rw [promptOrder, List.mergeSort_singleton] at hfields
  rw [text_assembleContext h, parsesBack_sourcesBlock_iff (markers_assembleContext h)] at hback
  have hshown : hitsWithRoom sampleEncoder.tokenizer DEFAULT_ASSEMBLE_OPTIONS
      [titledHit (js "<source>.md")] 0 0 = [titledHit (js "<source>.md")] := by decide +kernel
  rw [hshown] at hfields
  have hmem : (js "<source>.md", none) ∈ context.sources.map fun s => (s.title, s.sectionText) := by
    rw [hfields]
    exact List.mem_singleton_self _
  obtain ⟨s, hs, hsame⟩ := List.mem_map.1 hmem
  have hfree := (hback s hs).1
  rw [(Prod.mk.inj hsame).1, ← tagCount_eq_zero_iff] at hfree
  exact absurd hfree (by decide +kernel)

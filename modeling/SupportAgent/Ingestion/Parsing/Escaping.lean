import SupportAgent.Ingestion.Parsing.Html

/-!
# Ingestion/Parsing/Escaping — escaped text is read back once

`esc` writes the five units of markup as references.  None of what it writes is a tag, a hexadecimal
reference or a decimal one of `&`, so each pass of `stripTags` reads its own references of the
escaped text and no others (`stripTags_esc`).
-/

namespace Ingestion

open JsString Matching

/-- A unit, escaped. -/
def escUnit (c : UInt16) : JsString :=
  if c = 0x26 then js "&amp;"
  else if c = 0x3C then js "&lt;"
  else if c = 0x3E then js "&gt;"
  else if c = 0x22 then js "&quot;"
  else if c = 0x27 then js "&#39;"
  else [c]

/-- A text, escaped. -/
def esc (s : JsString) : JsString := s.flatMap escUnit

/-! ## The items of an escaped text -/

/-- The item that stands for a unit. -/
def escaped (c : UInt16) : Item :=
  if c = 0x26 then .entity .amp
  else if c = 0x3C then .entity .lt
  else if c = 0x3E then .entity .gt
  else if c = 0x22 then .entity .quot
  else if c = 0x27 then .decimal (js "39")
  else .unit c

/-- The same, once decimal references are read. -/
def escapedNamed (c : UInt16) : Item := if c = 0x27 then .unit c else escaped c

theorem write_escaped (c : UInt16) : (escaped c).write = escUnit c := by
  rw [escaped, escUnit]
  split_ifs <;> rfl

theorem wellFormed_escaped (c : UInt16) : (escaped c).WellFormed := by
  rw [escaped]
  split_ifs with hamp hlt hgt hquot hapos
  · trivial
  · trivial
  · trivial
  · trivial
  · exact ⟨by decide, rfl, by decide⟩
  · exact ⟨hlt, hamp⟩

theorem wellFormed_escapedNamed (c : UInt16) : (escapedNamed c).WellFormed := by
  rw [escapedNamed]
  split_ifs with hapos
  · rw [hapos]
    exact ⟨by decide, by decide⟩
  · exact wellFormed_escaped c

theorem writeItems_escaped (s : JsString) : writeItems (s.map escaped) = esc s := by
  rw [writeItems, List.flatMap_map, esc]
  exact List.flatMap_congr fun c _ => write_escaped c

/-! ## What each pass reads -/

/-- No hexadecimal reference. -/
theorem resolve_hexHit_escaped (c : UInt16) : resolve hexHit (escaped c) = [escaped c] := by
  rw [escaped]
  split_ifs <;> rfl

/-- The decimal reference of the apostrophe. -/
theorem resolve_decimalHit_escaped (c : UInt16) :
    resolve decimalHit (escaped c) = [escapedNamed c] := by
  by_cases hapos : c = 0x27
  · subst hapos
    rfl
  · rw [escapedNamed, if_neg hapos, escaped]
    split_ifs <;> rfl

/-- The named references. -/
theorem resolve_entityHit_escapedNamed (c : UInt16) :
    resolve entityHit (escapedNamed c) = [.unit c] := by
  by_cases hapos : c = 0x27
  · subst hapos
    rfl
  · rw [escapedNamed, if_neg hapos, escaped]
    split_ifs with hamp hlt hgt hquot
    · rw [hamp]
      rfl
    · rw [hlt]
      rfl
    · rw [hgt]
      rfl
    · rw [hquot]
      rfl
    · rfl

/-- What a pass leaves, one item for each unit. -/
theorem flatMap_resolve {hit : Item → Option JsString} {f g : UInt16 → Item}
    (h : ∀ c, resolve hit (f c) = [g c]) (s : JsString) :
    (s.map f).flatMap (resolve hit) = s.map g := by
  rw [List.flatMap_map, List.map_eq_flatMap]
  exact List.flatMap_congr fun c _ => h c

/-- **No tag is in an escaped text.** -/
theorem replaceAll_markupAt_esc (s : JsString) : replaceAll markupAt 0 (esc s) = esc s := by
  have hclear : Clear (fun s => (markupAt s).isSome = true) (esc s) := by
    induction s with
    | nil => trivial
    | cons c s ih =>
      rw [esc, List.flatMap_cons, ← write_escaped]
      exact (Html.clear_item (wellFormed_escaped c) fun _ => Html.head?_of_markupAt).append ih
  have hkept := replaceAll_clear hclear []
  rwa [replaceAll, List.append_nil] at hkept

/-- **Escaped text is read back once**: what is read of it is the text with its white space
collapsed, be it like a tag or a reference itself. -/
theorem stripTags_esc (s : JsString) : stripTags (esc s) = trim (collapseSpaces false s) := by
  have hescaped : ∀ x ∈ s.map escaped, x.WellFormed :=
    List.forall_mem_map.mpr fun c _ => wellFormed_escaped c
  have hnamed : ∀ x ∈ s.map escapedNamed, x.WellFormed :=
    List.forall_mem_map.mpr fun c _ => wellFormed_escapedNamed c
  obtain ⟨ys, hys⟩ := hexPass.run fun x hx => (hescaped x hx).proper
  obtain rfl : ys = s.map escaped :=
    (hys.quiet (quiet_of_wellFormed hescaped)).trans (flatMap_resolve resolve_hexHit_escaped s)
  obtain ⟨zs, hzs⟩ := decimalPass.run hys.items
  obtain rfl : zs = s.map escapedNamed :=
    (hzs.quiet (quiet_of_wellFormed hescaped)).trans (flatMap_resolve resolve_decimalHit_escaped s)
  obtain ⟨us, hus⟩ := entityPass.run hzs.items
  obtain rfl : us = s.map .unit :=
    (hus.quiet (quiet_of_wellFormed hnamed)).trans
      (flatMap_resolve resolve_entityHit_escapedNamed s)
  have hunits : writeItems (s.map .unit) = s := by
    have hnil : writeItems [] = [] := rfl
    have hwrite := writeItems_units s []
    rwa [List.append_nil, hnil, List.append_nil] at hwrite
  rw [stripTags, replaceAll_markupAt_esc, ← writeItems_escaped, hys.write, hzs.write,
    hus.write, hunits]

example : stripTags (esc (js " &amp;lt; &#60; <b> ")) = js "&amp;lt; &#60; <b>" := by decide +kernel

end Ingestion

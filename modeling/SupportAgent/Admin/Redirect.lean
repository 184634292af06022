import SupportAgent.Machinery.Url

/-!
# Admin/Redirect — where the login page goes afterwards

`safeInternalPath` lets a `next` through by its first two units.  The browser reads a second slash
behind tabs and newlines too, and a backslash as one.

* `Detour` — a text that is let through and goes on to a host.
* `safeInternalPath_origin_iff` — the redirect stays at the origin, exactly for the texts that are
  no detour to another one.
-/

open JsString Url

/-- `safeInternalPath`; `null` and `undefined` are `none`. -/
def safeInternalPath : Option JsString → JsString
  | none => js "/dashboard"
  | some next =>
    if (js "/").isPrefixOf next && !(js "//").isPrefixOf next then next else js "/dashboard"

/-- **A detour**: a slash, tabs and newlines, a second slash or a backslash, and a rest; but not the
two slashes that are looked for. -/
def Detour (next rest : JsString) : Prop :=
  ∃ gap c, next = 0x2F :: (gap ++ c :: rest) ∧ (∀ d ∈ gap, isTabOrNewline d = true) ∧
    isSlash c = true ∧
    ¬(gap = [] ∧ c = 0x2F)

section

variable {Host : Type*} {hostParser : JsString → Option Host} {base : Origin Host}
  {next : Option JsString} {path rest : JsString}

/-- **What is let through** begins with a slash and goes on with none. -/
theorem safeInternalPath_cases (next : Option JsString) :
    (∃ path, next = some (0x2F :: path) ∧ path.head? ≠ some 0x2F ∧
      safeInternalPath next = 0x2F :: path) ∨
      (∀ path, next = some (0x2F :: path) → path.head? = some 0x2F) ∧
        safeInternalPath next = js "/dashboard" := by
  rcases next with _ | _ | ⟨c, path⟩
  · exact .inr ⟨fun path h => (by cases h), rfl⟩
  · exact .inr ⟨fun path h => (by cases h), rfl⟩
  by_cases hc : c = 0x2F
  · subst hc
    rcases path with _ | ⟨d, path⟩
    · exact .inl ⟨[], rfl, fun h => (by cases h), rfl⟩
    by_cases hd : d = 0x2F
    · subst hd
      exact .inr ⟨fun path h => by obtain rfl := (List.cons.inj (Option.some.inj h)).2; rfl, rfl⟩
    · refine .inl ⟨d :: path, rfl, fun h => hd (Option.some.inj h), if_pos ?_⟩
      have hsecond : ((0x2F : UInt16) == d) = false := beq_false_of_ne (Ne.symm hd)
      change (!(true && ((0x2F : UInt16) == d && true))) = true
      rw [hsecond]
      rfl
  · refine .inr ⟨fun path h => absurd (List.cons.inj (Option.some.inj h)).1 hc, if_neg ?_⟩
    have hfirst : ((0x2F : UInt16) == c) = false := beq_false_of_ne (Ne.symm hc)
    change ¬(((0x2F : UInt16) == c && true) && _) = true
    rw [hfirst]
    exact Bool.false_ne_true

/-- The dashboard is at the origin. -/
theorem resolve_dashboard : resolve hostParser base (js "/dashboard") = .at base := rfl

theorem not_isControlOrSpace_of_isSlash {c : UInt16} (h : isSlash c = true) :
    isControlOrSpace c = false := by
  rw [isSlash, Bool.or_eq_true, beq_iff_eq, beq_iff_eq] at h
  obtain rfl | rfl := h <;> rfl

/-- A detour is let through, and what is read behind its slash begins with a second one. -/
theorem detour_iff : Detour (0x2F :: path) rest ↔
    path.head? ≠ some 0x2F ∧ ∃ gap c, path = gap ++ c :: rest ∧
      (∀ d ∈ gap, isTabOrNewline d = true) ∧ isSlash c = true := by
  constructor
  · rintro ⟨gap, c, h, hgap, hc, hguard⟩
    obtain rfl := (List.cons.inj h).2
    refine ⟨fun hhead => ?_, gap, c, rfl, hgap, hc⟩
    rcases gap with _ | ⟨d, gap⟩
    · exact hguard ⟨rfl, Option.some.inj hhead⟩
    · obtain rfl := Option.some.inj hhead
      cases hgap _ (List.mem_cons_self ..)
  · rintro ⟨hhead, gap, c, rfl, hgap, hc⟩
    refine ⟨gap, c, rfl, hgap, hc, ?_⟩
    rintro ⟨rfl, rfl⟩
    exact hhead rfl

end

/-- **The redirect stays at the origin**, but for the detours: what is behind one, without its tabs
and newlines, has to name the origin itself. -/
theorem safeInternalPath_origin_iff {Host : Type*} (hostParser : JsString → Option Host)
    (base : Origin Host) (next : Option JsString) :
    resolve hostParser base (safeInternalPath next) = .at base ↔
      ∀ text ∈ next, ∀ rest, Detour text rest →
        Names hostParser ((tidyEnd rest).dropWhile isSlash) base := by
  obtain ⟨path, rfl, hguard, hnext⟩ | ⟨hguard, hnext⟩ := safeInternalPath_cases next
  · rw [hnext, resolve_slash_eq_at_iff]
    constructor
    · intro hstays text htext rest hdetour
      obtain rfl := Option.some.inj htext
      obtain ⟨-, gap, c, hpath, hgap, hc⟩ := detour_iff.mp hdetour
      have htidy := (tidyEnd_eq_cons_iff (not_isControlOrSpace_of_isSlash hc)).mpr
        ⟨gap, rest, hpath, hgap, rfl⟩
      exact hstays c _ htidy hc
    · intro hdetours c tail htidy hc
      obtain ⟨gap, rest, hpath, hgap, rfl⟩ :=
        (tidyEnd_eq_cons_iff (not_isControlOrSpace_of_isSlash hc)).mp htidy
      exact hdetours _ rfl rest (detour_iff.mpr ⟨hguard, gap, c, hpath, hgap, hc⟩)
  · rw [hnext, resolve_dashboard]
    refine iff_of_true rfl fun text htext rest hdetour => ?_
    obtain ⟨gap, c, rfl, -⟩ := id hdetour
    exact absurd (hguard _ htext) (detour_iff.mp hdetour).1

/-- A host of lower-case letters and dots is itself. -/
def plainHost (host : JsString) : Option JsString :=
  if host.all fun c => (0x61 ≤ c && c ≤ 0x7A) || c == 0x2E then some host else none

/-- **A `next` that leaves the site**, with a backslash or behind a tab. -/
theorem not_safeInternalPath_origin :
    resolve plainHost ⟨.https, js "admin.example", none⟩
      (safeInternalPath (some (js "/\\evil.com"))) =
        .at ⟨.https, js "evil.com", none⟩ ∧
      resolve plainHost ⟨.https, js "admin.example", none⟩
        (safeInternalPath (some (js "/\t/evil.com"))) = .at ⟨.https, js "evil.com", none⟩ ∧
      ¬∀ next : Option JsString,
        resolve plainHost ⟨.https, js "admin.example", none⟩ (safeInternalPath next) =
          .at ⟨.https, js "admin.example", none⟩ := by
  have hbackslash : resolve plainHost ⟨.https, js "admin.example", none⟩
      (safeInternalPath (some (js "/\\evil.com"))) = .at ⟨.https, js "evil.com", none⟩ := rfl
  refine ⟨hbackslash, rfl, fun hclaim => ?_⟩
  have horigin := Resolution.at.inj (hbackslash.symm.trans (hclaim _))
  exact absurd (congrArg (·.host.length) horigin) (by decide)

import SupportAgent.Admin.Redirect
import SupportAgent.Machinery.Urlencoded

/-!
# Admin/Middleware — to the login page and back

The middleware sends a visitor without a session cookie to the login page, with the path in the
query; the page reads it from there once the visitor is signed in.

* `settled_of_redirect` — a redirect leads to a page that is served.
* `login_returns` — from the login page the visitor comes to the path that was asked for.
-/

open JsString Url

namespace Admin

/-! ## The middleware -/

def PUBLIC_PATHS : List JsString := [js "/login", js "/signup"]

/-- Whether a path requires a session. -/
def isProtectedPath (pathname : JsString) : Bool :=
  if PUBLIC_PATHS.contains pathname then false
  else if (js "/api/").isPrefixOf pathname then false
  else if (js "/_next").isPrefixOf pathname then false
  else pathname != js "/favicon.ico"

/-- Path and query of a request. -/
structure RequestUrl where
  pathname : JsString
  search : JsString
  deriving DecidableEq

inductive NextResponse
  | next
  | redirect (url : RequestUrl)
  deriving DecidableEq

/-- The query of the login page: empty for the root. -/
def nextQuery (pathname : JsString) : JsString :=
  if pathname != js "/" then 0x3F :: Urlencoded.serialize [(js "next", pathname)] else []

/-- `middleware`, with the presence of the session cookie. -/
def middleware (authed : Bool) (url : RequestUrl) : NextResponse :=
  if isProtectedPath url.pathname && !authed then
    .redirect ⟨js "/login", nextQuery url.pathname⟩
  else if (url.pathname == js "/login" || url.pathname == js "/signup") && authed then
    .redirect { url with pathname := js "/dashboard" }
  else .next

/-- `/((?!_next/static|_next/image|favicon.ico).*)`, whose dot is any character of a line. -/
def matcher (pathname : JsString) : Bool :=
  match pathname with
  | 0x2F :: rest =>
    !((js "_next/static").isPrefixOf rest || (js "_next/image").isPrefixOf rest ||
      ((js "favicon").isPrefixOf rest && (rest[7]?.any (!isLineTerminator ·)) &&
        (js "ico").isPrefixOf (rest.drop 8)))
  | _ => false

/-- What a request comes to. -/
def served (authed : Bool) (url : RequestUrl) : NextResponse :=
  if matcher url.pathname then middleware authed url else .next

/-! ## The login page -/

/-- `new URLSearchParams(search)`. -/
def searchParams (search : JsString) : List (JsString × JsString) :=
  Urlencoded.parse (if search.head? = some 0x3F then search.drop 1 else search)

/-- `safeNextPath`: where the page goes after the login. -/
def safeNextPath (search : JsString) : JsString :=
  safeInternalPath (Urlencoded.get (searchParams search) (js "next"))

/-- **A path as an address holds it**: it begins with a slash, and other characters than the visible
ASCII ones, and the backslash, do not occur in it. -/
structure Pathname where
  text : JsString
  slash : text.head? = some 0x2F
  plain : ∀ c ∈ text, 0x20 < c ∧ c < 0x7F ∧ c ≠ 0x5C

/-! ## No loops -/

variable {authed : Bool} {url target : RequestUrl}

/-- **Without a session**: a protected path leads to the login page. -/
theorem served_false (url : RequestUrl) : served false url =
    if matcher url.pathname && isProtectedPath url.pathname then
      .redirect ⟨js "/login", nextQuery url.pathname⟩
    else .next := by
  rw [served, middleware, Bool.not_false, Bool.and_true, Bool.and_false]
  cases matcher url.pathname <;> cases isProtectedPath url.pathname <;> rfl

/-- **With a session**: the two public pages lead to the dashboard. -/
theorem served_true (url : RequestUrl) : served true url =
    if matcher url.pathname && PUBLIC_PATHS.contains url.pathname then
      .redirect { url with pathname := js "/dashboard" }
    else .next := by
  have hpublic : PUBLIC_PATHS.contains url.pathname =
      (url.pathname == js "/login" || url.pathname == js "/signup") := by
    rw [PUBLIC_PATHS, List.contains_cons, List.contains_cons, List.contains_nil, Bool.or_false]
  rw [served, middleware, Bool.not_true, Bool.and_false, Bool.and_true, hpublic]
  cases matcher url.pathname <;> cases (url.pathname == js "/login" || url.pathname == js "/signup")
    <;> rfl

/-- **A redirect leads to a page that is served.** -/
theorem settled_of_redirect (h : served authed url = .redirect target) :
    served authed target = .next := by
  cases authed with
  | false =>
    rw [served_false] at h
    split at h
    · obtain rfl := NextResponse.redirect.inj h
      rfl
    · cases h
  | true =>
    rw [served_true] at h
    split at h
    · obtain rfl := NextResponse.redirect.inj h
      rfl
    · cases h

/-! ## The way back -/

/-- What the login page reads of the query it was given. -/
theorem get_nextQuery {pathname : JsString} (h : pathname.WellFormed) :
    Urlencoded.get (searchParams (nextQuery pathname)) (js "next") =
      if pathname != js "/" then some pathname else none := by
  rw [nextQuery]
  split
  · have hparse : searchParams (0x3F :: Urlencoded.serialize [(js "next", pathname)]) =
        [(js "next", pathname)] := by
      refine Urlencoded.parse_serialize fun pair hpair => ?_
      rw [List.mem_singleton.1 hpair]
      exact ⟨.js _, h⟩
    rw [hparse]
    rfl
  · rfl

namespace Pathname

variable (p : Pathname)

theorem wellFormed : p.text.WellFormed := by
  refine Json.wellFormed_of_forall fun c hc => ?_
  obtain ⟨-, hlt, -⟩ := p.plain c hc
  have hbelow : ∀ {d : UInt16}, 0x7F ≤ d → decide (d ≤ c) = false := fun hd =>
    decide_eq_false (UInt16.not_le.2 (UInt16.lt_of_lt_of_le hlt hd))
  constructor
  · rw [Json.isHighSurrogate, hbelow (by decide), Bool.false_and]
  · rw [Json.isLowSurrogate, hbelow (by decide), Bool.false_and]

theorem exists_cons : ∃ rest, p.text = 0x2F :: rest := by
  have hslash := p.slash
  cases htext : p.text with
  | nil =>
    rw [htext] at hslash
    cases hslash
  | cons c rest =>
    rw [htext] at hslash
    exact ⟨rest, congrArg (· :: rest) (Option.some.inj hslash)⟩

/-- A path without a second slash stays at the origin. -/
theorem resolve_eq {Host : Type*} (hostParser : JsString → Option Host) (base : Origin Host)
    (h : (js "//").isPrefixOf p.text = false) : resolve hostParser base p.text = .at base := by
  have hplain := p.plain
  obtain ⟨rest, htext⟩ := p.exists_cons
  rw [htext] at h hplain ⊢
  refine resolve_slash_eq_at_iff.2 fun c tail htidy hc => absurd hc ?_
  -- what is read behind the slash stands right behind it
  obtain ⟨gap, rest, rfl, hgap, -⟩ :=
    (tidyEnd_eq_cons_iff (not_isControlOrSpace_of_isSlash hc)).1 htidy
  obtain _ | ⟨d, gap⟩ := gap
  · obtain ⟨-, -, hne⟩ := hplain c (by simp)
    intro hslash
    rw [isSlash, Bool.or_eq_true, beq_iff_eq, beq_iff_eq] at hslash
    obtain rfl | rfl := hslash
    · cases h
    · exact hne rfl
  · obtain ⟨hlow, -, -⟩ := hplain d (by simp)
    have hd := hgap d List.mem_cons_self
    rw [isTabOrNewline, Bool.or_eq_true, Bool.or_eq_true, beq_iff_eq, beq_iff_eq, beq_iff_eq] at hd
    obtain (rfl | rfl) | rfl := hd
    all_goals exact absurd hlow (by decide)

end Pathname

/-- **After the login the visitor is where they wanted to be.**  Who asks for a protected path
without a session is sent to the login page, which is served and goes on, once they have one, to
that very path, at the same origin, where they are let in; only the root and a path that begins with
two slashes give way to the dashboard. -/
theorem login_returns {Host : Type*} (hostParser : JsString → Option Host) (base : Origin Host)
    (p : Pathname) (search : JsString) (hmatched : matcher p.text = true)
    (hprotected : isProtectedPath p.text = true) :
    ∃ query, served false ⟨p.text, search⟩ = .redirect ⟨js "/login", query⟩ ∧
      served false ⟨js "/login", query⟩ = .next ∧
      safeNextPath query =
        (if p.text = js "/" ∨ (js "//").isPrefixOf p.text then js "/dashboard" else p.text) ∧
      resolve hostParser base (safeNextPath query) = .at base ∧
      served true ⟨safeNextPath query, []⟩ = .next := by
  have hdashboard : resolve hostParser base (js "/dashboard") = .at base ∧
      served true ⟨js "/dashboard", []⟩ = .next := ⟨rfl, rfl⟩
  have hredirect : served false ⟨p.text, search⟩ = .redirect ⟨js "/login", nextQuery p.text⟩ := by
    rw [served_false, hmatched, hprotected]
    rfl
  have hpublic : PUBLIC_PATHS.contains p.text = false := by
    refine Bool.eq_false_of_not_eq_true fun hpublic => ?_
    rw [isProtectedPath, if_pos hpublic] at hprotected
    cases hprotected
  have hslash : (js "/").isPrefixOf p.text = true := by
    obtain ⟨rest, htext⟩ := p.exists_cons
    rw [htext]
    rfl
  have hnext : safeNextPath (nextQuery p.text) =
      if p.text = js "/" ∨ (js "//").isPrefixOf p.text then js "/dashboard" else p.text := by
    rw [safeNextPath, get_nextQuery p.wellFormed]
    by_cases hroot : p.text = js "/"
    · rw [if_neg (by rw [hroot]; decide), if_pos (.inl hroot)]
      rfl
    · rw [if_pos (bne_iff_ne.2 hroot), safeInternalPath, hslash, Bool.true_and]
      cases (js "//").isPrefixOf p.text with
      | true => exact (if_pos (.inr rfl)).symm
      | false => exact (if_neg (not_or.2 ⟨hroot, Bool.false_ne_true⟩)).symm
  refine ⟨_, hredirect, settled_of_redirect hredirect, hnext, ?_⟩
  rw [hnext]
  split
  · exact hdashboard
  · rename_i hkept
    obtain ⟨-, hkept⟩ := not_or.1 hkept
    refine ⟨p.resolve_eq _ _ (Bool.eq_false_of_not_eq_true hkept), ?_⟩
    rw [served_true, hpublic, Bool.and_false, if_neg Bool.false_ne_true]

/-- A page of one document, with a percent sign in its path. -/
def sampleDocumentPage : Pathname where
  text := js "/documents/a%20b"
  slash := rfl
  plain := by
    have hall : (js "/documents/a%20b").all (fun c => decide (0x20 < c ∧ c < 0x7F ∧ c ≠ 0x5C)) =
        true :=
      rfl
    exact fun c hc => of_decide_eq_true (List.all_eq_true.1 hall c hc)

theorem login_returns_document : ∃ query,
    served false ⟨js "/documents/a%20b", js "?tab=2"⟩ = .redirect ⟨js "/login", query⟩ ∧
      safeNextPath query = js "/documents/a%20b" := by
  have hmatched : matcher sampleDocumentPage.text = true := by decide +kernel
  have hprotected : isProtectedPath sampleDocumentPage.text = true := by decide +kernel
  have hkept : ¬(sampleDocumentPage.text = js "/" ∨
      (js "//").isPrefixOf sampleDocumentPage.text) := by
    decide +kernel
  obtain ⟨query, hredirect, -, hnext, -⟩ := login_returns plainHost ⟨.https,
    js "admin.example", none⟩
    sampleDocumentPage (js "?tab=2") hmatched hprotected
  exact ⟨query, hredirect, hnext.trans (if_neg hkept)⟩

end Admin

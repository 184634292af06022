import SupportAgent.Machinery.Js

/-!
# Machinery/Url — the origin a URL reference resolves to

The basic URL parser, as far as it decides the scheme, the host and the port of a reference to a
base of a special scheme: what is behind the authority never fails and never changes the three.  The
host parser is a parameter.

* `resolve` — what a reference resolves to.
* `AuthorityText` — the text of credentials, a host and a port, by its parts.
* `authority_eq_at_iff` — the parser reads an authority as such a text, and no other.
* `resolve_slash` — when a reference that begins with a slash goes to an authority.
-/

namespace Url

open JsString

/-- The special schemes, `file` apart. -/
inductive Scheme
  | ftp | http | https | ws | wss
  deriving DecidableEq

def Scheme.name : Scheme → JsString
  | .ftp => js "ftp"
  | .http => js "http"
  | .https => js "https"
  | .ws => js "ws"
  | .wss => js "wss"

def Scheme.defaultPort : Scheme → UInt16
  | .ftp => 21
  | .http | .ws => 80
  | .https | .wss => 443

/-- The scheme of a name in lower case. -/
def Scheme.ofName (name : JsString) : Option Scheme :=
  [Scheme.ftp, .http, .https, .ws, .wss].find? fun scheme => scheme.name == name

/-- A tuple origin; the port is not there where it is the one of the scheme. -/
structure Origin (Host : Type*) where
  scheme : Scheme
  host : Host
  port : Option UInt16

/-- What a reference resolves to: no URL, one of `file` or of a scheme that is not special, or one
at an origin. -/
inductive Resolution (Host : Type*)
  | failure
  | other (scheme : JsString)
  | at (origin : Origin Host)

/-! ## Units -/

def isControlOrSpace (c : UInt16) : Bool := c ≤ 0x20

def isTabOrNewline (c : UInt16) : Bool := c == 0x09 || c == 0x0A || c == 0x0D

def isAlpha (c : UInt16) : Bool := 0x61 ≤ c ||| 0x20 && c ||| 0x20 ≤ 0x7A

def isSchemeUnit (c : UInt16) : Bool :=
  isAlpha c || isDigit c || c == 0x2B || c == 0x2D || c == 0x2E

/-- A slash, as a special scheme has them. -/
def isSlash (c : UInt16) : Bool := c == 0x2F || c == 0x5C

/-- What an authority ends before: a slash, `?` or `#`. -/
def endsAuthority (c : UInt16) : Bool := isSlash c || c == 0x3F || c == 0x23

/-- A text without the units that are passed over: the tabs and newlines, and the controls and
spaces at its end. -/
def tidyEnd (s : JsString) : JsString := (s.rdropWhile isControlOrSpace).filter (!isTabOrNewline ·)

/-- The input of the parser. -/
def tidy (s : JsString) : JsString := tidyEnd (s.dropWhile isControlOrSpace)

/-! ## The parser -/

/-- The scheme start state and the scheme state: a scheme in lower case and what is behind its
`:`. -/
def splitScheme (s : JsString) : Option (JsString × JsString) :=
  match s.head?, s.dropWhile isSchemeUnit with
  | some c, d :: rest =>
    if isAlpha c && d == 0x3A then some ((s.takeWhile isSchemeUnit).map (· ||| 0x20), rest)
      else none
  | _, _ => none

/-- Whether a bracket is open behind a text, `inside` before it. -/
def bracketed (inside : Bool) (s : JsString) : Bool :=
  s.foldl (fun inside c => if c = 0x5B then true else if c = 0x5D then false else inside) inside

/-- The host state: the host, and what is behind the first `:` that is in no brackets. -/
def splitPort (inside : Bool) : JsString → JsString × Option JsString
  | [] => ([], none)
  | c :: s =>
    if c = 0x3A ∧ inside = false then ([], some s)
    else
      let (host, port) := splitPort (bracketed inside [c]) s
      (c :: host, port)

def decimal (digits : JsString) : ℕ := digits.foldl (fun n c => 10 * n + (c.toNat - 0x30)) 0

/-- The port state. -/
def portOf (scheme : Scheme) : Option JsString → Option (Option UInt16)
  | none | some [] => some none
  | some digits =>
    if digits.all isDigit && decimal digits ≤ 65535 then
      let port := UInt16.ofNat (decimal digits)
      some (if port = scheme.defaultPort then none else some port)
    else none

section

variable {Host : Type*} (hostParser : JsString → Option Host) (scheme : Scheme)

/-- A host and a port behind their credentials. -/
def hostAndPort (s : JsString) : Resolution Host :=
  let (host, port) := splitPort false s
  match host with
  | [] => .failure
  | _ :: _ =>
    match hostParser host, portOf scheme port with
    | some host, some port => .at ⟨scheme, host, port⟩
    | _, _ => .failure

/-- The authority state: the credentials end at the last `@`. -/
def authority (s : JsString) : Resolution Host :=
  hostAndPort hostParser scheme ((s.takeWhile (!endsAuthority ·)).rtakeWhile (· != 0x40))

/-- The states for the slashes before an authority, which are all passed over. -/
def ignoreSlashes (s : JsString) : Resolution Host :=
  authority hostParser scheme (s.dropWhile isSlash)

/-- The relative state and the relative slash state. -/
def relative (base : Origin Host) : JsString → Resolution Host
  | c :: d :: rest =>
    if isSlash c && isSlash d then ignoreSlashes hostParser base.scheme rest else .at base
  | _ => .at base

/-- The basic URL parser. -/
def resolve (base : Origin Host) (reference : JsString) : Resolution Host :=
  match splitScheme (tidy reference) with
  | none => relative hostParser base (tidy reference)
  | some (name, rest) =>
    match Scheme.ofName name with
    | none => .other name
    | some scheme =>
      if scheme = base.scheme then relative hostParser base rest
      else ignoreSlashes hostParser scheme rest

end

/-! ## The text of an authority -/

/-- **The text of an authority**: credentials up to the last `@`, a host that has `:` in brackets
only, and a port. -/
structure AuthorityText where
  credentials : JsString
  host : JsString
  port : Option JsString
  credentials_end : credentials = [] ∨ ∃ user, credentials = user ++ [0x40]
  host_ne_nil : host ≠ []
  host_colon : ∀ before behind, host = before ++ 0x3A :: behind → bracketed false before = true
  port_outside : port.isSome = true → bracketed false host = false
  host_port_at : 0x40 ∉ host ++ port.elim [] (0x3A :: ·)
  inner : ∀ c ∈ credentials ++ (host ++ port.elim [] (0x3A :: ·)), endsAuthority c = false

/-- The host and the port, as they are written. -/
def AuthorityText.address (a : AuthorityText) : JsString := a.host ++ a.port.elim [] (0x3A :: ·)

/-- The text. -/
def AuthorityText.text (a : AuthorityText) : JsString := a.credentials ++ a.address

/-- The origin the text names, if its host and its port are ones. -/
def AuthorityText.resolution {Host : Type*} (a : AuthorityText)
    (hostParser : JsString → Option Host) (scheme : Scheme) : Resolution Host :=
  match hostParser a.host, portOf scheme a.port with
  | some host, some port => .at ⟨scheme, host, port⟩
  | _, _ => .failure

/-- **A text names an origin**: it begins with an authority of its host and its port. -/
def Names {Host : Type*} (hostParser : JsString → Option Host) (s : JsString)
    (origin : Origin Host) : Prop :=
  ∃ (a : AuthorityText) (rest : JsString), s = a.text ++ rest ∧
    (∀ c ∈ rest.head?, endsAuthority c = true) ∧
    hostParser a.host = some origin.host ∧ portOf origin.scheme a.port = some origin.port

section

variable {Host : Type*} {hostParser : JsString → Option Host} {scheme : Scheme}
  {origin : Origin Host}

/-- What the host state reads is the text, split at a `:` in no brackets. -/
theorem splitPort_spec (s : JsString) : ∀ inside,
    s = (splitPort inside s).1 ++ (splitPort inside s).2.elim [] (0x3A :: ·) ∧
      (∀ before behind, (splitPort inside s).1 = before ++ 0x3A :: behind →
        bracketed inside before = true) ∧
      ((splitPort inside s).2.isSome = true → bracketed inside (splitPort inside s).1 = false) := by
  induction s with
  | nil => exact fun inside =>
      ⟨rfl, fun before behind h => by simp [splitPort] at h, fun h => by cases h⟩
  | cons c s ih =>
    intro inside
    rw [splitPort]
    split
    · rename_i hcolon
      exact ⟨by rw [hcolon.1]; rfl, fun before behind h => by simp at h, fun _ => hcolon.2⟩
    · rename_i hcolon
      obtain ⟨htext, hhost, hport⟩ := ih (bracketed inside [c])
      refine ⟨congrArg (c :: ·) htext, fun before behind h => ?_, hport⟩
      change c :: (splitPort (bracketed inside [c]) s).1 = before ++ 0x3A :: behind at h
      rcases before with _ | ⟨b, before⟩
      · obtain ⟨rfl, -⟩ := List.cons.inj h
        exact Bool.eq_true_of_not_eq_false fun hinside => hcolon ⟨rfl, hinside⟩
      · obtain ⟨rfl, hrest⟩ := List.cons.inj h
        exact hhost before behind hrest

/-- A text split at a `:` in no brackets is read so by the host state. -/
theorem splitPort_append (port : Option JsString) (host : JsString) : ∀ inside,
    (∀ before behind, host = before ++ 0x3A :: behind → bracketed inside before = true) →
      (port.isSome = true → bracketed inside host = false) →
      splitPort inside (host ++ port.elim [] (0x3A :: ·)) = (host, port) := by
  induction host with
  | nil =>
    intro inside _ hport
    rcases port with _ | port
    · rfl
    · exact if_pos ⟨rfl, hport rfl⟩
  | cons c host ih =>
    intro inside hhost hport
    have hcolon : ¬(c = 0x3A ∧ inside = false) := fun h => by
      cases h.2.symm.trans (hhost [] host (congrArg (· :: host) h.1))
    rw [List.cons_append, splitPort, if_neg hcolon,
      ih (bracketed inside [c])
        (fun before behind h => hhost (c :: before) behind (congrArg (c :: ·) h)) hport]

/-- A host and a port, read from how they are written. -/
theorem hostAndPort_address (a : AuthorityText) :
    hostAndPort hostParser scheme a.address = a.resolution hostParser scheme := by
  rw [hostAndPort, AuthorityText.address,
    splitPort_append a.port a.host false a.host_colon a.port_outside]
  dsimp only
  split
  · exact absurd ‹a.host = []› a.host_ne_nil
  · rfl

/-- The units of an authority go on to its end. -/
theorem takeWhile_text (a : AuthorityText) {rest : JsString}
    (hrest : ∀ c ∈ rest.head?, endsAuthority c = true) :
    (a.text ++ rest).takeWhile (!endsAuthority ·) = a.text := by
  rw [List.takeWhile_append_of_pos fun c hc => by rw [a.inner c hc]; rfl]
  rcases rest with _ | ⟨c, rest⟩
  · exact List.append_nil _
  · rw [List.takeWhile_cons_of_neg (by rw [hrest c rfl]; decide), List.append_nil]

/-- The credentials end at the last `@`. -/
theorem rtakeWhile_text (a : AuthorityText) : a.text.rtakeWhile (· != 0x40) = a.address := by
  obtain h | ⟨user, h⟩ := a.credentials_end
  · rw [AuthorityText.text, h, List.nil_append, List.rtakeWhile_eq_self_iff]
    exact fun c hc => bne_iff_ne.mpr fun hat => a.host_port_at (hat ▸ hc)
  · rw [AuthorityText.text, h, ← List.append_cons]
    exact rtakeWhile_behind a.host_port_at

/-- An authority, read from its text. -/
theorem authority_text (a : AuthorityText) {rest : JsString}
    (hrest : ∀ c ∈ rest.head?, endsAuthority c = true) :
    authority hostParser scheme (a.text ++ rest) = a.resolution hostParser scheme := by
  rw [authority, takeWhile_text a hrest, rtakeWhile_text, hostAndPort_address]

/-- A text is credentials and what is behind its last `@`. -/
theorem exists_credentials (s : JsString) : ∃ credentials : JsString,
    (credentials = [] ∨ ∃ user, credentials = user ++ [0x40]) ∧
      s = credentials ++ s.rtakeWhile (· != 0x40) := by
  by_cases hat : 0x40 ∈ s
  · obtain ⟨user, h⟩ := exists_eq_append_rtakeWhile hat
    exact ⟨user ++ [0x40], .inr ⟨user, rfl⟩, by rwa [← List.append_cons]⟩
  · refine ⟨[], .inl rfl, (List.rtakeWhile_eq_self_iff.mpr fun c hc => ?_).symm⟩
    exact bne_iff_ne.mpr fun h => hat (h ▸ hc)

/-- **An authority that is read has a text.** -/
theorem exists_text {s : JsString} (h : authority hostParser scheme s ≠ .failure) :
    ∃ (a : AuthorityText) (rest : JsString), s = a.text ++ rest ∧
      ∀ c ∈ rest.head?, endsAuthority c = true := by
  obtain ⟨credentials, hcredentials, htext⟩ := exists_credentials (s.takeWhile (!endsAuthority ·))
  obtain ⟨haddress, hcolon, hport⟩ :=
    splitPort_spec ((s.takeWhile (!endsAuthority ·)).rtakeWhile (· != 0x40)) false
  have hat : 0x40 ∉ (s.takeWhile (!endsAuthority ·)).rtakeWhile (· != 0x40) := notMem_rtakeWhile
  rw [authority, hostAndPort] at h
  generalize (s.takeWhile (!endsAuthority ·)).rtakeWhile (· != 0x40) = address at *
  rcases hsplit : splitPort false address with ⟨host, port⟩
  rw [hsplit] at haddress hcolon hport h
  subst haddress
  have hne : host ≠ [] := fun hnil => h (by rw [hnil])
  have hinner : ∀ c ∈ s.takeWhile (!endsAuthority ·), endsAuthority c = false := fun c hc => by
    simpa using List.mem_takeWhile_imp hc
  rw [htext] at hinner
  refine ⟨⟨credentials, host, port, hcredentials, hne, hcolon, hport, hat, hinner⟩,
    s.dropWhile (!endsAuthority ·), ?_, fun c hc => ?_⟩
  · exact (List.takeWhile_append_dropWhile.symm.trans (congrArg (· ++ _) htext) :)
  · have := List.head?_dropWhile_not (!endsAuthority ·) s
    rw [Option.mem_def.mp hc] at this
    simpa using this

/-- **An authority is read as the texts have it.** -/
theorem authority_eq_at_iff {s : JsString} :
    authority hostParser scheme s = .at origin ↔ origin.scheme = scheme ∧
    Names hostParser s origin := by
  constructor
  · intro h
    obtain ⟨a, rest, rfl, hrest⟩ := exists_text (h.trans_ne nofun)
    rw [authority_text a hrest, AuthorityText.resolution] at h
    split at h
    · rename_i host port hhost hport
      obtain rfl := Resolution.at.inj h
      exact ⟨rfl, a, rest, rfl, hrest, hhost, hport⟩
    · cases h
  · rintro ⟨rfl, a, rest, rfl, hrest, hhost, hport⟩
    rw [authority_text a hrest, AuthorityText.resolution, hhost, hport]

end

/-! ## References that begin with a slash -/

section

variable {Host : Type*} {hostParser : JsString → Option Host} {base : Origin Host} {c : UInt16}
  {s : JsString}

theorem not_isTabOrNewline (hc : isControlOrSpace c = false) : (!isTabOrNewline c) = true := by
  rw [Bool.not_eq_true', ← Bool.not_eq_true]
  intro h
  simp only [isTabOrNewline, Bool.or_eq_true, beq_iff_eq] at h
  obtain (rfl | rfl) | rfl := h <;> cases hc

/-- A unit that is not passed over parts the text. -/
theorem tidyEnd_append (before : JsString) (hc : isControlOrSpace c = false) :
    tidyEnd (before ++ c :: s) = before.filter (!isTabOrNewline ·) ++ c :: tidyEnd s := by
  have hkeep : (before ++ c :: s).rdropWhile isControlOrSpace =
      before ++ c :: s.rdropWhile isControlOrSpace := by
    have hstop : (c :: before.reverse).dropWhile isControlOrSpace = c :: before.reverse :=
      List.dropWhile_cons_of_neg (by rw [hc]; exact Bool.false_ne_true)
    rw [List.rdropWhile, List.reverse_append, List.reverse_cons, ← List.append_cons,
      List.dropWhile_append, hstop, List.rdropWhile]
    split
    · rename_i hnil
      rw [List.isEmpty_iff.mp hnil, List.reverse_nil, List.reverse_cons, List.reverse_reverse]
    · rw [List.reverse_append, List.reverse_cons, List.reverse_reverse, ← List.append_cons]
  rw [tidyEnd, hkeep, List.filter_append,
    List.filter_cons_of_pos (p := fun c => !isTabOrNewline c) (not_isTabOrNewline hc)]
  rfl

theorem tidy_slash : tidy (0x2F :: s) = 0x2F :: tidyEnd s := by
  rw [tidy, List.dropWhile_cons_of_neg (by decide)]
  exact tidyEnd_append [] rfl

/-- **A reference that begins with a slash** goes to an authority where a second one is read behind
it, and stays otherwise. -/
theorem resolve_slash : resolve hostParser base (0x2F :: s) = match tidyEnd s with
    | [] => .at base
    | c :: rest => if isSlash c then ignoreSlashes hostParser base.scheme rest else .at base := by
  have hscheme : splitScheme (0x2F :: tidyEnd s) = none := rfl
  rw [resolve, tidy_slash, hscheme]
  dsimp only
  rcases tidyEnd s with _ | ⟨c, rest⟩
  · rfl
  · rfl

/-- Such a reference stays at the origin where no authority is read, or the one of the origin. -/
theorem resolve_slash_eq_at_iff : resolve hostParser base (0x2F :: s) = .at base ↔
    ∀ c rest, tidyEnd s = c :: rest → isSlash c = true →
      Names hostParser (rest.dropWhile isSlash) base := by
  rw [resolve_slash]
  rcases tidyEnd s with _ | ⟨c, rest⟩
  · exact iff_of_true rfl fun c rest h => by cases h
  dsimp only
  split
  · rename_i hslash
    rw [ignoreSlashes, authority_eq_at_iff, and_iff_right rfl]
    refine ⟨fun h d tail hd _ => ?_, fun h => h c rest rfl hslash⟩
    obtain ⟨-, rfl⟩ := List.cons.inj hd
    exact h
  · rename_i hslash
    refine iff_of_true rfl fun d tail hd hd' => absurd ?_ hslash
    obtain ⟨rfl, -⟩ := List.cons.inj hd
    exact hd'

/-- Where a second slash is read there is one, behind tabs and newlines at most. -/
theorem tidyEnd_eq_cons_iff {tail : JsString} (hc : isControlOrSpace c = false) :
    tidyEnd s = c :: tail ↔
      ∃ gap rest, s = gap ++ c :: rest ∧ (∀ d ∈ gap, isTabOrNewline d = true) ∧
        tidyEnd rest = tail := by
  constructor
  · intro h
    obtain ⟨gap, rest, hs, hgap, -, -⟩ := List.filter_eq_cons_iff.mp h
    have hgap : ∀ d ∈ gap, isTabOrNewline d = true := fun d hd => by simpa using hgap d hd
    have hsplit : s = gap ++ c :: (rest ++ s.rtakeWhile isControlOrSpace) := by
      rw [← List.cons_append, ← List.append_assoc, ← hs, List.rdropWhile_append_rtakeWhile]
    refine ⟨gap, _, hsplit, hgap, ?_⟩
    rw [hsplit, tidyEnd_append gap hc, List.filter_eq_nil_iff.mpr (by simpa using hgap)] at h
    exact (List.cons.inj h).2
  · rintro ⟨gap, rest, rfl, hgap, rfl⟩
    rw [tidyEnd_append gap hc, List.filter_eq_nil_iff.mpr (by simpa using hgap)]
    rfl

end

end Url

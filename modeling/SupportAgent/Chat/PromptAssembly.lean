import Mathlib.Data.List.Nodup
import SupportAgent.Store.Backend

/-!
# Chat/PromptAssembly — numbered sources for the prompt

`assembleContext` orders the hits, promotes as many as fit to numbered sources and renders the block
of sources the prompt carries.  A turn of its loop stops or takes the hit (`assembleSources_cases`).
What a source keeps of its hit is `AssembledSource.OfHit`: everything, the content at most cut
short.
-/

open Ingestion JsString

/-- A retrieved chunk promoted to a numbered prompt source (marker -> chunk). -/
structure AssembledSource where
  marker : ℕ
  chunkId : Uuid
  documentId : Uuid
  title : JsString
  page : Option ℕ
  sectionText : Option JsString
  charStart : Option ℕ
  charEnd : Option ℕ
  content : JsString
  score : JsNumber
  deriving DecidableEq

structure AssembledContext where
  /-- The marker -> source mapping. -/
  sources : List AssembledSource
  /-- The numbered "[n] …" sources block. -/
  text : JsString
  totalTokens : ℕ
  deriving DecidableEq

structure AssembleOptions where
  maxSources : JsNumber
  tokenBudget : JsNumber

def DEFAULT_ASSEMBLE_OPTIONS : AssembleOptions where
  maxSources := .ofNat 5
  tokenBudget := .ofNat 2000

/-- The fields of a source its header shows. -/
structure SourceHeader where
  marker : ℕ
  title : JsString
  page : Option ℕ
  sectionText : Option JsString

/-- `value.replace(/\s+/g, ' ')`; `inSpace` is set within a run of white space. -/
def collapseSpaces : (inSpace : Bool) → JsString → JsString
  | _, [] => []
  | inSpace, c :: s =>
    if isSpace c then (if inSpace then [] else js " ") ++ collapseSpaces true s
    else c :: collapseSpaces false s

/-- One line without quotes. -/
def headerField (value : JsString) : JsString :=
  trim ((collapseSpaces false value).filter (· != 0x22))

def headerLine (s : SourceHeader) : JsString :=
  let page := s.page.map fun p => js "page " ++ js (toString p)
  let sectionText :=
    match s.sectionText with
    | some text => if text = [] then none else some (js "section \"" ++ headerField text ++ js "\"")
    | none => none
  let loc := join (js ", ") (page.toList ++ sectionText.toList)
  js "[" ++ js (toString s.marker) ++ js "] \"" ++ headerField s.title ++ js "\"" ++
    (if loc = [] then [] else js " — " ++ loc)

/-- An upper-case ASCII letter in lower case. -/
def toLowerAscii (c : UInt16) : UInt16 := if 0x41 ≤ c && c ≤ 0x5A then c + 0x20 else c

/-- `content.replace(/<(\/?)source>/gi, '[$1source]')`; `skip` units of a match are still to be
passed over. -/
def neutralize : (skip : ℕ) → JsString → JsString
  | _, [] => []
  | skip + 1, _ :: s => neutralize skip s
  | 0, c :: s =>
    let lower := (c :: s).map toLowerAscii
    if (js "<source>").isPrefixOf lower then js "[source]" ++ neutralize 7 s
    else if (js "</source>").isPrefixOf lower then js "[/source]" ++ neutralize 8 s
    else c :: neutralize 0 s

/-- The content between tags it cannot close itself. -/
def fencedContent (content : JsString) : JsString :=
  js "<source>\n" ++ neutralize 0 content ++ js "\n</source>"

def entryText (s : SourceHeader) (content : JsString) : JsString :=
  headerLine s ++ js "\n" ++ fencedContent content

/-- `b.score - a.score`, as a comparison; `NaN` leaves it to the next key. -/
def scoreOrder (a b : ChunkHit) : Ordering :=
  match b.score.sub a.score with
  | .finite q => if q < 0 then .lt else if 0 < q then .gt else .eq
  | .negInf => .lt
  | .posInf => .gt
  | .nan => .eq

/-- Score descending, then document, offset and id. -/
def hitOrder (a b : ChunkHit) : Ordering :=
  (scoreOrder a b).then <| (compare a.documentId b.documentId).then <|
    (compare (a.charStart.getD 0) (b.charStart.getD 0)).then (compare a.id b.id)

/-- The source a hit becomes, with its content as shown. -/
def ChunkHit.source (hit : ChunkHit) (marker : ℕ) (content : JsString) : AssembledSource where
  marker := marker
  chunkId := hit.id
  documentId := hit.documentId
  title := hit.title
  page := hit.page
  sectionText := hit.sectionText
  charStart := hit.charStart
  charEnd := hit.charEnd
  content := content
  score := hit.score

section

variable (tok : Tokenizer) (options : AssembleOptions)

/-- The loop of `assembleContext`, with the sources and the tokens so far. -/
def assembleSources : List ChunkHit → List AssembledSource → (usedTokens : ℕ) →
    Except JsError (List AssembledSource)
  | [], sources, _ => return sources
  | hit :: hits, sources, usedTokens =>
    if options.maxSources.le (.ofNat sources.length) then return sources
    else do
      let marker := sources.length + 1
      let head : SourceHeader := ⟨marker, hit.title, hit.page, hit.sectionText⟩
      let entryTokens ← tok.countTokens (entryText head hit.content)
      if options.tokenBudget.lt (.ofNat (usedTokens + entryTokens)) then
        if sources ≠ [] then return sources
        else
          -- the first source alone exceeds the budget: include it, truncated to fit
          let headerTokens ← tok.countTokens (entryText head [])
          let content ← tok.truncateToTokens hit.content
            ((options.tokenBudget.sub (.ofNat headerTokens)).max (.ofNat 1))
          let entryTokens ← tok.countTokens (entryText head content)
          assembleSources hits (sources ++ [hit.source marker content]) (usedTokens + entryTokens)
      else
        assembleSources hits (sources ++ [hit.source marker hit.content]) (usedTokens + entryTokens)

/-- Assemble retrieved chunks into a numbered sources block for the grounded prompt. -/
def assembleContext (hits : List ChunkHit) : Except JsError AssembledContext := do
  let ordered := hits.mergeSort fun a b => hitOrder a b != .gt
  let sources ← assembleSources tok options ordered [] 0
  let text := join (js "\n\n") (sources.map fun s =>
    entryText ⟨s.marker, s.title, s.page, s.sectionText⟩ s.content)
  return { sources, text, totalTokens := ← tok.countTokens text }

end

/-! ## A turn of the loop -/

/-- The entry of a hit in the block of sources. -/
def ChunkHit.entry (hit : ChunkHit) (marker : ℕ) (content : JsString) : JsString :=
  entryText ⟨marker, hit.title, hit.page, hit.sectionText⟩ content

/-- More tokens than the budget. -/
def AssembleOptions.over (options : AssembleOptions) (n : ℕ) : Bool :=
  options.tokenBudget.lt (.ofNat n)

section

variable (tok : Tokenizer) (options : AssembleOptions)

/-- Why the loop stops before the hits `rest`, with `n` sources of `used` tokens. -/
def Stops (n used : ℕ) (rest : List ChunkHit) : Prop :=
  rest = [] ∨ options.maxSources.le (.ofNat n) = true ∨
    n ≠ 0 ∧ ∃ hit ∈ rest.head?, ∃ t,
      tok.countTokens (hit.entry (n + 1) hit.content) = .ok t ∧ options.over (used + t) = true

/-- How the loop takes a hit after these sources, with the content it shows and the tokens of its
entry: whole where the entry fits, and the first one cut where it does not. -/
inductive ChunkHit.Taken (hit : ChunkHit) (sources : List AssembledSource) (usedTokens : ℕ) :
    JsString → ℕ → Prop
  | whole {n : ℕ} : tok.countTokens (hit.entry (sources.length + 1) hit.content) = .ok n →
      options.over (usedTokens + n) = false → Taken hit sources usedTokens hit.content n
  | cut {entryTokens headerTokens n : ℕ} {content : JsString} : sources = [] →
      tok.countTokens (hit.entry (sources.length + 1) hit.content) = .ok entryTokens →
      options.over (usedTokens + entryTokens) = true →
      tok.countTokens (hit.entry (sources.length + 1) []) = .ok headerTokens →
      tok.truncateToTokens hit.content
        ((options.tokenBudget.sub (.ofNat headerTokens)).max (.ofNat 1)) = .ok content →
      tok.countTokens (hit.entry (sources.length + 1) content) = .ok n →
      Taken hit sources usedTokens content n

end

/-- **What a turn of the loop does**: it stops, or it takes the hit. -/
theorem assembleSources_cases {tok : Tokenizer} {options : AssembleOptions} {hit : ChunkHit}
    {hits : List ChunkHit} {sources result : List AssembledSource} {usedTokens : ℕ}
    (h : assembleSources tok options (hit :: hits) sources usedTokens = .ok result) :
    sources = result ∧ Stops tok options sources.length usedTokens (hit :: hits) ∨
    ∃ content n, options.maxSources.le (.ofNat sources.length) = false ∧
      hit.Taken tok options sources usedTokens content n ∧
      assembleSources tok options hits (sources ++ [hit.source (sources.length + 1) content])
        (usedTokens + n) = .ok result := by
  rw [assembleSources] at h
  split at h
  · rename_i hfull
    exact .inl ⟨Except.ok.inj h, .inr (.inl hfull)⟩
  rename_i hroom
  rw [Bool.not_eq_true] at hroom
  obtain ⟨entryTokens, hentry, h⟩ := Except.bind_eq_ok.mp h
  split at h
  · rename_i hover
    split at h
    · rename_i hne
      refine .inl ⟨Except.ok.inj h,
        .inr (.inr ⟨fun hzero => hne ?_, hit, rfl, entryTokens, hentry, hover⟩)⟩
      exact List.length_eq_zero_iff.1 hzero
    · rename_i hnil
      rw [not_not] at hnil
      obtain ⟨headerTokens, hheader, h⟩ := Except.bind_eq_ok.mp h
      obtain ⟨content, hcontent, h⟩ := Except.bind_eq_ok.mp h
      obtain ⟨n, hn, h⟩ := Except.bind_eq_ok.mp h
      exact .inr ⟨content, n, hroom, .cut hnil hentry hover hheader hcontent hn, h⟩
  · rename_i hfits
    rw [Bool.not_eq_true] at hfits
    exact .inr ⟨hit.content, entryTokens, hroom, .whole hentry hfits, h⟩

section

variable {tok : Tokenizer} {options : AssembleOptions} {hit : ChunkHit}
  {sources : List AssembledSource} {usedTokens : ℕ}

/-- The loop has counted the entry of a hit it takes. -/
theorem ChunkHit.Taken.counted {content : JsString} {n : ℕ}
    (h : hit.Taken tok options sources usedTokens content n) :
    ∃ t, tok.countTokens (hit.entry (sources.length + 1) hit.content) = .ok t := by
  rcases h with ⟨hn, -⟩ | ⟨-, hwhole, -⟩
  · exact ⟨_, hn⟩
  · exact ⟨_, hwhole⟩

theorem assembleSources_of_stops {hits : List ChunkHit}
    (h : Stops tok options sources.length usedTokens (hit :: hits)) :
    assembleSources tok options (hit :: hits) sources usedTokens = .ok sources := by
  rw [assembleSources]
  rcases h with hnil | hfull | ⟨hne, hit', hhit, t, ht, hover⟩
  · cases hnil
  · rw [if_pos hfull]
    rfl
  obtain rfl := Option.some.inj hhit
  rw [ChunkHit.entry] at ht
  rw [AssembleOptions.over] at hover
  split
  · rfl
  dsimp only
  rw [ht, Except.ok_bind, if_pos hover, if_pos fun hnil => hne (by rw [hnil]; rfl)]
  rfl

theorem assembleSources_of_taken {hits : List ChunkHit} {content : JsString} {n : ℕ}
    (hroom : options.maxSources.le (.ofNat sources.length) = false)
    (h : hit.Taken tok options sources usedTokens content n) :
    assembleSources tok options (hit :: hits) sources usedTokens =
      assembleSources tok options hits (sources ++ [hit.source (sources.length + 1) content])
        (usedTokens + n) := by
  rw [assembleSources, if_neg (by simp [hroom])]
  rcases h with ⟨hn, hfits⟩ | ⟨hnil, hwhole, hover, hheader, hcontent, hn⟩
  · rw [AssembleOptions.over] at hfits
    rw [ChunkHit.entry] at hn
    dsimp only
    rw [hn, Except.ok_bind, if_neg (by simp [hfits])]
  · rw [AssembleOptions.over] at hover
    rw [ChunkHit.entry] at hwhole hheader hn
    dsimp only
    rw [hwhole, Except.ok_bind, if_pos hover, if_neg (not_not.2 hnil), hheader, Except.ok_bind,
      hcontent, Except.ok_bind, hn, Except.ok_bind]

variable (options sources usedTokens) in
/-- **The loop stops or takes the next hit**, where the tokenizer takes the texts about it. -/
theorem ChunkHit.stops_or_taken {Q : JsString → Prop}
    (hcount : ∀ text, Q text → ∃ n, tok.countTokens text = .ok n)
    (hentry : ∀ marker, Q (hit.entry marker hit.content) ∧ Q (hit.entry marker []))
    (hcut : ∀ n, ∃ cut, tok.truncateToTokens hit.content n = .ok cut ∧
      ∀ marker, Q (hit.entry marker cut))
    (hits : List ChunkHit) :
    Stops tok options sources.length usedTokens (hit :: hits) ∨
      options.maxSources.le (.ofNat sources.length) = false ∧ ∃ content n,
        hit.Taken tok options sources usedTokens content n ∧
          Q (hit.entry (sources.length + 1) content) := by
  cases hroom : options.maxSources.le (.ofNat sources.length)
  case true => exact .inl (.inr (.inl hroom))
  obtain ⟨hwhole, hheader⟩ := hentry (sources.length + 1)
  obtain ⟨t, ht⟩ := hcount _ hwhole
  cases hover : options.over (usedTokens + t)
  case false => exact .inr ⟨rfl, _, t, .whole ht hover, hwhole⟩
  by_cases hnil : sources = []
  case neg =>
    exact .inl (.inr (.inr ⟨mt List.length_eq_zero_iff.1 hnil, hit, rfl, t, ht, hover⟩))
  obtain ⟨headerTokens, hheaderTokens⟩ := hcount _ hheader
  obtain ⟨content, hcontent, hfits⟩ :=
    hcut ((options.tokenBudget.sub (.ofNat headerTokens)).max (.ofNat 1))
  obtain ⟨n, hn⟩ := hcount _ (hfits (sources.length + 1))
  exact .inr ⟨rfl, content, n, .cut hnil ht hover hheaderTokens hcontent hn, hfits _⟩

end

/-! ## What a source keeps of its hit -/

/-- A source is a hit under its number, its content whole or cut by the tokenizer. -/
def AssembledSource.OfHit (tok : Tokenizer) (source : AssembledSource) (hit : ChunkHit) : Prop :=
  ∃ content, source = hit.source source.marker content ∧
    (content = hit.content ∨ ∃ n, tok.truncateToTokens hit.content n = .ok content)

section

variable {tok : Tokenizer} {options : AssembleOptions}

theorem ChunkHit.Taken.whole_or_cut {hit : ChunkHit} {sources : List AssembledSource}
    {usedTokens n : ℕ}
    {content : JsString} (h : hit.Taken tok options sources usedTokens content n) :
    content = hit.content ∨ ∃ n, tok.truncateToTokens hit.content n = .ok content := by
  rcases h with ⟨-, -⟩ | ⟨-, -, -, -, hcontent, -⟩
  · exact .inl rfl
  · exact .inr ⟨_, hcontent⟩

/-- The sources so far are the hits so far, in order. -/
theorem ofHit_assembleSources {seen hits : List ChunkHit} {sources result : List AssembledSource}
    {usedTokens : ℕ} (hlength : seen.length = sources.length)
    (hsources : ∀ (i : ℕ) source, sources[i]? = some source →
      ∃ hit, (seen ++ hits)[i]? = some hit ∧ source.OfHit tok hit)
    (h : assembleSources tok options hits sources usedTokens = .ok result) :
    ∀ (i : ℕ) source, result[i]? = some source →
      ∃ hit, (seen ++ hits)[i]? = some hit ∧ source.OfHit tok hit := by
  induction hits generalizing seen sources usedTokens with
  | nil =>
    obtain rfl := Except.ok.inj h
    exact hsources
  | cons hit hits ih =>
    obtain ⟨rfl, -⟩ | ⟨content, n, -, htaken, hrest⟩ := assembleSources_cases h
    · exact hsources
    have hsplit : seen ++ hit :: hits = (seen ++ [hit]) ++ hits := by simp
    rw [hsplit]
    refine ih (by simp [hlength]) (fun i source hi => ?_) hrest
    rw [← hsplit]
    rcases Nat.lt_or_ge i sources.length with hlt | hge
    · rw [List.getElem?_append_left hlt] at hi
      exact hsources i source hi
    · rw [List.getElem?_append_right hge, List.getElem?_singleton] at hi
      split at hi
      · obtain rfl := Option.some.inj hi
        refine ⟨hit, ?_, content, rfl, htaken.whole_or_cut⟩
        rw [List.getElem?_append_right (by omega), show i - seen.length = 0 by omega]
        rfl
      · cases hi

/-- The hits in the order the prompt numbers them. -/
def promptOrder (hits : List ChunkHit) : List ChunkHit :=
  hits.mergeSort fun a b => hitOrder a b != .gt

/-- **The sources are the hits**, numbered in their order. -/
theorem ofHit_assembleContext {hits : List ChunkHit} {context : AssembledContext}
    (h : assembleContext tok options hits = .ok context) (i : ℕ) (source : AssembledSource)
    (hi : context.sources[i]? = some source) :
    ∃ hit, (promptOrder hits)[i]? = some hit ∧ source.OfHit tok hit := by
  obtain ⟨sources, hsources, h⟩ := Except.bind_eq_ok.mp h
  obtain ⟨totalTokens, -, h⟩ := Except.bind_eq_ok.mp h
  obtain rfl := Except.ok.inj h
  have hstart : ∀ (i : ℕ) (source : AssembledSource), [][i]? = some source →
      ∃ hit, ([] ++ promptOrder hits)[i]? = some hit ∧ source.OfHit tok hit := by simp
  exact ofHit_assembleSources rfl hstart hsources i source hi

/-- **Every source is one of the hits.** -/
theorem ofHit_of_mem_assembleContext {hits : List ChunkHit} {context : AssembledContext}
    (h : assembleContext tok options hits = .ok context) :
    ∀ source ∈ context.sources, ∃ hit ∈ hits, source.OfHit tok hit := by
  intro source hsource
  obtain ⟨i, hi⟩ := List.mem_iff_getElem?.mp hsource
  obtain ⟨hit, hhit, hsame⟩ := ofHit_assembleContext h i source hi
  exact ⟨hit, List.mem_mergeSort.mp (List.mem_of_getElem? hhit), hsame⟩

/-- The next source takes the next number. -/
theorem markers_push {sources : List AssembledSource}
    (hsources : sources.map (·.marker) = List.range' 1 sources.length) (hit : ChunkHit)
    (content : JsString) :
    (sources ++ [hit.source (sources.length + 1) content]).map (·.marker) =
      List.range' 1 (sources ++ [hit.source (sources.length + 1) content]).length := by
  rw [List.map_append, hsources, List.length_append, List.length_singleton, List.range'_concat,
    Nat.one_mul, Nat.add_comm 1]
  rfl

/-- Sources are numbered from 1 on. -/
theorem markers_assembleSources {hits : List ChunkHit} {sources result : List AssembledSource}
    {usedTokens : ℕ} (hsources : sources.map (·.marker) = List.range' 1 sources.length)
    (h : assembleSources tok options hits sources usedTokens = .ok result) :
    result.map (·.marker) = List.range' 1 result.length := by
  induction hits generalizing sources usedTokens with
  | nil =>
    obtain rfl := Except.ok.inj h
    exact hsources
  | cons hit hits ih =>
    obtain ⟨rfl, -⟩ | ⟨content, n, -, -, hrest⟩ := assembleSources_cases h
    · exact hsources
    · exact ih (markers_push hsources hit content) hrest

/-- **The sources of a context are numbered from 1 on.** -/
theorem markers_assembleContext {hits : List ChunkHit} {context : AssembledContext}
    (h : assembleContext tok options hits = .ok context) :
    context.sources.map (·.marker) = List.range' 1 context.sources.length := by
  obtain ⟨sources, hsources, h⟩ := Except.bind_eq_ok.mp h
  obtain ⟨totalTokens, -, h⟩ := Except.bind_eq_ok.mp h
  obtain rfl := Except.ok.inj h
  exact markers_assembleSources rfl hsources

/-- The block of sources a prompt carries. -/
def sourcesBlock (sources : List AssembledSource) : JsString :=
  join (js "\n\n") (sources.map fun s =>
    entryText ⟨s.marker, s.title, s.page, s.sectionText⟩ s.content)

/-- The text of a context is the block of its sources. -/
theorem text_assembleContext {hits : List ChunkHit} {context : AssembledContext}
    (h : assembleContext tok options hits = .ok context) :
    context.text = sourcesBlock context.sources := by
  obtain ⟨sources, -, h⟩ := Except.bind_eq_ok.mp h
  obtain ⟨totalTokens, -, h⟩ := Except.bind_eq_ok.mp h
  obtain rfl := Except.ok.inj h
  rfl

/-- The entry of a source. -/
def AssembledSource.entry (s : AssembledSource) : JsString :=
  entryText ⟨s.marker, s.title, s.page, s.sectionText⟩ s.content

/-- **Hits whose entries the tokenizer takes assemble.** -/
theorem exists_assembleContext_of {Q : JsString → Prop} {hits : List ChunkHit}
    (hcount : ∀ text, Q text → ∃ n, tok.countTokens text = .ok n)
    (hentry : ∀ hit ∈ hits, ∀ marker, Q (hit.entry marker hit.content) ∧ Q (hit.entry marker []))
    (hcut : ∀ hit ∈ hits, ∀ n, ∃ cut, tok.truncateToTokens hit.content n = .ok cut ∧
      ∀ marker, Q (hit.entry marker cut))
    (hjoin : ∀ sources : List AssembledSource, (∀ s ∈ sources, Q s.entry) →
      Q (sourcesBlock sources)) :
    ∃ context, assembleContext tok options hits = .ok context := by
  have hsources : ∀ left sources usedTokens, (∀ hit ∈ left, hit ∈ hits) →
      (∀ s : AssembledSource, s ∈ sources → Q s.entry) →
      ∃ result, assembleSources tok options left sources usedTokens = .ok result ∧
        ∀ s ∈ result, Q s.entry := by
    intro left
    induction left with
    | nil => exact fun sources _ _ hsources => ⟨sources, rfl, hsources⟩
    | cons hit left ih =>
      intro sources usedTokens hleft hsources
      obtain ⟨hhit, hleft⟩ := List.forall_mem_cons.1 hleft
      obtain hstops | ⟨hroom, content, n, htaken, hcontent⟩ :=
        ChunkHit.stops_or_taken options sources usedTokens hcount (hentry hit hhit)
          (hcut hit hhit) left
      · exact ⟨sources, assembleSources_of_stops hstops, hsources⟩
      · rw [assembleSources_of_taken hroom htaken]
        exact ih _ _ hleft
          (List.forall_mem_append.2 ⟨hsources, List.forall_mem_singleton.2 hcontent⟩)
  have hall : ∀ hit ∈ promptOrder hits, hit ∈ hits := fun hit hhit => List.mem_mergeSort.1 hhit
  obtain ⟨sources, hassembled, hplain⟩ := hsources (promptOrder hits)
    [] 0 hall (List.forall_mem_nil _)
  obtain ⟨totalTokens, htotal⟩ := hcount _ (hjoin sources hplain)
  rw [promptOrder] at hassembled
  rw [sourcesBlock] at htotal
  rw [assembleContext, hassembled, Except.ok_bind]
  dsimp only
  rw [htotal, Except.ok_bind]
  exact ⟨_, rfl⟩

/-- **Where the tokenizer takes every text, the hits assemble.** -/
theorem exists_assembleContext (hcount : ∀ text, ∃ n, tok.countTokens text = .ok n)
    (hcut : ∀ text n, ∃ cut, tok.truncateToTokens text n = .ok cut) (hits : List ChunkHit) :
    ∃ context, assembleContext tok options hits = .ok context :=
  exists_assembleContext_of (Q := fun _ => True) (fun text _ => hcount text)
    (fun _ _ _ => ⟨trivial, trivial⟩)
    (fun hit _ n => (hcut hit.content n).imp fun _ hcut => ⟨hcut, fun _ => trivial⟩) fun _ _ =>
      trivial

/-- **A marker names one source.** -/
theorem eq_of_marker_eq {hits : List ChunkHit} {context : AssembledContext}
    (h : assembleContext tok options hits = .ok context) {source source' : AssembledSource}
    (hs : source ∈ context.sources) (hs' : source' ∈ context.sources)
    (hmarker : source.marker = source'.marker) : source = source' := by
  have hnodup : (context.sources.map (·.marker)).Nodup := by
    rw [markers_assembleContext h]
    exact List.nodup_range'
  exact List.inj_on_of_nodup_map hnodup hs hs' hmarker

end

import SupportAgent.Chat.Selection
import SupportAgent.Ingestion.Chunking.SpecialTokens

/-!
# Chat/SpecialTokens — which documents and hits the tokenizer takes

The prompt's sources are put together from titles, sections and contents, by text no special token
can begin in: the header collapses white space and drops quotes, the fence replaces tags, and
neither joins a special token to what surrounds it.

* `exists_assembleContext_iff` — the hits that assemble, whatever the options.
* `tokenizer_accepts_iff` — the documents that are chunked and the hits that assemble.
-/

open Ingestion JsString Words

/-! ## The fence -/

section

variable {specials : List JsString} {w v : JsString}

theorem toLowerAscii_eq {c : UInt16} (h : toLowerAscii c = 0x3C) : c = 0x3C := by
  rw [toLowerAscii] at h
  split at h
  · rename_i hupper
    simp only [Bool.and_eq_true, decide_eq_true_eq, UInt16.le_iff_toNat_le] at hupper
    replace h := congrArg UInt16.toNat h
    rw [UInt16.toNat_add] at h
    simp at h hupper
    omega
  · exact h

/-- A text that begins with a tag, whatever its case, holds the words that come after it. -/
theorem part_tag_iff {tag text : JsString} (hw : ∃ v, w = 0x3C :: 0x7C :: v)
    (htag : tag.isPrefixOf (text.map toLowerAscii) = true) (hm : 0x7C ∉ tag)
    (hlast : tag.getLast? ≠ some 0x3C) : w <:+: text ↔ w <:+: text.drop tag.length := by
  obtain ⟨rest, hrest⟩ := List.isPrefixOf_iff_prefix.1 htag
  have hmap : (text.take tag.length).map toLowerAscii = tag := by
    rw [List.map_take, ← hrest, List.take_left]
  conv_lhs => rw [← List.take_append_drop tag.length text]
  refine part_append_iff hw (fun hmem => hm ?_) fun hopen => hlast ?_
  · rw [← hmap]
    exact List.mem_map_of_mem hmem
  · rw [← hmap, List.getLast?_map, hopen]
    rfl

/-- A beginning without `<` and `[` is left alone by the fence. -/
theorem prefix_neutralize_iff (hopen : 0x3C ∉ v) (hbracket : 0x5B ∉ v) (s : JsString) :
    v <+: neutralize 0 s ↔ v <+: s := by
  induction v generalizing s with
  | nil => exact ⟨fun _ => List.nil_prefix, fun _ => List.nil_prefix⟩
  | cons d v ih =>
    rw [List.mem_cons, not_or] at hopen hbracket
    rcases s with _ | ⟨c, s⟩
    · rfl
    -- at a tag, the text begins with `<` and its replacement with `[`
    have htag : ∀ {tag : JsString} {rest : JsString},
        (0x3C :: tag).isPrefixOf ((c :: s).map toLowerAscii) = true →
          (d :: v <+: 0x5B :: rest ↔ d :: v <+: c :: s) := by
      intro tag rest htag
      obtain ⟨t, ht⟩ := List.isPrefixOf_iff_prefix.1 htag
      have hc : c = 0x3C := toLowerAscii_eq (List.cons.inj ht).1.symm
      rw [List.cons_prefix_cons, List.cons_prefix_cons, hc]
      exact ⟨fun h => absurd h.1.symm hbracket.1, fun h => absurd h.1.symm hopen.1⟩
    rw [neutralize]
    split
    · rename_i hmatch
      exact htag hmatch
    · split
      · rename_i hmatch
        exact htag hmatch
      · rw [List.cons_prefix_cons, List.cons_prefix_cons, ih hopen.2 hbracket.2]

/-- **The fence makes no word and hides none.** -/
theorem part_neutralize_iff (hopen : 0x3C ∉ v) (hbracket : 0x5B ∉ v) (skip : ℕ) (s : JsString) :
    0x3C :: 0x7C :: v <:+: neutralize skip s ↔ 0x3C :: 0x7C :: v <:+: s.drop skip := by
  fun_induction neutralize skip s with
  | case1 skip => rw [List.drop_nil]
  | case2 skip c s ih => rw [ih, List.drop_succ_cons]
  | case3 c s lower hmatch ih =>
    rw [part_append_iff ⟨v, rfl⟩ (by decide) (by decide), ih, List.drop_zero,
      part_tag_iff ⟨v, rfl⟩ hmatch (by decide) (by decide)]
    rfl
  | case4 c s lower hmatch hmatch' ih =>
    rw [part_append_iff ⟨v, rfl⟩ (by decide) (by decide), ih, List.drop_zero,
      part_tag_iff ⟨v, rfl⟩ hmatch' (by decide) (by decide)]
    rfl
  | case5 c s lower hmatch hmatch' ih =>
    have hhead : 0x7C :: v <+: neutralize 0 s ↔ 0x7C :: v <+: s :=
      prefix_neutralize_iff (fun h => hopen ((List.mem_cons.1 h).resolve_left (by decide)))
        (fun h => hbracket ((List.mem_cons.1 h).resolve_left (by decide))) s
    rw [List.infix_cons_iff, List.drop_zero, List.infix_cons_iff, ih, List.drop_zero,
      List.cons_prefix_cons, List.cons_prefix_cons, hhead]

theorem avoids_neutralize (hspecial : ∀ w ∈ specials, IsSpecial w) {s : JsString} :
    Avoids specials (neutralize 0 s) ↔ Avoids specials s := by
  refine forall₂_congr fun w hw => not_congr ?_
  obtain ⟨name, rfl, hname⟩ := hspecial w hw
  have hnot : ∀ c : UInt16, isNameUnit c = false → c ∉ js "|>" → c ∉ name ++ js "|>" := by
    intro c hc hend hmem
    obtain hmem | hmem := List.mem_append.1 hmem
    · rw [hname c hmem] at hc
      cases hc
    · exact hend hmem
  exact part_neutralize_iff (hnot 0x3C rfl (by decide)) (hnot 0x5B rfl (by decide)) 0 s

end

/-! ## Entries -/

section

variable {specials : List JsString} (hspecial : ∀ w ∈ specials, IsSpecial w)

/-- The decimal digits of a number. -/
theorem isDigit_of_mem_toString {n : ℕ} {c : UInt16} (hc : c ∈ js (toString n)) :
    isDigit c = true := by
  rw [js, List.mem_flatMap] at hc
  obtain ⟨d, hd, hc⟩ := hc
  have hdigit : d.isDigit = true :=
    Nat.isDigit_of_mem_toDigits (by decide) (by decide) (Nat.toList_repr ▸ hd)
  simp only [Char.isDigit, Bool.and_eq_true, decide_eq_true_eq, ge_iff_le,
    UInt32.le_iff_toNat_le] at hdigit
  have hd : 48 ≤ d.toNat ∧ d.toNat ≤ 57 := hdigit
  rw [utf16, if_pos (by omega), List.mem_singleton] at hc
  rw [hc, isDigit, Bool.and_eq_true, decide_eq_true_eq, decide_eq_true_eq, UInt16.le_iff_toNat_le,
    UInt16.le_iff_toNat_le, UInt16.toNat_ofNat_of_lt' (Nat.lt_of_le_of_lt hd.2 (by decide))]
  exact hd

include hspecial

/-- A quoted field after a text without `|`. -/
theorem avoids_quoted {m field rest : JsString} (hm : 0x7C ∉ m) :
    Avoids specials (m ++ 0x22 :: (field ++ 0x22 :: rest)) ↔
      Avoids specials field ∧ Avoids specials rest := by
  have hquote : Outside specials 0x22 := outside_of_special hspecial rfl
  rw [avoids_append_cons hquote, avoids_append_cons hquote,
    and_iff_right (avoids_of_notMem (head_of_special hspecial) hm)]

omit hspecial in
theorem notMem_append {s t : JsString} (hs : 0x7C ∉ s) (ht : 0x7C ∉ t) : 0x7C ∉ s ++ t := fun h =>
  (List.mem_append.1 h).elim hs ht

omit hspecial in
theorem notMem_toString (n : ℕ) : 0x7C ∉ js (toString n) := by
  intro h
  cases isDigit_of_mem_toString h

/-- Where a source is: its page, or nothing. -/
theorem avoids_page {page : Option JsString} (hpage : ∀ s ∈ page, 0x7C ∉ s) :
    Avoids specials
      (if join (js ", ") page.toList = [] then [] else js " — " ++ join (js ", ") page.toList) := by
  rcases page with _ | page
  · exact avoids_nil hspecial
  · rw [Option.toList_some, join, List.intercalate_singleton]
    split
    · exact avoids_nil hspecial
    · exact avoids_of_notMem (head_of_special hspecial) (notMem_append (by decide) (hpage page rfl))

/-- Where a source is: its page, if any, and its section. -/
theorem avoids_section {page : Option JsString} (hpage : ∀ s ∈ page, 0x7C ∉ s) {field : JsString} :
    let loc := join (js ", ") (page.toList ++ [js "section \"" ++ field ++ js "\""])
    Avoids specials (if loc = [] then [] else js " — " ++ loc) ↔ Avoids specials field := by
  intro loc
  obtain ⟨m, hm, hloc⟩ : ∃ m, 0x7C ∉ m ∧ loc = m ++ 0x22 :: (field ++ 0x22 :: []) := by
    rcases page with _ | page
    · refine ⟨js "section ", by decide, ?_⟩
      simp [loc, join, js, utf16]
    · refine ⟨page ++ js ", section ", notMem_append (hpage page rfl) (by decide), ?_⟩
      simp [loc, join, js, utf16, List.intercalate_cons_cons]
  rw [if_neg (by rw [hloc]; simp), hloc, ← List.append_assoc,
    avoids_quoted hspecial (notMem_append (by decide) hm)]
  exact and_iff_left (avoids_nil hspecial)

/-- **The header of an entry** shows the title and the section, each as a field of its own. -/
theorem avoids_headerLine {s : SourceHeader} :
    Avoids specials (headerLine s) ↔ Avoids specials (headerField s.title) ∧
      ∀ text ∈ s.sectionText, Avoids specials (headerField text) := by
  have hmarker : 0x7C ∉ js "[" ++ js (toString s.marker) ++ js "] " :=
    notMem_append (notMem_append (by decide) (notMem_toString _)) (by decide)
  have hpage : ∀ t ∈ s.page.map fun p => js "page " ++ js (toString p), 0x7C ∉ t := by
    intro t ht
    obtain ⟨p, -, rfl⟩ := Option.mem_map.1 ht
    exact notMem_append (by decide) (notMem_toString p)
  have hsplit : ∀ rest,
      js "[" ++ js (toString s.marker) ++ js "] \"" ++ headerField s.title ++ js "\"" ++
      rest = (js "[" ++ js (toString s.marker) ++ js "] ") ++
        0x22 :: (headerField s.title ++ 0x22 :: rest) := by
    intro rest
    simp [js, utf16]
  rw [headerLine, hsplit, avoids_quoted hspecial hmarker]
  refine and_congr_right fun _ => ?_
  rcases hsection : s.sectionText with _ | text
  · exact iff_of_true (by simpa using avoids_page hspecial hpage) fun t ht => by cases ht
  have hfield : (∀ t ∈ some text, Avoids specials (headerField t)) ↔
      Avoids specials (headerField text) :=
    ⟨fun h => h text rfl, fun h t ht => Option.some.inj ht ▸ h⟩
  rw [hfield]
  dsimp only
  split
  · rename_i hnil
    rw [hnil]
    exact iff_of_true (by simpa using avoids_page hspecial hpage) (avoids_nil hspecial)
  · exact avoids_section hspecial hpage

/-- **The entry of a hit** avoids what its fields do. -/
theorem avoids_entry {hit : ChunkHit} {marker : ℕ} {content : JsString} :
    Avoids specials (hit.entry marker content) ↔ (Avoids specials (headerField hit.title) ∧
      ∀ text ∈ hit.sectionText, Avoids specials (headerField text)) ∧ Avoids specials content := by
  have hline : Outside specials 0x0A := outside_of_special hspecial rfl
  have hsplit : hit.entry marker content = headerLine ⟨marker, hit.title, hit.page,
      hit.sectionText⟩ ++
      0x0A :: (js "<source>\n" ++ (neutralize 0 content ++ 0x0A :: js "</source>")) := by
    simp [ChunkHit.entry, entryText, fencedContent, js, utf16]
  rw [hsplit, avoids_append_cons hline, avoids_headerLine hspecial,
    avoids_head_append (head_of_special hspecial) (by decide) (by decide), avoids_append_cons hline,
    avoids_neutralize hspecial]
  refine and_congr_right fun _ =>
    and_iff_left (avoids_of_notMem (head_of_special hspecial) (by decide))

end

/-! ## The hits -/

/-- **A plain hit**: no special token in what the prompt shows of its title, section and content. -/
def ChunkHit.Plain (specials : List JsString) (hit : ChunkHit) : Prop :=
  (Avoids specials (headerField hit.title) ∧
    ∀ text ∈ hit.sectionText, Avoids specials (headerField text)) ∧ Avoids specials hit.content

section

variable {tok : Tokenizer} {options : AssembleOptions} {specials : List JsString}
  {hits : List ChunkHit}

/-- The loop stops or takes a plain hit. -/
theorem ChunkHit.Plain.stops_or_taken {hit : ChunkHit} (hplain : hit.Plain specials)
    (h : tok.Rejects specials) (options : AssembleOptions) (sources : List AssembledSource)
    (used : ℕ) (hits : List ChunkHit) :
    Stops tok options sources.length used (hit :: hits) ∨
      options.maxSources.le (.ofNat sources.length) = false ∧ ∃ content n,
        hit.Taken tok options sources used content n ∧
          Avoids specials (hit.entry (sources.length + 1) content) := by
  refine ChunkHit.stops_or_taken options sources used (fun text => (h.countTokens text).2)
    (fun marker => ⟨?_, ?_⟩) (fun n => ?_) hits
  · exact (avoids_entry h.special).2 hplain
  · exact (avoids_entry h.special).2 ⟨hplain.1, avoids_nil h.special⟩
  · obtain ⟨cut, hcut, hplain'⟩ := h.truncateToTokens hit.content n hplain.2
    exact ⟨cut, hcut, fun marker => (avoids_entry h.special).2 ⟨hplain.1, hplain'⟩⟩

theorem avoids_sourcesBlock (hspecial : ∀ w ∈ specials, IsSpecial w)
    {sources : List AssembledSource} :
    Avoids specials (sourcesBlock sources) ↔ ∀ s ∈ sources, Avoids specials s.entry := by
  have hsep : Separates specials (js "\n\n") := separates_blankLine hspecial
  rw [sourcesBlock, join, hsep.avoids_intercalate (avoids_nil hspecial), List.forall_mem_map]
  rfl

/-- **The loop goes through** exactly when the hits it counts are plain. -/
theorem exists_assembleSources_iff (h : tok.Rejects specials) {sources : List AssembledSource}
    {used : ℕ} : (∃ result, assembleSources tok options hits sources used = .ok result) ↔
      ∀ hit ∈ hitsCounted tok options hits sources.length used, hit.Plain specials := by
  induction hits generalizing sources used with
  | nil => exact iff_of_true ⟨sources, rfl⟩ (List.forall_mem_nil _)
  | cons hit hits ih =>
    rw [hitsCounted]
    cases hroom : options.maxSources.le (.ofNat sources.length)
    case true =>
      exact iff_of_true ⟨sources, assembleSources_of_stops (.inr (.inl hroom))⟩
        (List.forall_mem_nil _)
    rw [if_neg Bool.false_ne_true, List.forall_mem_cons]
    have hnext : ∀ content, (sources ++ [hit.source (sources.length + 1) content]).length =
        sources.length + 1 := fun _ => List.length_append
    constructor
    · rintro ⟨result, hresult⟩
      obtain ⟨-, hstops⟩ | ⟨content, n, -, htaken, hrest⟩ := assembleSources_cases hresult
      · rw [usedAfter_of_stops hstops]
        obtain hnil | hfull | ⟨-, hit', hhit, t, ht, -⟩ := hstops
        · cases hnil
        · rw [hroom] at hfull
          cases hfull
        · obtain rfl := Option.some.inj hhit
          exact ⟨(avoids_entry h.special).1 ((h.countTokens _).1 ⟨t, ht⟩), List.forall_mem_nil _⟩
      · rw [usedAfter_of_taken hroom htaken]
        refine ⟨(avoids_entry h.special).1 ((h.countTokens _).1 htaken.counted), ?_⟩
        rw [← hnext content]
        exact ih.1 ⟨result, hrest⟩
    · rintro ⟨hplain, hrest⟩
      obtain hstops | ⟨-, content, n, htaken, -⟩ :=
        hplain.stops_or_taken h options sources used hits
      · exact ⟨sources, assembleSources_of_stops hstops⟩
      · rw [usedAfter_of_taken hroom htaken, ← hnext content] at hrest
        rw [assembleSources_of_taken hroom htaken]
        exact ih.2 hrest

/-- **The hits assemble** exactly when those whose entries are counted are plain. -/
theorem exists_assembleContext_iff_counted (h : tok.Rejects specials) :
    (∃ context, assembleContext tok options hits = .ok context) ↔
      ∀ hit ∈ hitsCounted tok options (promptOrder hits) 0 0, hit.Plain specials := by
  rw [show (0 : ℕ) = ([] : List AssembledSource).length from rfl,
    ← exists_assembleSources_iff h]
  constructor
  · rintro ⟨context, hcontext⟩
    obtain ⟨sources, hsources, -⟩ := Except.bind_eq_ok.mp hcontext
    exact ⟨sources, hsources⟩
  · rintro ⟨sources, hsources⟩
    obtain ⟨taken, rest, counts, -, hselected, -⟩ := Selected.nil.run hsources
    have hentries : Avoids specials (sourcesBlock sources) :=
      (avoids_sourcesBlock h.special).2 fun s hs =>
        (h.countTokens _).1 (hselected.exists_count hs)
    obtain ⟨totalTokens, htotal⟩ := (h.countTokens _).2 hentries
    exact ⟨⟨sources, _, totalTokens⟩, Except.bind_eq_ok.mpr
      ⟨sources, hsources, Except.bind_eq_ok.mpr ⟨totalTokens, htotal, rfl⟩⟩⟩

/-- **The hits that assemble**, whatever the options, are the plain ones. -/
theorem exists_assembleContext_iff (h : tok.Rejects specials) :
    (∀ options, ∃ context, assembleContext tok options hits = .ok context) ↔
      ∀ hit ∈ hits, hit.Plain specials := by
  constructor
  · intro hall hit hhit
    have hcounted := (exists_assembleContext_iff_counted h).1 (hall ⟨.posInf, .posInf⟩)
    rw [hitsCounted_unbounded] at hcounted
    exact hcounted hit (List.mem_mergeSort.2 hhit)
  · exact fun hplain options => (exists_assembleContext_iff_counted h).2 fun hit hhit =>
      hplain hit (List.mem_mergeSort.1 (mem_of_mem_hitsCounted hhit))

end

/-- **The tokenizer accepts** exactly the documents and the hits without special tokens. -/
theorem tokenizer_accepts_iff (enc : Tiktoken) (specials : List JsString)
    (h : enc.Rejects specials) :
    (∀ parsed options, (∃ chunks, chunkDocument enc.tokenizer options parsed = .ok chunks) ↔
      parsed.Plain specials) ∧
    ∀ hits, (∀ options, ∃ context, assembleContext enc.tokenizer options hits = .ok context) ↔
      ∀ hit ∈ hits, hit.Plain specials :=
  ⟨fun _ _ => exists_chunkDocument_iff h.tokenizer, fun _ => exists_assembleContext_iff h.tokenizer⟩

/-- An encoder that, as `encode` does by default, rejects a text with a special token in it. -/
def specialEncoder : Tiktoken where
  encode text :=
    if (indexOf (js "<|endoftext|>") text).isSome then
      throw (.new (js "The text contains a special token that is not allowed: <|endoftext|>"))
    else pure (text.map UInt16.toNat)
  decode tokens := tokens.map UInt16.ofNat

theorem avoids_singleton {w text : JsString} :
    Avoids [w] text ↔ ¬ (indexOf w text).isSome = true := by
  rw [Avoids, List.forall_mem_singleton, isSome_indexOf_iff]

theorem specialEncoder_encode (text : JsString) : specialEncoder.encode text =
    if (indexOf (js "<|endoftext|>") text).isSome then
      .error (.new (js "The text contains a special token that is not allowed: <|endoftext|>"))
    else .ok (text.map UInt16.toNat) := rfl

theorem eq_of_specialEncoder {text : JsString} {tokens : List ℕ}
    (h : specialEncoder.encode text = .ok tokens) : text.map UInt16.toNat = tokens := by
  rw [specialEncoder_encode] at h
  split at h
  · cases h
  · exact Except.ok.inj h

theorem rejects_specialEncoder : specialEncoder.Rejects [js "<|endoftext|>"] where
  special := List.forall_mem_singleton.2 ⟨js "endoftext", rfl, List.all_eq_true.1 rfl⟩
  encode text := by
    rw [avoids_singleton]
    constructor
    · rintro ⟨tokens, htokens⟩ hfound
      rw [specialEncoder_encode, if_pos hfound] at htokens
      cases htokens
    · exact fun hnot => ⟨text.map UInt16.toNat, if_neg hnot⟩
  decode_take text tokens n htokens := by
    obtain rfl := eq_of_specialEncoder htokens
    refine ⟨text.take n, text.take n, 0, (List.take_prefix n text).isInfix, .refl _, ?_⟩
    simp [specialEncoder, List.map_take, Function.comp_def]
  decode_drop text tokens n htokens := by
    obtain rfl := eq_of_specialEncoder htokens
    refine ⟨text.drop n, text.drop n, 0, (List.drop_suffix n text).isInfix, .refl _, ?_⟩
    simp [specialEncoder, List.map_drop, Function.comp_def]

/-- A document of one paragraph. -/
def paragraphOf (text : JsString) : ParsedDocument where
  text := text
  pageCount := 1
  warnings := []
  blocks := [{ text, page := 1, charStart := 0, charEnd := text.length }]

theorem plain_paragraphOf_iff {specials : List JsString} {text : JsString} (hne : trim text ≠ []) :
    (paragraphOf text).Plain specials ↔ Avoids specials text := by
  constructor
  · exact fun h => (h [] _ [] rfl rfl hne).1
  · intro htext before b after hsplit _ _
    rcases before with _ | ⟨b', before⟩
    · obtain ⟨rfl, -⟩ := List.cons.inj hsplit
      exact ⟨htext, nofun⟩
    · simp [paragraphOf] at hsplit

/-- The one hit of a question, from a document with this title. -/
def titledHit (title : JsString) : ChunkHit where
  id := 20
  content := js "Refunds take 30 days."
  documentId := 10
  title := title
  page := some 1
  sectionText := none
  charStart := some 0
  charEnd := some 21
  score := .finite 1
  scored := ⟨js "m", []⟩

theorem tokenizer_accepts_iff_faq :
    (∃ chunks, chunkDocument specialEncoder.tokenizer DEFAULT_CHUNK_OPTIONS
      (paragraphOf (js "Refunds take 30 days.")) = .ok chunks) ∧
    ∀ options, ∃ context,
      assembleContext specialEncoder.tokenizer options [titledHit (js "faq.txt")] =
        .ok context := by
  obtain ⟨hdocument, hhits⟩ := tokenizer_accepts_iff _ _ rejects_specialEncoder
  refine ⟨(hdocument _ _).2 ((plain_paragraphOf_iff (by decide)).2 ?_),
    (hhits _).2 (List.forall_mem_singleton.2 ⟨⟨?_, nofun⟩, ?_⟩)⟩
  all_goals exact avoids_singleton.2 (by decide)

/-- **A document or a file name with `<|endoftext|>` in it** makes the tokenizer throw. -/
theorem not_tokenizer_accepts :
    (¬ ∀ (enc : Tiktoken) (specials : List JsString), enc.Rejects specials →
      ∀ parsed options, ∃ chunks, chunkDocument enc.tokenizer options parsed = .ok chunks) ∧
    ¬ ∀ (enc : Tiktoken) (specials : List JsString), enc.Rejects specials →
      ∀ hits options, ∃ context, assembleContext enc.tokenizer options hits = .ok context := by
  constructor
  · intro hclaim
    have hplain := (exists_chunkDocument_iff rejects_specialEncoder.tokenizer).1
      (hclaim _ _ rejects_specialEncoder (paragraphOf (js "<|endoftext|>")) DEFAULT_CHUNK_OPTIONS)
    exact avoids_singleton.1 ((plain_paragraphOf_iff (by decide)).1 hplain) (by decide)
  · intro hclaim
    have hplain := (exists_assembleContext_iff rejects_specialEncoder.tokenizer).1
      (hclaim _ _ rejects_specialEncoder [titledHit (js "<|endoftext|>.txt")])
    exact avoids_singleton.1 (List.forall_mem_singleton.1 hplain).1.1 (by decide)

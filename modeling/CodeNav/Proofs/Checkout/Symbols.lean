import CodeNav.Proofs.Checkout.Shapes
import CodeNav.Proofs.Query.IndexForm
import CodeNav.Proofs.Query.RoundTrip
import CodeNav.Proofs.Query.Terms

/-!
# The hits of a search for a symbol

A token is escaped, put between anchors, written into a query, read again, freed of its anchors,
and put into the shapes of declarations. **What is looked for on a line is still the token**
(`symbolBody_of_parse`), so a hit names the token, letter by letter, and spans it on the line
(`symbol_hits_name_token`).

The first terms of a query settle its pattern, its kind and its case. No later term changes the
pattern (`Draft.kept_foldlM`), but one may change the other two. The later terms hold names that
are not escaped, and a blank in such a name makes a new term: at a revision `HEAD type:file` the
query is one for the text of files, and its hits have no name (`unnamed_hit`).
-/

namespace CodeNav

open Text

/-! ## What is read of a query for a symbol -/

namespace LocalQuery

/-- What some terms leave as it is. -/
structure Draft.Kept (d d' : Draft) (ts : List Term) : Prop where
  pattern : ∀ p, d.pattern = some p → d'.pattern = some p
  kind : (∀ v, .type v ∉ ts) → d'.kind = d.kind
  caseSensitive : (∀ v, .case v ∉ ts) → d'.caseSensitive = d.caseSensitive

/-- **No term changes a pattern**, and only its own terms change the kind and the case. -/
theorem Draft.kept_add {d d' : Draft} {t : Term} (h : d.add t = .ok d') : d.Kept d' [t] := by
  obtain ⟨-, -, rfl⟩ := Draft.add_eq_ok_iff.mp h
  refine ⟨fun p hp => ?_, fun ht => ?_, fun ht => ?_⟩
  · rw [Draft.with, hp, Option.some_or]
  · cases t with
    | type v => exact absurd (List.mem_singleton_self _) (ht v)
    | _ => rfl
  · cases t with
    | case v => exact absurd (List.mem_singleton_self _) (ht v)
    | _ => rfl

theorem Draft.kept_foldlM {d d' : Draft} {ts : List Term} (h : ts.foldlM Draft.add d = .ok d') :
    d.Kept d' ts := by
  induction ts generalizing d with
  | nil =>
    cases h
    exact ⟨fun _ hp => hp, fun _ => rfl, fun _ => rfl⟩
  | cons t ts ih =>
    rw [List.foldlM_cons] at h
    obtain ⟨d₁, hd₁, h⟩ := bind_eq_ok_iff.mp h
    have hfirst := kept_add hd₁
    have hrest := ih h
    refine ⟨fun p hp => hrest.pattern p (hfirst.pattern p hp), fun ht => ?_, fun ht => ?_⟩
    · simp only [List.mem_cons, not_or, forall_and] at ht
      rw [hrest.kind ht.2, hfirst.kind (by simpa using ht.1)]
    · simp only [List.mem_cons, not_or, forall_and] at ht
      rw [hrest.caseSensitive ht.2, hfirst.caseSensitive (by simpa using ht.1)]

/-- Terms without blanks are cut into themselves. -/
theorem words_terms {ts : List String} (h : ∀ t ∈ ts, IsTerm t) :
    ts.flatMap (words ·.toList) = ts.map String.toList := by
  induction ts with
  | nil => rfl
  | cons t ts ih =>
    obtain ⟨ht, hts⟩ := List.forall_mem_cons.mp h
    have hword : words t.toList = [t.toList] := by
      simpa [joinWith] using words_joinWith (List.forall_mem_singleton.mpr ht)
    rw [List.flatMap_cons, ih hts, hword]
    rfl

/-- The terms behind those that every query for a token begins with. -/
def laterTerms (input : QueryInput) : List String :=
  (Query.extensionTerm? input.path input.extensions).toList ++
    (Query.scopeTerms input ++ Query.flagTerms input)

/-- What a query says in all its words. -/
def laterWords (input : QueryInput) : List Term :=
  ((laterTerms input).flatMap (words ·.toList)).map Term.read

/-- **The first terms settle the pattern, the kind and the case**, and then the later ones are
read, cut at every blank. -/
theorem exists_draft_of_parse {kind : QueryKind} {input : QueryInput}
    (htoken : Unbroken input.token.toList) {q : LocalQuery}
    (h : parse (Query.build kind input).text = .ok q) :
    ∃ d, (laterWords input).foldlM Draft.add (.front kind input.token []) = .ok d ∧
      d.finish = .ok q := by
  let first := Query.patternTerms input.token kind ++ ["patternType:regexp", "case:yes"]
  have hterms : (Query.build kind input).terms = first ++ laterTerms input := by
    simp [first, laterTerms, Query.terms_build, Query.front]
  have hfirst : first.flatMap (words ·.toList) = first.map String.toList := by
    refine words_terms (List.forall_mem_append.mpr ⟨isTerm_patternTerms kind htoken, ?_⟩)
    simp only [IsTerm]
    decide
  have hfront : ((first.map String.toList).map Term.read).foldlM Draft.add {} =
      .ok (.front kind input.token []) := by
    rw [List.map_map]
    exact addAll_patternTerms kind input.token
  rw [parse, Query.words_text, hterms, List.flatMap_append, hfirst, List.map_append,
    List.foldlM_append, hfront] at h
  exact bind_eq_ok_iff.mp h

theorem finish_eq_ok {d : Draft} {q : LocalQuery} (h : d.finish = .ok q) :
    d.pattern = some q.pattern ∧ q.kind = d.kind ∧ q.caseSensitive = d.caseSensitive := by
  rw [Draft.finish] at h
  split at h
  · cases h
  · next pattern hpattern =>
    cases h
    exact ⟨hpattern, rfl, rfl⟩

theorem getLast?_escapeChars (s : List Char) : (Pattern.escapeChars s).getLast? = s.getLast? := by
  induction s with
  | nil => rfl
  | cons c s ih =>
    rw [Pattern.escapeChars_cons, List.getLast?_append, ih, List.getLast?_cons]
    split <;> cases s.getLast? <;> rfl

/-- **Without its anchors the pattern of a token is the escaped token**, also if the token begins
or ends with an anchor. -/
theorem symbolBody_of_pattern {q : LocalQuery} {token : String}
    (h : q.pattern = "^" ++ Pattern.escape token ++ "$")
    (hlast : token.toList.getLast? ≠ some '\\') : q.symbolBody = Pattern.escape token := by
  have hlist : q.pattern.toList = '^' :: (Pattern.escapeChars token.toList ++ ['$']) := by
    rw [h]
    simp [Pattern.escape]
  have hlead : dropLead? ['^'] ('^' :: (Pattern.escapeChars token.toList ++ ['$'])) =
      some (Pattern.escapeChars token.toList ++ ['$']) := dropLead?_eq_some_iff.mpr rfl
  have htrail : dropTrail? ['$'] (Pattern.escapeChars token.toList ++ ['$']) =
      some (Pattern.escapeChars token.toList) := by
    have hreverse : dropLead? ['$'] ('$' :: (Pattern.escapeChars token.toList).reverse) = some _ :=
      dropLead?_eq_some_iff.mpr rfl
    simp [dropTrail?, hreverse]
  rw [← getLast?_escapeChars] at hlast
  simp only [symbolBody, hlist, hlead, Option.getD_some, htrail, hlast, if_false]
  rfl

/-- A term that can change neither the kind nor the case. -/
def Term.IsNeutral (t : Term) : Prop := ∀ v, t ≠ .type v ∧ t ≠ .case v

/-- Without blanks in what is written as it is, the later terms change neither the kind nor the
case. -/
theorem isNeutral_laterTerms {input : QueryInput} (hscope : input.scope = .currentRepository)
    (hrepo : Unbroken input.repo.toList) (hrevision : Unbroken input.revision.toList)
    (hext : ∀ e ∈ input.extensions, Unbroken e.toList) :
    ∀ t ∈ laterTerms input, IsTerm t ∧ (Term.read t.toList).IsNeutral := by
  have hfile : ∀ t ∈ (Query.extensionTerm? input.path input.extensions).toList,
      IsTerm t ∧ (Term.read t.toList).IsNeutral := by
    intro t ht
    rw [Option.mem_toList, extensionTerm?_eq] at ht
    obtain ⟨text, htext, rfl⟩ := Option.map_eq_some_iff.mp ht
    have hlead : Unbroken "file:".toList := by decide
    refine ⟨⟨by simp, ?_⟩, ?_⟩
    · rw [String.toList_append]
      exact unbroken_append.mpr ⟨hlead, unbroken_extensionText hext text htext⟩
    · rw [read_file]
      simp [Term.IsNeutral]
  have hrepository : ∀ t ∈ Query.scopeTerms input, IsTerm t ∧ (Term.read t.toList).IsNeutral := by
    rw [Query.scopeTerms.eq_def, hscope]
    refine List.forall_mem_singleton.mpr ⟨isTerm_repoTerm hrepo hrevision, ?_⟩
    rw [repoTerm_eq, read_repo]
    simp [Term.IsNeutral]
  have hflags : ∀ t ∈ Query.flags, IsTerm t ∧ Term.read t.toList = .flag := by
    simp only [IsTerm]
    decide
  refine List.forall_mem_append.mpr ⟨hfile, List.forall_mem_append.mpr ⟨hrepository, ?_⟩⟩
  intro t ht
  obtain ⟨hterm, hflag⟩ := hflags t (Query.mem_flags_of_mem_flagTerms ht)
  refine ⟨hterm, ?_⟩
  rw [hflag]
  simp [Term.IsNeutral]

section Parse

variable {input : QueryInput} {q : LocalQuery} (htoken : Unbroken input.token.toList)
  (h : parse (Query.build .definition input).text = .ok q)

include htoken h

theorem symbolBody_of_parse (hlast : input.token.toList.getLast? ≠ some '\\') :
    q.symbolBody = Pattern.escape input.token := by
  obtain ⟨d, hd, hfinish⟩ := exists_draft_of_parse htoken h
  have hpattern := (Draft.kept_foldlM hd).pattern _ rfl
  rw [(finish_eq_ok hfinish).1] at hpattern
  exact symbolBody_of_pattern (Option.some.inj hpattern) hlast

theorem isSymbol_of_parse (hscope : input.scope = .currentRepository)
    (hrepo : Unbroken input.repo.toList) (hrevision : Unbroken input.revision.toList)
    (hext : ∀ e ∈ input.extensions, Unbroken e.toList) :
    q.kind = .symbol ∧ q.caseSensitive = true := by
  have hlater := isNeutral_laterTerms hscope hrepo hrevision hext
  have hneutral : ∀ t ∈ laterWords input, t.IsNeutral := by
    rw [laterWords, words_terms fun t ht => (hlater t ht).1, List.map_map]
    exact List.forall_mem_map.mpr fun t ht => (hlater t ht).2
  obtain ⟨d, hd, hfinish⟩ := exists_draft_of_parse htoken h
  obtain ⟨-, hkind, hcase⟩ := finish_eq_ok hfinish
  have hkept := Draft.kept_foldlM hd
  rw [hkind, hcase, hkept.kind fun v hv => (hneutral _ hv v).1 rfl,
    hkept.caseSensitive fun v hv => (hneutral _ hv v).2 rfl]
  exact ⟨rfl, rfl⟩

end Parse

end LocalQuery

/-! ## What a hit says -/

namespace Checkout

/-- The hit declares a token on the line of a match. -/
structure Declares (c : Checkout) (q : LocalQuery) (token : String) (fileLocal : Bool)
    (m : LineMatch) (h : Hit) : Prop where
  symbolName : h.symbolName = some token
  /-- it lies on the line -/
  line : h.range.start.line = m.lineNumber ∧ h.range.stop.line = m.lineNumber
  /-- its characters on the line are the token's -/
  spelled : slice m.line h.range.start.character h.range.stop.character = token.toList
  width : h.range.stop.character = h.range.start.character + token.length
  /-- it is in the file of the match, which the query accepts -/
  file : h.file = m.file ∧ ∀ p ∈ q.fileFilters, p.isMatch h.file.toList = true
  /-- it is in the checkout -/
  own : h.repository = c.name ∧ h.revision = c.revision
  /-- it is visible in its file only if such hits were asked for, and the file is of a language
  that has them -/
  isLocal : h.fileLocal = true → fileLocal = true ∧
    ∃ ext, Path.extension? h.file.toList = some ext ∧
      String.ofList ext ∈ Declaration.staticExtensions

theorem declares_of_symbolHit? {c : Checkout} {q : LocalQuery} {token : String}
    {patterns : List Pattern} (hpatterns : ∀ p ∈ patterns, Declaration.Names token.toList p)
    {fileLocal : Bool} {m : LineMatch} (hpath : q.includesPath m.file = true) {h : Hit}
    (hhit : c.symbolHit? patterns fileLocal m = some h) : c.Declares q token fileLocal m h := by
  obtain ⟨⟨start, stop⟩, hname, hhit⟩ := Option.bind_eq_some_iff.mp hhit
  obtain ⟨hslice, hstop⟩ := Declaration.slice_of_name? hpatterns hname
  dsimp only at hhit
  split at hhit
  · cases hhit
  · next hlocal =>
    cases hhit
    refine ⟨?_, ⟨rfl, rfl⟩, hslice, ?_, ⟨rfl, ?_⟩, ⟨rfl, rfl⟩, fun hfile => ?_⟩
    · dsimp only
      rw [hslice, String.ofList_toList]
    · rw [← String.length_toList]
      exact hstop
    · exact List.all_eq_true.mp hpath
    · dsimp only at hfile
      rw [hfile, Bool.true_and, Bool.not_eq_true, Bool.not_eq_false'] at hlocal
      refine ⟨hlocal, ?_⟩
      have hext := (Bool.and_eq_true_iff.mp hfile).1
      obtain ⟨ext, hext, hmem⟩ := (Option.any_eq_true _ _).mp hext
      exact ⟨ext, hext, List.contains_iff_mem.mp hmem⟩

/-- A search ends with the hits among some matches, unless it ends with a failure. -/
theorem hits_of_search {τ : Type} {c : Checkout} {tree : FileTree} {tool : SearchTool τ}
    {query : String} {fileLocal : Bool} {t t' : Nat} {s : τ} {hs : List Hit} {q : LocalQuery}
    (hparse : LocalQuery.parse query = .ok q)
    (h : (c.search tree tool query fileLocal t s).1 = .due t' (.ok hs)) :
    hs = [] ∨ ∃ found, c.hits q found fileLocal = .ok hs := by
  rw [search, hparse] at h
  dsimp only at h
  split at h
  · cases h
    exact .inl rfl
  · dsimp only at h
    split at h
    · cases h
    · next found _ => exact .inr ⟨found, (Promise.due.inj h).2⟩
    · cases h

/-- What a checkout makes of the matches of a search for a token: at most one hit of each, which
declares the token. -/
structure Finds (c : Checkout) (q : LocalQuery) (token : String) (fileLocal : Bool)
    (hit? : LineMatch → Option Hit) : Prop where
  hits : ∀ found, c.hits q found fileLocal = .ok (found.filterMap hit?)
  declares : ∀ m h, hit? m = some h → c.Declares q token fileLocal m h
  /-- there is a hit if the file is accepted, the line has a shape of a declaration and what it
  declares may be shown -/
  isSome : ∃ patterns, Declaration.patterns? (Pattern.escape token) true = some patterns ∧
    ∀ m, (hit? m).isSome = true ↔ q.includesPath m.file = true ∧
      (Declaration.name? patterns m.line).isSome = true ∧
        (Declaration.isFileLocal m.file m.line = true → fileLocal = true)

theorem isSome_symbolHit? (c : Checkout) (patterns : List Pattern) (fileLocal : Bool)
    (m : LineMatch) :
    (c.symbolHit? patterns fileLocal m).isSome = true ↔
      (Declaration.name? patterns m.line).isSome = true ∧
        (Declaration.isFileLocal m.file m.line = true → fileLocal = true) := by
  rw [symbolHit?]
  cases Declaration.name? patterns m.line with
  | none => simp
  | some span =>
    cases Declaration.isFileLocal m.file m.line <;> cases fileLocal <;> simp

/-- **The hits of a search for an escaped token declare the token**, at most one for a match. -/
theorem exists_finds {q : LocalQuery} {token : String} (hkind : q.kind = .symbol)
    (hcase : q.caseSensitive = true) (hbody : q.symbolBody = Pattern.escape token) (c : Checkout)
    (fileLocal : Bool) : ∃ hit?, c.Finds q token fileLocal hit? := by
  obtain ⟨patterns, hread, hpatterns⟩ := Declaration.exists_patterns? token
  refine ⟨fun m => if q.includesPath m.file then c.symbolHit? patterns fileLocal m else none, ?_,
    ?_, patterns, hread, ?_⟩
  · intro found
    simp only [Checkout.hits, hkind, hbody, hcase, hread, List.filterMap_filter]
  · intro m h hhit
    split at hhit
    · next hpath => exact declares_of_symbolHit? hpatterns hpath hhit
    · cases hhit
  · intro m
    split
    · next hpath => simp [hpath, isSome_symbolHit?]
    · next hpath => simp [hpath]

/-- **The hits of a search for the definitions of a token name the token.** What is looked for is
the escaped token, whatever else stands in the query. If the query is read as it is meant, for a
symbol and with its case, which it is if nothing in it holds a blank, then every hit among any
matches declares the token on the line of its match, in a file that the query accepts, and so does
every hit that the checkout answers with. -/
theorem symbol_hits_name_token {input : QueryInput} (hscope : input.scope = .currentRepository)
    (htoken : Unbroken input.token.toList) (hlast : input.token.toList.getLast? ≠ some '\\')
    {q : LocalQuery} (hparse : LocalQuery.parse (Query.build .definition input).text = .ok q) :
    q.symbolBody = Pattern.escape input.token ∧
      (Unbroken input.repo.toList → Unbroken input.revision.toList →
        (∀ e ∈ input.extensions, Unbroken e.toList) →
        q.kind = .symbol ∧ q.caseSensitive = true) ∧
      (q.kind = .symbol → q.caseSensitive = true →
        ∀ (c : Checkout) (fileLocal : Bool), ∃ hit?, c.Finds q input.token fileLocal hit? ∧
          ∀ {τ : Type} (tree : FileTree) (tool : SearchTool τ) (s : τ) (t t' : Nat) (hs : List Hit),
            (c.search tree tool (Query.build .definition input).text fileLocal t s).1 =
              .due t' (.ok hs) → ∃ found : List LineMatch, hs = found.filterMap hit?) := by
  have hbody := LocalQuery.symbolBody_of_parse htoken hparse hlast
  refine ⟨hbody, LocalQuery.isSymbol_of_parse htoken hparse hscope, ?_⟩
  intro hkind hcase c fileLocal
  obtain ⟨hit?, hfinds⟩ := exists_finds hkind hcase hbody c fileLocal
  refine ⟨hit?, hfinds, fun tree tool s t t' hs hsearch => ?_⟩
  rcases hits_of_search hparse hsearch with rfl | ⟨found, hhits⟩
  · exact ⟨[], rfl⟩
  · rw [hfinds.hits] at hhits
    exact ⟨found, (Except.ok.inj hhits).symm⟩

/-- A query for a token between dollar signs. -/
def ofDollarSigns : QueryInput where
  token := "$f$"
  repo := "r"
  revision := "v"
  path := "a.js"
  extensions := ["js", "jsx"]
  scope := .currentRepository

theorem eq_ok_of_toOption {ε α : Type} {x : Except ε α} {a : α} (h : x.toOption = some a) :
    x = .ok a := by
  cases x with
  | error e => cases h
  | ok b => rw [Option.some.inj h]

theorem dollar_signs_named :
    ∃ q, LocalQuery.parse (Query.build .definition ofDollarSigns).text = .ok q ∧
      q.symbolBody = "\\$f\\$" ∧
      ∀ (c : Checkout) (fileLocal : Bool), ∃ hit?, c.Finds q "$f$" fileLocal hit? := by
  have hread : (LocalQuery.parse (Query.build .definition ofDollarSigns).text).toOption.isSome := by
    decide +kernel
  obtain ⟨q, hq⟩ := Option.isSome_iff_exists.mp hread
  have hparse := eq_ok_of_toOption hq
  obtain ⟨hbody, hsymbol, hfinds⟩ := symbol_hits_name_token rfl (by decide) (by decide) hparse
  obtain ⟨hkind, hcase⟩ := hsymbol (by decide) (by decide) (by decide)
  refine ⟨q, hparse, hbody.trans (by decide), fun c fileLocal => ?_⟩
  obtain ⟨hit?, hhit, -⟩ := hfinds hkind hcase c fileLocal
  exact ⟨hit?, hhit⟩

/-- A query at a revision with a blank in it. -/
def ofBrokenRevision : QueryInput where
  token := "f"
  repo := "r"
  revision := "HEAD type:file"
  path := "a.go"
  extensions := ["go"]
  scope := .currentRepository

/-- The blank makes a term of its own, for a search in the text of files: the query still covers
the repository, and its hits have no name. -/
theorem unnamed_hit :
    ∃ q, LocalQuery.parse (Query.build .definition ofBrokenRevision).text = .ok q ∧
      q.includesRepo "r" "HEAD type:file" = true ∧
      ∃ h, Checkout.hits ⟨"r", "HEAD type:file", [], 10000, 2000⟩ q
          [⟨['a', '.', 'g', 'o'], 2, ['f'], [(0, 1)]⟩] false = .ok [h] ∧
        h.symbolName ≠ some "f" := by
  have hread : ∃ q ∈ (LocalQuery.parse (Query.build .definition ofBrokenRevision).text).toOption,
      q.includesRepo "r" "HEAD type:file" = true ∧
      ∃ hs ∈ (Checkout.hits ⟨"r", "HEAD type:file", [], 10000, 2000⟩ q
        [⟨['a', '.', 'g', 'o'], 2, ['f'], [(0, 1)]⟩] false).toOption,
        hs.map (·.symbolName) = [none] := by
    decide +kernel
  obtain ⟨q, hq, hcovers, hs, hhits, hnames⟩ := hread
  obtain ⟨h, rfl, hname⟩ := List.map_eq_singleton_iff.mp hnames
  refine ⟨q, eq_ok_of_toOption hq, hcovers, h, eq_ok_of_toOption hhits, ?_⟩
  rw [hname]
  nofun

end Checkout

end CodeNav

import CodeNav.Proofs.Language.Builtin
import CodeNav.Proofs.Pattern.Plain
import CodeNav.Proofs.Query.Text
import CodeNav.Proofs.Text.Pieces
import CodeNav.Query.Basic
import CodeNav.Query.Local
import CodeNav.Workspace.Config

/-!
# A checkout and its own queries

A query is written as terms with spaces between them and read again by a local checkout.
The name of the repository goes into a term **as it is**: a blank in it breaks the term, and
the characters that mean something in a pattern keep their meaning.

* `parse_text` — terms without blanks are read one by one, as they were written.
* `parse_build_of_reads` — a query whose token has no blank and whose extensions read is read
  up to its scope, whatever its path and flags are; the extensions of built-in languages do
  (`parse_build`).
* `own_scope_iff` — the query for the repository covers it and the query for all others
  leaves it out **exactly if its name matches itself**, and names without operators do. A
  checkout in a directory `c++` misses its own query (`own_scope_missed`).
-/

namespace CodeNav

open Text

namespace LocalQuery

/-! ## Reading terms -/

/-- Take written terms into account. -/
def Draft.addAll (d : Draft) (terms : List String) : Except Fault Draft :=
  (terms.map (Term.read ·.toList)).foldlM Draft.add d

@[simp] theorem Draft.addAll_nil (d : Draft) : d.addAll [] = .ok d := rfl

/-- Each term is read by what the terms before it came to, and the first one that is refused ends
the reading. -/
theorem Draft.addAll_cons (d : Draft) (t : String) (ts : List String) :
    d.addAll (t :: ts) = d.add (Term.read t.toList) >>= (·.addAll ts) := by
  simp [addAll]

/-- A query may be read part by part: its scope behind all that does not depend on it. -/
theorem Draft.addAll_append (d : Draft) (ts us : List String) :
    d.addAll (ts ++ us) = d.addAll ts >>= (·.addAll us) := by
  simp [addAll]

theorem Draft.addAll_append_of_ok {d d' : Draft} {ts : List String} (h : d.addAll ts = .ok d')
    (us : List String) : d.addAll (ts ++ us) = d'.addAll us := by
  rw [addAll_append, h]
  rfl

/-- Some characters, none of them blank. -/
def IsTerm (t : String) : Prop := t.toList ≠ [] ∧ Unbroken t.toList

/-- **The terms of a query are read one by one.** -/
theorem parse_text {q : Query} (h : ∀ t ∈ q.terms, IsTerm t) :
    parse q.text = Draft.addAll {} q.terms >>= Draft.finish := by
  have hwords : words q.text.toList = q.terms.map String.toList := by
    rw [Query.text, String.toList_intercalate]
    exact words_joinWith (by simpa [IsTerm] using h)
  rw [parse, hwords, Draft.addAll, List.map_map]
  rfl

/-- Flags change nothing. -/
theorem Draft.addAll_append_flags (d : Draft) (us : List String) {ts : List String}
    (h : ∀ t ∈ ts, Term.read t.toList = .flag) : d.addAll (us ++ ts) = d.addAll us := by
  have hskip : ∀ d : Draft, d.addAll ts = .ok d := by
    intro d
    induction ts with
    | nil => rfl
    | cons t ts ih =>
      obtain ⟨ht, hts⟩ := List.forall_mem_cons.mp h
      rw [addAll_cons, ht]
      exact ih hts
  rw [addAll_append, funext hskip]
  cases d.addAll us <;> rfl

theorem read_file (v : String) : Term.read ("file:" ++ v).toList = .file v := by
  simp [Term.read, value?, dropLead?, List.isPrefixOf]

theorem read_repo (v : String) : Term.read ("repo:" ++ v).toList = .repo v := by
  simp [Term.read, value?, dropLead?, List.isPrefixOf]

theorem read_excludedRepo (v : String) : Term.read ("-repo:" ++ v).toList = .excludedRepo v := by
  simp [Term.read, value?, dropLead?, List.isPrefixOf]

/-- A term that opens with `^` or a backslash is a pattern. -/
theorem read_pattern {t : String} {c : Char} (hc : c = '^' ∨ c = '\\')
    (ht : t.toList.head? = some c) : Term.read t.toList = .pattern t := by
  obtain ⟨s, hs⟩ := List.head?_eq_some_iff.mp ht
  have hread : Term.read (c :: s) = .pattern (String.ofList (c :: s)) := by
    rcases hc with rfl | rfl <;>
      simp [Term.read, value?, dropLead?, List.isPrefixOf, flagLeads]
  rw [hs, hread, ← hs, String.ofList_toList]

end LocalQuery

namespace LocalQuery

/-! ## What is read before the scope -/

/-- Escaping puts backslashes in and no blanks, so an escaped token is still one term. -/
theorem unbroken_escape {s : List Char} (hs : Unbroken s) : Unbroken (Pattern.escapeChars s) := by
  intro c hc
  obtain ⟨d, hd, hc⟩ := List.mem_flatMap.mp hc
  split at hc
  · rw [List.mem_cons, List.mem_singleton] at hc
    rcases hc with rfl | rfl
    · decide
    · exact hs c hd
  · rw [List.mem_singleton.mp hc]
    exact hs d hd

/-- A query that has its pattern and no scope yet. -/
def Draft.Unscoped (d : Draft) : Prop :=
  d.pattern.isSome ∧ d.repo = none ∧ d.excludedRepos = []

/-- The pattern that a token is looked for by. -/
def patternText (token : String) : QueryKind → String
  | .definition => "^" ++ Pattern.escape token ++ "$"
  | .references => "\\b" ++ Pattern.escape token ++ "\\b"

/-- Definitions are symbols, references stand in the text of files. -/
def matchKind : QueryKind → MatchKind
  | .definition => .symbol
  | .references => .file

/-- A query as it is read before its scope, with some filters on files. -/
def Draft.front (kind : QueryKind) (token : String) (files : List Pattern) : Draft where
  pattern := some (patternText token kind)
  kind := matchKind kind
  caseSensitive := true
  fileFilters := files

/-- What is read before the scope sets none. -/
theorem Draft.unscoped_front (kind : QueryKind) (token : String) (files : List Pattern) :
    (Draft.front kind token files).Unscoped := ⟨rfl, rfl, rfl⟩

/-- The pattern and what says how it is read. -/
theorem addAll_patternTerms (kind : QueryKind) (token : String) :
    Draft.addAll {} (Query.patternTerms token kind ++ ["patternType:regexp", "case:yes"]) =
      .ok (.front kind token []) := by
  cases kind with
  | definition =>
    have hread : Term.read ("^" ++ Pattern.escape token ++ "$").toList = _ :=
      read_pattern (.inl rfl) (by simp)
    rw [Query.patternTerms, List.cons_append, Draft.addAll_cons, hread]
    rfl
  | references =>
    have hread : Term.read ("\\b" ++ Pattern.escape token ++ "\\b").toList = _ :=
      read_pattern (.inr rfl) (by simp)
    rw [Query.patternTerms, List.cons_append, Draft.addAll_cons, hread]
    rfl

/-- A token without blanks gives terms without blanks. -/
theorem isTerm_patternTerms (kind : QueryKind) {token : String} (htoken : Unbroken token.toList) :
    ∀ t ∈ Query.patternTerms token kind, IsTerm t := by
  have hescape := unbroken_escape htoken
  cases kind <;> simp [Query.patternTerms, IsTerm, Pattern.escape, hescape] <;> decide

/-- The pattern of the filter on extensions, if a query has one. -/
def extensionText? (path : String) (extensions : List String) : Option String :=
  (Query.extensionTerm? path extensions).map fun _ => Builtin.extensionPattern extensions

/-- The filter on extensions is a term with a pattern, written as the built-in languages are checked
with. -/
theorem extensionTerm?_eq (path : String) (extensions : List String) :
    Query.extensionTerm? path extensions =
      (extensionText? path extensions).map ("file:" ++ ·) := by
  have hterm : "file:\\.(" ++ "|".intercalate extensions ++ ")$" =
      "file:" ++ Builtin.extensionPattern extensions := by
    rw [Builtin.extensionPattern, ← String.append_assoc, ← String.append_assoc]
    rfl
  rw [extensionText?, Query.extensionTerm?]
  split
  · rfl
  · simp only [Option.map_some, hterm]

/-- Terms that filter files add their patterns, in order. -/
theorem addAll_fileTerms (d : Draft) {texts : List String} {files : List Pattern}
    (h : texts.map Pattern.parse? = files.map some) :
    d.addAll (texts.map ("file:" ++ ·)) =
      .ok { d with fileFilters := d.fileFilters ++ files } := by
  induction texts generalizing d files with
  | nil =>
    obtain rfl : files = [] := by simpa using h.symm
    simp
  | cons t texts ih =>
    obtain ⟨p, files, rfl, hp, hfiles⟩ :
        ∃ p files', files = p :: files' ∧ Pattern.parse? t = some p ∧
          texts.map Pattern.parse? = files'.map some := by
      cases files with
      | nil => simp at h
      | cons p files =>
        simp only [List.map_cons, List.cons.injEq] at h
        exact ⟨p, files, rfl, h⟩
    have hadd : d.add (.file t) = .ok { d with fileFilters := d.fileFilters ++ [p] } := by
      rw [Draft.add, filter, hp]
      rfl
    rw [List.map_cons, Draft.addAll_cons, read_file, hadd]
    exact (ih _ hfiles).trans (by simp)

/-- **Whatever the path and the flags are, a query is read up to its scope**, if its token and
its extensions have no blanks and the pattern of its extensions reads. -/
theorem parse_build_of_reads (kind : QueryKind) (input : QueryInput) {files : List Pattern}
    (htoken : Unbroken input.token.toList)
    (hext : ∀ t ∈ extensionText? input.path input.extensions, Unbroken t.toList)
    (hfiles : (extensionText? input.path input.extensions).toList.map Pattern.parse? =
      files.map some)
    (hscope : ∀ t ∈ Query.scopeTerms input, IsTerm t) :
    parse (Query.build kind input).text =
      (Draft.front kind input.token files).addAll (Query.scopeTerms input) >>= Draft.finish := by
  have hextension : (Query.extensionTerm? input.path input.extensions).toList =
      (extensionText? input.path input.extensions).toList.map ("file:" ++ ·) := by
    rw [extensionTerm?_eq, Option.toList_map]
  have hterms : (Query.build kind input).terms =
      (Query.patternTerms input.token kind ++ ["patternType:regexp", "case:yes"]) ++
      ((extensionText? input.path input.extensions).toList.map ("file:" ++ ·) ++
      (Query.scopeTerms input ++ Query.flagTerms input)) := by
    simp [Query.terms_build, Query.front, ← hextension]
  have hflags : ∀ t ∈ Query.flagTerms input, IsTerm t ∧ Term.read t.toList = .flag := by
    have hall : ∀ t ∈ Query.flags, (t.toList ≠ [] ∧ Unbroken t.toList) ∧
        Term.read t.toList = .flag := by decide
    exact fun t ht => hall t (Query.mem_flags_of_mem_flagTerms ht)
  have hextTerm : ∀ t ∈ (extensionText? input.path input.extensions).toList.map ("file:" ++ ·),
      IsTerm t := by
    intro t ht
    obtain ⟨text, htext, rfl⟩ := List.mem_map.mp ht
    have hblank := hext text (Option.mem_toList.mp htext)
    rw [IsTerm]
    simp [hblank]
    decide
  have hall : ∀ t ∈ (Query.build kind input).terms, IsTerm t := by
    rw [hterms]
    simp only [List.forall_mem_append]
    refine ⟨⟨isTerm_patternTerms kind htoken, ?_⟩, hextTerm, hscope, fun t ht => (hflags t ht).1⟩
    simp only [IsTerm]
    decide
  -- the pattern, how it is read, and the files; then only the scope changes the draft
  have hfront : (Draft.front kind input.token []).addAll
      ((extensionText? input.path input.extensions).toList.map ("file:" ++ ·)) =
        .ok (.front kind input.token files) := addAll_fileTerms _ hfiles
  rw [parse_text hall, hterms, Draft.addAll_append_of_ok (addAll_patternTerms kind input.token),
    Draft.addAll_append_of_ok hfront,
    Draft.addAll_append_flags _ _ fun t ht => (hflags t ht).2]

/-- The filters on files that a query asks for. -/
def fileFiltersFor (path : String) (extensions : List String) : List Pattern :=
  if (Query.extensionTerm? path extensions).isSome then
    (Pattern.parse? (Builtin.extensionPattern extensions)).toList
  else []

/-- The extensions of a built-in language read. -/
theorem parse_build (kind : QueryKind) (input : QueryInput) {profile : Profile}
    (hprofile : profile ∈ Builtin.profiles) (hext : input.extensions = profile.extensions)
    (htoken : Unbroken input.token.toList) (hscope : ∀ t ∈ Query.scopeTerms input, IsTerm t) :
    ∃ d : Draft, d.Unscoped ∧ d.fileFilters = fileFiltersFor input.path input.extensions ∧
      parse (Query.build kind input).text = d.addAll (Query.scopeTerms input) >>= Draft.finish := by
  obtain ⟨hblank, p, hp, -⟩ := Builtin.exists_extensionPattern hprofile
  rw [← hext] at hblank hp
  refine ⟨.front kind input.token (fileFiltersFor input.path input.extensions),
    Draft.unscoped_front _ _ _, rfl, parse_build_of_reads kind input htoken ?_ ?_ hscope⟩
  · intro t ht
    obtain ⟨-, -, rfl⟩ := Option.map_eq_some_iff.mp ht
    exact hblank
  · rw [fileFiltersFor, extensionText?]
    cases Query.extensionTerm? input.path input.extensions with
    | none => rfl
    | some term => simp [hp]

/-! ## The scope -/

/-- The name of a repository, as the pattern that stands for it in a query. -/
def namePattern (repo : String) : String := "^" ++ repo ++ "$"

/-- A name that its own pattern matches, and that does not look as if a revision followed. -/
def OwnName (repo : String) : Prop :=
  cutAt? ['$', '@'] repo.toList = none ∧
    ∃ p, Pattern.parse? (namePattern repo) = some p ∧ p.isMatch repo.toList = true

/-- What is written after the lead of a repository term. -/
def repoValue (repo revision : String) : String :=
  namePattern repo ++ if revision.isEmpty then "" else "@" ++ revision

theorem repoTerm_eq (repo revision : String) :
    Query.repoTerm repo revision = "repo:" ++ repoValue repo revision := by
  rw [Query.repoTerm, repoValue]
  split <;> simp [namePattern, ← String.toList_inj]

theorem toList_repoValue (repo revision : String) :
    (repoValue repo revision).toList =
      '^' :: (repo.toList ++ '$' :: if revision.isEmpty then [] else '@' :: revision.toList) := by
  rw [repoValue]
  split <;> simp [namePattern]

/-- A name without `$@` and its revision are read as they were written. -/
theorem repoFilter_of_cut_none {repo : String} (h : cutAt? ['$', '@'] repo.toList = none)
    (revision : String) :
    repoFilter (repoValue repo revision) = (filter (namePattern repo)).map
      fun p => ⟨p, if revision.isEmpty then none else some revision⟩ := by
  have hcaret : cutAt? ['$', '@'] ('^' :: repo.toList) = none := by
    rw [cutAt?_cons_ne (by decide), h]
    rfl
  rw [repoFilter, toList_repoValue, ← List.cons_append]
  by_cases hempty : revision.isEmpty
  · rw [if_pos hempty, if_pos hempty, cutAt?_append_half (by decide) hcaret]
    have hvalue : repoValue repo revision = namePattern repo := by simp [repoValue, hempty]
    rw [hvalue]
    cases filter (namePattern repo) <;> rfl
  · have hname : String.ofList ('^' :: repo.toList ++ ['$']) = namePattern repo := by
      simp [namePattern, ← String.toList_inj]
    rw [if_neg hempty, if_neg hempty, cutAt?_append_mark (by decide) hcaret]
    simp only [hname, String.ofList_toList]
    cases filter (namePattern repo) <;> rfl

/-- What is taken for the revision when a name is cut before `rest`. -/
def cutRevision (rest : List Char) (revision : String) : String :=
  String.ofList (rest ++ '$' :: if revision.isEmpty then [] else '@' :: revision.toList)

/-- A name with `$@` is cut there; the rest of it is taken for a revision. -/
theorem repoFilter_of_cut_some {repo : String} {name rest : List Char}
    (h : cutAt? ['$', '@'] repo.toList = some (name, rest)) (revision : String) :
    repoFilter (repoValue repo revision) = (filter (String.ofList ('^' :: name ++ ['$']))).map
      fun p => ⟨p, some (cutRevision rest revision)⟩ := by
  have hcaret : cutAt? ['$', '@'] ('^' :: repo.toList) = some ('^' :: name, rest) := by
    rw [cutAt?_cons_ne (by decide), h]
    rfl
  rw [repoFilter, toList_repoValue, ← List.cons_append, cutAt?_append (by simp) hcaret]
  simp only
  cases filter (String.ofList ('^' :: name ++ ['$'])) <;> rfl

/-- It is neither the revision nor `HEAD`. -/
theorem cutRevision_ne (rest : List Char) (revision : String) :
    cutRevision rest revision ≠ revision ∧ cutRevision rest revision ≠ "HEAD" := by
  constructor
  · intro h
    have hlen := congrArg (·.toList.length) h
    simp only [cutRevision, String.toList_ofList, List.length_append, List.length_cons] at hlen
    split at hlen
    · next hempty =>
      obtain rfl : revision = "" := by simpa using hempty
      simp at hlen
    · simp only [List.length_cons] at hlen
      omega
  · intro h
    have hmem : '$' ∈ "HEAD".toList := by
      rw [← h]
      simp [cutRevision]
    exact absurd hmem (by decide)

/-- A blank in the name or in the revision would break the term in two. -/
theorem isTerm_repoTerm {repo revision : String} (hrepo : Unbroken repo.toList)
    (hrevision : Unbroken revision.toList) : IsTerm (Query.repoTerm repo revision) := by
  rw [IsTerm, Query.repoTerm]
  split <;> simp [hrepo, hrevision] <;> decide

/-- The same holds of the name that is left out. -/
theorem isTerm_excludedTerm {repo : String} (hrepo : Unbroken repo.toList) :
    IsTerm ("-repo:^" ++ repo ++ "$") := by
  rw [IsTerm]
  simp [hrepo]
  decide

/-- The repository is read as a pattern and perhaps a revision, and is refused if the pattern does
not compile. -/
theorem addAll_repoTerm (d : Draft) (repo revision : String) :
    d.addAll [Query.repoTerm repo revision] =
      (repoFilter (repoValue repo revision)).map fun f => { d with repo := some f } := by
  rw [Draft.addAll_cons, repoTerm_eq, read_repo, Draft.add]
  cases repoFilter (repoValue repo revision) <;> rfl

/-- A repository that is left out is read as a pattern. -/
theorem addAll_excludedTerm (d : Draft) (repo : String) :
    d.addAll ["-repo:^" ++ repo ++ "$"] =
      (filter (namePattern repo)).map fun p =>
        { d with excludedRepos := d.excludedRepos ++ [p] } := by
  have hterm : "-repo:^" ++ repo ++ "$" = "-repo:" ++ namePattern repo := by
    simp [namePattern, ← String.toList_inj]
  rw [Draft.addAll_cons, hterm, read_excludedRepo, Draft.add]
  cases filter (namePattern repo) <;> rfl

/-- A filter is refused only if its pattern does not compile. -/
theorem filter_eq_ok_iff {text : String} {p : Pattern} :
    filter text = .ok p ↔ Pattern.parse? text = some p := by
  rw [filter]
  split <;> simp_all

theorem map_eq_ok_iff {α β : Type} {x : Except Fault α} {f : α → β} {b : β} :
    x.map f = .ok b ↔ ∃ a, x = .ok a ∧ f a = b := by
  cases x <;> simp [Except.map]

theorem bind_eq_ok_iff {α β : Type} {x : Except Fault α} {f : α → Except Fault β} {b : β} :
    x >>= f = .ok b ↔ ∃ a, x = .ok a ∧ f a = .ok b := by
  constructor
  · intro h
    cases x with
    | error e => cases h
    | ok a => exact ⟨a, rfl, h⟩
  · rintro ⟨a, rfl, h⟩
    exact h

/-- A finished query with a repository filter covers what the filter covers. -/
theorem covers_iff_filter {d : Draft} (hd : d.Unscoped) {x : Except Fault RepoFilter}
    (repo revision : String) :
    (∃ l, ((x.map fun f => { d with repo := some f }) >>= Draft.finish) = .ok l ∧
      l.includesRepo repo revision = true) ↔
    ∃ f, x = .ok f ∧ f.name.isMatch repo.toList = true ∧
      ∀ wanted ∈ f.revision, wanted = revision ∨ wanted = "HEAD" := by
  obtain ⟨hpattern, -, hexcluded⟩ := hd
  obtain ⟨pattern, hpattern⟩ := Option.isSome_iff_exists.mp hpattern
  cases x with
  | error e => exact ⟨nofun, nofun⟩
  | ok f =>
    have hfinish : ({ d with repo := some f } : Draft).finish =
        .ok ⟨pattern, d.kind, d.caseSensitive, d.fileFilters, some f, []⟩ := by
      rw [Draft.finish]
      simp only [hpattern, hexcluded]
    change (∃ l, Draft.finish { d with repo := some f } = .ok l ∧ _) ↔ _
    rw [hfinish]
    cases hf : f.revision <;> simp [includesRepo, hf]

/-- The term for one repository makes a query that covers it exactly if the name is its own. -/
theorem covers_repoTerm_iff {d : Draft} (hd : d.Unscoped) (repo revision : String) :
    (∃ l, (d.addAll [Query.repoTerm repo revision] >>= Draft.finish) = .ok l ∧
      l.includesRepo repo revision = true) ↔ OwnName repo := by
  rw [addAll_repoTerm, covers_iff_filter hd, OwnName]
  -- a `$@` inside the name is taken for the one that the query puts behind it
  cases hcut : cutAt? ['$', '@'] repo.toList with
  | none =>
    simp only [repoFilter_of_cut_none hcut, map_eq_ok_iff, filter_eq_ok_iff, true_and]
    constructor
    · rintro ⟨_, ⟨p, hp, rfl⟩, hmatch, -⟩
      exact ⟨p, hp, hmatch⟩
    · rintro ⟨p, hp, hmatch⟩
      refine ⟨_, ⟨p, hp, rfl⟩, hmatch, fun wanted hwanted => .inl ?_⟩
      split at hwanted
      · cases hwanted
      · exact (Option.some.inj hwanted).symm
  | some cut =>
    obtain ⟨name, rest⟩ := cut
    simp only [repoFilter_of_cut_some hcut, map_eq_ok_iff]
    refine ⟨?_, nofun⟩
    rintro ⟨_, ⟨p, -, rfl⟩, -, hwanted⟩
    obtain ⟨hrevision, hhead⟩ := cutRevision_ne rest revision
    rcases hwanted _ rfl with h | h
    · exact absurd h hrevision
    · exact absurd h hhead

/-- The term against one repository makes a query that leaves it out exactly if its pattern
matches it. -/
theorem leavesOut_excludedTerm_iff {d : Draft} (hd : d.Unscoped) (repo revision : String) :
    (∃ l, (d.addAll ["-repo:^" ++ repo ++ "$"] >>= Draft.finish) = .ok l ∧
      l.includesRepo repo revision = false) ↔
      ∃ p, Pattern.parse? (namePattern repo) = some p ∧ p.isMatch repo.toList = true := by
  obtain ⟨hpattern, hrepo, hexcluded⟩ := hd
  obtain ⟨pattern, hpattern⟩ := Option.isSome_iff_exists.mp hpattern
  rw [addAll_excludedTerm, filter]
  cases Pattern.parse? (namePattern repo) with
  | none => exact ⟨nofun, nofun⟩
  | some p =>
    have hfinish : ({ d with excludedRepos := d.excludedRepos ++ [p] } : Draft).finish =
        .ok ⟨pattern, d.kind, d.caseSensitive, d.fileFilters, none, [p]⟩ := by
      rw [Draft.finish]
      simp only [hpattern, hrepo, hexcluded, List.nil_append]
    change (∃ l, Draft.finish { d with excludedRepos := d.excludedRepos ++ [p] } = .ok l ∧ _) ↔ _
    rw [hfinish]
    simp [includesRepo]

/-- **Names without operators are their own.** -/
theorem ownName_of_plain {repo : String} (h : repo.toList.all Pattern.isPlain) :
    OwnName repo := by
  rw [List.all_eq_true] at h
  refine ⟨?_, _, Pattern.parse?_plain h, Pattern.isMatch_plain rfl⟩
  cases hcut : cutAt? ['$', '@'] repo.toList with
  | none => rfl
  | some cut =>
    have hmem : '$' ∈ repo.toList := by
      rw [eq_of_cutAt? hcut]
      simp
    exact absurd (h _ hmem) (by decide)

end LocalQuery

namespace Query

open LocalQuery

/-- A local checkout reads the query, and it covers the repository. -/
def Covers (q : Query) (repo revision : String) : Prop :=
  ∃ l, LocalQuery.parse q.text = .ok l ∧ l.includesRepo repo revision = true

/-- A local checkout reads the query, and it does not cover the repository. -/
def LeavesOut (q : Query) (repo revision : String) : Prop :=
  ∃ l, LocalQuery.parse q.text = .ok l ∧ l.includesRepo repo revision = false

section Build

variable (kind : QueryKind) (input : QueryInput) {profile : Profile}
  (hprofile : profile ∈ Builtin.profiles) (hext : input.extensions = profile.extensions)
  (htoken : Unbroken input.token.toList) (hrepo : Unbroken input.repo.toList)

include hprofile hext htoken hrepo

/-- **The query for the repository covers it exactly if its name, read as a pattern, matches
itself**: the revision is compared as it is. -/
theorem covers_build_iff (hrevision : Unbroken input.revision.toList) :
    (build kind { input with scope := .currentRepository }).Covers input.repo input.revision ↔
      OwnName input.repo := by
  have hscope : ∀ t ∈ scopeTerms { input with scope := .currentRepository }, IsTerm t := by
    simpa only [scopeTerms, List.mem_singleton, forall_eq] using isTerm_repoTerm hrepo hrevision
  obtain ⟨d, hd, -, hparse⟩ :=
    parse_build kind { input with scope := .currentRepository } hprofile hext htoken hscope
  rw [Covers, hparse]
  exact covers_repoTerm_iff hd input.repo input.revision

/-- **The query for all others leaves the repository out** under the same condition. -/
theorem leavesOut_build_iff :
    (build kind { input with scope := .otherRepositories }).LeavesOut input.repo input.revision ↔
      ∃ p, Pattern.parse? (namePattern input.repo) = some p ∧
        p.isMatch input.repo.toList = true := by
  have hscope : ∀ t ∈ scopeTerms { input with scope := .otherRepositories }, IsTerm t := by
    simpa only [scopeTerms, List.mem_singleton, forall_eq] using isTerm_excludedTerm hrepo
  obtain ⟨d, hd, -, hparse⟩ :=
    parse_build kind { input with scope := .otherRepositories } hprofile hext htoken hscope
  rw [LeavesOut, hparse]
  exact leavesOut_excludedTerm_iff hd input.repo input.revision

end Build

/-- **A checkout is in scope of its own queries exactly if its name matches itself.** The name
and the revision have to be free of blanks, like the token; the path and the flags are any.
A name matches itself if no character of it is an operator of patterns. -/
theorem own_scope_iff (kind : QueryKind) (input : QueryInput) {profile : Profile}
    (hprofile : profile ∈ Builtin.profiles) (hext : input.extensions = profile.extensions)
    (htoken : Unbroken input.token.toList) (hrepo : Unbroken input.repo.toList)
    (hrevision : Unbroken input.revision.toList) :
    ((build kind { input with scope := .currentRepository }).Covers input.repo input.revision ∧
        (build kind { input with scope := .otherRepositories }).LeavesOut input.repo
          input.revision ↔
      OwnName input.repo) ∧
    (input.repo.toList.all Pattern.isPlain → OwnName input.repo) := by
  refine ⟨?_, ownName_of_plain⟩
  rw [covers_build_iff kind input hprofile hext htoken hrepo hrevision,
    leavesOut_build_iff kind input hprofile hext htoken hrepo]
  exact and_iff_left_of_imp And.right

/-- The token `serve` of a file in some repository. -/
def ofServe (repo revision : String) : QueryInput where
  token := "serve"
  repo
  revision
  path := "main.go"
  extensions := ["go"]

theorem go_mem_profiles : ∃ p ∈ Builtin.profiles, ["go"] = p.extensions := by
  have hread : ∃ t ∈ Builtin.texts, t.id = "go" ∧ t.read?.any (["go"] = ·.extensions) := by
    decide +kernel
  simpa using Builtin.exists_profile hread

/-- A name with dots and slashes. -/
theorem own_scope_dotted :
    (build .references { ofServe "a.b/c" "v1" with scope := .currentRepository }).Covers
        "a.b/c" "v1" ∧
      (build .references { ofServe "a.b/c" "v1" with scope := .otherRepositories }).LeavesOut
        "a.b/c" "v1" := by
  obtain ⟨p, hp, hext⟩ := go_mem_profiles
  have h := own_scope_iff .references (ofServe "a.b/c" "v1") hp hext (by decide) (by decide)
    (by decide)
  exact h.1.mpr (h.2 (by decide))

/-- The name and the revision that a checkout of a directory below the root is given. -/
def configured (directory : String) (revision : String) : Except WorkspaceFault (String × String) :=
  (({ root := some ("/" ++ directory), revision } : WorkspaceOptions).configure
    ⟨[], [[directory.toList]]⟩ "/").map fun config => (config.repo, config.revision)

/-- A checkout in `c++` misses its own query, because its name does not match its pattern; so
does one in `my app`, or at the revision `v 1`, because the blank breaks the query in two. -/
theorem own_scope_missed :
    (configured "c++" "HEAD" = .ok ("c++", "HEAD") ∧
      ¬ (build .definition { ofServe "c++" "HEAD" with scope := .currentRepository }).Covers
        "c++" "HEAD") ∧
    (configured "my app" "HEAD" = .ok ("my app", "HEAD") ∧
      ¬ (build .definition { ofServe "my app" "HEAD" with scope := .currentRepository }).Covers
        "my app" "HEAD") ∧
    configured "r" "v 1" = .ok ("r", "v 1") ∧
      ¬ (build .definition { ofServe "r" "v 1" with scope := .currentRepository }).Covers
        "r" "v 1" := by
  have hfault : ∀ input ∈ [ofServe "my app" "HEAD", ofServe "r" "v 1"],
      (LocalQuery.parse (build .definition
        { input with scope := .currentRepository }).text).toOption = none := by
    decide +kernel
  have hmissed : ∀ input ∈ [ofServe "my app" "HEAD", ofServe "r" "v 1"],
      ¬ (build .definition { input with scope := .currentRepository }).Covers
        input.repo input.revision := by
    rintro input hinput ⟨l, hparse, -⟩
    have h := hfault input hinput
    rw [hparse] at h
    cases h
  refine ⟨⟨rfl, ?_⟩, ⟨rfl, hmissed _ (by simp)⟩, rfl, hmissed (ofServe "r" "v 1") (by simp)⟩
  intro hcovers
  obtain ⟨p, hp, hext⟩ := go_mem_profiles
  obtain ⟨-, pattern, hread, hself⟩ := (covers_build_iff .definition (ofServe "c++" "HEAD") hp hext
    (by decide) (by decide) (by decide)).mp hcovers
  have hmatch : (Pattern.parse? (namePattern "c++")).map (·.isMatch "c++".toList) =
      some false := by decide +kernel
  simp only [ofServe] at hread hself
  rw [hread, Option.map_some, hself] at hmatch
  cases hmatch

end Query

end CodeNav

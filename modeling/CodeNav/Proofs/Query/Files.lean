import CodeNav.Proofs.Path.Extension
import CodeNav.Proofs.Query.Scope

/-!
# A file and its own queries

The registry tells the language of a file without regard to case; a query keeps the files of
that language by a pattern that has regard to it.

* `parse_build_files` — a query that does not name a file is read, and filters files by its
  language alone.
* `own_file_included_iff` — so a file is covered by its own queries **exactly if its extension
  is in lower case**. The queries for `plot.R` leave `plot.R` out (`upper_case_file_missed`).
-/

namespace CodeNav

open Text

/-! ## The filter on files -/

namespace LocalQuery

theorem exists_finish {d : Draft} (h : d.pattern.isSome) :
    ∃ l, d.finish = .ok l ∧ l.fileFilters = d.fileFilters := by
  obtain ⟨pattern, hpattern⟩ := Option.isSome_iff_exists.mp h
  rw [Draft.finish, hpattern]
  exact ⟨_, rfl, rfl⟩

/-- A scope that names no file changes nothing about files. -/
theorem addAll_scopeTerms {d : Draft} (hd : d.Unscoped) {input : QueryInput}
    (hscope : input.scope ≠ .currentFile) (hown : OwnName input.repo) :
    ∃ l, (d.addAll (Query.scopeTerms input) >>= Draft.finish) = .ok l ∧
      l.fileFilters = d.fileFilters := by
  obtain ⟨hcut, p, hp, -⟩ := hown
  have hfilter : filter (namePattern input.repo) = .ok p := filter_eq_ok_iff.mpr hp
  rw [Query.scopeTerms.eq_def]
  cases h : input.scope with
  | currentFile => exact absurd h hscope
  | currentRepository =>
    simp only [addAll_repoTerm, repoFilter_of_cut_none hcut, hfilter]
    exact exists_finish hd.1
  | otherRepositories =>
    simp only [addAll_excludedTerm, hfilter]
    exact exists_finish hd.1
  | allRepositories => exact exists_finish hd.1

/-- **A query that names no file is read, and filters files by its language alone.** -/
theorem parse_build_files (kind : QueryKind) (input : QueryInput) {profile : Profile}
    (hprofile : profile ∈ Builtin.profiles) (hext : input.extensions = profile.extensions)
    (htoken : Unbroken input.token.toList) (hrepo : Unbroken input.repo.toList)
    (hrevision : Unbroken input.revision.toList) (hscope : input.scope ≠ .currentFile)
    (hown : OwnName input.repo) :
    ∃ l, parse (Query.build kind input).text = .ok l ∧
      l.fileFilters = fileFiltersFor input.path input.extensions := by
  have hterms : ∀ t ∈ Query.scopeTerms input, IsTerm t := by
    rw [Query.scopeTerms.eq_def]
    cases h : input.scope with
    | currentFile => exact absurd h hscope
    | currentRepository => simpa using isTerm_repoTerm hrepo hrevision
    | otherRepositories => simpa using isTerm_excludedTerm hrepo
    | allRepositories => exact nofun
  obtain ⟨d, hd, hfiles, hparse⟩ := parse_build kind input hprofile hext htoken hterms
  obtain ⟨l, hl, hlfiles⟩ := addAll_scopeTerms hd hscope hown
  exact ⟨l, hparse.trans hl, hlfiles.trans hfiles⟩

/-- Two ends of a text behind a last dot are the same. -/
theorem eq_of_suffix {s a b : List Char} (ha : '.' :: a <:+ s) (hb : '.' :: b <:+ s)
    (hadot : '.' ∉ a) (hbdot : '.' ∉ b) : a = b := by
  rcases List.suffix_or_suffix_of_suffix ha hb with h | h
  · rcases List.suffix_cons_iff.mp h with h | h
    · exact (List.cons.inj h).2
    · exact absurd (h.subset List.mem_cons_self) hbdot
  · rcases List.suffix_cons_iff.mp h with h | h
    · exact (List.cons.inj h).2.symm
    · exact absurd (h.subset List.mem_cons_self) hadot

end LocalQuery

namespace Query

open LocalQuery

/-- A file of a language whose queries do not filter files has its extension in lower case. -/
theorem lowerAscii_of_unfiltered {path : String} {extensions : List String} {ext : List Char}
    (hpath : Path.extension? path.toList = some ext) (hne : extensions ≠ [])
    (h : extensionTerm? path extensions = none) : lowerAscii ext = ext := by
  have hlower : ∀ e ∈ unfilteredExtensions, lowerAscii e.toList = e.toList := by decide
  have hmem : String.ofList ext ∈ unfilteredExtensions := by
    simpa [extensionTerm?, hpath, hne] using h
  simpa using hlower _ hmem

/-- **A file is covered by its own queries exactly if its extension is in lower case.** The
file's language is the one the registry tells from its path; the query is of any kind and for
any repositories. -/
theorem own_file_included_iff (kind : QueryKind) (input : QueryInput) {profile : Profile}
    (hprofile : Builtin.registry.forPath? input.path = some profile)
    (hext : input.extensions = profile.extensions)
    (hend : ¬ Path.EndsIdle input.path.toList) (htoken : Unbroken input.token.toList)
    (hrepo : Unbroken input.repo.toList) (hplain : input.repo.toList.all Pattern.isPlain)
    (hrevision : Unbroken input.revision.toList) (hscope : input.scope ≠ .currentFile) :
    ∃ l, LocalQuery.parse (build kind input).text = .ok l ∧
      (l.includesPath input.path = true ↔
        ∃ ext, Path.extension? input.path.toList = some ext ∧ lowerAscii ext = ext) := by
  obtain ⟨hmem, ext, hpath, e, he, hcase⟩ := Builtin.forPath?_eq_some hprofile
  obtain ⟨hsuffix, hdot⟩ := Path.extension?_suffix hend hpath
  obtain ⟨-, p, hp, hmatch⟩ := Builtin.exists_extensionPattern hmem
  obtain ⟨l, hl, hfiles⟩ := parse_build_files kind input hmem hext htoken hrepo hrevision hscope
    (ownName_of_plain hplain)
  refine ⟨l, hl, ?_⟩
  rw [includesPath, hfiles, fileFiltersFor, hpath, hext, hp]
  cases hterm : extensionTerm? input.path profile.extensions with
  | none => simpa using lowerAscii_of_unfiltered hpath (Builtin.extensions_ne_nil hmem) hterm
  | some term =>
    simp only [Option.isSome_some, if_true, Option.toList_some, List.all_cons, List.all_nil,
      Bool.and_true, hmatch, Option.some.injEq, exists_eq_left']
    constructor
    · rintro ⟨e', he', hsuffix'⟩
      obtain ⟨hlower, hdot'⟩ := Builtin.lowerAscii_of_mem_extensions hmem he'
      rw [← eq_of_suffix hsuffix' hsuffix hdot' hdot, hlower]
    · intro hself
      have heq : e.toList = ext := by
        rw [← hself, ← hcase, (Builtin.lowerAscii_of_mem_extensions hmem he).1]
      exact ⟨e, he, heq ▸ hsuffix⟩

/-- A query for a token of some file, in all repositories. -/
def ofServeIn (path : String) (extensions : List String) : QueryInput where
  token := "serve"
  repo := "r"
  revision := "v"
  path
  extensions

theorem exists_forPath? : ∀ x ∈ [("src/MAIN.go", ["go"]), ("plot.R", ["r"])],
    ∃ profile, Builtin.registry.forPath? x.1 = some profile ∧ x.2 = profile.extensions := by
  have hfound : ∀ x ∈ [("src/MAIN.go", ["go"]), ("plot.R", ["r"])],
      (Builtin.registry.forPath? x.1).any (x.2 = ·.extensions) := by
    simp only [Builtin.registry, Registry.forPath?_ofProfiles]
    decide +kernel
  simpa only [Option.any_eq_true, decide_eq_true_eq] using hfound

/-- A file with its extension in lower case; the rest of its path may be in any case. -/
theorem lower_case_file_included :
    ∃ profile, Builtin.registry.forPath? "src/MAIN.go" = some profile ∧
      ["go"] = profile.extensions ∧
      ∃ l, LocalQuery.parse (build .definition (ofServeIn "src/MAIN.go" ["go"])).text = .ok l ∧
        l.includesPath "src/MAIN.go" = true := by
  obtain ⟨profile, hprofile, hext⟩ := exists_forPath? ("src/MAIN.go", ["go"]) (by simp)
  obtain ⟨l, hl, hincluded⟩ := own_file_included_iff .definition (ofServeIn "src/MAIN.go" ["go"])
    hprofile hext (by decide) (by decide) (by decide) (by decide) (by decide) (by decide)
  exact ⟨profile, hprofile, hext, l, hl, hincluded.mpr ⟨['g', 'o'], by decide, by decide⟩⟩

/-- The language of `plot.R` is known, and its queries leave `plot.R` out. -/
theorem upper_case_file_missed :
    ∃ profile, Builtin.registry.forPath? "plot.R" = some profile ∧ ["r"] = profile.extensions ∧
      ∃ l, LocalQuery.parse (build .definition (ofServeIn "plot.R" ["r"])).text = .ok l ∧
        l.includesPath "plot.R" = false := by
  obtain ⟨profile, hprofile, hext⟩ := exists_forPath? ("plot.R", ["r"]) (by simp)
  have hmissed : ∃ l ∈ (LocalQuery.parse (build .definition
      (ofServeIn "plot.R" ["r"])).text).toOption, l.includesPath "plot.R" = false := by
    decide +kernel
  obtain ⟨l, hl, hfalse⟩ := hmissed
  refine ⟨profile, hprofile, hext, l, ?_, hfalse⟩
  cases hparse : LocalQuery.parse (build .definition (ofServeIn "plot.R" ["r"])).text with
  | error fault =>
    rw [hparse] at hl
    cases hl
  | ok l' =>
    rw [hparse] at hl
    cases hl
    rfl

end Query

end CodeNav

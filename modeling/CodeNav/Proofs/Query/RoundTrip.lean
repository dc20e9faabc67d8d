import CodeNav.Proofs.Pattern.Literal
import CodeNav.Proofs.Query.Scope

/-!
# What a query says is what is read

A query is written by one part of the program and read by another; the only thing they share is
a line of text. **What is read is what was written** (`parse_build_recovers`): the pattern, the
kind of match, the filters on files in their order, the repository with its revision, and the
repository that is left out. It takes that nothing in the query holds a blank, that the name of
the repository does not hold the `$@` that is put between it and the revision, and that the
patterns read. The pattern of a path always does (`Pattern.parse?_whole`), since it is escaped.

So the query for a repository and the query for all the others **divide the repositories between
them** (`tiers_divide`), whatever the pattern that the name makes matches.
-/

namespace CodeNav

open Text

/-- Nothing that a query is built from holds a blank. -/
structure QueryInput.Unbroken (input : QueryInput) : Prop where
  token : Text.Unbroken input.token.toList
  repo : Text.Unbroken input.repo.toList
  revision : Text.Unbroken input.revision.toList
  path : Text.Unbroken input.path.toList
  extensions : ∀ e ∈ input.extensions, Text.Unbroken e.toList

/-- The text is a pattern. -/
def Pattern.Reads (text : String) : Prop := (Pattern.parse? text).isSome

instance (text : String) : Decidable (Pattern.Reads text) := inferInstanceAs (Decidable (_ = true))

namespace LocalQuery

/-! ## What a query is to say -/

/-- The patterns that files have to match: of the extensions, and of the one file. -/
def fileTexts (input : QueryInput) : List String :=
  (extensionText? input.path input.extensions).toList ++
    if input.scope = .currentFile then ["^" ++ Pattern.escape input.path ++ "$"] else []

/-- The pattern of the repository that is asked for, and its revision unless that is empty. -/
def repoText? (input : QueryInput) : Option (String × Option String) :=
  if input.scope = .currentFile ∨ input.scope = .currentRepository then
    some (namePattern input.repo, if input.revision.isEmpty then none else some input.revision)
  else none

/-- The patterns of the repositories that are left out. -/
def excludedTexts (input : QueryInput) : List String :=
  if input.scope = .otherRepositories then [namePattern input.repo] else []

/-- What is read is what the query was built for. -/
structure Recovers (kind : QueryKind) (input : QueryInput) (l : LocalQuery) : Prop where
  /-- the pattern is the first term -/
  pattern : (Query.build kind input).terms.head? = some l.pattern
  kind : l.kind = matchKind kind
  caseSensitive : l.caseSensitive = true
  fileFilters : l.fileFilters.map some = (fileTexts input).map Pattern.parse?
  repo : l.repo.map (fun f => (some f.name, f.revision)) =
    (repoText? input).map fun (name, revision) => (Pattern.parse? name, revision)
  excludedRepos : l.excludedRepos.map some = (excludedTexts input).map Pattern.parse?

/-! ## What is read -/

theorem unbroken_extensionText {path : String} {extensions : List String}
    (h : ∀ e ∈ extensions, Unbroken e.toList) :
    ∀ t ∈ extensionText? path extensions, Unbroken t.toList := by
  intro t ht
  obtain ⟨-, -, rfl⟩ := Option.map_eq_some_iff.mp ht
  have hjoined : ∀ exts : List String, (∀ e ∈ exts, Unbroken e.toList) →
      Unbroken ("|".intercalate exts).toList := by
    intro exts hexts
    induction exts with
    | nil => simp
    | cons e exts ih =>
      obtain ⟨he, hexts⟩ := List.forall_mem_cons.mp hexts
      cases exts with
      | nil => simpa using he
      | cons e' exts =>
        have hbar : Unbroken "|".toList := by decide
        rw [String.intercalate_cons_cons]
        simp only [String.toList_append, unbroken_append]
        exact ⟨⟨he, hbar⟩, ih hexts⟩
  have hopen : Unbroken "\\.(".toList := by decide
  have hclose : Unbroken ")$".toList := by decide
  rw [Builtin.extensionPattern]
  simp only [String.toList_append, unbroken_append]
  exact ⟨⟨hopen, hjoined _ h⟩, hclose⟩

theorem isTerm_scopeTerms {input : QueryInput} (h : input.Unbroken) :
    ∀ t ∈ Query.scopeTerms input, IsTerm t := by
  have hrepo := isTerm_repoTerm h.repo h.revision
  have hfile : IsTerm ("file:^" ++ Pattern.escape input.path ++ "$") := by
    rw [IsTerm]
    simp [Pattern.escape, unbroken_escape h.path]
    decide
  rw [Query.scopeTerms.eq_def]
  cases input.scope with
  | currentFile => simp [hrepo, hfile]
  | currentRepository => simp [hrepo]
  | otherRepositories => simpa using isTerm_excludedTerm h.repo
  | allRepositories => exact List.forall_mem_nil _

/-- The term of a file adds the pattern of its path. -/
theorem addAll_pathTerm (d : Draft) (path : String) :
    d.addAll ["file:^" ++ Pattern.escape path ++ "$"] =
      .ok { d with fileFilters := d.fileFilters ++ [Pattern.whole path] } := by
  have hterm : "file:^" ++ Pattern.escape path ++ "$" = "file:" ++ (Pattern.whole path).source := by
    simp [Pattern.whole, ← String.toList_inj]
  have hreads : [(Pattern.whole path).source].map Pattern.parse? =
      [Pattern.whole path].map some := by
    rw [List.map_singleton, Pattern.parse?_whole, List.map_singleton]
  rw [hterm]
  exact addAll_fileTerms d hreads

/-- **What is read of a query is what it was built for.** -/
theorem parse_build_recovers (kind : QueryKind) {input : QueryInput} (hblank : input.Unbroken)
    (hmark : ¬ ['$', '@'] <:+: input.repo.toList)
    (hext : ∀ t ∈ extensionText? input.path input.extensions, Pattern.Reads t)
    (hname : input.scope ≠ .allRepositories → Pattern.Reads (namePattern input.repo)) :
    ∃ l, parse (Query.build kind input).text = .ok l ∧ l.Recovers kind input := by
  have hcut : cutAt? ['$', '@'] input.repo.toList = none :=
    (cutAt?_eq_none_iff (by simp)).mpr hmark
  obtain ⟨files, hfiles⟩ : ∃ files : List Pattern,
      (extensionText? input.path input.extensions).toList.map Pattern.parse? = files.map some := by
    cases htext : extensionText? input.path input.extensions with
    | none => exact ⟨[], rfl⟩
    | some t =>
      obtain ⟨p, hp⟩ := Option.isSome_iff_exists.mp (hext t htext)
      exact ⟨[p], by simp [hp]⟩
  have hhead : (Query.build kind input).terms.head? = some (patternText input.token kind) := by
    cases kind <;> rfl
  rw [parse_build_of_reads kind input hblank.token (unbroken_extensionText hblank.extensions) hfiles
    (isTerm_scopeTerms hblank), Query.scopeTerms.eq_def]
  -- the scope decides whether the name of the repository is read at all
  cases hscope : input.scope with
  | allRepositories =>
    exact ⟨_, rfl, hhead, rfl, rfl, by simp [fileTexts, hscope, hfiles, Draft.front],
      by simp [repoText?, hscope, Draft.front], by simp [excludedTexts, hscope, Draft.front]⟩
  | otherRepositories =>
    obtain ⟨p, hp⟩ := Option.isSome_iff_exists.mp (hname (by simp [hscope]))
    simp only [addAll_excludedTerm, filter_eq_ok_iff.mpr hp]
    exact ⟨_, rfl, hhead, rfl, rfl, by simp [fileTexts, hscope, hfiles, Draft.front],
      by simp [repoText?, hscope, Draft.front], by simp [excludedTexts, hscope, Draft.front, hp]⟩
  | currentRepository =>
    obtain ⟨p, hp⟩ := Option.isSome_iff_exists.mp (hname (by simp [hscope]))
    simp only [addAll_repoTerm, repoFilter_of_cut_none hcut, filter_eq_ok_iff.mpr hp]
    exact ⟨_, rfl, hhead, rfl, rfl, by simp [fileTexts, hscope, hfiles, Draft.front],
      by simp [repoText?, hscope, hp], by simp [excludedTexts, hscope, Draft.front]⟩
  | currentFile =>
    obtain ⟨p, hp⟩ := Option.isSome_iff_exists.mp (hname (by simp [hscope]))
    have hpath : Pattern.parse? ("^" ++ Pattern.escape input.path ++ "$") =
        some (.whole input.path) := Pattern.parse?_whole input.path
    have hrepo := addAll_repoTerm (.front kind input.token files) input.repo input.revision
    rw [repoFilter_of_cut_none hcut, filter_eq_ok_iff.mpr hp] at hrepo
    simp only [← List.singleton_append (l := [_]), Draft.addAll_append_of_ok hrepo,
      addAll_pathTerm]
    exact ⟨_, rfl, hhead, rfl, rfl, by simp [fileTexts, hscope, hfiles, Draft.front, hpath],
      by simp [repoText?, hscope, hp], by simp [excludedTexts, hscope, Draft.front]⟩

/-! ## Two scopes -/

section Divide

variable {kind : QueryKind} {input : QueryInput} {l : LocalQuery} {p : Pattern}
  (hp : Pattern.parse? (namePattern input.repo) = some p)

include hp

/-- The query for a repository covers, at its revision, the names that its pattern matches. -/
theorem Recovers.includesRepo_current
    (h : l.Recovers kind { input with scope := .currentRepository }) (name : String) :
    l.includesRepo name input.revision = p.isMatch name.toList := by
  have hexcluded : l.excludedRepos = [] := by simpa [excludedTexts] using h.excludedRepos
  have hrepo := h.repo
  simp only [repoText?, or_true, if_true, Option.map_some, hp] at hrepo
  obtain ⟨f, hf, heq⟩ := Option.map_eq_some_iff.mp hrepo
  obtain ⟨rfl, hrevision⟩ : f.name = p ∧
      f.revision = if input.revision.isEmpty then none else some input.revision := by
    simpa using heq
  rw [includesRepo, hexcluded, hf]
  by_cases hempty : input.revision.isEmpty
  · simp [hrevision, hempty]
  · simp [hrevision, hempty]

/-- The query for the other repositories covers the names that the pattern does not match. -/
theorem Recovers.includesRepo_other
    (h : l.Recovers kind { input with scope := .otherRepositories }) (name revision : String) :
    l.includesRepo name revision = !p.isMatch name.toList := by
  have hrepo : l.repo = none := by simpa [repoText?] using h.repo
  have hexcluded := h.excludedRepos
  simp only [excludedTexts, if_true, List.map_singleton, hp] at hexcluded
  obtain ⟨q, hq, hqp⟩ := List.map_eq_singleton_iff.mp hexcluded
  rw [includesRepo, hq, Option.some.inj hqp, hrepo]
  simp

end Divide

end LocalQuery

namespace Query

open LocalQuery

/-- A query for the current repository and one for all others, as they are read. -/
theorem tiers_divide (kind : QueryKind) {input : QueryInput} (hblank : input.Unbroken)
    (hmark : ¬ ['$', '@'] <:+: input.repo.toList)
    (hext : ∀ t ∈ extensionText? input.path input.extensions, Pattern.Reads t)
    (hname : Pattern.Reads (namePattern input.repo)) :
    ∃ current other,
      parse (build kind { input with scope := .currentRepository }).text = .ok current ∧
      parse (build kind { input with scope := .otherRepositories }).text = .ok other ∧
      ∀ name, current.includesRepo name input.revision = true ↔
        ¬ other.includesRepo name input.revision = true := by
  obtain ⟨p, hp⟩ := Option.isSome_iff_exists.mp hname
  have hblank' : ∀ scope, ({ input with scope } : QueryInput).Unbroken := fun _ =>
    ⟨hblank.token, hblank.repo, hblank.revision, hblank.path, hblank.extensions⟩
  obtain ⟨current, hcurrent, hrecovers⟩ := parse_build_recovers kind
    (hblank' .currentRepository) hmark hext fun _ => hname
  obtain ⟨other, hother, hrecovers'⟩ := parse_build_recovers kind
    (hblank' .otherRepositories) hmark hext fun _ => hname
  refine ⟨current, other, hcurrent, hother, fun name => ?_⟩
  have hin := hrecovers.includesRepo_current hp name
  have hout := hrecovers'.includesRepo_other hp name input.revision
  simp [hin, hout]

/-- **The text of a query is read back as what it was built for, and the two tiers of references
divide the repositories.** Nothing that the query is built from holds a blank, the name of the
repository holds no `$@`, and the patterns that are needed read. -/
theorem text_round_trip (kind : QueryKind) (input : QueryInput) (hblank : input.Unbroken)
    (hmark : ¬ ['$', '@'] <:+: input.repo.toList)
    (hext : ∀ t ∈ extensionText? input.path input.extensions, Pattern.Reads t)
    (hname : input.scope ≠ .allRepositories → Pattern.Reads (namePattern input.repo)) :
    (∃ l, parse (build kind input).text = .ok l ∧ l.Recovers kind input) ∧
      (Pattern.Reads (namePattern input.repo) →
        ∃ current other,
          parse (build kind { input with scope := .currentRepository }).text = .ok current ∧
          parse (build kind { input with scope := .otherRepositories }).text = .ok other ∧
          ∀ name, current.includesRepo name input.revision = true ↔
            ¬ other.includesRepo name input.revision = true) :=
  ⟨parse_build_recovers kind hblank hmark hext hname, tiers_divide kind hblank hmark hext⟩

/-- A name that ends in a dollar sign, so that two of them stand before the `@`, and a revision
that holds a `$@` of its own. -/
def ofDollars : QueryInput where
  token := "valid?"
  repo := "a|b$"
  revision := "v$@1"
  path := "src/a.b.ts"
  extensions := ["ts", "tsx"]
  scope := .currentFile

theorem dollars_round_trip :
    (∃ l, parse (build .references ofDollars).text = .ok l ∧ l.Recovers .references ofDollars) ∧
      ∃ current other,
        parse (build .references { ofDollars with scope := .currentRepository }).text =
          .ok current ∧
        parse (build .references { ofDollars with scope := .otherRepositories }).text =
          .ok other ∧
        ∀ name, current.includesRepo name "v$@1" = true ↔
          ¬ other.includesRepo name "v$@1" = true := by
  have hblank : ofDollars.Unbroken :=
    ⟨by decide, by decide, by decide, by decide, by decide⟩
  have hext : ∀ t ∈ extensionText? ofDollars.path ofDollars.extensions, Pattern.Reads t := by
    decide +kernel
  have hname : Pattern.Reads (namePattern ofDollars.repo) := by decide +kernel
  have h := text_round_trip .references ofDollars hblank (by decide) hext fun _ => hname
  exact ⟨h.1, h.2 hname⟩

end Query

end CodeNav

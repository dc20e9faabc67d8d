import CodeNav.Path
import CodeNav.Pattern.Parser

/-!
# Search queries

A query is a list of terms in a fixed order: the pattern, the kind of match, how the
pattern is read, the extension filter, the scope, and flags. It is sent as its terms
with blanks between them. `Query.toIndexOnly` gives the form that asks the index alone,
which is the query that building with the index flag gives.
-/

namespace CodeNav

/-- How far a query reaches. -/
inductive Scope where
  | currentFile
  | currentRepository
  | otherRepositories
  | allRepositories
  deriving DecidableEq, Repr

/-- The name of a scope in counters. -/
def Scope.label : Scope → String
  | .currentFile => "current-file"
  | .currentRepository => "current-repository"
  | .otherRepositories => "other-repositories"
  | .allRepositories => "all-repositories"

/-- The name of a scope in JSON. -/
def Scope.key : Scope → String
  | .currentFile => "current_file"
  | .currentRepository => "current_repository"
  | .otherRepositories => "other_repositories"
  | .allRepositories => "all_repositories"

/-- What a query looks for. -/
inductive QueryKind where
  | definition
  | references
  deriving DecidableEq, Repr

/-- What a query is built from. -/
structure QueryInput where
  token : String
  repo : String
  revision : String
  path : String
  extensions : List String
  scope : Scope := .allRepositories
  indexOnly : Bool := false
  includeForks : Bool := false
  includeArchived : Bool := false
  deriving DecidableEq, Repr

/-- A search query. -/
structure Query where
  terms : List String
  deriving DecidableEq, Repr

namespace Query

/-- The text that is sent. -/
def text (q : Query) : String := " ".intercalate q.terms

/-- The term that asks the index alone. -/
def indexTerm : String := "index:only"

/-- Whether a query asks the index alone. -/
def isIndexOnly (q : Query) : Bool := q.terms.contains indexTerm

/-- The flags about forks and archives, which end a query. -/
def isTrailingFlag (term : String) : Bool :=
  "fork:".toList.isPrefixOf term.toList || "archived:".toList.isPrefixOf term.toList

/-- The same query for the index alone: its term goes before the trailing flags. -/
def toIndexOnly (q : Query) : Query :=
  if q.isIndexOnly then q
  else
    ⟨q.terms.takeWhile (!isTrailingFlag ·) ++ indexTerm :: q.terms.dropWhile (!isTrailingFlag ·)⟩

/-- Extensions whose definitions often live in generated files with another extension. -/
def unfilteredExtensions : List String := ["thrift", "proto", "graphql"]

/-- The term that keeps files of the language. -/
def extensionTerm? (path : String) (extensions : List String) : Option String :=
  let ext := (Path.extension? path.toList).map String.ofList
  if extensions.isEmpty || ext.any unfilteredExtensions.contains then none
  else some ("file:\\.(" ++ "|".intercalate extensions ++ ")$")

/-- The term that keeps one repository, at a revision unless that is empty. -/
def repoTerm (repo revision : String) : String :=
  if revision.isEmpty then "repo:^" ++ repo ++ "$" else "repo:^" ++ repo ++ "$@" ++ revision

/-- The terms of a scope. -/
def scopeTerms (input : QueryInput) : List String :=
  match input.scope with
  | .currentFile =>
    [repoTerm input.repo input.revision, "file:^" ++ Pattern.escape input.path ++ "$"]
  | .currentRepository => [repoTerm input.repo input.revision]
  | .otherRepositories => ["-repo:^" ++ input.repo ++ "$"]
  | .allRepositories => []

/-- The pattern for a token, and the kind of match it is for. -/
def patternTerms (token : String) : QueryKind → List String
  | .definition => ["^" ++ Pattern.escape token ++ "$", "type:symbol"]
  | .references => ["\\b" ++ Pattern.escape token ++ "\\b", "type:file"]

/-- Build a query. -/
def build (kind : QueryKind) (input : QueryInput) : Query :=
  ⟨patternTerms input.token kind ++ ["patternType:regexp", "case:yes"] ++
    (extensionTerm? input.path input.extensions).toList ++ scopeTerms input ++
    (if input.indexOnly then [indexTerm] else []) ++
    (if input.includeForks then ["fork:yes"] else []) ++
    (if input.includeArchived then ["archived:yes"] else [])⟩

end Query

end CodeNav

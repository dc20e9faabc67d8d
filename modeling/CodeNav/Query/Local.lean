import CodeNav.Pattern.Match
import CodeNav.Pattern.Parser
import CodeNav.SearchError
import CodeNav.Text.Quoted

/-!
# Queries as a local checkout reads them

The text of a query is cut at blanks. Each term either sets something, or is a flag
that changes nothing for a local checkout, or is the pattern; there has to be exactly
one pattern. Faults are reported in the order of the terms.
-/

namespace CodeNav

/-- What a query matches: declarations of a symbol, or text in files. -/
inductive MatchKind where
  | symbol
  | file
  deriving DecidableEq, Repr

/-- Which repository a query asks for. -/
structure RepoFilter where
  name : Pattern
  revision : Option String
  deriving DecidableEq, Repr

/-- A query as a local checkout understands it. -/
structure LocalQuery where
  pattern : String
  kind : MatchKind
  caseSensitive : Bool
  fileFilters : List Pattern
  repo : Option RepoFilter
  excludedRepos : List Pattern
  deriving DecidableEq, Repr

namespace LocalQuery

/-- Why a query is not understood. -/
inductive Fault where
  /-- a kind of match that is not known -/
  | unsupportedType (value : String)
  /-- a second pattern -/
  | unexpectedTerm (term : String)
  /-- no pattern -/
  | noPattern
  /-- the pattern of a filter does not read -/
  | invalidPattern (text : String)
  deriving DecidableEq, Repr

/-- The wording of a fault. -/
def Fault.message : Fault → String
  | .unsupportedType value => "unsupported type:" ++ value
  | .unexpectedTerm term => "unexpected query term " ++ Text.quote term
  | .noPattern => "query has no pattern"
  | .invalidPattern text => "invalid regex " ++ Text.quote text

/-- The failure of a search whose query has a fault. -/
def Fault.toError (f : Fault) : SearchError := .parse f.message

/-- What a term says. -/
inductive Term where
  | type (value : String)
  | case (value : String)
  | file (pattern : String)
  | excludedRepo (pattern : String)
  | repo (value : String)
  | flag
  | pattern (text : String)
  deriving DecidableEq, Repr

/-- The leads of flags that mean nothing locally. -/
def flagLeads : List String :=
  ["patternType:", "index:", "fork:", "archived:", "count:", "timeout:"]

/-- The value of a term with the given lead. -/
def value? (lead : String) (term : List Char) : Option String :=
  (Text.dropLead? lead.toList term).map String.ofList

/-- Read a term by its lead. -/
def Term.read (term : List Char) : Term :=
  match value? "type:" term with
  | some v => .type v
  | none =>
    match value? "case:" term with
    | some v => .case v
    | none =>
      match value? "file:" term with
      | some v => .file v
      | none =>
        match value? "-repo:" term with
        | some v => .excludedRepo v
        | none =>
          match value? "repo:" term with
          | some v => .repo v
          | none =>
            if flagLeads.any fun lead => lead.toList.isPrefixOf term then .flag
            else .pattern (String.ofList term)

/-- A query while its terms are read. -/
structure Draft where
  pattern : Option String := none
  kind : MatchKind := .file
  caseSensitive : Bool := false
  fileFilters : List Pattern := []
  repo : Option RepoFilter := none
  excludedRepos : List Pattern := []

/-- Read the pattern of a filter. -/
def filter (text : String) : Except Fault Pattern :=
  match Pattern.parse? text with
  | some p => .ok p
  | none => .error (.invalidPattern text)

/-- Read a repository filter: a revision stands after `$@`. -/
def repoFilter (value : String) : Except Fault RepoFilter := do
  match Text.cutAt? ['$', '@'] value.toList with
  | some (name, revision) =>
    return ⟨← filter (String.ofList (name ++ ['$'])), some (String.ofList revision)⟩
  | none => return ⟨← filter value, none⟩

/-- Take a term into account. -/
def Draft.add (d : Draft) : Term → Except Fault Draft
  | .type "symbol" => .ok { d with kind := .symbol }
  | .type "file" => .ok { d with kind := .file }
  | .type other => .error (.unsupportedType other)
  | .case v => .ok { d with caseSensitive := v = "yes" }
  | .file v => do return { d with fileFilters := d.fileFilters ++ [← filter v] }
  | .excludedRepo v => do return { d with excludedRepos := d.excludedRepos ++ [← filter v] }
  | .repo v => do return { d with repo := some (← repoFilter v) }
  | .flag => .ok d
  | .pattern text =>
    match d.pattern with
    | none => .ok { d with pattern := some text }
    | some _ => .error (.unexpectedTerm text)

/-- A finished query needs a pattern. -/
def Draft.finish (d : Draft) : Except Fault LocalQuery :=
  match d.pattern with
  | none => .error .noPattern
  | some pattern =>
    .ok ⟨pattern, d.kind, d.caseSensitive, d.fileFilters, d.repo, d.excludedRepos⟩

/-- Read the text of a query. -/
def parse (query : String) : Except Fault LocalQuery := do
  let terms := (Text.words query.toList).map Term.read
  (← terms.foldlM Draft.add {}).finish

/-- Whether a query covers a repository at a revision. `HEAD` stands for any revision. -/
def includesRepo (q : LocalQuery) (name revision : String) : Bool :=
  !q.excludedRepos.any (·.isMatch name.toList) &&
    match q.repo with
    | none => true
    | some f =>
      f.name.isMatch name.toList &&
        match f.revision with
        | none => true
        | some wanted => wanted = revision || wanted = "HEAD"

/-- Whether a query covers a file. -/
def includesPath (q : LocalQuery) (path : String) : Bool :=
  q.fileFilters.all (·.isMatch path.toList)

/-- The pattern of a symbol without the anchors around it. A dollar sign that is escaped
is no anchor. -/
def symbolBody (q : LocalQuery) : String :=
  let s := q.pattern.toList
  let body := (Text.dropLead? ['^'] s).getD s
  String.ofList <|
    match Text.dropTrail? ['$'] body with
    | some stripped => if stripped.getLast? = some '\\' then body else stripped
    | none => body

end LocalQuery

end CodeNav

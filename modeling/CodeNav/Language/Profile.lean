import CodeNav.Language.Imports
import CodeNav.Text.Quoted

/-!
# Language profiles

All that navigation needs to know about a language: its file extensions, how it writes
comments, what its identifiers are made of, which lines may stand between a definition
and its documentation, and how its imports narrow a search. Nothing else in the
library depends on a language.
-/

namespace CodeNav

/-- A language. -/
structure Profile where
  id : String
  name : String
  extensions : List String
  comments : List CommentStyle
  /-- matches a single identifier character -/
  identifier : Pattern
  /-- matches lines that documentation may be separated from its definition by -/
  ignore : Option Pattern
  /-- keeps the files that the querying file can mean -/
  imports : Option Imports.Rule

namespace Profile

/-- The patterns of the line comments, in order. -/
def linePatterns (p : Profile) : List Pattern :=
  (p.comments.filterMap (·.line)).map (·.anywhere)

/-- The hits that fit the imports of the querying file; all of them if none does. -/
def filterDefinitions (p : Profile) (hits : List Hit) (ctx : Imports.Context) : List Hit :=
  match p.imports with
  | none => hits
  | some rule =>
    let kept := hits.filter fun h => rule ctx h.file.toList
    if kept.isEmpty then hits else kept

/-- A profile as logs show it. -/
def describe (p : Profile) : String :=
  "LanguageProfile \x7b language_id: " ++ Text.quote p.id ++ ", file_extensions: [" ++
    ", ".intercalate (p.extensions.map Text.quote) ++ "], has_filter: " ++
    (if p.imports.isSome then "true" else "false") ++ " \x7d"

end Profile

/-- A comment style as texts of patterns. -/
structure CommentStyle.Written where
  line : Option String := none
  /-- opening, closing and noise of a block -/
  block : Option (String × String × Option String) := none
  placement : Placement := .above

/-- A profile as texts of patterns. -/
structure Profile.Written where
  id : String
  name : String
  extensions : List String
  comments : List CommentStyle.Written
  identifier : String := "[A-Za-z0-9_]"
  ignore : Option String := none
  imports : Option Imports.Rule := none

/-- Read an optional part: it may be missing, and if it is there it has to read. -/
def readOptional {α β : Type} (read? : α → Option β) : Option α → Option (Option β)
  | none => some none
  | some a => (read? a).map some

/-- Read a comment style; `none` if a pattern does not read. A style that has neither
lines nor blocks is dropped. -/
def CommentStyle.Written.read? (t : CommentStyle.Written) : Option (Option CommentStyle) := do
  let line ← readOptional LineStyle.read? t.line
  let block ← readOptional (fun (o, c, n) => BlockStyle.read? o c n) t.block
  return if line.isNone && block.isNone then none else some ⟨line, block, t.placement⟩

/-- Read a profile; `none` if a pattern does not read. -/
def Profile.Written.read? (t : Profile.Written) : Option Profile := do
  let comments ← t.comments.mapM (·.read?)
  let identifier ← Pattern.parse? t.identifier
  let ignore ← readOptional Pattern.parse? t.ignore
  return ⟨t.id, t.name, t.extensions, comments.reduceOption, identifier, ignore, t.imports⟩

end CodeNav

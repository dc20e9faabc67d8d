import CodeNav.Text.Lines

/-!
# Paths

Paths are texts with slashes. A path is absolute when it begins with one; repeated
slashes and `.` segments mean nothing, except that a leading `.` counts as a component
of its own. All functions here are **lexical**: no file is looked at.
-/

namespace CodeNav.Path

/-- A component of a path. -/
inductive Component where
  /-- the leading slash -/
  | root
  /-- a leading `.` -/
  | here
  /-- `..` -/
  | up
  /-- any other name -/
  | name (s : List Char)
  deriving DecidableEq, Repr

/-- Whether a path begins at the root. -/
def isAbsolute (p : List Char) : Bool := p.head? = some '/'

/-- The component that a segment stands for; empty segments and `.` stand for none. -/
def ofSegment (s : List Char) : Option Component :=
  if s = [] || s = ['.'] then none
  else if s = ['.', '.'] then some .up
  else some (.name s)

/-- The components of a path. -/
def components (p : List Char) : List Component :=
  let segments := Text.splitAt '/' p
  let lead : List Component :=
    if isAbsolute p then [.root]
    else if segments.head? = some ['.'] then [.here]
    else []
  lead ++ segments.filterMap ofSegment

/-- The last component, if it is a name. -/
def fileName? (p : List Char) : Option (List Char) :=
  match (components p).getLast? with
  | some (.name s) => some s
  | _ => none

/-- Cut a name at its last dot. -/
def cutLastDot? (s : List Char) : Option (List Char × List Char) :=
  let tail := s.reverse.takeWhile (· ≠ '.')
  if tail.length < s.length then some (s.take (s.length - tail.length - 1), tail.reverse)
  else none

/-- What follows the last dot of the file name. A dot that opens the name does not
count, and a name may end in one. -/
def extension? (p : List Char) : Option (List Char) := do
  let name ← fileName? p
  let (stem, ext) ← cutLastDot? name
  if stem.isEmpty then none else some ext

/-- `p` seen from the directory `base`: an absolute `p` stays what it is. -/
def join (base p : List Char) : List Char :=
  if isAbsolute p || base.isEmpty then p
  else if base.getLast? = some '/' then base ++ p
  else base ++ '/' :: p

/-- Drop slashes and `.` segments in front. -/
def dropIdle : List Char → List Char
  | [] => []
  | ['.'] => []
  | '/' :: rest => dropIdle rest
  | '.' :: '/' :: rest => dropIdle rest
  | s => s

/-- Follow a list of components from the front of a path; what remains of its text. -/
def follow? : List Component → List Char → Option (List Char)
  | [], s => some s
  | .root :: cs, '/' :: s => follow? cs s
  | .root :: _, _ => none
  | .here :: cs, '.' :: s => follow? cs s
  | .here :: _, _ => none
  | c :: cs, s =>
    let s := dropIdle s
    if ofSegment (s.takeWhile (· ≠ '/')) = some c then follow? cs (s.dropWhile (· ≠ '/')) else none

/-- The part of an absolute path below the directory `base`, if it is below it. -/
def below? (base p : List Char) : Option (List Char) :=
  (follow? (components base) p).map fun s => (dropIdle (dropIdle s).reverse).reverse

/-- Whether a path stays below where it starts: it has no root and no `..`. -/
def staysBelow (p : List Char) : Bool :=
  (components p).all fun c =>
    match c with
    | .name _ | .here => true
    | _ => false

/-- The names that lead to a path from the root, `..` taken back as far as the root. -/
def resolve (p : List Char) : List (List Char) :=
  (components p).foldl (fun names c =>
    match c with
    | .up => names.dropLast
    | .name s => names ++ [s]
    | _ => names) []

/-- An absolute path from its names. -/
def ofNames (names : List (List Char)) : List Char :=
  '/' :: Text.joinWith ['/'] names

end CodeNav.Path

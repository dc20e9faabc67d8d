import CodeNav.Language.Comment
import CodeNav.Source.Basic

/-!
# What a file imports

A search for a definition returns hits from all over a repository. The import
statements of the querying file say which of them it can mean: each rule reads the
statements of one family of languages and keeps the hits whose path fits one of them.
A hit in the querying file itself always fits, in the languages where a file sees all
of its own names.

Import paths and file paths are compared by their segments (`endsWithSegments`), so
`b/c` is a tail of `a/b/c` and not of `ab/c`.
-/

namespace CodeNav.Imports

open Text

/-! ## Paths of modules -/

/-- The directory part of a path: all before the last slash. -/
def dirname (p : List Char) : List Char := ((p.reverse.dropWhile (· ≠ '/')).drop 1).reverse

/-- The last segment of a path. -/
def basename (p : List Char) : List Char := (p.reverse.takeWhile (· ≠ '/')).reverse

/-- The path without the extension of its last segment. A dot that opens the segment
opens no extension. -/
def stripExtension (p : List Char) : List Char :=
  let name := basename p
  let tail := name.reverse.takeWhile (· ≠ '.')
  if tail.length + 1 < name.length then p.take (p.length - tail.length - 1) else p

/-- A path below a directory; either may be empty. -/
def joinPath (base relative : List Char) : List Char :=
  if base.isEmpty then relative
  else if relative.isEmpty then base
  else base ++ '/' :: relative

/-- Walk a segment of a path, having gone through `done`, the last first. -/
def walk (done : List (List Char)) (segment : List Char) : List (List Char) :=
  if segment = [] || segment = ['.'] then done
  else if segment = ['.', '.'] then done.drop 1
  else segment :: done

/-- A path without empty, `.` and `..` segments. A `..` with nothing before it is lost. -/
def normalize (p : List Char) : List Char :=
  joinWith ['/'] ((splitAt '/' p).foldl walk []).reverse

/-- Whether a path equals `tail` or ends in a slash and `tail`. -/
def endsWithSegments (p tail : List Char) : Bool :=
  !tail.isEmpty &&
    (p = tail ||
      match dropTrail? tail p with
      | some head => head.getLast? = some '/'
      | none => false)

/-- A dotted name as a path. -/
def dotsToSlashes (s : List Char) : List Char := s.map fun c => if c = '.' then '/' else c

/-! ## The rules -/

/-- The file a lookup starts from. -/
structure Context where
  /-- the path of the file -/
  path : List Char
  /-- its text -/
  content : List Char

/-- A rule says whether a file path fits the imports of the querying file. -/
abbrev Rule := Context → List Char → Bool

/-- A group of a match, empty when it took no part. -/
def groupText (s : List Char) (m : Found) (i : Nat) : List Char := (Pattern.text? s m i).getD []

/-- `import a.b.C;`, `import static a.b.C.m;` and `import a.b.*;` -/
def javaImport : Pattern :=
  .fixed r"(?m)^\s*import\s+(?:static\s+)?([\w.]+?)(\.\*)?\s*;?\s*$"

/-- `package a.b` -/
def javaPackage : Pattern := .fixed r"(?m)^\s*package\s+([\w.]+)"

/-- An imported path, and whether it names a whole package. -/
structure JavaImport where
  path : List Char
  wildcard : Bool
  deriving DecidableEq, Repr

/-- The imports of a file, its own package last. -/
def javaImports (content : List Char) : List JavaImport :=
  let listed := (javaImport.findAll content).map fun m =>
    ⟨dotsToSlashes (groupText content m 1), (m.group? 2).isSome⟩
  let own := ((javaPackage.find? content).map fun m =>
    ⟨dotsToSlashes (groupText content m 1), true⟩).toList
  listed ++ own

/-- Whether a file path fits an import. A plain import names a class, or a member of
one, so the segment before its last is accepted too. -/
def JavaImport.fits (i : JavaImport) (file : List Char) : Bool :=
  if i.wildcard then endsWithSegments (dirname file) i.path
  else
    endsWithSegments (stripExtension file) i.path ||
      endsWithSegments (stripExtension file) (dirname i.path)

/-- Java and its relatives: dotted packages are directories. -/
def java : Rule := fun ctx file =>
  file = ctx.path || (javaImports ctx.content).any (·.fits file)

/-- `#include "a/b.h"` and `#import <a/b.h>` -/
def cInclude : Pattern :=
  .fixed "(?m)^\\s*#\\s*(?:include|import)\\s*[\"<]([^\">]+)[\">]"

/-- The included paths without their extensions. -/
def cIncludes (content : List Char) : List (List Char) :=
  (cInclude.findAll content).map fun m => stripExtension (groupText content m 1)

/-- The C family: included files whatever their extension, and the file's own sibling. -/
def cFamily : Rule := fun ctx file =>
  file = ctx.path || stripExtension file = stripExtension ctx.path ||
    (cIncludes ctx.content).any (endsWithSegments (stripExtension file))

/-- `import a.b, c` -/
def pythonImport : Pattern := .fixed r"(?m)^\s*import\s+([\w.]+(?:\s*,\s*[\w.]+)*)"

/-- `from ..a import b` -/
def pythonFrom : Pattern := .fixed r"(?m)^\s*from\s+(\.*)([\w.]*)\s+import\b"

/-- Go up `n` directories. -/
def ancestor : Nat → List Char → List Char
  | 0, p => p
  | n + 1, p => ancestor n (dirname p)

/-- The modules of the statements `import …`. -/
def pythonPlain (content : List Char) : List (List Char) :=
  (pythonImport.findAll content).flatMap fun m =>
    (splitAt ',' (groupText content m 1)).filterMap fun name =>
      let name := trim name
      if name.isEmpty then none else some (dotsToSlashes name)

/-- The modules of the statements `from … import …`: leading dots count directories up
from the querying file's own. -/
def pythonRelative (ctx : Context) : List (List Char) :=
  (pythonFrom.findAll ctx.content).filterMap fun m =>
    let dots := (groupText ctx.content m 1).length
    let name := dotsToSlashes (groupText ctx.content m 2)
    if dots = 0 then if name.isEmpty then none else some name
    else some (joinPath (ancestor (dots - 1) (dirname ctx.path)) name)

/-- Whether a file path is a module, its package file, or lies directly in its package. -/
def pythonFits (file module : List Char) : Bool :=
  !module.isEmpty &&
    (endsWithSegments (stripExtension file) module ||
      endsWithSegments (stripExtension file) (module ++ "/__init__".toList) ||
      endsWithSegments (dirname file) module)

/-- Python: absolute and relative modules. -/
def python : Rule := fun ctx file =>
  file = ctx.path ||
    (pythonPlain ctx.content ++ pythonRelative ctx).any (pythonFits file)

/-- `import x "a/b"` -/
def goSingle : Pattern := .fixed "(?m)^\\s*import\\s+(?:[\\w.]+\\s+)?\"([^\"]+)\""

/-- `import ( … )` -/
def goBlock : Pattern := .fixed r"(?s)\bimport\s*\((.*?)\)"

/-- One line of an import block. -/
def goEntry : Pattern := .fixed "(?m)^\\s*(?:[\\w.]+\\s+)?\"([^\"]+)\""

/-- The imported packages. -/
def goImports (content : List Char) : List (List Char) :=
  let single := (goSingle.findAll content).map fun m => groupText content m 1
  let blocks := (goBlock.findAll content).map fun m => groupText content m 1
  single ++ blocks.flatMap fun block =>
    (goEntry.findAll block).map fun m => groupText block m 1

/-- Module paths seldom begin like repository paths, so the last segments are compared. -/
def sameTail (dir package : List Char) : Bool :=
  !(basename dir).isEmpty && basename dir = basename package && package.contains '/'

/-- Go: packages are directories, and the file's own package is always in scope. -/
def go : Rule := fun ctx file =>
  dirname file = dirname ctx.path ||
    (goImports ctx.content).any fun package =>
      endsWithSegments (dirname file) package || sameTail (dirname file) package

/-- `from './a'`, `import '../b'`, `require('./c')` and `import('./d')` -/
def javascriptRelative : Pattern :=
  .fixed ("(?:\\bfrom\\s+|\\bimport\\s+|\\brequire\\(\\s*|\\bimport\\(\\s*)" ++
    "['\"](\\.\x7b1,2\x7d/[^'\"]+)['\"]")

/-- The files that relative specifiers name, seen from the querying file. -/
def javascriptTargets (ctx : Context) : List (List Char) :=
  (javascriptRelative.findAll ctx.content).map fun m =>
    normalize (joinPath (dirname ctx.path) (groupText ctx.content m 1))

/-- Whether a file path is a target, with or without extensions, or its index file. -/
def javascriptFits (file target : List Char) : Bool :=
  let stem := stripExtension file
  stem = stripExtension target || stem = target || dropTrail? "/index".toList stem = some target

/-- JavaScript and TypeScript: relative specifiers. -/
def javascript : Rule := fun ctx file =>
  file = ctx.path || (javascriptTargets ctx).any (javascriptFits file)

end CodeNav.Imports

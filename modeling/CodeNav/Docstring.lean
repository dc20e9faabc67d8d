import CodeNav.Language.Profile

/-!
# Documentation of a definition

A comment on the definition's own line wins. Otherwise every comment style of the
language is tried in order: moving away from the definition on the style's side, and
past lines that may stand in between, either the nearest line begins a run of line
comments, or a block comment ends (above) or begins (below) there.

What is returned is cut from consecutive lines of the source, in their order: **each
line of the documentation is a piece of one source line**, and no line of it ends in a
blank. Blocks lose the indentation of their first line that has any text.
-/

namespace CodeNav.Docstring

open Text

/-- A line with its number. -/
abbrev NumberedLine := List Char × Nat

/-- A text that is not blank, trimmed. -/
def nonBlank? (s : List Char) : Option (List Char) :=
  let t := trim s
  if t.isEmpty then none else some t

/-- Drop blank lines on both ends and blanks at the ends of lines; nothing left is no
documentation. -/
def finish? (body : List (List Char)) : Option (List Char) :=
  let kept := ((body.dropWhile allBlank).reverse.dropWhile allBlank).reverse
  if kept.isEmpty then none else some (unlines (kept.map trimEnd))

/-! ## On the definition's own line -/

/-- The body of a block comment that opens and closes on one line. -/
def inlineBlock? (block : BlockStyle) (line : List Char) : Option (List Char) := do
  let opened ← block.opening.find? line
  let rest := line.drop opened.stop
  let closed ← block.closing.find? rest
  nonBlank? (rest.take closed.start)

/-- The comment of a style on one line. -/
def inline? (style : CommentStyle) (line : List Char) : Option (List Char) :=
  ((style.line.bind (·.trailingBody? line)).bind nonBlank?).or
    (style.block.bind (inlineBlock? · line))

/-! ## Next to the definition -/

/-- The lines on one side of a definition, the nearest first. -/
def away (lines : List (List Char)) (definition : Nat) : Placement → List NumberedLine
  | .below => lines.zipIdx.drop (definition + 1)
  | .above => (lines.zipIdx.take definition).reverse

/-- The lines on one side, without the ones next to the definition that are to be passed
over. -/
def candidates (lines : List (List Char)) (definition : Nat) (ignore : Option Pattern)
    (side : Placement) : List NumberedLine :=
  (away lines definition side).dropWhile fun (line, _) =>
    match ignore with
    | some p => p.isMatch line
    | none => false

/-- The longest run, from the front of a list, on which a function answers. -/
def mapWhile {α β : Type} (f : α → Option β) : List α → List β
  | [] => []
  | a :: rest =>
    match f a with
    | some b => b :: mapWhile f rest
    | none => []

/-- The run of line comments next to a definition, in source order. -/
def lineRun? (style : LineStyle) (side : Placement) (near : List NumberedLine) :
    Option (List Char) :=
  let bodies := mapWhile (fun (line, _) => style.leadingBody? line) near
  if bodies.isEmpty then none
  else finish? (if side = .above then bodies.reverse else bodies)

/-- Where the body of a block comment starts and stops: line and character. -/
structure Extent where
  first : Nat
  start : Nat
  last : Nat
  stop : Nat

/-- The first answer of a function on a list. -/
def firstSome {α β : Type} (f : α → Option β) : List α → Option β
  | [] => none
  | a :: rest => (f a).or (firstSome f rest)

/-- The block that opens on the nearest line below a definition. -/
def extentBelow? (block : BlockStyle) : List NumberedLine → Option Extent
  | [] => none
  | (line, i) :: more => do
    let opened ← block.opening.find? line
    let sameLine := (block.closing.find? (line.drop opened.stop)).map fun m =>
      (i, opened.stop + m.start)
    let later := firstSome (fun (line, j) =>
      (block.closing.find? line).map fun m => (j, m.start)) more
    let (last, stop) ← sameLine.or later
    return ⟨i, opened.stop, last, stop⟩

/-- The block that closes on the nearest line above a definition, by its last closing
delimiter. -/
def extentAbove? (block : BlockStyle) : List NumberedLine → Option Extent
  | [] => none
  | (line, i) :: more => do
    let closed ← (block.closing.findAll line).getLast?
    let sameLine := (block.opening.find? (line.take closed.start)).map fun m => (i, m.stop)
    let earlier := firstSome (fun (line, j) =>
      (block.opening.find? line).map fun m => (j, m.stop)) more
    let (first, start) ← sameLine.or earlier
    return ⟨first, start, i, closed.start⟩

/-- The block next to a definition. -/
def extent? (block : BlockStyle) (side : Placement) (near : List NumberedLine) : Option Extent :=
  match side with
  | .below => extentBelow? block near
  | .above => extentAbove? block near

/-- The part of one line that belongs to the body of a block. -/
def Extent.part (e : Extent) (line : List Char) (i : Nat) : List Char :=
  let start := if i = e.first then e.start else 0
  let stop := if i = e.last then e.stop else line.length
  slice line start stop

/-- The lines of the body with their numbers, decoration removed. -/
def Extent.segments (e : Extent) (block : BlockStyle) (lines : List (List Char)) :
    List NumberedLine :=
  ((lines.zipIdx.drop e.first).take (e.last + 1 - e.first)).map fun (line, i) =>
    let part := e.part line i
    (match block.noise with
     | some noise => noise.dropFirst part
     | none => part, i)

/-- How many blanks a line begins with. -/
def leadingBlanks (line : List Char) : Nat := (line.takeWhile isBlank).length

/-- Drop at most `amount` blanks from the front of a line. -/
def stripIndent (amount : Nat) (line : List Char) : List Char :=
  line.drop (min amount (leadingBlanks line))

/-- The indentation of a block: that of its first line with text. Text that shares the
line of the opening delimiter is indented like that line. -/
def Extent.indent (e : Extent) (lines : List (List Char)) (segments : List NumberedLine) : Nat :=
  match segments.find? fun (segment, _) => !allBlank segment with
  | none => 0
  | some (segment, i) =>
    if i = e.first then leadingBlanks (lines[e.first]?.getD []) else leadingBlanks segment

/-- The block comment next to a definition. -/
def block? (block : BlockStyle) (side : Placement) (lines : List (List Char))
    (near : List NumberedLine) : Option (List Char) := do
  let e ← extent? block side near
  let segments := e.segments block lines
  finish? (segments.map fun (segment, _) => stripIndent (e.indent lines segments) segment)

/-- The documentation that one style finds next to a definition. -/
def nearby? (style : CommentStyle) (lines : List (List Char)) (definition : Nat)
    (ignore : Option Pattern) : Option (List Char) :=
  let near := candidates lines definition ignore style.placement
  (style.line.bind (lineRun? · style.placement near)).or
    (style.block.bind (block? · style.placement lines near))

/-- The documentation of the definition on a line. -/
def find? (styles : List CommentStyle) (ignore : Option Pattern) (text : String)
    (definition : Nat) : Option String := do
  let lines := Text.lines text.toList
  let line ← lines[definition]?
  let found ← (firstSome (inline? · line) styles).or
    (firstSome (nearby? · lines definition ignore) styles)
  return String.ofList found

end CodeNav.Docstring

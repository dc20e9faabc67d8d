import CodeNav.Pattern.Match
import CodeNav.Pattern.Parser

/-!
# Comment styles

How a language writes comments, and on which side of a definition its documentation
stands. A line style is one pattern read twice: as it is, to find a comment anywhere in
a line, and anchored after the indentation, to tell a line that is nothing but a
comment. Group 1 of either is the body.
-/

namespace CodeNav

namespace Pattern

/-- The pattern that matches nothing. -/
def never (source : String) : Pattern := ⟨source, .set .empty, []⟩

/-- A pattern whose text is known to be one. -/
def fixed (source : String) : Pattern := (parse? source).getD (never source)

end Pattern

/-- On which side of a definition its documentation stands. -/
inductive Placement where
  | above
  | below
  deriving DecidableEq, Repr

/-- Comments that run to the end of the line. -/
structure LineStyle where
  /-- finds a comment anywhere in a line -/
  anywhere : Pattern
  /-- finds a comment that is all of a line but its indentation -/
  leading : Pattern
  deriving DecidableEq, Repr

namespace LineStyle

/-- The line style of a pattern text. -/
def read? (pattern : String) : Option LineStyle := do
  return ⟨← Pattern.parse? pattern, ← Pattern.parse? ("^\\s*(?:" ++ pattern ++ ")")⟩

/-- The body of the comment that a pattern finds in a line. -/
def bodyBy? (p : Pattern) (line : List Char) : Option (List Char) :=
  (p.find? line).map fun m => (Pattern.text? line m 1).getD []

/-- The body of a line that is nothing but a comment. -/
def leadingBody? (style : LineStyle) (line : List Char) : Option (List Char) :=
  bodyBy? style.leading line

/-- The body of a comment anywhere in a line. -/
def trailingBody? (style : LineStyle) (line : List Char) : Option (List Char) :=
  bodyBy? style.anywhere line

end LineStyle

/-- Comments between two delimiters. -/
structure BlockStyle where
  opening : Pattern
  closing : Pattern
  /-- decoration in front of the lines of the body -/
  noise : Option Pattern
  deriving DecidableEq, Repr

/-- The block style of pattern texts. -/
def BlockStyle.read? (opening closing : String) (noise : Option String) : Option BlockStyle := do
  let noise ← match noise with
    | none => pure none
    | some text => (Pattern.parse? text).map some
  return ⟨← Pattern.parse? opening, ← Pattern.parse? closing, noise⟩

/-- A way to write comments: by lines, by blocks, or both. -/
structure CommentStyle where
  line : Option LineStyle
  block : Option BlockStyle
  placement : Placement
  deriving DecidableEq, Repr

end CodeNav

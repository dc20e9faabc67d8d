import CodeNav.Language.Profile

/-!
# The identifier under the cursor

A cursor stands on a character of a line, or just past the last one, where it still
touches the word before it. The token is the **maximal run** of identifier characters
around that character, so every cursor inside a word finds the same token.

A token counts as commented out when a line comment starts before it, unless it looks
like code all the same: a call, a member access, or a quoted name.
-/

namespace CodeNav

/-- The identifier under a cursor. -/
structure Token where
  text : String
  /-- the token stands in a comment and does not look like code -/
  isComment : Bool
  deriving DecidableEq, Repr

namespace Token

/-- The character that a cursor reads: the one it stands on, or the last one if it
stands just past it. -/
def cursorIn? (line : List Char) (character : Nat) : Option Nat :=
  if character < line.length then some character
  else if character = line.length ∧ 0 < line.length then some (character - 1)
  else none

/-- The maximal run of characters satisfying `p` around a place of a line: its start
and end. It is empty when the character there does not satisfy `p`. -/
def runAround (p : Char → Bool) (line : List Char) (cursor : Nat) : Nat × Nat :=
  let back := (line.take (cursor + 1)).reverse.takeWhile p
  let ahead := (line.drop cursor).takeWhile p
  (cursor + 1 - back.length, cursor + ahead.length)

/-- Where the first comment before `start` begins, each pattern's leftmost match counting. -/
def commentStart? (patterns : List Pattern) (line : List Char) (start : Nat) : Option Nat :=
  ((patterns.filterMap fun p => (p.find? line).map (·.start)).filter (· < start)).min?

/-- The quotes that set code apart inside a comment. -/
def quotes : List Char := ['"', '\'', Char.ofNat 96]

/-- Whether the stretch from `start` to `stop` stands between two quotes of one kind,
counting from `opening`. -/
def isQuoted (line : List Char) (opening start stop : Nat) : Bool :=
  quotes.any fun q =>
    (slice line opening start).count q % 2 = 1 && (line.drop stop).contains q

/-- Whether a token from `start` to `stop` stands in a comment and does not look like
code. -/
def isCommented (patterns : List Pattern) (line : List Char) (start stop : Nat) : Bool :=
  match commentStart? patterns line start with
  | none => false
  | some opening =>
    let isCall := (line.drop stop).head? = some '('
    let isMember := 0 < start && (line.drop (start - 1)).head? = some '.'
    !(isCall || isMember || isQuoted line opening start stop)

/-- The span of the token under a cursor in a line. -/
def spanAt? (identifier : Pattern) (line : List Char) (character : Nat) : Option (Nat × Nat) := do
  let cursor ← cursorIn? line character
  let (start, stop) := runAround (fun c => identifier.isMatch [c]) line cursor
  if start < stop then some (start, stop) else none

/-- The token under a position. -/
def find? (text : String) (position : Position) (comments : List Pattern)
    (identifier : Pattern) : Option Token := do
  let line ← (Text.lines text.toList)[position.line]?
  let (start, stop) ← spanAt? identifier line position.character
  return ⟨String.ofList (slice line start stop), isCommented comments line start stop⟩

end Token

end CodeNav

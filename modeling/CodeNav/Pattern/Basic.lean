import CodeNav.Pattern.CharSet

/-!
# Patterns

The syntax of regular expressions, and where in a text one can stand while matching
it. A `Cursor` keeps the character just passed, how many were passed, and the rest;
every assertion (`Look`) is a question about the two characters around it.

There is no lookaround and no backreference, so what a pattern matches depends on
the cursor alone. Matching itself is in `CodeNav.Pattern.Match`.
-/

namespace CodeNav

/-- A place in a text. -/
structure Cursor where
  /-- the character before this place; none at the start of the text -/
  before : Option Char
  /-- how many characters stand before this place -/
  pos : Nat
  /-- the characters from this place on -/
  rest : List Char
  deriving DecidableEq, Repr

namespace Cursor

/-- The start of a text. -/
def start (s : List Char) : Cursor := ⟨none, 0, s⟩

/-- Past the character `c`, with `rest` to go. -/
def past (here : Cursor) (c : Char) (rest : List Char) : Cursor := ⟨some c, here.pos + 1, rest⟩

/-- The character after this place; none at the end. -/
def after (here : Cursor) : Option Char := here.rest.head?

/-- The place `n` characters further on. -/
def advance (here : Cursor) : Nat → Cursor
  | 0 => here
  | n + 1 =>
    match here.rest with
    | [] => here
    | c :: rest => (here.past c rest).advance n

end Cursor

/-- An assertion about a place in a text; it takes no character. -/
inductive Look where
  | startOfText
  | endOfText
  | startOfLine
  | endOfLine
  /-- line start and end where `\r`, `\n` and `\r\n` all end a line -/
  | startOfLineCR
  | endOfLineCR
  | wordBoundary (ascii : Bool)
  | notWordBoundary (ascii : Bool)
  | wordStart (ascii : Bool)
  | wordEnd (ascii : Bool)
  | wordStartHalf (ascii : Bool)
  | wordEndHalf (ascii : Bool)
  deriving DecidableEq, Repr

namespace Look

/-- Whether there is a word character on one side of a place. -/
def wordAt (ascii : Bool) : Option Char → Bool
  | none => false
  | some c => if ascii then Text.isAsciiWord c else Text.isWord c

/-- Whether an assertion holds at a place. -/
def holds (l : Look) (here : Cursor) : Bool :=
  let a := here.before
  let b := here.after
  match l with
  | startOfText => a.isNone
  | endOfText => b.isNone
  | startOfLine => a.isNone || a = some '\n'
  | endOfLine => b.isNone || b = some '\n'
  | startOfLineCR => a.isNone || a = some '\n' || (a = some '\r' && b != some '\n')
  | endOfLineCR => b.isNone || b = some '\r' || (b = some '\n' && a != some '\r')
  | wordBoundary ascii => wordAt ascii a != wordAt ascii b
  | notWordBoundary ascii => wordAt ascii a == wordAt ascii b
  | wordStart ascii => !wordAt ascii a && wordAt ascii b
  | wordEnd ascii => wordAt ascii a && !wordAt ascii b
  | wordStartHalf ascii => !wordAt ascii a
  | wordEndHalf ascii => !wordAt ascii b

end Look

/-- A regular expression. -/
inductive Regex where
  /-- the empty text -/
  | empty
  /-- one character of a set -/
  | set (s : CharSet)
  /-- an assertion -/
  | look (l : Look)
  /-- one after the other -/
  | seq (a b : Regex)
  /-- the first choice, or failing that the second -/
  | alt (a b : Regex)
  /-- a numbered group, whose span is kept -/
  | group (index : Nat) (a : Regex)
  /-- at least `least` and at most `most` rounds; `greedy` prefers more of them -/
  | rounds (least : Nat) (most : Option Nat) (greedy : Bool) (a : Regex)
  deriving DecidableEq, Repr

namespace Regex

/-- Several expressions one after the other. -/
def seqs : List Regex → Regex
  | [] => empty
  | [r] => r
  | r :: rest => seq r (seqs rest)

/-- The first of several choices that matches. -/
def alts : List Regex → Regex
  | [] => empty
  | [r] => r
  | r :: rest => alt r (alts rest)

/-- The characters of a text, each for itself. -/
def literal (s : List Char) : Regex := seqs (s.map fun c => set (.only c))

end Regex

/-- A pattern: its text, what the text means, and which groups have names. -/
structure Pattern where
  /-- the text the pattern was read from -/
  source : String
  /-- the expression that the text stands for -/
  regex : Regex
  /-- the named groups with their numbers -/
  names : List (String × Nat)
  deriving DecidableEq, Repr

end CodeNav

import CodeNav.Text.Blank

/-!
# Lines and separated pieces

A text is cut at every line feed; a carriage return right before the cut (or at
the very end) belongs to the line ending and goes with it. The empty text has one
empty line, so **every text has at least one line**, and a text with `n` line
feeds has `n + 1` lines.
-/

namespace CodeNav.Text

/-- Cut a text at every `sep`. There is always one piece more than separators. -/
def splitAt (sep : Char) : List Char → List (List Char)
  | [] => [[]]
  | c :: rest =>
    if c = sep then [] :: splitAt sep rest
    else
      match splitAt sep rest with
      | [] => [[c]]
      | piece :: pieces => (c :: piece) :: pieces

/-- Put `sep` between the pieces of a text. -/
def joinWith (sep : List Char) (pieces : List (List Char)) : List Char :=
  List.intercalate sep pieces

/-- Drop one carriage return from the end of a line. -/
def dropReturn (line : List Char) : List Char :=
  if line.getLast? = some '\r' then line.dropLast else line

/-- The lines of a text without their endings. -/
def lines (s : List Char) : List (List Char) := (splitAt '\n' s).map dropReturn

/-- Lines written below each other. -/
def unlines (ls : List (List Char)) : List Char := joinWith ['\n'] ls

/-- The lines of a string. -/
def splitLines (s : String) : List String := (lines s.toList).map String.ofList

/-- The rest of a text after a leading `lead`, if it begins so. -/
def dropLead? (lead s : List Char) : Option (List Char) :=
  if lead.isPrefixOf s then some (s.drop lead.length) else none

/-- The front of a text before a trailing `tail`, if it ends so. -/
def dropTrail? (tail s : List Char) : Option (List Char) :=
  (dropLead? tail.reverse s.reverse).map List.reverse

/-- Cut a text at the first occurrence of `mark`, if there is one. -/
def cutAt? (mark : List Char) : List Char → Option (List Char × List Char)
  | [] => if mark.isEmpty then some ([], []) else none
  | c :: rest =>
    match dropLead? mark (c :: rest) with
    | some after => some ([], after)
    | none => (cutAt? mark rest).map fun (before, after) => (c :: before, after)

/-- Whether `mark` occurs in a text. -/
def occurs (mark s : List Char) : Bool := (cutAt? mark s).isSome

end CodeNav.Text

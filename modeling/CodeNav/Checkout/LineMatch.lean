import CodeNav.Json.Value
import CodeNav.Source.Basic
import CodeNav.Text.Utf8

/-!
# Matching lines

The search tool prints one JSON message per line. A message about a match names a file,
a line of it, and the stretches of the line that matched, in bytes. Everything else it
prints is passed over.

A stretch is kept only if it lies within the line, so **the range of a stretch always
lies on the line it came from**.
-/

namespace CodeNav

open Json

/-- A line that matched. -/
structure LineMatch where
  path : List Char
  /-- the number of the line, from zero -/
  lineNumber : Nat
  /-- the line without its ending -/
  line : List Char
  /-- where it matched, in bytes -/
  spans : List (Nat × Nat)
  deriving DecidableEq, Repr

namespace LineMatch

/-- A text in a message. -/
def text? (v : Value) : Option (List Char) :=
  match v.fields? ["text"] with
  | some [some t] => t.str?.map String.toList
  | _ => none

/-- A stretch in a message. -/
def span? (v : Value) : Option (Nat × Nat) :=
  match v.fields? ["start", "end"] with
  | some [some start, some stop] => do return (← start.nat?, ← stop.nat?)
  | _ => none

/-- The stretches in a message, which may be left out. -/
def spans? : Option Value → Option (List (Nat × Nat))
  | none => some []
  | some (.arr items) => items.mapM span?
  | some _ => none

/-- The ends of lines. -/
def isLineEnd (c : Char) : Bool := c = '\n' || c = '\r'

/-- A match from what a message says. -/
def make (path line : List Char) (number : Nat) (spans : List (Nat × Nat)) : LineMatch :=
  let line := Text.dropTail isLineEnd line
  { path := (Text.dropLead? ['.', '/'] path).getD path
    lineNumber := number - 1
    line
    spans := spans.filter fun (start, stop) => start ≤ stop && stop ≤ Utf8.size line }

/-- The match in the body of a message. -/
def ofBody? (v : Value) : Option LineMatch :=
  match v.fields? ["path", "lines", "line_number", "submatches"] with
  | some [some path, some lines, some number, spans] => do
    return make (← text? path) (← text? lines) (← number.nat?) (← spans? spans)
  | _ => none

/-- The body of a message about a match. -/
def body? : Value → Option Value
  | .obj fields =>
    match Value.fieldIn? fields "type", Value.fieldIn? fields "data" with
    | some (some (.str "match")), some body => body
    | _, _ => none
  | .arr [.str "match", body] => some body
  | _ => none

/-- The match that a line of output tells of. -/
def read? (output : List Char) : Option LineMatch := do
  ofBody? (← body? (← Value.parse? output))

/-- The number of characters before a byte offset; a byte offset inside a character
counts as the end of the line. -/
def charsTo (m : LineMatch) (offset : Nat) : Nat :=
  (Utf8.charsBefore? offset m.line).getD m.line.length

/-- The range of a stretch of characters. -/
def range (m : LineMatch) (start stop : Nat) : Range :=
  ⟨⟨m.lineNumber, start⟩, ⟨m.lineNumber, stop⟩⟩

/-- The name of the file, with slashes. -/
def file (m : LineMatch) : String :=
  String.ofList (m.path.map fun c => if c = '\\' then '/' else c)

/-- The line as it is shown. -/
def preview (m : LineMatch) : String := String.ofList (Text.trim m.line)

end LineMatch

end CodeNav

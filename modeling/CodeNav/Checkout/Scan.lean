import CodeNav.Checkout.Tool
import CodeNav.Json.Printer
import CodeNav.Pattern.Match
import CodeNav.Pattern.Parser

/-!
# Searching without a program

A search tool that looks through a tree of files itself. It takes the arguments that
every search tool takes and prints the same messages, so a checkout cannot tell it from
a program that is run: **one message per line that matches**, files in the order of the
tree. Files that are not text and names that begin with a dot are passed over.
-/

namespace CodeNav.Scan

open Json

/-- The pattern that arguments ask for, as it is written. -/
def asked? : List String → Option String
  | "-e" :: pattern :: _ => some pattern
  | _ :: rest => asked? rest
  | [] => none

/-- The pattern that arguments ask for. -/
def pattern? (arguments : List String) : Option Pattern := do
  let flags := if arguments.contains "--ignore-case" then "(?i)" else ""
  Pattern.parse? (flags ++ (← asked? arguments))

/-- A text in a message. -/
def ofText (text : List Char) : Value := .obj [("text", .str (String.ofList text))]

/-- A stretch of a line in a message, in bytes. -/
def ofSpan (line : List Char) (m : Found) : Value :=
  .obj [("start", .num (some (Utf8.size (line.take m.start)))),
    ("end", .num (some (Utf8.size (line.take m.stop))))]

/-- The message about a line, if it matches. Lines count from one. -/
def message? (p : Pattern) (path : List Char) (number : Nat) (line : List Char) :
    Option Value :=
  match p.findAll line with
  | [] => none
  | found =>
    some (.obj [("type", .str "match"), ("data", .obj [("path", ofText path),
      ("lines", ofText (line ++ ['\n'])), ("line_number", .num (some number)),
      ("submatches", .arr (found.map (ofSpan line)))])])

/-- The messages about a file. -/
def file (p : Pattern) (path : List Char) (bytes : List UInt8) : List Value :=
  match Utf8.decode bytes with
  | .error _ => []
  | .ok text =>
    (Text.lines text).zipIdx.filterMap fun (line, i) => message? p path (i + 1) line

/-- Whether a place is passed over. -/
def isHidden (names : List (List Char)) : Bool := names.any (·.head? = some '.')

/-- The messages about the files below a directory. -/
def below (p : Pattern) (t : FileTree) (root : List (List Char)) : List Value :=
  t.files.flatMap fun (names, bytes) =>
    let rest := names.drop root.length
    if !root.isPrefixOf names || isHidden rest then []
    else file p ('.' :: '/' :: Text.joinWith ['/'] rest) bytes

/-- What a search comes to. Nothing found ends with code 1, a pattern that cannot be
read with code 2. -/
def reply (t : FileTree) (root : List (List Char)) (arguments : List String) : ToolReply :=
  match pattern? arguments with
  | none => { output := [], exit := 2 }
  | some p =>
    match below p t root with
    | [] => { output := [], exit := 1 }
    | found => { output := found.flatMap fun v => v.toText.toUTF8.toList ++ [10] }

/-- A tool that looks through the files below a directory. -/
def tool (t : FileTree) (root : List (List Char)) : SearchTool Unit where
  run arguments s := (some (reply t root arguments), s)

end CodeNav.Scan

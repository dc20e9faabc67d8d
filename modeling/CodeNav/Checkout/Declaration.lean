import CodeNav.Path
import CodeNav.Pattern.Match
import CodeNav.Pattern.Parser

/-!
# Lines that declare a symbol

A line declares a symbol if it has one of three shapes: modifiers and a keyword before
the name, a method with a receiver before the name, or an assignment of a function or
class to it. In each shape a group called `name` spans the symbol. Which shape comes
first decides, not which match starts first.
-/

namespace CodeNav.Declaration

/-- Words that may stand before the keyword of a declaration. -/
def modifiers : List String :=
  [r"pub(?:\([^)]*\))?", "export", "default", "public", "private", "protected", "internal",
    "static", "final", "abstract", "async", "unsafe", "extern", "inline", "virtual", "override",
    "open", "sealed", "data", "readonly", "local", "declare"]

/-- Words that introduce a declaration. -/
def keywords : List String :=
  ["fn", "func", "function", "def", "defn", "defmacro", "class", "struct", "enum", "trait",
    "interface", "type", "typedef", "impl", "mod", "module", "namespace", "let", "var", "val",
    "const", "static", "object", "record", "macro_rules!", "protocol", "extension", "union",
    "alias", "sub", "proc", "#define", "package"]

/-- One of several patterns. -/
def oneOf (patterns : List String) : String := "(?:" ++ "|".intercalate patterns ++ ")"

/-- What stands before the name in a declaration by keyword. -/
def keywordForm : String :=
  r"^\s*(?:" ++ oneOf modifiers ++ r"\s+)*" ++ oneOf keywords ++ r"\s+[*&]?"

/-- What stands before the name of a method with a receiver. -/
def receiverForm : String := r"^\s*func\s*\([^)]*\)\s*"

/-- What stands before the name in an assignment. -/
def assignmentForm : String :=
  r"^\s*(?:(?:export|const|let|var|local)\s+)?(?:[A-Za-z0-9_$]+\.)*"

/-- What stands after the name in an assignment. -/
def assignmentTail : String := r"\s*(?::=|=\s*(?:function|class|async|lambda|\())"

/-- The end of a name. -/
def boundary : String := "(?:[^A-Za-z0-9_$]|$)"

/-- The shapes of lines that declare a symbol, as patterns. The symbol is a pattern
itself. -/
def shapes (symbol : String) (caseSensitive : Bool) : List String :=
  let flags := if caseSensitive then "" else "(?i)"
  let name := "(?P<name>" ++ symbol ++ ")"
  [flags ++ keywordForm ++ name ++ boundary,
    flags ++ receiverForm ++ name ++ boundary,
    flags ++ assignmentForm ++ name ++ assignmentTail]

/-- Read the shapes of lines that declare a symbol. -/
def patterns? (symbol : String) (caseSensitive : Bool) : Option (List Pattern) :=
  (shapes symbol caseSensitive).mapM Pattern.parse?

/-- Where the name stands on a line, by one shape. -/
def nameBy? (p : Pattern) (line : List Char) : Option (Nat × Nat) := do
  let found ← p.find? line
  found.group? (← p.groupNumber? "name")

/-- Where the name stands on a line, by the first shape that fits. -/
def name? (patterns : List Pattern) (line : List Char) : Option (Nat × Nat) :=
  patterns.findSome? (nameBy? · line)

/-- Extensions of languages in which `static` keeps a symbol to its file. -/
def staticExtensions : List String := ["c", "h", "cc", "cpp", "cxx", "hpp", "m", "mm", "cu"]

/-- Whether a line starts with the word `static`. -/
def startsStatic (line : List Char) : Bool :=
  let rest := Text.trimStart line
  match Text.dropLead? "static".toList rest with
  | some (c :: _) => Text.isBlank c
  | _ => false

/-- Whether what a line declares is visible in its own file only. -/
def isFileLocal (file : String) (line : List Char) : Bool :=
  ((Path.extension? file.toList).any fun ext => staticExtensions.contains (String.ofList ext)) &&
    startsStatic line

end CodeNav.Declaration

import CodeNav.Docstring
import CodeNav.Text.Utf8

/-!
# What is shown over a symbol

A hover is markdown: the definition's line as a fenced signature and, below a rule, its
documentation. Indented runs of the documentation are fenced too, so that they are
shown as they are written. **Every fence that is opened is closed**, because a run is
written with both its fences at once.
-/

namespace CodeNav.Hover

open Text

/-- The line that opens and closes a fenced block. -/
def fence : List Char := List.replicate 3 (Char.ofNat 96)

/-- What a signature does not end in. -/
def isOpenEnd (c : Char) : Bool :=
  c = '\x7b' || c = '(' || c = ':' || c = ';' || c = ',' || c = '=' || isBlank c

/-- The signature on a line. A line with a fence in it would break out of the block it
is shown in, and has none. -/
def signature? (line : List Char) : Option (List Char) :=
  if occurs fence line then none
  else
    let cleaned := dropTail isOpenEnd (trim line)
    if cleaned.isEmpty then none else some cleaned

/-- Lines that markdown would take for code: four spaces or a tab, then text. -/
def isIndented (line : List Char) : Bool :=
  ("    ".toList.isPrefixOf line || line.head? = some '\t') && !allBlank line

/-- How many bytes of blanks a line begins with. -/
def indentSize (line : List Char) : Nat := Utf8.size (line.takeWhile isBlank)

/-- A line without its first `n` bytes; empty if there are not so many, or if the cut
would fall inside a character. -/
def dropBytes (n : Nat) (line : List Char) : List Char :=
  match Utf8.charsBefore? n line with
  | some k => line.drop k
  | none => []

/-- The smallest indentation among lines with text. -/
def commonIndent (block : List (List Char)) : Nat :=
  (((block.filter fun line => !allBlank line).map indentSize).min?).getD 0

/-- A run of indented lines between fences. Blank lines at its end stand after it. -/
def flush (block : List (List Char)) : List (List Char) :=
  let body := (block.reverse.dropWhile allBlank).reverse
  let trailing := List.replicate (block.length - body.length) []
  if body.isEmpty then trailing
  else fence :: body.map (dropBytes (commonIndent body)) ++ [fence] ++ trailing

/-- Fence the indented runs of some lines; `block` is the run being gathered. -/
def wrapFrom (block : List (List Char)) : List (List Char) → List (List Char)
  | [] => flush block
  | line :: rest =>
    if isIndented line || (!block.isEmpty && allBlank line) then wrapFrom (block ++ [line]) rest
    else flush block ++ line :: wrapFrom [] rest

/-- Fence the indented runs of a documentation text. -/
def wrap (doc : List Char) : List Char := unlines (wrapFrom [] (lines doc))

/-- What stands between the signature and the documentation. -/
def divider : List Char := "\n\n---\n\n".toList

/-- The hover for a definition, given the text of its file. -/
def build? (content : String) (definition : Hit) (profile : Profile) : Option HoverPayload := do
  let n := definition.range.start.line
  let line ← (lines content.toList)[n]?
  let signature ← signature? line
  let head := fence ++ profile.id.toList ++ '\n' :: signature ++ '\n' :: fence
  let doc := match Docstring.find? profile.comments profile.ignore content n with
    | some doc => divider ++ wrap doc.toList
    | none => []
  return ⟨String.ofList (head ++ doc), some definition.range⟩

end CodeNav.Hover

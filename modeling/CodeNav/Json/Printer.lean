import CodeNav.Json.Value

/-!
# Writing JSON

Values as text, on one line or with one item a line. Objects are written in the order
of their fields. In a string only quotes, backslashes and control characters are
escaped, so **every other character is written as itself**. A number that is no unsigned
integer has no digits to write and comes out as `null`.
-/

namespace CodeNav.Json

/-- A digit of a hexadecimal number. -/
def hexDigit (n : Nat) : Char := if n < 10 then Char.ofNat (48 + n) else Char.ofNat (87 + n)

/-- A character inside a string. -/
def writeChar (c : Char) : List Char :=
  if c = '"' || c = '\\' then ['\\', c]
  else if c = '\n' then ['\\', 'n']
  else if c = '\r' then ['\\', 'r']
  else if c = '\t' then ['\\', 't']
  else if c.toNat = 8 then ['\\', 'b']
  else if c.toNat = 12 then ['\\', 'f']
  else if c.toNat < 32 then ['\\', 'u', '0', '0', hexDigit (c.toNat / 16), hexDigit (c.toNat % 16)]
  else [c]

/-- A string with its quotes. -/
def writeString (s : String) : List Char := '"' :: s.toList.flatMap writeChar ++ ['"']

namespace Value

/-- A value that is neither an array nor an object. -/
def writeAtom : Value → List Char
  | bool true => "true".toList
  | bool false => "false".toList
  | num (some n) => Nat.toDigits 10 n
  | str s => writeString s
  | _ => "null".toList

mutual

/-- A value on one line. -/
def compact : Value → List Char
  | arr items => '[' :: compactItems items ++ [']']
  | obj fields => '\x7b' :: compactFields fields ++ ['\x7d']
  | v => writeAtom v

/-- Items with commas between them. -/
def compactItems : List Value → List Char
  | [] => []
  | [v] => compact v
  | v :: vs => compact v ++ ',' :: compactItems vs

/-- Fields with commas between them. -/
def compactFields : List (String × Value) → List Char
  | [] => []
  | [(k, v)] => writeString k ++ ':' :: compact v
  | (k, v) :: fs => writeString k ++ ':' :: compact v ++ ',' :: compactFields fs

end

/-- The start of a line at a depth of nesting. -/
def newline (depth : Nat) : List Char := '\n' :: List.replicate (2 * depth) ' '

mutual

/-- A value with one item a line. -/
def indented (depth : Nat) : Value → List Char
  | arr [] => ['[', ']']
  | arr items => '[' :: indentedItems (depth + 1) items ++ newline depth ++ [']']
  | obj [] => ['\x7b', '\x7d']
  | obj fields => '\x7b' :: indentedFields (depth + 1) fields ++ newline depth ++ ['\x7d']
  | v => writeAtom v

/-- Items, each on a line of its own. -/
def indentedItems (depth : Nat) : List Value → List Char
  | [] => []
  | [v] => newline depth ++ indented depth v
  | v :: vs => newline depth ++ indented depth v ++ ',' :: indentedItems depth vs

/-- Fields, each on a line of its own. -/
def indentedFields (depth : Nat) : List (String × Value) → List Char
  | [] => []
  | [(k, v)] => newline depth ++ writeString k ++ ':' :: ' ' :: indented depth v
  | (k, v) :: fs =>
    newline depth ++ writeString k ++ ':' :: ' ' :: indented depth v ++
      ',' :: indentedFields depth fs

end

/-- The text of a value, on one line. -/
def toText (v : Value) : String := String.ofList v.compact

/-- The text of a value, with one item a line. -/
def toPrettyText (v : Value) : String := String.ofList (v.indented 0)

end Value

end CodeNav.Json

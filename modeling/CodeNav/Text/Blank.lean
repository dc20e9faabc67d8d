/-!
# Blank characters and trimming

The property `White_Space` of Unicode, the trimming functions that go with it,
and the cut of a text into its blank-separated words. Everything here works on
lists of characters: a text is turned into one once, and all later reasoning is
reasoning about lists.

The three trims are `dropWhile` on one or both ends, so **nothing but blanks is
lost** and **no blank is left at a trimmed end**; `words` never returns an empty
word.
-/

namespace CodeNav.Text

/-- The characters with the Unicode property `White_Space`. -/
def isBlank (c : Char) : Bool :=
  let n := c.toNat
  (9 ≤ n && n ≤ 13) || n == 0x20 || n == 0x85 || n == 0xA0 || n == 0x1680 ||
    (0x2000 ≤ n && n ≤ 0x200A) || n == 0x2028 || n == 0x2029 || n == 0x202F ||
    n == 0x205F || n == 0x3000

/-- A text is blank when every character of it is; the empty text is blank. -/
def allBlank (s : List Char) : Bool := s.all isBlank

/-- Drop the blanks in front. -/
def trimStart (s : List Char) : List Char := s.dropWhile isBlank

/-- Drop the longest tail whose characters all satisfy `p`. -/
def dropTail (p : Char → Bool) (s : List Char) : List Char := (s.reverse.dropWhile p).reverse

/-- Drop the blanks behind. -/
def trimEnd (s : List Char) : List Char := dropTail isBlank s

/-- Drop the blanks on both ends. -/
def trim (s : List Char) : List Char := trimEnd (trimStart s)

/-- Gather the words of a text whose first characters, in reverse, are `word`. -/
def wordsFrom (word : List Char) : List Char → List (List Char)
  | [] => if word.isEmpty then [] else [word.reverse]
  | c :: rest =>
    if isBlank c then
      if word.isEmpty then wordsFrom [] rest else word.reverse :: wordsFrom [] rest
    else wordsFrom (c :: word) rest

/-- The blank-separated words of a text, in order. -/
def words (s : List Char) : List (List Char) := wordsFrom [] s

/-! ## The same on strings -/

/-- `trim` on a string. -/
def trimmed (s : String) : String := String.ofList (trim s.toList)

/-- Whether a string holds blanks only. -/
def isBlankText (s : String) : Bool := allBlank s.toList

end CodeNav.Text

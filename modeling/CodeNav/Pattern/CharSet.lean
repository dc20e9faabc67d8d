import CodeNav.Text.Blank
import CodeNav.Text.CaseFold
import CodeNav.Text.Category

/-!
# Sets of characters

The sets a pattern can name, as syntax: single characters, ranges, the Unicode
classes, and the set operations. `CharSet.mem` decides membership by recursion on
the syntax, so **each operation means what its name says**, and searching up to case is
one more operation: `anyCase s` holds the characters with a variant in `s`.
-/

namespace CodeNav

open Text

/-- A set of characters. -/
inductive CharSet where
  /-- no character -/
  | empty
  /-- one character -/
  | only (c : Char)
  /-- all characters between two, both included -/
  | range (lo hi : Char)
  /-- word characters: letters, marks, digits, connectors, joiners -/
  | word
  /-- decimal digits of any script -/
  | decimal
  /-- blanks -/
  | blank
  /-- the characters of one general category -/
  | category (k : Category)
  /-- circled and squared letters -/
  | enclosedLetter
  /-- members of one of two sets -/
  | union (a b : CharSet)
  /-- members of both sets -/
  | inter (a b : CharSet)
  /-- everything else -/
  | compl (a : CharSet)
  /-- characters that have a case variant in the set; with `ascii`, only the variants
  of ASCII letters among themselves count -/
  | anyCase (ascii : Bool) (a : CharSet)
  deriving DecidableEq, Repr

namespace CharSet

/-- Membership. -/
def mem : CharSet → Char → Bool
  | empty, _ => false
  | only x, c => c = x
  | range lo hi, c => lo.toNat ≤ c.toNat && c.toNat ≤ hi.toNat
  | word, c => isWord c
  | decimal, c => isDecimal c
  | blank, c => isBlank c
  | category k, c => Category.ofChar c = k
  | enclosedLetter, c => isEnclosedLetter c.toNat
  | union a b, c => a.mem c || b.mem c
  | inter a b, c => a.mem c && b.mem c
  | compl a, c => !a.mem c
  | anyCase ascii a, c =>
    if ascii then a.mem c || a.mem c.toLower || a.mem c.toUpper
    else (orbit c).any a.mem

/-- Every character. -/
def all : CharSet := compl empty

/-- The characters of the first set that are not in the second. -/
def diff (a b : CharSet) : CharSet := inter a (compl b)

/-- The characters of exactly one of two sets. -/
def symmDiff (a b : CharSet) : CharSet := union (diff a b) (diff b a)

/-- The union of several sets. -/
def unions : List CharSet → CharSet
  | [] => empty
  | [s] => s
  | s :: rest => union s (unions rest)

/-- The set of the listed categories. -/
def categories (ks : List Category) : CharSet := unions (ks.map category)

/-- ASCII letters, digits and the underscore. -/
def asciiWord : CharSet :=
  unions [range '0' '9', range 'A' 'Z', only '_', range 'a' 'z']

/-- The ASCII blanks. -/
def asciiBlank : CharSet := unions [range '\t' '\r', only ' ']

/-- A sufficient test that a set has ASCII members only. -/
def isAscii : CharSet → Bool
  | empty => true
  | only c => c.toNat < 128
  | range _ hi => hi.toNat < 128
  | word | decimal | blank | category _ | enclosedLetter | compl _ => false
  | union a b => a.isAscii && b.isAscii
  | inter a b => a.isAscii || b.isAscii
  | anyCase ascii a => ascii && a.isAscii

/-! ## Named sets -/

/-- The bracketed names of ASCII classes. -/
def ofPosixName? : String → Option CharSet
  | "alnum" => some (unions [range '0' '9', range 'A' 'Z', range 'a' 'z'])
  | "alpha" => some (unions [range 'A' 'Z', range 'a' 'z'])
  | "ascii" => some (range (Char.ofNat 0) (Char.ofNat 127))
  | "blank" => some (unions [only '\t', only ' '])
  | "cntrl" => some (unions [range (Char.ofNat 0) (Char.ofNat 31), only (Char.ofNat 127)])
  | "digit" => some (range '0' '9')
  | "graph" => some (range '!' '~')
  | "lower" => some (range 'a' 'z')
  | "print" => some (range ' ' '~')
  | "punct" =>
    some (unions [range '!' '/', range ':' '@', range '[' (Char.ofNat 96), range '\x7b' '~'])
  | "space" => some asciiBlank
  | "upper" => some (range 'A' 'Z')
  | "word" => some asciiWord
  | "xdigit" => some (unions [range '0' '9', range 'A' 'F', range 'a' 'f'])
  | _ => none

/-- General categories by short and long name, in loose spelling: lower case, without
blanks, hyphens and underscores. -/
def ofCategoryName? : String → Option CharSet
  | "l" | "letter" =>
    some (categories [.uppercaseLetter, .lowercaseLetter, .titlecaseLetter, .modifierLetter,
      .otherLetter])
  | "lc" | "casedletter" =>
    some (categories [.uppercaseLetter, .lowercaseLetter, .titlecaseLetter])
  | "lu" | "uppercaseletter" => some (category .uppercaseLetter)
  | "ll" | "lowercaseletter" => some (category .lowercaseLetter)
  | "lt" | "titlecaseletter" => some (category .titlecaseLetter)
  | "lm" | "modifierletter" => some (category .modifierLetter)
  | "lo" | "otherletter" => some (category .otherLetter)
  | "m" | "mark" | "combiningmark" =>
    some (categories [.nonspacingMark, .spacingMark, .enclosingMark])
  | "mn" | "nonspacingmark" => some (category .nonspacingMark)
  | "mc" | "spacingmark" => some (category .spacingMark)
  | "me" | "enclosingmark" => some (category .enclosingMark)
  | "n" | "number" => some (categories [.decimalNumber, .letterNumber, .otherNumber])
  | "nd" | "decimalnumber" | "digit" => some (category .decimalNumber)
  | "nl" | "letternumber" => some (category .letterNumber)
  | "no" | "othernumber" => some (category .otherNumber)
  | "p" | "punctuation" | "punct" =>
    some (categories [.connectorPunctuation, .dashPunctuation, .openPunctuation,
      .closePunctuation, .initialPunctuation, .finalPunctuation, .otherPunctuation])
  | "pc" | "connectorpunctuation" => some (category .connectorPunctuation)
  | "pd" | "dashpunctuation" => some (category .dashPunctuation)
  | "ps" | "openpunctuation" => some (category .openPunctuation)
  | "pe" | "closepunctuation" => some (category .closePunctuation)
  | "pi" | "initialpunctuation" => some (category .initialPunctuation)
  | "pf" | "finalpunctuation" => some (category .finalPunctuation)
  | "po" | "otherpunctuation" => some (category .otherPunctuation)
  | "s" | "symbol" =>
    some (categories [.mathSymbol, .currencySymbol, .modifierSymbol, .otherSymbol])
  | "sm" | "mathsymbol" => some (category .mathSymbol)
  | "sc" | "currencysymbol" => some (category .currencySymbol)
  | "sk" | "modifiersymbol" => some (category .modifierSymbol)
  | "so" | "othersymbol" => some (category .otherSymbol)
  | "z" | "separator" =>
    some (categories [.spaceSeparator, .lineSeparator, .paragraphSeparator])
  | "zs" | "spaceseparator" => some (category .spaceSeparator)
  | "zl" | "lineseparator" => some (category .lineSeparator)
  | "zp" | "paragraphseparator" => some (category .paragraphSeparator)
  | "c" | "other" => some (categories [.control, .format, .surrogate, .privateUse, .unassigned])
  | "cc" | "control" | "cntrl" => some (category .control)
  | "cf" | "format" => some (category .format)
  | "co" | "privateuse" => some (category .privateUse)
  | "cn" | "unassigned" => some (category .unassigned)
  | "any" => some all
  | "ascii" => some (range (Char.ofNat 0) (Char.ofNat 127))
  | "assigned" => some (compl (category .unassigned))
  | _ => none

/-- The scripts that patterns may name, as ranges of code points. These are the scripts that are
common in source texts; the other ones of Unicode are left out. -/
def scriptRanges? : String → Option (List (Nat × Nat))
  | "latin" | "latn" => some
    [(0x41, 0x5A), (0x61, 0x7A), (0xAA, 0xAA), (0xBA, 0xBA), (0xC0, 0xD6), (0xD8, 0xF6),
     (0xF8, 0x2B8), (0x2E0, 0x2E4), (0x1D00, 0x1D25), (0x1D2C, 0x1D5C), (0x1D62, 0x1D65),
     (0x1D6B, 0x1D77), (0x1D79, 0x1DBE), (0x1E00, 0x1EFF), (0x2071, 0x2071), (0x207F, 0x207F),
     (0x2090, 0x209C), (0x212A, 0x212B), (0x2132, 0x2132), (0x214E, 0x214E), (0x2160, 0x2188),
     (0x2C60, 0x2C7F), (0xA722, 0xA787), (0xA78B, 0xA7CD), (0xA7D0, 0xA7D1), (0xA7D3, 0xA7D3),
     (0xA7D5, 0xA7DC), (0xA7F2, 0xA7FF), (0xAB30, 0xAB5A), (0xAB5C, 0xAB64), (0xAB66, 0xAB69),
     (0xFB00, 0xFB06), (0xFF21, 0xFF3A), (0xFF41, 0xFF5A), (0x10780, 0x10785),
     (0x10787, 0x107B0), (0x107B2, 0x107BA), (0x1DF00, 0x1DF1E), (0x1DF25, 0x1DF2A)]
  | "greek" | "grek" => some
    [(0x370, 0x373), (0x375, 0x377), (0x37A, 0x37D), (0x37F, 0x37F), (0x384, 0x384),
     (0x386, 0x386), (0x388, 0x38A), (0x38C, 0x38C), (0x38E, 0x3A1), (0x3A3, 0x3E1),
     (0x3F0, 0x3FF), (0x1D26, 0x1D2A), (0x1D5D, 0x1D61), (0x1D66, 0x1D6A), (0x1DBF, 0x1DBF),
     (0x1F00, 0x1F15), (0x1F18, 0x1F1D), (0x1F20, 0x1F45), (0x1F48, 0x1F4D), (0x1F50, 0x1F57),
     (0x1F59, 0x1F59), (0x1F5B, 0x1F5B), (0x1F5D, 0x1F5D), (0x1F5F, 0x1F7D), (0x1F80, 0x1FB4),
     (0x1FB6, 0x1FC4), (0x1FC6, 0x1FD3), (0x1FD6, 0x1FDB), (0x1FDD, 0x1FEF), (0x1FF2, 0x1FF4),
     (0x1FF6, 0x1FFE), (0x2126, 0x2126), (0xAB65, 0xAB65), (0x10140, 0x1018E),
     (0x101A0, 0x101A0), (0x1D200, 0x1D245)]
  | "cyrillic" | "cyrl" => some
    [(0x400, 0x484), (0x487, 0x52F), (0x1C80, 0x1C8A), (0x1D2B, 0x1D2B), (0x1D78, 0x1D78),
     (0x2DE0, 0x2DFF), (0xA640, 0xA69F), (0xFE2E, 0xFE2F), (0x1E030, 0x1E06D),
     (0x1E08F, 0x1E08F)]
  | "han" | "hani" => some
    [(0x2E80, 0x2E99), (0x2E9B, 0x2EF3), (0x2F00, 0x2FD5), (0x3005, 0x3005), (0x3007, 0x3007),
     (0x3021, 0x3029), (0x3038, 0x303B), (0x3400, 0x4DBF), (0x4E00, 0x9FFF), (0xF900, 0xFA6D),
     (0xFA70, 0xFAD9), (0x16FE2, 0x16FE3), (0x16FF0, 0x16FF6), (0x20000, 0x2A6DF),
     (0x2A700, 0x2B739), (0x2B740, 0x2B81D), (0x2B820, 0x2CEA1), (0x2CEB0, 0x2EBE0),
     (0x2EBF0, 0x2EE5D), (0x2F800, 0x2FA1D), (0x30000, 0x3134A), (0x31350, 0x323AF)]
  | "hiragana" | "hira" => some
    [(0x3041, 0x3096), (0x309D, 0x309F), (0x1B001, 0x1B11F), (0x1B132, 0x1B132),
     (0x1B150, 0x1B152), (0x1F200, 0x1F200)]
  | "katakana" | "kana" => some
    [(0x30A1, 0x30FA), (0x30FD, 0x30FF), (0x31F0, 0x31FF), (0x32D0, 0x32FE), (0x3300, 0x3357),
     (0xFF66, 0xFF6F), (0xFF71, 0xFF9D), (0x1AFF0, 0x1AFF3), (0x1AFF5, 0x1AFFB),
     (0x1AFFD, 0x1AFFE), (0x1B000, 0x1B000), (0x1B120, 0x1B122), (0x1B155, 0x1B155),
     (0x1B164, 0x1B167)]
  | "hangul" | "hang" => some
    [(0x1100, 0x11FF), (0x302E, 0x302F), (0x3131, 0x318E), (0x3200, 0x321E), (0x3260, 0x327E),
     (0xA960, 0xA97C), (0xAC00, 0xD7A3), (0xD7B0, 0xD7C6), (0xD7CB, 0xD7FB), (0xFFA0, 0xFFBE),
     (0xFFC2, 0xFFC7), (0xFFCA, 0xFFCF), (0xFFD2, 0xFFD7), (0xFFDA, 0xFFDC)]
  | "arabic" | "arab" => some
    [(0x600, 0x604), (0x606, 0x60B), (0x60D, 0x61A), (0x61C, 0x61E), (0x620, 0x63F),
     (0x641, 0x64A), (0x656, 0x66F), (0x671, 0x6DC), (0x6DE, 0x6FF), (0x750, 0x77F),
     (0x870, 0x88E), (0x890, 0x891), (0x897, 0x8E1), (0x8E3, 0x8FF), (0xFB50, 0xFBC2),
     (0xFBD3, 0xFD3D), (0xFD40, 0xFD8F), (0xFD92, 0xFDC7), (0xFDCF, 0xFDCF), (0xFDF0, 0xFDFF),
     (0xFE70, 0xFE74), (0xFE76, 0xFEFC), (0x10E60, 0x10E7E), (0x10EC2, 0x10EC4),
     (0x10EFC, 0x10EFF), (0x1EE00, 0x1EE03), (0x1EE05, 0x1EE1F), (0x1EE21, 0x1EE22),
     (0x1EE24, 0x1EE24), (0x1EE27, 0x1EE27), (0x1EE29, 0x1EE32), (0x1EE34, 0x1EE37),
     (0x1EE39, 0x1EE39), (0x1EE3B, 0x1EE3B), (0x1EE42, 0x1EE42), (0x1EE47, 0x1EE47),
     (0x1EE49, 0x1EE49), (0x1EE4B, 0x1EE4B), (0x1EE4D, 0x1EE4F), (0x1EE51, 0x1EE52),
     (0x1EE54, 0x1EE54), (0x1EE57, 0x1EE57), (0x1EE59, 0x1EE59), (0x1EE5B, 0x1EE5B),
     (0x1EE5D, 0x1EE5D), (0x1EE5F, 0x1EE5F), (0x1EE61, 0x1EE62), (0x1EE64, 0x1EE64),
     (0x1EE67, 0x1EE6A), (0x1EE6C, 0x1EE72), (0x1EE74, 0x1EE77), (0x1EE79, 0x1EE7C),
     (0x1EE7E, 0x1EE7E), (0x1EE80, 0x1EE89), (0x1EE8B, 0x1EE9B), (0x1EEA1, 0x1EEA3),
     (0x1EEA5, 0x1EEA9), (0x1EEAB, 0x1EEBB), (0x1EEF0, 0x1EEF1)]
  | "hebrew" | "hebr" => some
    [(0x591, 0x5C7), (0x5D0, 0x5EA), (0x5EF, 0x5F4), (0xFB1D, 0xFB36), (0xFB38, 0xFB3C),
     (0xFB3E, 0xFB3E), (0xFB40, 0xFB41), (0xFB43, 0xFB44), (0xFB46, 0xFB4F)]
  | "thai" => some
    [(0xE01, 0xE3A), (0xE40, 0xE5B)]
  | "devanagari" | "deva" => some
    [(0x900, 0x950), (0x955, 0x963), (0x966, 0x97F), (0xA8E0, 0xA8FF), (0x11B00, 0x11B09)]
  | "armenian" | "armn" => some
    [(0x531, 0x556), (0x559, 0x58A), (0x58D, 0x58F), (0xFB13, 0xFB17)]
  | "georgian" | "geor" => some
    [(0x10A0, 0x10C5), (0x10C7, 0x10C7), (0x10CD, 0x10CD), (0x10D0, 0x10FA), (0x10FC, 0x10FF),
     (0x1C90, 0x1CBA), (0x1CBD, 0x1CBF), (0x2D00, 0x2D25), (0x2D27, 0x2D27), (0x2D2D, 0x2D2D)]
  | _ => none

/-- A set from ranges of code points. -/
def ofRanges (rs : List (Nat × Nat)) : CharSet :=
  unions (rs.map fun (lo, hi) => range (Char.ofNat lo) (Char.ofNat hi))

/-- The letters in the wide sense: with marks that act as letters left out. -/
def alphabetic : CharSet :=
  unions [categories [.uppercaseLetter, .lowercaseLetter, .titlecaseLetter, .modifierLetter,
    .otherLetter, .letterNumber], enclosedLetter]

/-- Lower-case characters, the modifier letters and circled forms included. -/
def lowercase : CharSet :=
  union (category .lowercaseLetter) (ofRanges
    [(0xAA, 0xAA), (0xBA, 0xBA), (0x2B0, 0x2B8), (0x2C0, 0x2C1), (0x2E0, 0x2E4), (0x345, 0x345),
     (0x37A, 0x37A), (0x10FC, 0x10FC), (0x1D2C, 0x1D6A), (0x1D78, 0x1D78), (0x1D9B, 0x1DBF),
     (0x2071, 0x2071), (0x207F, 0x207F), (0x2090, 0x209C), (0x2170, 0x217F), (0x24D0, 0x24E9),
     (0x2C7C, 0x2C7D), (0xA69C, 0xA69D), (0xA770, 0xA770), (0xA7F2, 0xA7F4), (0xA7F8, 0xA7F9),
     (0xAB5C, 0xAB5F), (0xAB69, 0xAB69), (0x10780, 0x10780), (0x10783, 0x10785),
     (0x10787, 0x107B0), (0x107B2, 0x107BA), (0x1E030, 0x1E06D)])

/-- Upper-case characters, Roman numerals and circled forms included. -/
def uppercase : CharSet :=
  union (category .uppercaseLetter) (ofRanges
    [(0x2160, 0x216F), (0x24B6, 0x24CF), (0x1F130, 0x1F149), (0x1F150, 0x1F169),
     (0x1F170, 0x1F189)])

/-- The set with the given Unicode property, its name in loose spelling: the general categories,
the scripts of `scriptRanges?`, and four binary properties. The other binary properties, ages
and the properties of word and sentence breaks are left out. -/
def ofPropertyName? (name : String) : Option CharSet :=
  match ofCategoryName? name with
  | some s => some s
  | none =>
    match scriptRanges? name with
    | some rs => some (ofRanges rs)
    | none =>
      match name with
      | "alphabetic" | "alpha" => some alphabetic
      | "lowercase" | "lower" => some lowercase
      | "uppercase" | "upper" => some uppercase
      | "whitespace" | "space" | "wspace" => some blank
      | _ => none

end CharSet

end CodeNav

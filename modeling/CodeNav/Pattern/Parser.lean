import CodeNav.Pattern.Basic
import CodeNav.Text.Lines

/-!
# Reading patterns

The text of a pattern, read into the expression it stands for. What is refused:
lookaround, backreferences, unknown escapes, unbalanced brackets, a repetition with
nothing to repeat, reversed bounds or ranges, group names given twice.

**What is left out.** Of the Unicode properties only those of `CharSet.ofPropertyName?` are
known: `\p{Emoji}`, `\p{Hex_Digit}`, `\p{Bengali}` and `\p{Age=6.0}` are patterns of the
syntax that is read here, and refused nevertheless. There is no limit to how deep groups may be
nested, nor to how large a pattern may become by its repetitions, where an engine that compiles
patterns has one for either and refuses what is beyond it.

One function reads the inside of a group up to its closing bracket (or the end of
the text); it calls itself for nested groups, and each call has taken at least one
character, so the length of the text bounds the calls.

**Flags.** `(?i)` and its kin change the flags for the rest of the group they stand
in, later alternatives included; the end of the group restores them.
-/

namespace CodeNav.Pattern

/-- The switches a pattern can set. -/
structure Flags where
  /-- `i`: letters match up to case -/
  anyCase : Bool := false
  /-- `m`: `^` and `$` match at line ends -/
  multiLine : Bool := false
  /-- `s`: the dot matches a line feed too -/
  dotAll : Bool := false
  /-- `U`: repetitions prefer fewer rounds -/
  lazy : Bool := false
  /-- `u`: classes are those of Unicode -/
  unicode : Bool := true
  /-- `R`: `\r` ends a line too -/
  returns : Bool := false
  /-- `x`: blanks and comments in the pattern are passed over -/
  spaced : Bool := false

/-- Where the reader stands. -/
structure Reader where
  /-- the text still to be read -/
  rest : List Char
  /-- the flags in force -/
  flags : Flags
  /-- how many numbered groups have been opened -/
  groups : Nat
  /-- the named groups so far -/
  names : List (String × Nat)

namespace Reader

/-- Drop a comment: everything up to a line feed. -/
def dropComment : List Char → List Char
  | [] => []
  | '\n' :: rest => '\n' :: rest
  | _ :: rest => dropComment rest

/-- Drop blanks and comments. Comments end before the fuel, the text's length, does. -/
def dropSpaceIn : (fuel : Nat) → List Char → List Char
  | 0, s => s
  | _, [] => []
  | fuel + 1, c :: rest =>
    if Text.isBlank c then dropSpaceIn fuel rest
    else if c = '#' then dropSpaceIn fuel (dropComment rest)
    else c :: rest

/-- Pass over blanks and comments if the flags say so. -/
def dropSpace (f : Flags) (s : List Char) : List Char :=
  if f.spaced then dropSpaceIn s.length s else s

end Reader

/-- The characters with a meaning of their own, which a backslash takes away. -/
def isMeta (c : Char) : Bool := "\\.+*?()|[]\x7b\x7d^$#&-~".toList.contains c

/-- Whether a backslash may stand before a character that it does not change. -/
def isEscapable (c : Char) : Bool :=
  isMeta c || (c.toNat < 128 && !c.isAlphanum && c ≠ '<' && c ≠ '>')

/-- The value of a hexadecimal digit. -/
def hexDigit? (c : Char) : Option Nat :=
  if c.isDigit then some (c.toNat - '0'.toNat)
  else if 'a' ≤ c && c ≤ 'f' then some (c.toNat - 'a'.toNat + 10)
  else if 'A' ≤ c && c ≤ 'F' then some (c.toNat - 'A'.toNat + 10)
  else none

/-- The number written by hexadecimal digits. -/
def hexNumber? (s : List Char) : Option Nat :=
  s.foldlM (fun n c => (hexDigit? c).map (n * 16 + ·)) 0

/-- The character with a number, unless the number is too large or a surrogate. -/
def charOfNumber? (n : Nat) : Option Char :=
  if h : n.isValidChar then some (Char.ofNatAux n h) else none

/-- What an escape stands for. -/
inductive Escape where
  | char (c : Char)
  | class (s : CharSet)
  | look (l : Look)

/-- The Perl classes; without Unicode they are ASCII. -/
def perlClass? (f : Flags) : Char → Option CharSet
  | 'd' => some (if f.unicode then .decimal else .range '0' '9')
  | 's' => some (if f.unicode then .blank else .asciiBlank)
  | 'w' => some (if f.unicode then .word else .asciiWord)
  | 'D' => some (.compl (if f.unicode then .decimal else .range '0' '9'))
  | 'S' => some (.compl (if f.unicode then .blank else .asciiBlank))
  | 'W' => some (.compl (if f.unicode then .word else .asciiWord))
  | _ => none

/-- Read the number of `\x`, `\u` and `\U`: a fixed count of digits, or any count in
braces. -/
def hexEscape? (digits : Nat) (f : Flags) (s : List Char) : Option (Char × List Char) :=
  match Reader.dropSpace f s with
  | '\x7b' :: rest =>
    let inner := rest.takeWhile (· ≠ '\x7d')
    let tidy := if f.spaced then inner.filter (fun c => !Text.isBlank c) else inner
    match rest.dropWhile (· ≠ '\x7d') with
    | [] => none
    | _ :: after =>
      if tidy.isEmpty || tidy.length > 8 then none
      else do
        let c ← charOfNumber? (← hexNumber? tidy)
        return (c, after)
  | rest =>
    if rest.length < digits then none
    else do
      let c ← charOfNumber? (← hexNumber? (rest.take digits))
      return (c, rest.drop digits)

/-- Property names are compared in lower case without blanks, hyphens and
underscores, and without a leading `is`. -/
def looseName (s : List Char) : String :=
  let t := (s.filter fun c => !(Text.isBlank c || c = '-' || c = '_')).map Char.toLower
  let u := match t with
    | 'i' :: 's' :: more => if more = ['c'] then t else more
    | _ => t
  String.ofList u

/-- The set named by the inside of `\p`; none if it is no property, or none that is known here. -/
def property? (s : List Char) : Option CharSet :=
  let (negated, s) := match s with
    | '^' :: more => (true, more)
    | _ => (false, s)
  let named : Option (Bool × CharSet) :=
    match Text.cutAt? ['!', '='] s with
    | some (key, value) => (keyed? key value).map (true, ·)
    | none =>
      match Text.cutAt? [':'] s with
      | some (key, value) => (keyed? key value).map (false, ·)
      | none =>
        match Text.cutAt? ['='] s with
        | some (key, value) => (keyed? key value).map (false, ·)
        | none => (CharSet.ofPropertyName? (looseName s)).map (false, ·)
  named.map fun (unequal, set) => if negated != unequal then .compl set else set
where
  keyed? (key value : List Char) : Option CharSet :=
    match looseName key with
    | "gc" | "generalcategory" => CharSet.ofCategoryName? (looseName value)
    | "sc" | "script" | "scx" | "scriptextensions" =>
      (CharSet.scriptRanges? (looseName value)).map CharSet.ofRanges
    | _ => none

/-- Read a property class after its `p`. -/
def propertyEscape? (negated : Bool) (f : Flags) (s : List Char) :
    Option (CharSet × List Char) :=
  if !f.unicode then none
  else
    match Reader.dropSpace f s with
    | [] => none
    | '\x7b' :: rest =>
      match rest.dropWhile (· ≠ '\x7d') with
      | [] => none
      | _ :: after =>
        (property? (rest.takeWhile (· ≠ '\x7d'))).map fun set =>
          (if negated then .compl set else set, after)
    | c :: rest =>
      if c = '\\' then none
      else (CharSet.ofCategoryName? (looseName [c])).map fun set =>
        (if negated then .compl set else set, rest)

/-- Read the `{start}` kind of boundary after `\b`. A brace that cannot open one is
left for a repetition: `none` inside means that. -/
def namedBoundary? (ascii : Bool) (s : List Char) : Option (Option (Look × List Char)) :=
  match s with
  | '\x7b' :: rest =>
    let isNameChar (c : Char) : Bool := c.isAlpha || c = '-'
    match rest with
    | [] => none
    | c :: _ =>
      if !isNameChar c then some none
      else
        match rest.dropWhile isNameChar with
        | '\x7d' :: after =>
          match String.ofList (rest.takeWhile isNameChar) with
          | "start" => some (some (.wordStart ascii, after))
          | "end" => some (some (.wordEnd ascii, after))
          | "start-half" => some (some (.wordStartHalf ascii, after))
          | "end-half" => some (some (.wordEndHalf ascii, after))
          | _ => none
        | _ => none
  | _ => some none

/-- Read an escape after its backslash. -/
def escape? (f : Flags) : List Char → Option (Escape × List Char)
  | [] => none
  | c :: rest =>
    if c.isDigit then none
    else
      match c with
      | 'x' => (hexEscape? 2 f rest).map fun (c, rest) => (.char c, rest)
      | 'u' => (hexEscape? 4 f rest).map fun (c, rest) => (.char c, rest)
      | 'U' => (hexEscape? 8 f rest).map fun (c, rest) => (.char c, rest)
      | 'p' => (propertyEscape? false f rest).map fun (s, rest) => (.class s, rest)
      | 'P' => (propertyEscape? true f rest).map fun (s, rest) => (.class s, rest)
      | _ =>
        match perlClass? f c with
        | some s => some (.class s, rest)
        | none =>
          if isEscapable c then some (.char c, rest)
          else
            match c with
            | 'a' => some (.char (Char.ofNat 7), rest)
            | 'f' => some (.char (Char.ofNat 12), rest)
            | 't' => some (.char '\t', rest)
            | 'n' => some (.char '\n', rest)
            | 'r' => some (.char '\r', rest)
            | 'v' => some (.char (Char.ofNat 11), rest)
            | 'A' => some (.look .startOfText, rest)
            | 'z' => some (.look .endOfText, rest)
            | 'B' => some (.look (.notWordBoundary !f.unicode), rest)
            | '<' => some (.look (.wordStart !f.unicode), rest)
            | '>' => some (.look (.wordEnd !f.unicode), rest)
            | 'b' =>
              match namedBoundary? (!f.unicode) rest with
              | none => none
              | some none => some (.look (.wordBoundary !f.unicode), rest)
              | some (some (l, rest)) => some (.look l, rest)
            | _ => none

/-! ## Bracketed classes -/

/-- The set operations of bracketed classes. -/
inductive SetOp where
  | inter
  | diff
  | symmDiff

/-- Apply a set operation. -/
def SetOp.apply : SetOp → CharSet → CharSet → CharSet
  | inter => .inter
  | diff => .diff
  | symmDiff => .symmDiff

/-- Close a set under case variants if the flags say so. -/
def foldSet (f : Flags) (s : CharSet) : CharSet :=
  if f.anyCase then .anyCase (!f.unicode) s else s

/-- Without Unicode a set may hold ASCII only: other bytes are no characters. -/
def checkSet? (f : Flags) (s : CharSet) : Option CharSet :=
  if f.unicode || s.isAscii then some s else none

/-- Read `[:alpha:]` after its opening bracket and colon; `none` if it is not of
that form. -/
def posixClass? (s : List Char) : Option (CharSet × List Char) :=
  let (negated, s) := match s with
    | '^' :: more => (true, more)
    | _ => (false, s)
  match s.dropWhile (· ≠ ':') with
  | ':' :: ']' :: after =>
    (CharSet.ofPosixName? (String.ofList (s.takeWhile (· ≠ ':')))).map fun set =>
      (if negated then .compl set else set, after)
  | _ => none

/-- One end of a range, or a class, inside brackets. -/
def classItem? (f : Flags) : List Char → Option (Escape × List Char)
  | [] => none
  | '\\' :: rest => escape? f rest
  | c :: rest => some (.char c, rest)

/-- An item that does not open a range. -/
def Escape.toSet? : Escape → Option CharSet
  | .char c => some (.only c)
  | .class s => some s
  | .look _ => none

/-- Read an item or a range inside brackets. -/
def classRange? (f : Flags) (s : List Char) : Option (CharSet × List Char) := do
  let (first, rest) ← classItem? f s
  let rest := Reader.dropSpace f rest
  match rest with
  | [] => none
  | '-' :: more =>
    let ahead := (Reader.dropSpace f more).head?
    if ahead = some ']' || ahead = some '-' then
      return (← first.toSet?, rest)
    else
      let (last, after) ← classItem? f (Reader.dropSpace f more)
      match first, last with
      | .char lo, .char hi => if lo.toNat ≤ hi.toNat then return (.range lo hi, after) else none
      | _, _ => none
  | _ => return (← first.toSet?, rest)

/-- Take the hyphens that open a class: each stands for itself. -/
def openingHyphens (f : Flags) : (fuel : Nat) → CharSet → List Char → CharSet × List Char
  | 0, s, rest => (s, rest)
  | fuel + 1, s, '-' :: rest =>
    openingHyphens f fuel (.union s (.only '-')) (Reader.dropSpace f rest)
  | _, s, rest => (s, rest)

/-- Read what may only stand right after the opening of a class: the negation,
hyphens, and a closing bracket that stands for itself. -/
def classOpening (f : Flags) (s : List Char) : Bool × CharSet × List Char :=
  let s := Reader.dropSpace f s
  let (negated, s) := match s with
    | '^' :: rest => (true, Reader.dropSpace f rest)
    | _ => (false, s)
  let (set, s) := openingHyphens f s.length .empty s
  match s with
  | ']' :: rest => if set = .empty then (negated, .only ']', rest) else (negated, set, s)
  | _ => (negated, set, s)

/-- Finish a bracketed class: apply the pending operation, fold, negate. -/
def closeClass (f : Flags) (negated : Bool) (pending : Option (SetOp × CharSet)) (s : CharSet) :
    CharSet :=
  let whole := match pending with
    | none => s
    | some (op, left) => op.apply (foldSet f left) (foldSet f s)
  let folded := foldSet f whole
  if negated then .compl folded else folded

/-- Read the inside of a bracketed class and its closing bracket. `union` is the part
since the last operator, `pending` that operator with all to its left. -/
def classBody? (f : Flags) : (fuel : Nat) → (negated : Bool) →
    (pending : Option (SetOp × CharSet)) → (union : CharSet) → List Char →
    Option (CharSet × List Char)
  | 0, _, _, _, _ => none
  | fuel + 1, negated, pending, union, s =>
    let combine (op : SetOp) (rest : List Char) : Option (CharSet × List Char) :=
      let left := match pending with
        | none => union
        | some (prev, left) => prev.apply (foldSet f left) (foldSet f union)
      classBody? f fuel negated (some (op, left)) .empty rest
    match Reader.dropSpace f s with
    | [] => none
    | ']' :: rest => some (closeClass f negated pending union, rest)
    | '&' :: '&' :: rest => combine .inter rest
    | '-' :: '-' :: rest => combine .diff rest
    | '~' :: '~' :: rest => combine .symmDiff rest
    | '[' :: rest =>
      let posix := match rest with
        | ':' :: more => posixClass? more
        | _ => none
      match posix with
      | some (set, after) => classBody? f fuel negated pending (.union union set) after
      | none =>
        let (negated', set, rest) := classOpening f rest
        match classBody? f fuel negated' none set rest with
        | none => none
        | some (inner, after) => classBody? f fuel negated pending (.union union inner) after
    | s =>
      match classRange? f s with
      | none => none
      | some (set, after) => classBody? f fuel negated pending (.union union set) after

/-- Read a bracketed class after its opening bracket. -/
def class? (f : Flags) (s : List Char) : Option (CharSet × List Char) := do
  let (negated, set, rest) := classOpening f s
  let (set, after) ← classBody? f (2 * s.length + 2) negated none set rest
  return (← checkSet? f set, after)

/-! ## Flags and group openings -/

/-- Set or clear one flag. -/
def Flags.put? (f : Flags) (on : Bool) : Char → Option Flags
  | 'i' => some { f with anyCase := on }
  | 'm' => some { f with multiLine := on }
  | 's' => some { f with dotAll := on }
  | 'U' => some { f with lazy := on }
  | 'u' => some { f with unicode := on }
  | 'R' => some { f with returns := on }
  | 'x' => some { f with spaced := on }
  | _ => none

/-- Read flags up to the colon or bracket that ends them. A flag may stand once, a
minus sign once and not last. Returns the flags, whether any stood there, and the
ending with what follows. -/
def readFlags? (f : Flags) (on : Bool) (seen : List Char) : List Char →
    Option (Flags × Bool × List Char)
  | [] => none
  | ':' :: rest => if seen.head? = some '-' then none else some (f, !seen.isEmpty, ':' :: rest)
  | ')' :: rest => if seen.head? = some '-' then none else some (f, !seen.isEmpty, ')' :: rest)
  | c :: rest =>
    if seen.contains c then none
    else if c = '-' then readFlags? f false (c :: seen) rest
    else
      match f.put? on c with
      | none => none
      | some f => readFlags? f on (c :: seen) rest

/-- Whether a character may stand in the name of a group, `first` or later. -/
def isGroupNameChar (first : Bool) (c : Char) : Bool :=
  c = '_' ||
    (if first then Text.isNameStart c
     else c = '.' || c = '[' || c = ']' || Text.isNameChar c)

/-- Read the name of a group up to the closing angle bracket. -/
def groupName? (s : List Char) : Option (String × List Char) :=
  let name := s.takeWhile (· ≠ '>')
  match name, s.dropWhile (· ≠ '>') with
  | first :: more, _ :: rest =>
    if isGroupNameChar true first && more.all (isGroupNameChar false) then
      some (String.ofList name, rest)
    else none
  | _, _ => none

/-- How a bracket opens. -/
inductive Opening where
  /-- a numbered group -/
  | capture (name : Option String)
  /-- a group without a number, under the given flags -/
  | plain (flags : Flags)
  /-- no group: the flags for what follows in this one -/
  | setFlags (flags : Flags)

/-- Read the opening of a group after its bracket. -/
def opening? (f : Flags) (s : List Char) : Option (Opening × List Char) :=
  match s with
  | '?' :: 'P' :: '<' :: rest => (groupName? rest).map fun (n, rest) => (.capture (some n), rest)
  | '?' :: '=' :: _ | '?' :: '!' :: _ => none
  | '?' :: '<' :: '=' :: _ | '?' :: '<' :: '!' :: _ => none
  | '?' :: '<' :: rest => (groupName? rest).map fun (n, rest) => (.capture (some n), rest)
  | '?' :: rest =>
    match readFlags? f true [] rest with
    | none => none
    | some (f', any, ')' :: after) => if any then some (.setFlags f', after) else none
    | some (f', _, ':' :: after) => some (.plain f', after)
    | some _ => none
  | rest => some (.capture none, rest)

/-! ## Repetitions -/

/-- Read a decimal number that fits 32 bits, with blanks around it. -/
def bound? (s : List Char) : Option (Nat × List Char) :=
  let s := Text.trimStart s
  let digits := s.takeWhile Char.isDigit
  if digits.isEmpty then none
  else
    let n := digits.foldl (fun n c => n * 10 + (c.toNat - '0'.toNat)) 0
    if n < 4294967296 then some (n, Text.trimStart (s.dropWhile Char.isDigit)) else none

/-- Read the bounds of a counted repetition after its opening brace. -/
def bounds? (s : List Char) : Option (Nat × Option Nat × List Char) := do
  let (least, rest) ← bound? s
  match rest with
  | '\x7d' :: rest => return (least, some least, rest)
  | ',' :: '\x7d' :: rest => return (least, none, rest)
  | ',' :: rest =>
    match Text.trimStart rest with
    | '\x7d' :: rest => return (least, none, rest)
    | rest =>
      let (most, rest) ← bound? rest
      match rest with
      | '\x7d' :: rest => if least ≤ most then return (least, some most, rest) else none
      | _ => none
  | _ => none

/-- A question mark after a repetition turns its preference round. -/
def preference (f : Flags) (s : List Char) : Bool × List Char :=
  match Reader.dropSpace f s with
  | '?' :: rest => (f.lazy, rest)
  | _ => (!f.lazy, s)

/-- Read a repetition: the least and most rounds, the preference, and the rest. -/
def repetition? (f : Flags) : List Char → Option (Nat × Option Nat × Bool × List Char)
  | '?' :: rest => let (g, rest) := preference f rest; some (0, some 1, g, rest)
  | '*' :: rest => let (g, rest) := preference f rest; some (0, none, g, rest)
  | '+' :: rest => let (g, rest) := preference f rest; some (1, none, g, rest)
  | '\x7b' :: rest =>
    (bounds? rest).map fun (least, most, rest) =>
      let (g, rest) := preference f rest; (least, most, g, rest)
  | _ => none

/-! ## The whole pattern -/

/-- A single character under the flags. -/
def charRegex (f : Flags) (c : Char) : Regex :=
  if f.anyCase && (f.unicode || c.toNat < 128) then .set (.anyCase (!f.unicode) (.only c))
  else .set (.only c)

/-- What the dot stands for. Without Unicode it would match a byte that is no
character, which is refused. -/
def dot? (f : Flags) : Option Regex :=
  if !f.unicode then none
  else if f.dotAll then some (.set .all)
  else if f.returns then some (.set (.compl (.union (.only '\n') (.only '\r'))))
  else some (.set (.compl (.only '\n')))

/-- What `^` stands for. -/
def lineStart (f : Flags) : Look :=
  if f.multiLine then (if f.returns then .startOfLineCR else .startOfLine) else .startOfText

/-- What `$` stands for. -/
def lineEnd (f : Flags) : Look :=
  if f.multiLine then (if f.returns then .endOfLineCR else .endOfLine) else .endOfText

/-- Read one character, class, assertion or escape. -/
def primitive? (f : Flags) : List Char → Option (Regex × List Char)
  | [] => none
  | '\\' :: rest =>
    match escape? f rest with
    | none => none
    | some (.char c, rest) => some (charRegex f c, rest)
    | some (.class s, rest) => (checkSet? f (foldSet f s)).map fun s => (.set s, rest)
    | some (.look l, rest) => some (.look l, rest)
  | '.' :: rest => (dot? f).map (·, rest)
  | '^' :: rest => some (.look (lineStart f), rest)
  | '$' :: rest => some (.look (lineEnd f), rest)
  | '[' :: rest => (class? f rest).map fun (s, rest) => (.set s, rest)
  | c :: rest => some (charRegex f c, rest)

/-- The reader after the opening of a group, and the number of the group. -/
def Reader.openGroup? (r : Reader) (name : Option String) (rest : List Char) : Option Reader :=
  match name with
  | none => some { r with rest, groups := r.groups + 1 }
  | some n =>
    if r.names.any (·.1 = n) then none
    else some { r with rest, groups := r.groups + 1, names := r.names ++ [(n, r.groups + 1)] }

/-- Read the inside of a group up to its closing bracket or the end of the text.
`branch` holds the pieces of the alternative being read, in reverse, `none` for a
change of flags, which cannot be repeated; `branches` the finished ones. -/
def body? : (fuel : Nat) → Reader → (branch : List (Option Regex)) → (branches : List Regex) →
    Option (Regex × Reader)
  | 0, _, _, _ => none
  | fuel + 1, r, branch, branches =>
    let finish : Regex := .seqs (branch.reverse.filterMap id)
    let done : Regex := .alts (branches ++ [finish])
    match Reader.dropSpace r.flags r.rest with
    | [] => some (done, { r with rest := [] })
    | ')' :: rest => some (done, { r with rest := ')' :: rest })
    | '|' :: rest => body? fuel { r with rest } [] (branches ++ [finish])
    | '(' :: rest =>
      match opening? r.flags rest with
      | none => none
      | some (.setFlags flags, rest) => body? fuel { r with rest, flags } (none :: branch) branches
      | some (.plain flags, rest) =>
        match body? fuel { r with rest, flags } [] [] with
        | some (inner, ⟨')' :: rest, _, groups, names⟩) =>
          body? fuel ⟨rest, r.flags, groups, names⟩ (some inner :: branch) branches
        | _ => none
      | some (.capture name, rest) =>
        match r.openGroup? name rest with
        | none => none
        | some opened =>
          match body? fuel opened [] [] with
          | some (inner, ⟨')' :: rest, _, groups, names⟩) =>
            body? fuel ⟨rest, r.flags, groups, names⟩
              (some (.group opened.groups inner) :: branch) branches
          | _ => none
    | c :: rest =>
      if c = '?' || c = '*' || c = '+' || c = '\x7b' then
        match branch, repetition? r.flags (c :: rest) with
        | some a :: before, some (least, most, greedy, rest) =>
          body? fuel { r with rest } (some (.rounds least most greedy a) :: before) branches
        | _, _ => none
      else
        match primitive? r.flags (c :: rest) with
        | none => none
        | some (a, rest) => body? fuel { r with rest } (some a :: branch) branches

/-- Read a pattern; `none` if its text is not one. -/
def parse? (source : String) : Option Pattern :=
  let s := source.toList
  match body? (s.length + 1) ⟨s, {}, 0, []⟩ [] [] with
  | some (regex, ⟨[], _, _, names⟩) => some ⟨source, regex, names⟩
  | _ => none

/-! ## Texts that match only themselves -/

/-- A text with every character of meaning escaped. -/
def escapeChars (s : List Char) : List Char :=
  s.flatMap fun c => if isMeta c then ['\\', c] else [c]

/-- The text of a pattern that matches exactly the given text. -/
def escape (s : String) : String := String.ofList (escapeChars s.toList)

end CodeNav.Pattern

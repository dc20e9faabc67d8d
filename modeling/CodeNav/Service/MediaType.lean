import CodeNav.Text.Category
import CodeNav.Text.Lines

/-!
# Media types

The type of a request's body: `type/subtype`, the subtype ending in `+suffix` perhaps,
then parameters. Names are compared without regard to ASCII case. A text that is no
media type describes no body at all.
-/

namespace CodeNav

/-- A media type without its parameters, in lower case. -/
structure MediaType where
  type : List Char
  subtype : List Char
  suffix : Option (List Char)
  deriving DecidableEq, Repr

namespace MediaType

/-- Characters of names. -/
def isToken (c : Char) : Bool :=
  c.isAlphanum || "!#$%&'*+-.^_|~".toList.contains c || c.toNat = 96

/-- Characters between quotes. -/
def isQuotable (c : Char) : Bool := 32 ≤ c.toNat && c.toNat < 127

/-- What follows a quoted value: blanks, up to the end or the next semicolon. -/
def afterQuoted? : List Char → Option (List Char)
  | [] => some []
  | ';' :: rest => some rest
  | ' ' :: rest => afterQuoted? rest
  | _ => none

/-- The rest after a value between quotes, which must not be empty. -/
def quotedValue? (empty : Bool) : List Char → Option (List Char)
  | [] => none
  | c :: rest =>
    if c = '"' && !empty then afterQuoted? rest
    else if isQuotable c then quotedValue? false rest
    else none

/-- The rest after a value: up to the end, or past the next semicolon. -/
def plainValue? (empty : Bool) : List Char → Option (List Char)
  | [] => some []
  | c :: rest =>
    if c = ';' && !empty then some rest
    else if isToken c then plainValue? false rest
    else none

/-- Where a value begins. -/
def value? : List Char → Option (List Char)
  | '"' :: rest => quotedValue? true rest
  | s => plainValue? true s

/-- The rest after the name of a parameter and its equals sign. -/
def name? (empty : Bool) : List Char → Option (List Char)
  | [] => none
  | c :: rest =>
    if c = '=' && !empty then some rest
    else if isToken c then name? false rest
    else none

/-- Whether a text is a list of parameters. Every round takes a character, so `fuel` is
the length of the text. -/
def areParameters : (fuel : Nat) → List Char → Bool
  | _, [] => true
  | 0, _ => false
  | fuel + 1, ' ' :: rest => areParameters fuel rest
  | fuel + 1, s =>
    match (name? true s).bind value? with
    | none => false
    | some rest => areParameters fuel rest

/-- Cut a subtype at its last plus sign, which must not come first. -/
def cutSuffix (s : List Char) : List Char × Option (List Char) :=
  let suffix := s.reverse.takeWhile (· ≠ '+')
  if suffix.length + 1 < s.length then
    (s.take (s.length - suffix.length - 1), some suffix.reverse)
  else (s, none)

/-- Read a media type. -/
def parse? (text : List Char) : Option MediaType :=
  let type := text.takeWhile (· ≠ '/')
  match text.drop type.length with
  | '/' :: rest =>
    let subtype := rest.takeWhile (· ≠ ';')
    let parameters := rest.drop (subtype.length + 1)
    if type.isEmpty || !type.all isToken || !subtype.all isToken ||
        (subtype.isEmpty && subtype.length < rest.length) ||
        !areParameters parameters.length parameters then none
    else
      let (name, suffix) := cutSuffix (subtype.map Char.toLower)
      some ⟨type.map Char.toLower, name, suffix⟩
  | _ => none

/-- Whether a body of this type is JSON. -/
def isJson (m : MediaType) : Bool :=
  m.type = "application".toList && (m.subtype = "json".toList || m.suffix = some "json".toList)

end MediaType

end CodeNav

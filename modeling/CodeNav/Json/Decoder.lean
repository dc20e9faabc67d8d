import CodeNav.Pattern.Parser

/-!
# Reading JSON into records

Decoders read a value of a known shape straight from the text and stop at the first
fault. There are two kinds of fault, and which of them comes first in the text
decides the answer: the text is **malformed** when it is no JSON, and it is a
**mismatch** when it is JSON of another shape.

A record is written as an object, or as an array of its fields in order. In an object
unknown keys are passed over (their values are only skimmed), and a known key may
stand once. Fields missing at the end are for the record's `finish` to judge.

Every decoder takes characters from the front of the text and returns the rest.
-/

namespace CodeNav.Json

/-- Why a text does not decode. -/
inductive Fault where
  /-- the text is not JSON -/
  | malformed
  /-- the text is JSON of another shape -/
  | mismatch
  deriving DecidableEq, Repr

/-- A decoder reads a value off the front of a text. -/
abbrev Decoder (α : Type) := List Char → Except Fault (α × List Char)

/-- The blanks of JSON. -/
def isSpace (c : Char) : Bool := c = ' ' || c = '\n' || c = '\t' || c = '\r'

/-- Pass over blanks. -/
def skipSpace (s : List Char) : List Char := s.dropWhile isSpace

/-! ## Scalars -/

/-- Read the four digits of a `\u` escape. -/
def fourHex? (s : List Char) : Option (Nat × List Char) :=
  if s.length < 4 then none
  else (Pattern.hexNumber? (s.take 4)).map (·, s.drop 4)

/-- What an escape of one letter stands for. -/
def shortEscape? : Char → Option Char
  | '"' => some '"'
  | '\\' => some '\\'
  | '/' => some '/'
  | 'b' => some (Char.ofNat 8)
  | 'f' => some (Char.ofNat 12)
  | 'n' => some '\n'
  | 'r' => some '\r'
  | 't' => some '\t'
  | _ => none

/-- Read the number escape of a character after its `u`; a leading surrogate has to
be followed by a trailing one. -/
def numberEscape? (s : List Char) : Option (Char × List Char) := do
  let (high, rest) ← fourHex? s
  if 0xD800 ≤ high ∧ high < 0xDC00 then
    match rest with
    | '\\' :: 'u' :: rest =>
      let (low, rest) ← fourHex? rest
      if 0xDC00 ≤ low ∧ low < 0xE000 then
        return (Char.ofNat (0x10000 + (high - 0xD800) * 0x400 + (low - 0xDC00)), rest)
      else none
    | _ => none
  else
    return (← Pattern.charOfNumber? high, rest)

/-- Read a string after its opening quote. -/
def stringBody : (fuel : Nat) → (acc : List Char) → Decoder String
  | 0, _, _ => .error .malformed
  | _, _, [] => .error .malformed
  | fuel + 1, acc, c :: rest =>
    if c = '"' then .ok (String.ofList acc.reverse, rest)
    else if c.toNat < 0x20 then .error .malformed
    else if c = '\\' then
      match rest with
      | 'u' :: rest =>
        match numberEscape? rest with
        | some (c, rest) => stringBody fuel (c :: acc) rest
        | none => .error .malformed
      | e :: rest =>
        match shortEscape? e with
        | some c => stringBody fuel (c :: acc) rest
        | none => .error .malformed
      | [] => .error .malformed
    else stringBody fuel (c :: acc) rest

/-- Pass over a string after its opening quote. Number escapes need not pair up here. -/
def skimString : (fuel : Nat) → Decoder Unit
  | 0, _ => .error .malformed
  | _, [] => .error .malformed
  | fuel + 1, c :: rest =>
    if c = '"' then .ok ((), rest)
    else if c.toNat < 0x20 then .error .malformed
    else if c = '\\' then
      match rest with
      | 'u' :: rest =>
        match fourHex? rest with
        | some (_, rest) => skimString fuel rest
        | none => .error .malformed
      | e :: rest => if (shortEscape? e).isSome then skimString fuel rest else .error .malformed
      | [] => .error .malformed
    else skimString fuel rest

/-- A number as it is written: sign, digits before the point, digits after it, and
the exponent if there is one. -/
structure Numeral where
  negative : Bool
  whole : List Char
  fraction : Option (List Char)
  exponent : Option (Bool × List Char)

/-- Read the fraction of a number, if it has one. -/
def fraction? (s : List Char) : Option (Option (List Char) × List Char) :=
  match s with
  | '.' :: rest =>
    let digits := rest.takeWhile Char.isDigit
    if digits.isEmpty then none else some (some digits, rest.dropWhile Char.isDigit)
  | _ => some (none, s)

/-- Read the exponent of a number, if it has one. -/
def exponent? (s : List Char) : Option (Option (Bool × List Char) × List Char) :=
  match s with
  | e :: rest =>
    if e = 'e' || e = 'E' then
      let (negative, rest) := match rest with
        | '+' :: more => (false, more)
        | '-' :: more => (true, more)
        | _ => (false, rest)
      let digits := rest.takeWhile Char.isDigit
      if digits.isEmpty then none
      else some (some (negative, digits), rest.dropWhile Char.isDigit)
    else some (none, s)
  | [] => some (none, s)

/-- Read a number. A zero stands alone before the point. -/
def numeral? (s : List Char) : Option (Numeral × List Char) := do
  let (negative, s) := match s with
    | '-' :: rest => (true, rest)
    | _ => (false, s)
  let whole := s.takeWhile Char.isDigit
  if whole.isEmpty || (whole.head? = some '0' && whole.length > 1) then none
  let (fraction, rest) ← fraction? (s.dropWhile Char.isDigit)
  let (exponent, rest) ← exponent? rest
  return (⟨negative, whole, fraction, exponent⟩, rest)

/-- The number that digits write. -/
def digitsValue (ds : List Char) : Nat := ds.foldl (fun n c => n * 10 + (c.toNat - '0'.toNat)) 0

/-- The value of an unsigned integer that fits 64 bits. -/
def Numeral.toNat? (n : Numeral) : Option Nat :=
  if n.negative || n.fraction.isSome || n.exponent.isSome then none
  else
    let v := digitsValue n.whole
    if v < 18446744073709551616 then some v else none

/-- Whether a number is too large for a binary64: its decimal magnitude is compared
with the least one that rounds to infinity. -/
def Numeral.isHuge (n : Numeral) : Bool :=
  let digits := n.whole ++ n.fraction.getD []
  let significand := digitsValue digits
  let scale : Int :=
    (match n.exponent with
     | none => 0
     | some (true, ds) => -(digitsValue ds : Int)
     | some (false, ds) => (digitsValue ds : Int)) - ((n.fraction.getD []).length : Int)
  if significand = 0 then false
  else if scale + digits.length < 300 then false
  else if scale > 400 then true
  else
    let limit := Nat.pow 2 1024 - Nat.pow 2 970
    if scale ≥ 0 then decide (limit ≤ significand * Nat.pow 10 scale.toNat)
    else decide (limit * Nat.pow 10 (-scale).toNat ≤ significand)

/-- Read a number as a decoder would that wants one: a malformed or a huge one is a
fault of the text. -/
def numeral : Decoder Numeral := fun s =>
  match numeral? s with
  | none => .error .malformed
  | some (n, rest) => if n.isHuge then .error .malformed else .ok (n, rest)

/-- Read one of the words `null`, `true` and `false`. -/
def word (w : String) : Decoder Unit := fun s =>
  if w.toList.isPrefixOf s then .ok ((), s.drop w.length) else .error .malformed

/-- The fault of a value that does not have the wanted shape: malformed if it does
not even read as a value, a mismatch otherwise. -/
def wrongShape (s : List Char) : Fault :=
  let judge {α : Type} (r : Except Fault (α × List Char)) : Fault :=
    match r with
    | .ok _ => .mismatch
    | .error f => f
  match s with
  | 'n' :: _ => judge (word "null" s)
  | 't' :: _ => judge (word "true" s)
  | 'f' :: _ => judge (word "false" s)
  | '"' :: rest => judge (stringBody (rest.length + 1) [] rest)
  | '[' :: _ | '\x7b' :: _ => .mismatch
  | c :: _ => if c = '-' || c.isDigit then judge (numeral s) else .malformed
  | [] => .malformed

/-- Read a string. -/
def string : Decoder String := fun s =>
  match skipSpace s with
  | '"' :: rest => stringBody (rest.length + 1) [] rest
  | s => .error (wrongShape s)

/-- Read an unsigned integer of 64 bits. -/
def nat : Decoder Nat := fun s =>
  match skipSpace s with
  | [] => .error .malformed
  | s@(c :: _) =>
    if c = '-' || c.isDigit then
      match numeral s with
      | .error f => .error f
      | .ok (n, rest) =>
        match n.toNat? with
        | some v => .ok (v, rest)
        | none => .error .mismatch
    else .error (wrongShape s)

/-- Read a truth value. -/
def bool : Decoder Bool := fun s =>
  match skipSpace s with
  | s@('t' :: _) => (word "true" s).map fun (_, rest) => (true, rest)
  | s@('f' :: _) => (word "false" s).map fun (_, rest) => (false, rest)
  | s => .error (wrongShape s)

/-- Read a value that may be `null`. -/
def nullable {α : Type} (d : Decoder α) : Decoder (Option α) := fun s =>
  match skipSpace s with
  | s@('n' :: _) => (word "null" s).map fun (_, rest) => (none, rest)
  | s => (d s).map fun (a, rest) => (some a, rest)

/-! ## Values of no interest -/

/-- A bracket that is still open while skimming: an array's or an object's. -/
inductive Open where
  | array
  | object

/-- Read the key and colon in front of an object's value. -/
def skimKey : Decoder Unit := fun s =>
  match skipSpace s with
  | '"' :: rest =>
    match skimString (rest.length + 1) rest with
    | .error f => .error f
    | .ok (_, rest) =>
      match skipSpace rest with
      | ':' :: rest => .ok ((), rest)
      | _ => .error .malformed
  | _ => .error .malformed

/-- Pass over a scalar. -/
def skimScalar : Decoder Unit := fun s =>
  match s with
  | 'n' :: _ => word "null" s
  | 't' :: _ => word "true" s
  | 'f' :: _ => word "false" s
  | '"' :: rest => skimString (rest.length + 1) rest
  | _ =>
    match numeral? s with
    | some (_, rest) => .ok ((), rest)
    | none => .error .malformed

/-- Pass over what follows a finished value inside the open brackets: closing
brackets, then a comma and, in an object, a key. `true` says that a value follows. -/
def skimAfter : List Open → Decoder (Bool × List Open)
  | [], s => .ok ((false, []), s)
  | o :: opens, s =>
    match o, skipSpace s with
    | .array, ',' :: rest => .ok ((true, o :: opens), rest)
    | .object, ',' :: rest => (skimKey rest).map fun (_, rest) => ((true, o :: opens), rest)
    | .array, ']' :: rest => skimAfter opens rest
    | .object, '\x7d' :: rest => skimAfter opens rest
    | _, _ => .error .malformed

/-- Pass over a value inside the open brackets and over all that they hold. -/
def skimValue : (fuel : Nat) → List Open → Decoder Unit
  | 0, _, _ => .error .malformed
  | fuel + 1, opens, s =>
    let finish (opens : List Open) (s : List Char) : Except Fault (Unit × List Char) :=
      match skimAfter opens s with
      | .error f => .error f
      | .ok ((true, opens), s) => skimValue fuel opens s
      | .ok ((false, _), s) => .ok ((), s)
    match skipSpace s with
    | '[' :: rest =>
      match skipSpace rest with
      | ']' :: rest => finish opens rest
      | rest => skimValue fuel (.array :: opens) rest
    | '\x7b' :: rest =>
      match skipSpace rest with
      | '\x7d' :: rest => finish opens rest
      | rest =>
        match skimKey rest with
        | .error f => .error f
        | .ok (_, rest) => skimValue fuel (.object :: opens) rest
    | s =>
      match skimScalar s with
      | .error f => .error f
      | .ok (_, rest) => finish opens rest

/-- Pass over any value. -/
def skim : Decoder Unit := fun s => skimValue (s.length + 1) [] s

/-! ## Arrays and records -/

/-- Go to the next element of an array; `none` at its end, whose bracket is left. -/
def nextElement (first : Bool) (s : List Char) : Except Fault (Option (List Char)) :=
  match skipSpace s with
  | [] => .error .malformed
  | ']' :: _ => .ok none
  | ',' :: rest =>
    if first then .ok (some (',' :: rest))
    else
      match skipSpace rest with
      | [] => .error .malformed
      | ']' :: _ => .error .malformed
      | rest => .ok (some rest)
  | s => if first then .ok (some s) else .error .malformed

/-- Read the bracket that closes an array. -/
def closeArray (s : List Char) : Except Fault (List Char) :=
  match skipSpace s with
  | ']' :: rest => .ok rest
  | _ => .error .malformed

/-- Read the elements of an array after its bracket, and the closing one. -/
def elements {α : Type} (d : Decoder α) : (fuel : Nat) → (acc : List α) → Decoder (List α)
  | 0, _, _ => .error .malformed
  | fuel + 1, acc, s => do
    match ← nextElement acc.isEmpty s with
    | none => return (acc.reverse, ← closeArray s)
    | some s =>
      let (a, s) ← d s
      elements d fuel (a :: acc) s

/-- Read an array. -/
def array {α : Type} (d : Decoder α) : Decoder (List α) := fun s =>
  match skipSpace s with
  | '[' :: rest => elements d (rest.length + 1) [] rest
  | s => .error (wrongShape s)

/-- Go to the next key of an object and read it; `none` at its end, whose brace is
left. -/
def nextKey (first : Bool) (s : List Char) : Except Fault (Option (String × List Char)) :=
  let key (s : List Char) : Except Fault (Option (String × List Char)) :=
    match s with
    | '"' :: rest => (stringBody (rest.length + 1) [] rest).map some
    | _ => .error .malformed
  match skipSpace s with
  | [] => .error .malformed
  | '\x7d' :: _ => .ok none
  | ',' :: rest => if first then .error .malformed else key (skipSpace rest)
  | s => if first then key s else .error .malformed

/-- Read the colon between a key and its value. -/
def colon (s : List Char) : Except Fault (List Char) :=
  match skipSpace s with
  | ':' :: rest => .ok rest
  | _ => .error .malformed

/-- Read the brace that closes an object. -/
def closeObject (s : List Char) : Except Fault (List Char) :=
  match skipSpace s with
  | '\x7d' :: rest => .ok rest
  | _ => .error .malformed

/-- One field of a record that is being read into `σ`. -/
structure Field (σ : Type) where
  /-- the key -/
  name : String
  /-- whether the field has been read already -/
  isSet : σ → Bool
  /-- read the field's value -/
  read : σ → Decoder σ

/-- Read the fields of an object after its brace, and the closing one. -/
def objectFields {σ : Type} (fields : List (Field σ)) :
    (fuel : Nat) → (first : Bool) → σ → Decoder σ
  | 0, _, _, _ => .error .malformed
  | fuel + 1, first, acc, s => do
    match ← nextKey first s with
    | none => return (acc, s)
    | some (key, s) =>
      match fields.find? (·.name = key) with
      | some field =>
        if field.isSet acc then .error .mismatch
        else
          let (acc, s) ← field.read acc (← colon s)
          objectFields fields fuel false acc s
      | none =>
        let (_, s) ← skim (← colon s)
        objectFields fields fuel false acc s

/-- Read the fields of a record from an array, in order. -/
def arrayFields {σ : Type} : (fields : List (Field σ)) → (first : Bool) → σ → Decoder σ
  | [], _, acc, s => .ok (acc, s)
  | field :: more, first, acc, s => do
    match ← nextElement first s with
    | none => return (acc, s)
    | some s =>
      let (acc, s) ← field.read acc s
      arrayFields more false acc s

/-- Read a record. `finish` fills in what was left out, or refuses. -/
def record {σ α : Type} (fields : List (Field σ)) (init : σ) (finish : σ → Option α) :
    Decoder α := fun s =>
  match skipSpace s with
  | '\x7b' :: rest => do
    let (acc, s) ← objectFields fields (rest.length + 1) true init rest
    match finish acc with
    | none => .error .mismatch
    | some a => return (a, ← closeObject s)
  | '[' :: rest => do
    let (acc, s) ← arrayFields fields true init rest
    match finish acc with
    | none => .error .mismatch
    | some a => return (a, ← closeArray s)
  | s => .error (wrongShape s)

/-- Decode a whole text, allowing blanks after the value and nothing else. -/
def decode {α : Type} (d : Decoder α) (text : String) : Except Fault α :=
  match d text.toList with
  | .error f => .error f
  | .ok (a, rest) => if (skipSpace rest).isEmpty then .ok a else .error .malformed

/-- Decode the value at the front of a text, whatever follows it. -/
def decodeFront {α : Type} (d : Decoder α) (text : String) : Except Fault α :=
  (d text.toList).map (·.1)

end CodeNav.Json

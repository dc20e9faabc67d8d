import CodeNav.Json.Decoder

/-!
# JSON values

A value read as a whole, for messages whose shape depends on a tag that may stand
anywhere in them. Numbers matter only as unsigned integers, so a number is kept as
one when it is one. Objects keep their keys in order, repeated ones included.

Reading nests at most 127 deep: a deeper text is refused rather than read.
-/

namespace CodeNav.Json

/-- A JSON value. -/
inductive Value where
  | null
  | bool (b : Bool)
  /-- a number; `some n` if it is an unsigned integer of 64 bits -/
  | num (n : Option Nat)
  | str (s : String)
  | arr (items : List Value)
  | obj (fields : List (String × Value))
  deriving Repr, Inhabited

namespace Value

/-- The largest number of brackets that may be open at a time. -/
def maxDepth : Nat := 127

mutual

/-- Read a value, `depth` brackets being allowed to open inside it. -/
def read : (fuel depth : Nat) → Decoder Value
  | 0, _, _ => .error .malformed
  | fuel + 1, depth, s =>
    match skipSpace s with
    | [] => .error .malformed
    | s@('n' :: _) => (word "null" s).map fun (_, rest) => (.null, rest)
    | s@('t' :: _) => (word "true" s).map fun (_, rest) => (.bool true, rest)
    | s@('f' :: _) => (word "false" s).map fun (_, rest) => (.bool false, rest)
    | '"' :: rest => (stringBody (rest.length + 1) [] rest).map fun (t, rest) => (.str t, rest)
    | '[' :: rest =>
      match depth with
      | 0 => .error .malformed
      | depth + 1 => readItems fuel depth [] rest
    | '\x7b' :: rest =>
      match depth with
      | 0 => .error .malformed
      | depth + 1 => readFields fuel depth [] rest
    | s => (numeral s).map fun (n, rest) => (.num n.toNat?, rest)

/-- Read the items of an array and its closing bracket. -/
def readItems : (fuel depth : Nat) → (acc : List Value) → Decoder Value
  | 0, _, _, _ => .error .malformed
  | fuel + 1, depth, acc, s =>
    match nextElement acc.isEmpty s with
    | .error f => .error f
    | .ok none => (closeArray s).map fun rest => (.arr acc.reverse, rest)
    | .ok (some s) =>
      match read fuel depth s with
      | .error f => .error f
      | .ok (v, s) => readItems fuel depth (v :: acc) s

/-- Read the fields of an object and its closing brace. -/
def readFields : (fuel depth : Nat) → (acc : List (String × Value)) → Decoder Value
  | 0, _, _, _ => .error .malformed
  | fuel + 1, depth, acc, s =>
    match nextKey acc.isEmpty s with
    | .error f => .error f
    | .ok none => (closeObject s).map fun rest => (.obj acc.reverse, rest)
    | .ok (some (key, s)) =>
      match colon s with
      | .error f => .error f
      | .ok s =>
        match read fuel depth s with
        | .error f => .error f
        | .ok (v, s) => readFields fuel depth ((key, v) :: acc) s

end

/-- Read a whole text. Every call but the last takes a character. -/
def parse? (text : List Char) : Option Value :=
  match read (2 * text.length + 2) maxDepth text with
  | .error _ => none
  | .ok (v, rest) => if (skipSpace rest).isEmpty then some v else none

/-- The string that a value is. -/
def str? : Value → Option String
  | str s => some s
  | _ => none

/-- The unsigned integer that a value is. -/
def nat? : Value → Option Nat
  | num n => n
  | _ => none

/-- A field of a record, by its key and its place: the value if it is there. A key
given twice refuses the record. -/
def fieldIn? (fields : List (String × Value)) (key : String) : Option (Option Value) :=
  match fields.filter (·.1 = key) with
  | [] => some none
  | [(_, v)] => some (some v)
  | _ => none

/-- The fields of a record with the given keys, from an object or from an array that
is no longer than the list of keys. -/
def fields? (keys : List String) : Value → Option (List (Option Value))
  | obj fs => keys.mapM (fieldIn? fs)
  | arr vs =>
    if vs.length ≤ keys.length then
      some (vs.map some ++ List.replicate (keys.length - vs.length) none)
    else none
  | _ => none

end Value

end CodeNav.Json

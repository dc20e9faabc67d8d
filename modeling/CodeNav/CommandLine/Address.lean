import CodeNav.Text.Lines

/-!
# Socket addresses

Addresses to listen on: `1.2.3.4:80` or `[::1]:80`. They are read as they are usually
written and **written in one way only**: without leading zeros, and with the first
longest run of zero groups of a long address left out.
-/

namespace CodeNav

/-- The address of a host, and the number of a service there. -/
inductive SocketAddress where
  /-- four bytes -/
  | short (bytes : List Nat) (portNumber : Nat)
  /-- eight groups of sixteen bits, and the number of a scope -/
  | long (groups : List Nat) (zone portNumber : Nat)
  deriving DecidableEq, Repr

namespace SocketAddress

/-! ## Reading -/

/-- The value of a digit. -/
def digit? (radix : Nat) (c : Char) : Option Nat :=
  let n := if c.isDigit then some (c.toNat - 48)
    else if 'a' ≤ c && c ≤ 'f' then some (c.toNat - 87)
    else if 'A' ≤ c && c ≤ 'F' then some (c.toNat - 55)
    else none
  n.filter (· < radix)

/-- The value of a list of digits. -/
def value (radix : Nat) (digits : List Char) : Nat :=
  digits.foldl (fun n c => n * radix + (digit? radix c).getD 0) 0

/-- Read a number in front that fits below `bound`, with at most `most` digits. -/
def number? (radix bound : Nat) (most : Option Nat) (leadingZero : Bool) (s : List Char) :
    Option (Nat × List Char) :=
  let digits := s.takeWhile fun c => (digit? radix c).isSome
  if digits.isEmpty || most.any (· < digits.length) then none
  else if !leadingZero && digits.head? = some '0' && 1 < digits.length then none
  else if value radix digits < bound then some (value radix digits, s.drop digits.length)
  else none

/-- Read a given character. -/
def char? (c : Char) : List Char → Option (List Char)
  | d :: rest => if d = c then some rest else none
  | [] => none

/-- Read the separator before item `i`, which the first item does not have. -/
def separator? (c : Char) (i : Nat) (s : List Char) : Option (List Char) :=
  if i = 0 then some s else char? c s

/-- A byte of a short address. -/
def byte? (i : Nat) (s : List Char) : Option (Nat × List Char) := do
  number? 10 256 (some 3) false (← separator? '.' i s)

/-- Read four bytes. -/
def bytes? (s : List Char) : Option (List Nat × List Char) := do
  let (a, s) ← byte? 0 s
  let (b, s) ← byte? 1 s
  let (c, s) ← byte? 2 s
  let (d, s) ← byte? 3 s
  return ([a, b, c, d], s)

/-- The two groups that four bytes make. -/
def pairUp : List Nat → List Nat
  | [a, b, c, d] => [a * 256 + b, c * 256 + d]
  | _ => []

/-- Read at most `room` groups, the first of which is item `i`. Four bytes may stand for
the last two groups, which ends the list. -/
def groups (i : Nat) : (room : Nat) → List Char → List Nat × Bool × List Char
  | 0, s => ([], false, s)
  | room + 1, s =>
    match if 0 < room then (separator? ':' i s).bind bytes? else none with
    | some (bytes, rest) => (pairUp bytes, true, rest)
    | none =>
      match (separator? ':' i s).bind (number? 16 65536 (some 4) true) with
      | none => ([], false, s)
      | some (g, rest) =>
        let (gs, ended, rest) := groups (i + 1) room rest
        (g :: gs, ended, rest)

/-- Read eight groups, where `::` may stand for one or more groups of zeros. -/
def eight? (s : List Char) : Option (List Nat × List Char) := do
  let (head, ended, s) := groups 0 8 s
  if head.length = 8 then return (head, s)
  if ended then none
  let s ← char? ':' (← char? ':' s)
  let (tail, _, s) := groups 0 (7 - head.length) s
  return (head ++ List.replicate (8 - head.length - tail.length) 0 ++ tail, s)

/-- Read the number of a service. -/
def portNumber? (s : List Char) : Option (Nat × List Char) := do
  number? 10 65536 none true (← char? ':' s)

/-- Read a short address with the number of the service. -/
def short? (s : List Char) : Option (SocketAddress × List Char) := do
  let (bytes, s) ← bytes? s
  let (n, s) ← portNumber? s
  return (.short bytes n, s)

/-- Read the number of a scope, which may be left out. -/
def zone (s : List Char) : Nat × List Char :=
  match (char? '%' s).bind (number? 10 4294967296 none true) with
  | some (n, s) => (n, s)
  | none => (0, s)

/-- Read a long address with the number of the service. -/
def long? (s : List Char) : Option (SocketAddress × List Char) := do
  let (gs, s) ← eight? (← char? '[' s)
  let (z, s) := zone s
  let (n, s) ← portNumber? (← char? ']' s)
  return (.long gs z n, s)

/-- Read an address; nothing may follow it. -/
def parse? (text : String) : Option SocketAddress :=
  match (short? text.toList).or (long? text.toList) with
  | some (a, []) => some a
  | _ => none

/-! ## Writing -/

/-- Bytes with dots between them. -/
def bytesText (bytes : List Nat) : String := ".".intercalate (bytes.map toString)

/-- Groups with colons between them. -/
def groupsText (gs : List Nat) : String :=
  ":".intercalate (gs.map fun g => String.ofList (Nat.toDigits 16 g))

/-- How many zeros a list begins with. -/
def zeros (gs : List Nat) : Nat := (gs.takeWhile (· = 0)).length

/-- Where the first longest run of zeros is: its start and its length. -/
def longestZeros (gs : List Nat) : Nat × Nat :=
  (List.range gs.length).foldl (fun best i =>
    if best.2 < zeros (gs.drop i) then (i, zeros (gs.drop i)) else best) (0, 0)

/-- Eight groups. Short addresses inside long ones are written as such, and a run of two
or more zeros is left out. -/
def longText (gs : List Nat) : String :=
  match gs with
  | [0, 0, 0, 0, 0, 65535, a, b] => "::ffff:" ++ bytesText [a / 256, a % 256, b / 256, b % 256]
  | _ =>
    let (start, length) := longestZeros gs
    if 1 < length then groupsText (gs.take start) ++ "::" ++ groupsText (gs.drop (start + length))
    else groupsText gs

/-- The text of an address. -/
def toText : SocketAddress → String
  | short bytes n => bytesText bytes ++ ":" ++ toString n
  | long gs zone n =>
    "[" ++ longText gs ++ (if zone = 0 then "" else "%" ++ toString zone) ++ "]:" ++ toString n

end SocketAddress

end CodeNav

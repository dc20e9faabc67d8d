/-!
# UTF-8

Reading bytes as text. `Utf8.next` reads one character, or says how many bytes the
fault at hand covers, or that the bytes end inside a character; the strict reader
stops at the first fault and reports where it stands, the forgiving reader puts
U+FFFD for every fault. Both are the same walk, so **they agree on every valid
input**.

The other direction needs only the sizes of characters: byte offsets into a text
are turned into character counts by `Utf8.charsBefore?`.
-/

namespace CodeNav.Utf8

/-- What stands at the front of a list of bytes. -/
inductive Front where
  /-- a character and the number of bytes it takes -/
  | char (c : Char) (size : Nat)
  /-- a fault that covers this many bytes -/
  | fault (size : Nat)
  /-- the bytes end inside a character -/
  | cut
  deriving Repr

/-- Continuation bytes carry six bits. -/
def isTail (b : UInt8) : Bool := 0x80 ≤ b.toNat && b.toNat ≤ 0xBF

/-- The six bits of a continuation byte. -/
def tailBits (b : UInt8) : Nat := b.toNat % 64

/-- Which second bytes may follow the lead byte `a` of a longer character: overlong
forms, surrogates and code points past U+10FFFF are kept out here. -/
def secondOk (a b : UInt8) : Bool :=
  match a.toNat with
  | 0xE0 => 0xA0 ≤ b.toNat && b.toNat ≤ 0xBF
  | 0xED => 0x80 ≤ b.toNat && b.toNat ≤ 0x9F
  | 0xF0 => 0x90 ≤ b.toNat && b.toNat ≤ 0xBF
  | 0xF4 => 0x80 ≤ b.toNat && b.toNat ≤ 0x8F
  | _ => isTail b

/-- Read the character in front. The list must not be empty; an empty one counts as
cut off. -/
def next : List UInt8 → Front
  | [] => .cut
  | a :: rest =>
    let n := a.toNat
    if n < 0x80 then .char (Char.ofNat n) 1
    else if n < 0xC2 then .fault 1
    else if n < 0xE0 then
      match rest with
      | [] => .cut
      | b :: _ =>
        if isTail b then .char (Char.ofNat ((n % 32) * 64 + tailBits b)) 2 else .fault 1
    else if n < 0xF0 then
      match rest with
      | [] => .cut
      | b :: rest =>
        if !secondOk a b then .fault 1
        else
          match rest with
          | [] => .cut
          | c :: _ =>
            if isTail c then
              .char (Char.ofNat (((n % 16) * 64 + tailBits b) * 64 + tailBits c)) 3
            else .fault 2
    else if n < 0xF5 then
      match rest with
      | [] => .cut
      | b :: rest =>
        if !secondOk a b then .fault 1
        else
          match rest with
          | [] => .cut
          | c :: rest =>
            if !isTail c then .fault 2
            else
              match rest with
              | [] => .cut
              | d :: _ =>
                if isTail d then
                  .char (Char.ofNat
                    ((((n % 8) * 64 + tailBits b) * 64 + tailBits c) * 64 + tailBits d)) 4
                else .fault 3
    else .fault 1

/-- Why bytes are not text. -/
inductive Fault where
  /-- `size` bytes at `index` are no part of any character -/
  | invalid (size index : Nat)
  /-- the bytes from `index` on begin a character and end too early -/
  | incomplete (index : Nat)
  deriving DecidableEq, Repr

/-- The wording of a fault. -/
def Fault.message : Fault → String
  | .invalid size index =>
    s!"invalid utf-8 sequence of {size} bytes from index {index}"
  | .incomplete index => s!"incomplete utf-8 byte sequence from index {index}"

/-- Strict reading from byte `index` on; every round takes at least one byte, so
`fuel` is the number of bytes left. -/
def decodeFrom : (fuel index : Nat) → List UInt8 → Except Fault (List Char)
  | _, _, [] => .ok []
  | 0, _, _ :: _ => .ok []
  | fuel + 1, index, bytes@(_ :: _) =>
    match next bytes with
    | .char c size => (decodeFrom fuel (index + size) (bytes.drop size)).map (c :: ·)
    | .fault size => .error (.invalid size index)
    | .cut => .error (.incomplete index)

/-- The text that the bytes spell, or their first fault. -/
def decode (bytes : List UInt8) : Except Fault (List Char) := decodeFrom bytes.length 0 bytes

/-- U+FFFD, which stands for bytes that are no text. -/
def replacement : Char := Char.ofNat 0xFFFD

/-- Forgiving reading, with the same fuel. -/
def decodeLossyFrom : (fuel : Nat) → List UInt8 → List Char
  | _, [] => []
  | 0, _ :: _ => []
  | fuel + 1, bytes@(_ :: _) =>
    match next bytes with
    | .char c size => c :: decodeLossyFrom fuel (bytes.drop size)
    | .fault size => replacement :: decodeLossyFrom fuel (bytes.drop size)
    | .cut => [replacement]

/-- The text that the bytes spell, with U+FFFD for every fault. -/
def decodeLossy (bytes : List UInt8) : List Char := decodeLossyFrom bytes.length bytes

/-! ## Byte offsets -/

/-- The number of bytes a text takes. -/
def size : List Char → Nat
  | [] => 0
  | c :: cs => c.utf8Size + size cs

/-- How many characters stand before byte `offset`; none if the offset falls inside
a character or past the end. -/
def charsBefore? : (offset : Nat) → List Char → Option Nat
  | 0, _ => some 0
  | _ + 1, [] => none
  | offset + 1, c :: cs =>
    if c.utf8Size ≤ offset + 1 then (charsBefore? (offset + 1 - c.utf8Size) cs).map (· + 1)
    else none

end CodeNav.Utf8

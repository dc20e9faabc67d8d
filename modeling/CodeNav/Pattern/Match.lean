import CodeNav.Pattern.Basic

/-!
# Matching

A pattern is tried from left to right over a text, and at each start its choices are
tried in order of preference: the first choice of an alternative, more rounds of a
greedy repetition before fewer. **The first way that succeeds is the match**
(leftmost, then first).

`Regex.ways` is that ordered search in continuation-passing form: it tries the ways
to match in order and returns what the continuation returns at the first one it
accepts. It is structural in the expression. The only loop, unbounded repetition,
goes on only after a round that took at least one character, so the number of
characters left bounds it.

**Empty rounds.** A first round may take nothing; then the repetition is over. After
a round that took something, a round that takes nothing is no way to go on.
-/

namespace CodeNav

/-- The spans of the groups closed so far, the newest first: number, start and end. -/
abbrev Captures := List (Nat × Nat × Nat)

namespace Regex

/-- A search: from a place and the groups so far, offer the ways to match to the
continuation, and return its first answer. -/
abbrev Search (β : Type) := Cursor → Captures → (Cursor → Captures → Option β) → Option β

/-- The first answer of two searches. -/
@[inline] def orElse {β : Type} (first : Option β) (second : Unit → Option β) : Option β :=
  match first with
  | some b => some b
  | none => second ()

variable {β : Type}

/-- Prefer the first of two answers when `greedy`, else the second. -/
@[inline] def prefer (greedy : Bool) (more less : Unit → Option β) : Option β :=
  if greedy then orElse (more ()) less else orElse (less ()) more

/-- Exactly `n` rounds. -/
def exactly (body : Search β) : Nat → Search β
  | 0, here, caps, k => k here caps
  | n + 1, here, caps, k => body here caps fun here caps => exactly body n here caps k

/-- At most `n` rounds. -/
def atMost (greedy : Bool) (body : Search β) : Nat → Search β
  | 0, here, caps, k => k here caps
  | n + 1, here, caps, k =>
    prefer greedy
      (fun _ => body here caps fun here caps => atMost greedy body n here caps k)
      (fun _ => k here caps)

/-- Go on with any number of rounds, each of which takes a character at least. -/
def further (greedy : Bool) (body : Search β) : (fuel : Nat) → Search β
  | 0, here, caps, k => k here caps
  | fuel + 1, here, caps, k =>
    prefer greedy
      (fun _ => body here caps fun there caps =>
        if there.pos = here.pos then none else further greedy body fuel there caps k)
      (fun _ => k here caps)

/-- One round or more. -/
def oneOrMore (greedy : Bool) (body : Search β) (fuel : Nat) : Search β :=
  fun here caps k => body here caps fun there caps =>
    if there.pos = here.pos then k there caps else further greedy body fuel there caps k

/-- Any number of rounds. -/
def anyNumber (greedy : Bool) (body : Search β) (fuel : Nat) : Search β :=
  fun here caps k =>
    prefer greedy
      (fun _ => oneOrMore greedy body fuel here caps k)
      (fun _ => k here caps)

/-- Rounds of `body` between the two bounds. -/
def repeated (least : Nat) (most : Option Nat) (greedy : Bool) (body : Search β) (fuel : Nat) :
    Search β :=
  match most, least with
  | some most, least => fun here caps k =>
    exactly body least here caps fun here caps => atMost greedy body (most - least) here caps k
  | none, 0 => anyNumber greedy body fuel
  | none, n + 1 => fun here caps k =>
    exactly body n here caps fun here caps => oneOrMore greedy body fuel here caps k

/-- The ways to match an expression, in order of preference. `fuel` bounds the
rounds of unbounded repetitions; the length of the text is enough. -/
def ways (fuel : Nat) : Regex → Search β
  | empty, here, caps, k => k here caps
  | set s, here, caps, k =>
    match here.rest with
    | [] => none
    | c :: rest => if s.mem c then k (here.past c rest) caps else none
  | look l, here, caps, k => if l.holds here then k here caps else none
  | seq a b, here, caps, k => ways fuel a here caps fun here caps => ways fuel b here caps k
  | alt a b, here, caps, k => orElse (ways fuel a here caps k) fun _ => ways fuel b here caps k
  | group i a, here, caps, k =>
    ways fuel a here caps fun there caps => k there ((i, here.pos, there.pos) :: caps)
  | rounds least most greedy a, here, caps, k =>
    repeated least most greedy (fun here caps k => ways fuel a here caps k) fuel here caps k

end Regex

/-- Where a pattern matched, in characters, with the spans of its groups. -/
structure Found where
  /-- the first character -/
  start : Nat
  /-- just past the last character -/
  stop : Nat
  /-- the groups, each one's newest span first -/
  captures : Captures
  deriving DecidableEq, Repr

namespace Found

/-- The span of a group, if it took part in the match. -/
def group? (m : Found) (i : Nat) : Option (Nat × Nat) := (m.captures.find? (·.1 = i)).map (·.2)

end Found

/-- The characters from `start` up to `stop`. -/
def slice (s : List Char) (start stop : Nat) : List Char := (s.drop start).take (stop - start)

namespace Pattern

/-- Match right here. -/
def matchAt? (p : Pattern) (fuel : Nat) (here : Cursor) : Option Found :=
  p.regex.ways fuel here [] fun there caps => some ⟨here.pos, there.pos, caps⟩

/-- The leftmost match from the place `before`, `pos` on. -/
def scan (p : Pattern) (fuel : Nat) (before : Option Char) (pos : Nat) :
    List Char → Option Found
  | [] => p.matchAt? fuel ⟨before, pos, []⟩
  | c :: rest =>
    match p.matchAt? fuel ⟨before, pos, c :: rest⟩ with
    | some m => some m
    | none => scan p fuel (some c) (pos + 1) rest

/-- The leftmost match from a place on. -/
def findFrom? (p : Pattern) (fuel : Nat) (here : Cursor) : Option Found :=
  p.scan fuel here.before here.pos here.rest

/-- The leftmost match in a text. -/
def find? (p : Pattern) (s : List Char) : Option Found := p.findFrom? s.length (.start s)

/-- Whether a pattern matches somewhere in a text. -/
def isMatch (p : Pattern) (s : List Char) : Bool := (p.find? s).isSome

/-- All matches from a place on. Each search starts where the last match ended; a
match that takes nothing there is passed over for the next one. -/
def findAllFrom (p : Pattern) (fuel : Nat) (lastStop : Option Nat) :
    (steps : Nat) → Cursor → List Found
  | 0, _ => []
  | steps + 1, here =>
    match p.findFrom? fuel here with
    | none => []
    | some m =>
      if m.start = m.stop && lastStop = some m.stop then
        match here.rest with
        | [] => []
        | c :: rest => findAllFrom p fuel lastStop steps (here.past c rest)
      else
        m :: findAllFrom p fuel (some m.stop) steps (here.advance (m.stop - here.pos))

/-- All matches in a text that do not overlap, from left to right. Every second step
moves the start forward, so twice the length bounds the steps. -/
def findAll (p : Pattern) (s : List Char) : List Found :=
  p.findAllFrom s.length none (2 * s.length + 2) (.start s)

/-- The text of a group, if it took part in the match. -/
def text? (s : List Char) (m : Found) (i : Nat) : Option (List Char) :=
  (m.group? i).map fun (start, stop) => slice s start stop

/-- The number of a named group. -/
def groupNumber? (p : Pattern) (name : String) : Option Nat := p.names.lookup name

/-- The text without the first match. -/
def dropFirst (p : Pattern) (s : List Char) : List Char :=
  match p.find? s with
  | none => s
  | some m => s.take m.start ++ s.drop m.stop

end Pattern

end CodeNav

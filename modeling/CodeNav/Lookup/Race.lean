import CodeNav.Lookup.Program

/-!
# Racing two searches

A primary search runs alone for a while. If it has not answered then, a fallback is
sent as well, and the first of the two that answers with results wins. **An empty or
failed answer never beats results that are still to come**: the race then waits for the
other side. On a tie the primary counts as first.
-/

namespace CodeNav

/-- The two sides of a race. -/
inductive Side where
  | primary
  | fallback
  deriving DecidableEq, Repr

/-- What a search comes to. -/
abbrev Outcome (α : Type) := Except SearchError (List α)

/-- The results of a race, and whose they are. -/
structure Raced (α : Type) where
  results : List α
  winner : Side
  deriving DecidableEq, Repr

namespace Outcome

variable {α : Type}

/-- The results, if there are any. -/
def results? : Outcome α → Option (List α)
  | .ok (a :: as) => some (a :: as)
  | _ => none

/-- An outcome as the outcome of a race. -/
def wonBy (o : Outcome α) (side : Side) : Except SearchError (Raced α) :=
  o.map fun results => ⟨results, side⟩

/-- What two answers come to when the first one holds no results: results of the second
if it has any, else an empty answer before a failure, and the earlier failure of two. -/
def combine (first : Outcome α) (firstSide : Side) (second : Outcome α) (secondSide : Side) :
    Except SearchError (Raced α) :=
  match second.results?, first, second with
  | some results, _, _ => .ok ⟨results, secondSide⟩
  | none, .ok results, _ => .ok ⟨results, firstSide⟩
  | none, .error _, .ok results => .ok ⟨results, secondSide⟩
  | none, .error e, .error _ => .error e

end Outcome

namespace Program

variable {ε α : Type}

/-- Wait for an answer and take note of it. -/
def receive (received : Outcome α → Program ε Unit) (p : Promise (Outcome α)) :
    Program ε (Outcome α) := do
  let o ← await p
  received o
  return o

/-- Wait for the first answer; if it holds no results, for the second one too. -/
def firstResults (received : Outcome α → Program ε Unit)
    (first : Promise (Outcome α)) (firstSide : Side)
    (second : Promise (Outcome α)) (secondSide : Side) :
    Program ε (Except SearchError (Raced α)) := do
  let o ← receive received first
  match o.results? with
  | some results => return .ok ⟨results, firstSide⟩
  | none =>
    let o' ← receive received second
    return o.combine firstSide o' secondSide

/-- Race two searches. The fallback is sent only if the primary has not answered when
`delay` is over. -/
def race (delay : Nat) (primary fallback : Program ε (Promise (Outcome α)))
    (received : Outcome α → Program ε Unit) : Program ε (Except SearchError (Raced α)) := do
  let start ← clock
  let p ← primary
  if p.isBy (start + delay) then
    return (← receive received p).wonBy .primary
  else
    sleepUntil (start + delay)
    let f ← fallback
    if p.isFirst f then firstResults received p .primary f .fallback
    else firstResults received f .fallback p .primary

end Program

end CodeNav

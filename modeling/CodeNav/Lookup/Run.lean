import CodeNav.Lookup.Program

/-!
# Running programs

A **world** answers calls, a **machine** is the state a program runs on: the clock, what
the world remembers, the cache of file texts, and a log of calls and counts. The clock
moves only when a program waits. `run` follows a program as far as it gets before a
limit; a program that waits for a later instant is handed back where it stands, so that
it can be taken up again or dropped.
-/

namespace CodeNav

/-- How calls are answered. The state `σ` is for worlds that change. -/
structure World (σ : Type) where
  respond : (c : Call) → Nat → σ → Promise c.Answer × σ

/-- What a program did that others can see. -/
inductive Event where
  | called (c : Call)
  | counted (counter : Counter) (n : Nat)
  deriving DecidableEq, Repr

/-- The state that programs run on. -/
structure Machine (σ : Type) where
  now : Nat := 0
  world : σ
  cache : ContentCache := .new
  /-- what happened so far, the earliest first -/
  log : List Event := []

namespace Machine

variable {σ : Type}

/-- Write an event into the log. -/
def note (m : Machine σ) (e : Event) : Machine σ := { m with log := m.log ++ [e] }

/-- Move the clock, never back. -/
def moveTo (m : Machine σ) (t : Nat) : Machine σ := { m with now := max m.now t }

/-- The calls in a log. -/
def calls (m : Machine σ) : List Call :=
  m.log.filterMap fun
    | .called c => some c
    | .counted _ _ => none

/-- How much a counter grew in a log. -/
def total (m : Machine σ) (counter : Counter) : Nat :=
  (m.log.map fun
    | .called _ => 0
    | .counted c n => if c = counter then n else 0).foldr (· + ·) 0

/-- Start a new log. -/
def clearLog (m : Machine σ) : Machine σ := { m with log := [] }

end Machine

/-- Where a program stands. -/
inductive Progress (ε α : Type) where
  /-- at its end -/
  | done (a : α)
  /-- waiting for an instant -/
  | waiting (t : Nat) (next : Program ε α)
  /-- waiting for what never comes -/
  | stuck

/-- A program that has been run for a while: where it stands, what it handed out, and
the machine it leaves. -/
structure Ran (σ ε α : Type) where
  progress : Progress ε α
  emitted : List ε
  machine : Machine σ

namespace Program

variable {σ ε α : Type}

/-- Run a program on a machine until it ends or waits for an instant after `limit`. -/
def run (w : World σ) (limit : Nat) : Program ε α → Machine σ → Ran σ ε α
  | done a, m => ⟨.done a, [], m⟩
  | never, m => ⟨.stuck, [], m⟩
  | wait t p, m =>
    if t ≤ m.now || t ≤ limit then p.run w limit (m.moveTo t)
    else ⟨.waiting t p, [], m⟩
  | now k, m => (k m.now).run w limit m
  | ask c k, m =>
    let (r, world) := w.respond c m.now m.world
    (k r).run w limit ({ m with world }.note (.called c))
  | count x n p, m => p.run w limit (m.note (.counted x n))
  | emit e p, m =>
    let r := p.run w limit m
    { r with emitted := e :: r.emitted }
  | consult key k, m =>
    let (v, cache) := m.cache.get? key
    (k v).run w limit { m with cache }
  | remember key text p, m => p.run w limit { m with cache := m.cache.insert key text }

/-- Run a program as far as it gets without time passing. -/
def poll (w : World σ) (p : Program ε α) (m : Machine σ) : Ran σ ε α := p.run w m.now m

/-- How long an answer is waited for before it is given up, in milliseconds. -/
def patience : Nat := 100000000

/-- Run a program to its end, giving up after `patience`; then there is no answer, and
the clock shows the instant it was given up. -/
def finish (w : World σ) (p : Program ε α) (m : Machine σ) : Option α × Machine σ :=
  let r := p.run w (m.now + patience) m
  match r.progress with
  | .done a => (some a, r.machine)
  | _ => (none, r.machine.moveTo (m.now + patience))

end Program

end CodeNav

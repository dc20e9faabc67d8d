import CodeNav.Lookup.Call
import CodeNav.Lru

/-!
# Programs of lookups

What a lookup does is a tree of steps: make a call, wait for an instant, read the clock,
count something, hand out a value, use the cache of file texts. The tree is data, so a
program can be paused wherever it waits, dropped there, and run side by side with
another one; what it sends and when can be read off it.

`Program.both` runs two programs at once. The first one goes first whenever both can
go on, and **neither waits longer than it would alone**.
-/

namespace CodeNav

/-- A program that hands out values of type `ε` and ends with an `α`. -/
inductive Program (ε α : Type) where
  /-- the end -/
  | done (a : α)
  /-- waiting for what never comes -/
  | never
  /-- go on when the clock has reached `t` -/
  | wait (t : Nat) (next : Program ε α)
  /-- read the clock -/
  | now (next : Nat → Program ε α)
  /-- make a call, and go on at once with the promise -/
  | ask (c : Call) (next : Promise c.Answer → Program ε α)
  /-- add to a counter -/
  | count (counter : Counter) (n : Nat) (next : Program ε α)
  /-- hand out a value -/
  | emit (e : ε) (next : Program ε α)
  /-- look up a file text in the cache -/
  | consult (key : ContentKey) (next : Option String → Program ε α)
  /-- put a file text into the cache -/
  | remember (key : ContentKey) (text : String) (next : Program ε α)

namespace Program

variable {ε α β : Type}

/-- One program after the other. -/
protected def bind : Program ε α → (α → Program ε β) → Program ε β
  | done a, f => f a
  | never, _ => never
  | wait t p, f => wait t (p.bind f)
  | now k, f => now fun t => (k t).bind f
  | ask c k, f => ask c fun r => (k r).bind f
  | count x n p, f => count x n (p.bind f)
  | emit e p, f => emit e (p.bind f)
  | consult key k, f => consult key fun o => (k o).bind f
  | remember key text p, f => remember key text (p.bind f)

instance : Monad (Program ε) where
  pure := done
  bind := Program.bind

/-- The instant it is. -/
def clock : Program ε Nat := now done

/-- Make a call. -/
def call (c : Call) : Program ε (Promise c.Answer) := ask c done

/-- Add to a counter. -/
def tally (counter : Counter) (n : Nat) : Program ε Unit := count counter n (done ())

/-- Hand out a value. -/
def give (e : ε) : Program ε Unit := emit e (done ())

/-- Wait until an instant. -/
def sleepUntil (t : Nat) : Program ε Unit := wait t (done ())

/-- Wait for an answer. -/
def await (p : Promise α) : Program ε α :=
  match p with
  | .never => never
  | .due t a => wait t (done a)

/-! ## Two programs at once -/

/-- Run the right program up to the instant `due`, at which the left one goes on; `t` is
the instant it is. On a tie the left one goes first. -/
def rightUntil {γ : Type} (resume : Nat → Program ε β → Program ε γ) (due : Nat) :
    Nat → Program ε β → Program ε γ
  | _, done b => wait due (resume due (done b))
  | _, never => wait due (resume due never)
  | t, wait s q =>
    if s ≤ t then rightUntil resume due t q
    else if due ≤ s then wait due (resume due (wait s q))
    else wait s (rightUntil resume due s q)
  | _, now k => now fun t => rightUntil resume due t (k t)
  | t, ask c k => ask c fun r => rightUntil resume due t (k r)
  | t, count x n q => count x n (rightUntil resume due t q)
  | t, emit e q => emit e (rightUntil resume due t q)
  | t, consult key k => consult key fun o => rightUntil resume due t (k o)
  | t, remember key text q => remember key text (rightUntil resume due t q)

/-- Run two programs at once from the instant `t`. -/
def bothFrom : Program ε α → Nat → Program ε β → Program ε (α × β)
  | done a, _, q => q.bind fun b => done (a, b)
  | never, _, q => q.bind fun _ => never
  | wait s p, t, q =>
    if s ≤ t then p.bothFrom t q
    else rightUntil (fun t q => p.bothFrom t q) s t q
  | now k, _, q => now fun t => (k t).bothFrom t q
  | ask c k, t, q => ask c fun r => (k r).bothFrom t q
  | count x n p, t, q => count x n (p.bothFrom t q)
  | emit e p, t, q => emit e (p.bothFrom t q)
  | consult key k, t, q => consult key fun o => (k o).bothFrom t q
  | remember key text p, t, q => remember key text (p.bothFrom t q)

/-- Run two programs at once. -/
def both (p : Program ε α) (q : Program ε β) : Program ε (α × β) :=
  now fun t => p.bothFrom t q

end Program

end CodeNav

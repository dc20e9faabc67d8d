import CodeNav.Lookup.Race
import CodeNav.Lookup.Run

/-!
# Runs of programs, piece by piece

What a run comes to (`Ran.outcome?`) and the machine it leaves, for programs in sequence: the
second program starts where the first one ends (`run_bind_of_some`), and never if it does not
end by the limit (`run_bind_of_none`).
-/

namespace CodeNav

/-- What a program ended with, if it ended. -/
def Ran.outcome? {σ ε α : Type} (r : Ran σ ε α) : Option α :=
  match r.progress with
  | .done a => some a
  | _ => none

namespace Promise

variable {α : Type}

/-- The answer, if it is there at an instant. -/
def readyBy? (p : Promise α) (t : Nat) : Option α :=
  match p with
  | never => none
  | due s a => if s ≤ t then some a else none

@[simp] theorem readyBy?_never (t : Nat) : (never : Promise α).readyBy? t = none := rfl

theorem readyBy?_due (s t : Nat) (a : α) :
    (due s a).readyBy? t = if s ≤ t then some a else none := rfl

end Promise

namespace Program

variable {σ ε α β : Type} {w : World σ} {limit : Nat}

/-! ## In sequence -/

/-- The second program runs on from where the first one ends. -/
theorem run_bind (p : Program ε α) (f : α → Program ε β) (m : Machine σ) :
    (p >>= f).run w limit m =
      match p.run w limit m with
      | ⟨.done a, es, m'⟩ =>
        let r := (f a).run w limit m'
        { r with emitted := es ++ r.emitted }
      | ⟨.waiting t next, es, m'⟩ => ⟨.waiting t (next >>= f), es, m'⟩
      | ⟨.stuck, es, m'⟩ => ⟨.stuck, es, m'⟩ := by
  change (p.bind f).run w limit m = _
  induction p generalizing m with
  | done a => rfl
  | never => rfl
  | wait t p ih =>
    simp only [Program.bind, run]
    split
    · exact ih _
    · rfl
  | now k ih => exact ih _ _
  | ask c k ih => exact ih _ _
  | count x n p ih => exact ih _
  | emit e p ih =>
    simp only [Program.bind, run, ih m]
    obtain ⟨progress, es, m'⟩ := p.run w limit m
    cases progress <;> rfl
  | consult key k ih => exact ih _ _
  | remember key text p ih => exact ih _

@[simp] theorem run_pure (a : α) (m : Machine σ) :
    (pure a : Program ε α).run w limit m = ⟨.done a, [], m⟩ := rfl

/-- If the first program ends, the second decides. -/
theorem run_bind_of_some {p : Program ε α} {m : Machine σ} {a : α}
    (h : (p.run w limit m).outcome? = some a) (f : α → Program ε β) :
    ((p >>= f).run w limit m).outcome? =
        ((f a).run w limit (p.run w limit m).machine).outcome? ∧
      ((p >>= f).run w limit m).machine =
        ((f a).run w limit (p.run w limit m).machine).machine := by
  rw [run_bind]
  revert h
  obtain ⟨progress, es, m'⟩ := p.run w limit m
  intro h
  cases progress with
  | done b =>
    cases h
    exact ⟨rfl, rfl⟩
  | waiting t next => cases h
  | stuck => cases h

/-- If the first program does not end, the second does not start. -/
theorem run_bind_of_none {p : Program ε α} {m : Machine σ}
    (h : (p.run w limit m).outcome? = none) (f : α → Program ε β) :
    ((p >>= f).run w limit m).outcome? = none ∧
      ((p >>= f).run w limit m).machine = (p.run w limit m).machine := by
  rw [run_bind]
  revert h
  obtain ⟨progress, es, m'⟩ := p.run w limit m
  intro h
  cases progress with
  | done b => cases h
  | waiting t next => exact ⟨rfl, rfl⟩
  | stuck => exact ⟨rfl, rfl⟩

/-- Waiting for an answer comes to the answer, if it is there by the limit, or is there already. -/
theorem outcome?_await (r : Promise α) (m : Machine σ) :
    ((await r : Program ε α).run w limit m).outcome? = r.readyBy? (max m.now limit) := by
  cases r with
  | never => rfl
  | due t a =>
    have hdue : (t ≤ m.now || t ≤ limit) = decide (t ≤ max m.now limit) := by
      rw [← Bool.decide_or, decide_eq_decide]
      omega
    simp only [await, run, hdue, decide_eq_true_eq, Promise.readyBy?_due]
    split <;> rfl

end Program

end CodeNav

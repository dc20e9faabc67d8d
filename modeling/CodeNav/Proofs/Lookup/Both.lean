import CodeNav.Proofs.Lookup.Shift
import CodeNav.Proofs.Lookup.Steps

/-!
# Two programs at once

Beside a world whose answers depend on the question and the instant alone, a program that uses
no cache comes to something that depends on the instant it starts at and on nothing else:
`Program.comesTo` (`outcome?_run_of_memoryless`). Two such programs that run at once do not
disturb each other: **each comes to what it comes to alone**, and both have ended when the
later one has (`comesTo_bothFrom`, `outcome?_run_both`). So which of them ends first cannot be
seen in what they come to.

The invariant is in `comesTo_rightUntil`: while the left program waits, the right one goes on at
exactly the instants it waits for, and what is left of it when the left one resumes comes to the
same from there.
-/

namespace CodeNav

/-- Answers that depend on the call and the instant. -/
abbrev Answers := (c : Call) → Nat → Promise c.Answer

/-- A world that answers the same whatever it was asked before. -/
def World.Memoryless {σ : Type} (w : World σ) (answers : Answers) : Prop :=
  ∀ c t s, (w.respond c t s).1 = answers c t

namespace Program

variable {σ ε α β : Type}

/-- What a program comes to by a limit that starts at an instant, and the instant it ends. -/
def comesTo (answers : Answers) (limit : Nat) : Program ε α → Nat → Option (α × Nat)
  | done a, t => some (a, t)
  | never, _ => none
  | wait s p, t => if s ≤ t ∨ s ≤ limit then p.comesTo answers limit (max t s) else none
  | now k, t => (k t).comesTo answers limit t
  | ask c k, t => (k (answers c t)).comesTo answers limit t
  | count _ _ p, t => p.comesTo answers limit t
  | emit _ p, t => p.comesTo answers limit t
  | consult _ _, _ => none
  | remember _ _ _, _ => none

theorem Shifted.uncached {δ : Nat} {R : α → β → Prop} {p : Program ε α} {q : Program ε β}
    (h : Shifted δ R p q) : p.Uncached := by
  induction h with
  | done _ => trivial
  | never => trivial
  | wait _ ih => exact ih
  | now _ ih => exact ih
  | ask _ ih => exact ⟨trivial, ih⟩
  | count _ ih => exact ⟨trivial, ih⟩
  | emit _ ih => exact ⟨trivial, ih⟩

/-- A program that only measures time uses no cache. -/
theorem Timeless.uncached {p : Program ε α} (h : p.Timeless) : p.Uncached := (h 0).uncached

section Alone

variable {answers : Answers} {limit : Nat}

/-- Beside a memoryless world a program comes to what its instant of starting says. -/
theorem outcome?_run_of_memoryless {w : World σ} (hw : w.Memoryless answers) {p : Program ε α}
    (hp : p.Uncached) (m : Machine σ) :
    (p.run w limit m).outcome? = (p.comesTo answers limit m.now).map Prod.fst := by
  induction p generalizing m with
  | done a => rfl
  | never => rfl
  | wait s p ih =>
    simp only [run, comesTo, Bool.or_eq_true, decide_eq_true_eq]
    split
    · exact ih hp (m.moveTo s)
    · rfl
  | now k ih => exact ih _ (hp _) m
  | ask c k ih =>
    let m' : Machine σ := { m with world := (w.respond c m.now m.world).2 }
    have h : (run w limit (ask c k) m).outcome? = _ :=
      ih (w.respond c m.now m.world).1 (hp.2 _) (m'.note (.called c))
    rwa [hw c m.now m.world] at h
  | count x n p ih => exact ih hp.2 (m.note _)
  | emit e p ih => exact ih hp.2 m
  | consult key k ih => exact hp.1.elim
  | remember key text p ih => exact hp.1.elim

theorem comesTo_wait_of_le (p : Program ε α) {s t : Nat} (h : s ≤ t) :
    (wait s p).comesTo answers limit t = p.comesTo answers limit t := by
  rw [comesTo, if_pos (.inl h), Nat.max_eq_left h]

theorem comesTo_wait_of_lt (p : Program ε α) {s t : Nat} (h : t < s) :
    (wait s p).comesTo answers limit t =
      if s ≤ limit then p.comesTo answers limit s else none := by
  simp only [comesTo, Nat.not_le.mpr h, false_or, Nat.max_eq_right (Nat.le_of_lt h)]

/-- No program ends before it starts. -/
theorem le_of_comesTo {p : Program ε α} {t s : Nat} {a : α}
    (h : p.comesTo answers limit t = some (a, s)) : t ≤ s := by
  induction p generalizing t with
  | done b =>
    cases h
    exact Nat.le_refl _
  | never => cases h
  | wait r p ih =>
    rw [comesTo] at h
    split at h
    · exact Nat.le_trans (Nat.le_max_left t r) (ih h)
    · cases h
  | now k ih => exact ih _ h
  | ask c k ih => exact ih _ h
  | count x n p ih => exact ih h
  | emit e p ih => exact ih h
  | consult key k ih => cases h
  | remember key text p ih => cases h

theorem comesTo_bind (p : Program ε α) (f : α → Program ε β) (t : Nat) :
    (p.bind f).comesTo answers limit t =
      (p.comesTo answers limit t).bind fun x => (f x.1).comesTo answers limit x.2 := by
  induction p generalizing t with
  | done a => rfl
  | never => rfl
  | wait s p ih =>
    simp only [Program.bind, comesTo]
    split
    · exact ih _
    · rfl
  | now k ih => exact ih _ _
  | ask c k ih => exact ih _ _
  | count x n p ih => exact ih _
  | emit e p ih => exact ih _
  | consult key k ih => rfl
  | remember key text p ih => rfl

/-- Both values, when the later one is there. -/
def together (x : Option (α × Nat)) (y : Option (β × Nat)) : Option ((α × β) × Nat) :=
  x.bind fun x => y.map fun y => ((x.1, y.1), max x.2 y.2)

@[simp] theorem together_none_right (x : Option (α × Nat)) :
    together x (none : Option (β × Nat)) = none := by
  cases x <;> rfl

/-- A program that starts at `due` ends no earlier, so the instant at which the other one ended
before does not count. -/
theorem together_of_lt (p : Program ε α) {due t : Nat} (b : β) (ht : t < due) :
    together (p.comesTo answers limit due) (some (b, due)) =
      together (p.comesTo answers limit due) (some (b, t)) := by
  cases h : p.comesTo answers limit due with
  | none => rfl
  | some x =>
    have hle := le_of_comesTo h
    have hmax : max x.2 due = max x.2 t := by omega
    simp only [together, Option.bind_some, Option.map_some, hmax]

section Until

-- the left program, once it goes on, does not disturb the right one
variable {p : Program ε α} (hp : ∀ t (q : Program ε β), (p.bothFrom t q).comesTo answers limit t =
  together (p.comesTo answers limit t) (q.comesTo answers limit t))

include hp

/-- The left program goes on at `due`, if that is in time, with what is left of the right one. -/
theorem comesTo_resumed (q : Program ε β) {due t : Nat} (hdue : t < due) :
    (wait due (p.bothFrom due q)).comesTo answers limit t =
      if due ≤ limit then together (p.comesTo answers limit due) (q.comesTo answers limit due)
      else none := by
  rw [comesTo_wait_of_lt _ hdue, hp]

/-- While the left program waits for `due`, the right one goes on as it would alone. -/
theorem comesTo_rightUntil (q : Program ε β) {due t : Nat} (hdue : t < due) :
    (rightUntil (fun t q => p.bothFrom t q) due t q).comesTo answers limit t =
      if due ≤ limit then
        together (p.comesTo answers limit due) (q.comesTo answers limit t)
      else none := by
  induction q generalizing t with
  | done b =>
    rw [rightUntil, comesTo_resumed hp _ hdue, comesTo, comesTo, together_of_lt p b hdue]
  | never => rw [rightUntil, comesTo_resumed hp _ hdue, comesTo, comesTo]
  | wait s q ih =>
    rw [rightUntil]
    split
    · next hs =>
      -- the right program need not wait
      rw [ih hdue, comesTo_wait_of_le _ hs]
    · next hs =>
      have hwait := @comesTo_wait_of_lt ε β answers limit q s t (Nat.not_le.mp hs)
      split
      · next hlate =>
        -- the left program goes first, and the right one still waits for `s`
        rw [comesTo_resumed hp _ hdue, hwait]
        split
        · rcases Nat.eq_or_lt_of_le hlate with rfl | hlt
          · rw [comesTo_wait_of_le _ (Nat.le_refl _), if_pos ‹_›]
          · rw [comesTo_wait_of_lt _ hlt]
        · rfl
      · next hearly =>
        -- the right program goes first, before the left one resumes
        have hsdue : s < due := Nat.not_le.mp hearly
        rw [comesTo_wait_of_lt _ (Nat.not_le.mp hs), hwait, ih hsdue]
        by_cases hlimit : due ≤ limit
        · rw [if_pos (by omega), if_pos hlimit, if_pos hlimit, if_pos (by omega)]
        · simp only [hlimit, if_false, ite_self]
  | now k ih => exact ih t hdue
  | ask c k ih => exact ih _ hdue
  | count x n q ih => exact ih hdue
  | emit e q ih => exact ih hdue
  | consult key k ih => simp [rightUntil, comesTo]
  | remember key text q ih => simp [rightUntil, comesTo]

end Until

/-- **Two programs at once each come to what they come to alone.** -/
theorem comesTo_bothFrom (p : Program ε α) (q : Program ε β) (t : Nat) :
    (p.bothFrom t q).comesTo answers limit t =
      together (p.comesTo answers limit t) (q.comesTo answers limit t) := by
  induction p generalizing t q with
  | done a =>
    rw [bothFrom, comesTo_bind]
    cases h : q.comesTo answers limit t with
    | none => rfl
    | some y =>
      have hle := le_of_comesTo h
      simp only [together, comesTo, Option.bind_some, Option.map_some, Nat.max_eq_right hle]
  | never =>
    rw [bothFrom, comesTo_bind]
    cases q.comesTo answers limit t <;> rfl
  | wait s p ih =>
    rw [bothFrom]
    split
    · next hs => rw [ih, comesTo_wait_of_le _ hs]
    · next hs =>
      have hdue : t < s := Nat.not_le.mp hs
      rw [comesTo_rightUntil (fun t q => ih q t) q hdue, comesTo_wait_of_lt _ hdue]
      split
      · rfl
      · rfl
  | now k ih => exact ih t q t
  | ask c k ih => exact ih _ q t
  | count x n p ih => exact ih q t
  | emit e p ih => exact ih q t
  | consult key k ih => rfl
  | remember key text p ih => rfl

/-- **Beside a memoryless world, two programs at once end as each of them does alone**: both do,
with the same values, or the two together do not end. -/
theorem outcome?_run_both {w : World σ} (hw : w.Memoryless answers) {p : Program ε α}
    {q : Program ε β} (hp : p.Timeless) (hq : q.Timeless) (m : Machine σ) :
    ((p.both q).run w limit m).outcome? =
      (p.run w limit m).outcome?.bind fun a => (q.run w limit m).outcome?.map fun b => (a, b) := by
  have hboth : (p.both q).comesTo answers limit m.now =
      together (p.comesTo answers limit m.now) (q.comesTo answers limit m.now) :=
    comesTo_bothFrom p q m.now
  rw [outcome?_run_of_memoryless hw (hp.both hq).uncached,
    outcome?_run_of_memoryless hw hp.uncached, outcome?_run_of_memoryless hw hq.uncached, hboth]
  cases p.comesTo answers limit m.now with
  | none => rfl
  | some x => cases q.comesTo answers limit m.now <;> rfl

end Alone

end Program

end CodeNav

import CodeNav.Proofs.Lookup.Steps
import Mathlib.Algebra.Group.Basic
import Mathlib.Algebra.Group.Nat.Defs
import Mathlib.Algebra.Group.Pi.Basic
import Mathlib.Algebra.GroupWithZero.Nat

/-!
# Who was asked what and when, and what was counted

The log of a machine says which calls were made, not when, nor what was promised. A world can
tell: `World.recorded` is a world that keeps a record of the calls it gets, and keeping it
**changes nothing of a run** (`run_recorded`). `Program.record` is what a run leaves in it.

`Program.Trace` is the big-step reading of a program: started at an instant, beside any world, it
makes these calls and the counters grow by this much, up to wherever it is left or to its end; time
passes only where it waits. Every run is such a reading, with its record for the calls and its log
for the counters (`trace_record`). Readings come apart where programs are put together:

* **in sequence** (`Trace.bind_cases`) — the first program was left, or it ended and the second
  one took over at that instant; calls are appended and growths are added;
* **at once** (`Trace.both`) — if the calls of the two programs can be told apart, those of each
  are read off that program alone, started at the same instant, and **what is counted is the sum**:
  neither moves the other, and nothing is counted twice or left out.

`Program.Completes` is a reading up to the end, for runs that end (`completes_run`).
-/

namespace CodeNav

/-- A call that was made, when that was, and what was promised. -/
structure Sent where
  instant : Nat
  call : Call
  promise : Promise call.Answer

/-- The same world, with a record of the calls it gets, the earliest first. -/
def World.recorded {σ : Type} (w : World σ) : World (σ × List Sent) where
  respond c t s :=
    let (r, world) := w.respond c t s.1
    (r, world, s.2 ++ [⟨t, c, r⟩])

/-- The machine beside the recorded world, with what is in the record already. -/
def Machine.recorded {σ : Type} (m : Machine σ) (before : List Sent) :
    Machine (σ × List Sent) :=
  ⟨m.now, (m.world, before), m.cache, m.log⟩

namespace Machine

variable {σ : Type}

/-- A call counts for nothing. -/
theorem total_note_called (m : Machine σ) (c : Call) (x : Counter) :
    (m.note (.called c)).total x = m.total x := by
  change List.sum _ = List.sum _
  simp [note]

/-- What is counted is added to its own counter. -/
theorem total_note_counted (m : Machine σ) (y : Counter) (n : Nat) (x : Counter) :
    (m.note (.counted y n)).total x = m.total x + (Pi.single y n : Counter → Nat) x := by
  change List.sum _ = List.sum _ + _
  simp [note, Pi.single_apply, eq_comm]

end Machine

namespace Program

variable {σ ε α β : Type} {w : World σ} {limit : Nat}

/-! ## The record of a run -/

/-- The calls that a run makes, the earliest first. -/
def record (w : World σ) (limit : Nat) (p : Program ε α) (m : Machine σ) : List Sent :=
  (p.run w.recorded limit (m.recorded [])).machine.world.2

/-- What a program may do beside any world, started at an instant: the calls it makes until it
is left, how much each counter grows, and what it ended with and when, if it was not left before. -/
inductive Trace :
    Program ε α → Nat → List Sent → (Counter → Nat) → Option (α × Nat) → Prop where
  | left {p : Program ε α} {t : Nat} : Trace p t [] 0 none
  | done {a : α} {t : Nat} : Trace (done a) t [] 0 (some (a, t))
  | wait {u t : Nat} {p : Program ε α} {tr : List Sent} {g : Counter → Nat}
      {o : Option (α × Nat)} (h : Trace p (max t u) tr g o) : Trace (wait u p) t tr g o
  | now {t : Nat} {k : Nat → Program ε α} {tr : List Sent} {g : Counter → Nat}
      {o : Option (α × Nat)} (h : Trace (k t) t tr g o) : Trace (now k) t tr g o
  | ask {t : Nat} {c : Call} {k : Promise c.Answer → Program ε α} {tr : List Sent}
      {g : Counter → Nat} {o : Option (α × Nat)} (r : Promise c.Answer)
      (h : Trace (k r) t tr g o) : Trace (ask c k) t (⟨t, c, r⟩ :: tr) g o
  | count {t n : Nat} {x : Counter} {p : Program ε α} {tr : List Sent} {g : Counter → Nat}
      {o : Option (α × Nat)} (h : Trace p t tr g o) :
      Trace (count x n p) t tr (Pi.single x n + g) o
  | emit {t : Nat} {e : ε} {p : Program ε α} {tr : List Sent} {g : Counter → Nat}
      {o : Option (α × Nat)} (h : Trace p t tr g o) : Trace (emit e p) t tr g o
  | consult {t : Nat} {key : ContentKey} {k : Option String → Program ε α} {tr : List Sent}
      {g : Counter → Nat} {o : Option (α × Nat)} (v : Option String)
      (h : Trace (k v) t tr g o) : Trace (consult key k) t tr g o
  | remember {t : Nat} {key : ContentKey} {text : String} {p : Program ε α} {tr : List Sent}
      {g : Counter → Nat} {o : Option (α × Nat)} (h : Trace p t tr g o) :
      Trace (remember key text p) t tr g o

/-- Every run is a trace with its outcome, and its machine's counters grow as the trace says. Beside
the recorded world it is the same run, and adds the calls of the trace to the record. -/
theorem exists_trace_run (w : World σ) (limit : Nat) (p : Program ε α) (m : Machine σ) :
    ∃ tr g o, p.Trace m.now tr g o ∧ o.map Prod.fst = (p.run w limit m).outcome? ∧
      (∀ x, (p.run w limit m).machine.total x = m.total x + g x) ∧
      ∀ before, p.run w.recorded limit (m.recorded before) =
        let r := p.run w limit m
        ⟨r.progress, r.emitted, r.machine.recorded (before ++ tr)⟩ := by
  induction p generalizing m with
  | done a =>
    exact ⟨[], 0, _, .done, rfl, fun _ => rfl, fun before => by rw [List.append_nil]; rfl⟩
  | never =>
    exact ⟨[], 0, _, .left, rfl, fun _ => rfl, fun before => by rw [List.append_nil]; rfl⟩
  | wait t p ih =>
    by_cases hdue : (t ≤ m.now || t ≤ limit) = true
    · have hrun : (wait t p).run w limit m = p.run w limit (m.moveTo t) := if_pos hdue
      obtain ⟨tr, g, o, htr, hout, htotal, hrecorded⟩ := ih (m.moveTo t)
      rw [hrun]
      exact ⟨tr, g, o, .wait htr, hout, htotal, fun before =>
        (if_pos hdue).trans (hrecorded before)⟩
    · have hrun : (wait t p).run w limit m = ⟨.waiting t p, [], m⟩ := if_neg hdue
      rw [hrun]
      refine ⟨[], 0, _, .left, rfl, fun _ => rfl, fun before => ?_⟩
      rw [List.append_nil]
      exact if_neg hdue
  | now k ih =>
    obtain ⟨tr, g, o, htr, hrest⟩ := ih m.now m
    exact ⟨tr, g, o, .now htr, hrest⟩
  | ask c k ih =>
    let answered := w.respond c m.now m.world
    let m' : Machine σ := { m with world := answered.2 }
    obtain ⟨tr, g, o, htr, hout, htotal, hrecorded⟩ := ih answered.1 (m'.note (.called c))
    refine ⟨⟨m.now, c, answered.1⟩ :: tr, g, o, .ask answered.1 htr, hout, fun x => ?_,
      fun before => ?_⟩
    · refine (htotal x).trans ?_
      rw [Machine.total_note_called]
      rfl
    · rw [List.append_cons]
      exact hrecorded (before ++ [⟨m.now, c, answered.1⟩])
  | count y n p ih =>
    obtain ⟨tr, g, o, htr, hout, htotal, hrecorded⟩ := ih (m.note (.counted y n))
    refine ⟨tr, _, o, .count htr, hout, fun x => (htotal x).trans ?_, hrecorded⟩
    rw [Machine.total_note_counted, Pi.add_apply, Nat.add_assoc]
  | emit e p ih =>
    obtain ⟨tr, g, o, htr, hout, htotal, hrecorded⟩ := ih m
    refine ⟨tr, g, o, .emit htr, hout, htotal, fun before => ?_⟩
    simp only [run, hrecorded before]
  | consult key k ih =>
    obtain ⟨tr, g, o, htr, hrest⟩ :=
      ih (m.cache.get? key).1 { m with cache := (m.cache.get? key).2 }
    exact ⟨tr, g, o, .consult _ htr, hrest⟩
  | remember key text p ih =>
    obtain ⟨tr, g, o, htr, hrest⟩ := ih { m with cache := m.cache.insert key text }
    exact ⟨tr, g, o, .remember htr, hrest⟩

/-- **The record of a run is a trace of its program**, with the outcome of the run and what it adds
to each counter. -/
theorem trace_record (w : World σ) (limit : Nat) (p : Program ε α) (m : Machine σ) :
    ∃ g o, p.Trace m.now (p.record w limit m) g o ∧
      o.map Prod.fst = (p.run w limit m).outcome? ∧
      ∀ x, (p.run w limit m).machine.total x = m.total x + g x := by
  obtain ⟨tr, g, o, htr, hout, htotal, hrecorded⟩ := exists_trace_run w limit p m
  refine ⟨g, o, ?_, hout, htotal⟩
  rw [record, hrecorded []]
  exact htr

/-- **Keeping a record changes nothing of a run.** -/
theorem run_recorded (p : Program ε α) (m : Machine σ) (before : List Sent) :
    p.run w.recorded limit (m.recorded before) =
      let r := p.run w limit m
      ⟨r.progress, r.emitted, r.machine.recorded (before ++ p.record w limit m)⟩ := by
  obtain ⟨tr, g, o, -, -, -, hrecorded⟩ := exists_trace_run w limit p m
  have hrecord : p.record w limit m = tr := by
    rw [record, hrecorded []]
    rfl
  rw [hrecord, hrecorded]

/-- If the first program ends, the second one adds its calls. -/
theorem record_bind_of_some {p : Program ε α} {m : Machine σ} {a : α}
    (h : (p.run w limit m).outcome? = some a) (f : α → Program ε β) :
    (p >>= f).record w limit m =
      p.record w limit m ++ (f a).record w limit (p.run w limit m).machine := by
  have hrecorded : (p.run w.recorded limit (m.recorded [])).outcome? = some a := by
    rw [run_recorded]
    exact h
  rw [record, (run_bind_of_some hrecorded f).2, run_recorded]
  simp only [List.nil_append]
  rw [run_recorded]
  rfl

/-- If the first program does not end, its calls are all there are. -/
theorem record_bind_of_none {p : Program ε α} {m : Machine σ}
    (h : (p.run w limit m).outcome? = none) (f : α → Program ε β) :
    (p >>= f).record w limit m = p.record w limit m := by
  have hrecorded : (p.run w.recorded limit (m.recorded [])).outcome? = none := by
    rw [run_recorded]
    exact h
  rw [record, (run_bind_of_none hrecorded f).2, record]

namespace Trace

variable {t u : Nat} {tr : List Sent} {g : Counter → Nat} {o : Option (α × Nat)}

/-- A trace holds calls of the program only. -/
theorem of_asks {P : Call → Prop} {p : Program ε α} (hp : p.Asks P) (h : p.Trace t tr g o) :
    ∀ s ∈ tr, P s.call := by
  induction h with
  | left => exact List.forall_mem_nil _
  | done => exact List.forall_mem_nil _
  | wait _ ih => exact ih hp
  | now _ ih => exact ih (hp _)
  | ask r _ ih => exact List.forall_mem_cons.mpr ⟨hp.1, ih (hp.2 r)⟩
  | count _ ih => exact ih hp.2
  | emit _ ih => exact ih hp.2
  | consult v _ ih => exact ih (hp.2 v)
  | remember _ ih => exact ih hp.2

/-- A program that makes no calls has traces without any. -/
theorem eq_nil {p : Program ε α} (hp : p.Asks fun _ => False) (h : p.Trace t tr g o) : tr = [] :=
  List.eq_nil_iff_forall_not_mem.mpr (h.of_asks hp)

/-! ## In sequence -/

/-- A trace of two programs in sequence: the first one was left, or it ended and the second one
took over at that instant. -/
def Splits (p : Program ε α) (f : α → Program ε β) (t : Nat) (tr : List Sent)
    (g : Counter → Nat) (o : Option (β × Nat)) : Prop :=
  p.Trace t tr g none ∧ o = none ∨
    ∃ a t' tr₁ tr₂ g₁ g₂, p.Trace t tr₁ g₁ (some (a, t')) ∧ (f a).Trace t' tr₂ g₂ o ∧
      tr = tr₁ ++ tr₂ ∧ g = g₁ + g₂

/-- One step before the first program, with what is sent there. -/
theorem Splits.step {p p' : Program ε α} {f : α → Program ε β} {t' : Nat}
    {o : Option (β × Nat)} (h : Splits p' f t' tr g o) (sent : List Sent)
    (hstep : ∀ {tr g o}, p'.Trace t' tr g o → p.Trace t (sent ++ tr) g o) :
    Splits p f t (sent ++ tr) g o := by
  rcases h with ⟨hp, ho⟩ | ⟨a, t₁, tr₁, tr₂, g₁, g₂, hp, hf, rfl, rfl⟩
  · exact .inl ⟨hstep hp, ho⟩
  · exact .inr ⟨a, t₁, sent ++ tr₁, tr₂, g₁, g₂, hstep hp, hf, (List.append_assoc _ _ _).symm, rfl⟩

/-- One step that counts, before the first program. -/
theorem Splits.count {p : Program ε α} {f : α → Program ε β} {o : Option (β × Nat)}
    (h : Splits p f t tr g o) (x : Counter) (n : Nat) :
    Splits (Program.count x n p) f t tr (Pi.single x n + g) o := by
  rcases h with ⟨hp, ho⟩ | ⟨a, t₁, tr₁, tr₂, g₁, g₂, hp, hf, rfl, rfl⟩
  · exact .inl ⟨.count hp, ho⟩
  · exact .inr ⟨a, t₁, tr₁, tr₂, _, g₂, .count hp, hf, rfl, (add_assoc _ _ _).symm⟩

/-- **In sequence**, traces come apart. -/
theorem bind_cases {p : Program ε α} {f : α → Program ε β} {o : Option (β × Nat)}
    (h : Trace (p >>= f) t tr g o) : Splits p f t tr g o := by
  have hleft : ∀ {p : Program ε α} {t}, Splits p f t [] 0 none := .inl ⟨.left, rfl⟩
  change Trace (p.bind f) t tr g o at h
  induction p generalizing t tr g with
  | done a => exact .inr ⟨a, t, [], tr, 0, g, .done, h, rfl, (zero_add g).symm⟩
  | never =>
    cases h
    exact hleft
  | wait u p ih =>
    cases h with
    | left => exact hleft
    | wait h => exact (ih h).step [] .wait
  | now k ih =>
    cases h with
    | left => exact hleft
    | now h => exact (ih _ h).step [] .now
  | ask c k ih =>
    cases h with
    | left => exact hleft
    | ask r h => exact (ih r h).step [⟨t, c, r⟩] (.ask r)
  | count x n p ih =>
    cases h with
    | left => exact hleft
    | count h => exact (ih h).count x n
  | emit e p ih =>
    cases h with
    | left => exact hleft
    | emit h => exact (ih h).step [] .emit
  | consult key k ih =>
    cases h with
    | left => exact hleft
    | consult v h => exact (ih v h).step [] (.consult v)
  | remember key text p ih =>
    cases h with
    | left => exact hleft
    | remember h => exact (ih h).step [] .remember

/-- Where nothing is asked for behind a program, all calls are that program's, and the sequence has
ended only if it has. -/
theorem of_bind_quiet {p : Program ε α} {f : α → Program ε β} {o : Option (β × Nat)}
    (hf : ∀ a, (f a).Asks fun _ => False) (h : Trace (p >>= f) t tr g o) :
    ∃ g' o', p.Trace t tr g' o' ∧ (o' = none → o = none) := by
  rcases h.bind_cases with ⟨hp, ho⟩ | ⟨a, t', tr₁, tr₂, g₁, g₂, hp, hrest, rfl, rfl⟩
  · exact ⟨g, none, hp, fun _ => ho⟩
  · rw [hrest.eq_nil (hf a), List.append_nil]
    exact ⟨g₁, some (a, t'), hp, nofun⟩

/-! ## At once -/

/-- Waiting from a later instant on, but not past the one waited for, makes no difference. -/
theorem wait_of_le {p : Program ε α} {t' : Nat} (h : Trace (Program.wait u p) t' tr g o)
    (htt' : t ≤ t') (ht' : t' ≤ u) : Trace (Program.wait u p) t tr g o := by
  cases h with
  | left => exact .left
  | wait h =>
    rw [Nat.max_eq_right ht'] at h
    refine .wait ?_
    rwa [Nat.max_eq_right (Nat.le_trans htt' ht')]

/-- From `t` on the program `p` may do all that `p'` may do from `t'` on, and end with the same,
perhaps at another instant. -/
def Covers (p : Program ε α) (t : Nat) (p' : Program ε α) (t' : Nat) : Prop :=
  ∀ ⦃tr g o⦄, p'.Trace t' tr g o → ∃ o', p.Trace t tr g o' ∧ o'.map Prod.fst = o.map Prod.fst

theorem Covers.refl (p : Program ε α) (t : Nat) : Covers p t p t := fun _ _ o h => ⟨o, h, rfl⟩

/-- One step, without a call and without counting. -/
theorem Covers.step {p p' : Program ε α} {t t' : Nat}
    (h : ∀ {tr g o}, p'.Trace t' tr g o → p.Trace t tr g o) : Covers p t p' t' :=
  fun _ _ o hp' => ⟨o, h hp', rfl⟩

section Both

variable {P : Call → Bool} {p : Program ε α} {q : Program ε β} {o : Option ((α × β) × Nat)}

/-- The calls that satisfy `P` are those of the one program, the others those of the other, and both
have counted what was counted. If the two ended together, each of them ended with its value. -/
def Apart (P : Call → Bool) (p : Program ε α) (q : Program ε β) (t : Nat) (tr : List Sent)
    (g : Counter → Nat) (o : Option ((α × β) × Nat)) : Prop :=
  ∃ g₁ g₂ o₁ o₂, p.Trace t (tr.filter (P ·.call)) g₁ o₁ ∧
    q.Trace t (tr.filter (!P ·.call)) g₂ o₂ ∧ g = g₁ + g₂ ∧
    ∀ x t', o = some (x, t') → o₁.map Prod.fst = some x.1 ∧ o₂.map Prod.fst = some x.2

theorem Apart.left : Apart P p q t [] 0 none :=
  ⟨0, 0, none, none, .left, .left, (add_zero 0).symm, nofun⟩

/-- One step of each program, without a call and without counting. -/
theorem Apart.imp {p' : Program ε α} {q' : Program ε β} {t' : Nat} (h : Apart P p' q' t' tr g o)
    (hp : Covers p t p' t') (hq : Covers q t q' t') : Apart P p q t tr g o := by
  obtain ⟨g₁, g₂, o₁, o₂, hp', hq', hg, ho⟩ := h
  obtain ⟨o₁', hp, ho₁⟩ := hp hp'
  obtain ⟨o₂', hq, ho₂⟩ := hq hq'
  refine ⟨g₁, g₂, o₁', o₂', hp, hq, hg, fun x t' hx => ?_⟩
  rw [ho₁, ho₂]
  exact ho x t' hx

/-- The left program makes a call. -/
theorem Apart.ask_left {c : Call} {k : Promise c.Answer → Program ε α} {r : Promise c.Answer}
    (hc : P c = true) (h : Apart P (k r) q t tr g o) :
    Apart P (Program.ask c k) q t (⟨t, c, r⟩ :: tr) g o := by
  obtain ⟨g₁, g₂, o₁, o₂, hp, hq, hrest⟩ := h
  refine ⟨g₁, g₂, o₁, o₂, ?_, ?_, hrest⟩
  · rw [List.filter_cons_of_pos (by simp [hc])]
    exact .ask r hp
  · rwa [List.filter_cons_of_neg (by simp [hc])]

/-- The right program makes a call. -/
theorem Apart.ask_right {c : Call} {k : Promise c.Answer → Program ε β} {r : Promise c.Answer}
    (hc : P c = false) (h : Apart P p (k r) t tr g o) :
    Apart P p (Program.ask c k) t (⟨t, c, r⟩ :: tr) g o := by
  obtain ⟨g₁, g₂, o₁, o₂, hp, hq, hrest⟩ := h
  refine ⟨g₁, g₂, o₁, o₂, ?_, ?_, hrest⟩
  · rwa [List.filter_cons_of_neg (by simp [hc])]
  · rw [List.filter_cons_of_pos (by simp [hc])]
    exact .ask r hq

/-- The left program counts. -/
theorem Apart.count_left (h : Apart P p q t tr g o) (x : Counter) (n : Nat) :
    Apart P (Program.count x n p) q t tr (Pi.single x n + g) o := by
  obtain ⟨g₁, g₂, o₁, o₂, hp, hq, rfl, ho⟩ := h
  exact ⟨_, g₂, o₁, o₂, .count hp, hq, (add_assoc _ _ _).symm, ho⟩

/-- The right program counts. -/
theorem Apart.count_right (h : Apart P p q t tr g o) (x : Counter) (n : Nat) :
    Apart P p (Program.count x n q) t tr (Pi.single x n + g) o := by
  obtain ⟨g₁, g₂, o₁, o₂, hp, hq, rfl, ho⟩ := h
  exact ⟨g₁, _, o₁, o₂, hp, .count hq, add_left_comm _ _ _, ho⟩

/-- The left program does nothing more; the right one goes on alone. -/
theorem Apart.right {o₁ : Option (α × Nat)} {o₂ : Option (β × Nat)} (hp : p.Trace t [] 0 o₁)
    (hq : q.Asks (P · = false)) (h : q.Trace t tr g o₂)
    (ho : ∀ x t', o = some (x, t') → o₁.map Prod.fst = some x.1 ∧ o₂.map Prod.fst = some x.2) :
    Apart P p q t tr g o := by
  have hcalls := h.of_asks hq
  have hnone : tr.filter (P ·.call) = [] :=
    List.filter_eq_nil_iff.mpr fun s hs => by simp [hcalls s hs]
  have hall : tr.filter (!P ·.call) = tr :=
    List.filter_eq_self.mpr fun s hs => by simp [hcalls s hs]
  refine ⟨0, g, o₁, o₂, ?_, ?_, (zero_add g).symm, ho⟩
  · rwa [hnone]
  · rwa [hall]

section Until

-- the left program, once it goes on, is told apart from the right one
variable {due : Nat} (hp : ∀ {t tr g} {q : Program ε β} {o : Option ((α × β) × Nat)},
  q.Asks (P · = false) → (p.bothFrom t q).Trace t tr g o → Apart P p q t tr g o)

include hp

/-- The left program goes on when it is due. What is left of the right one may begin then as well as
now. -/
theorem apart_resumed (hq : q.Asks (P · = false)) (hdue : t < due) (hlater : Covers q t q due)
    (h : (Program.wait due (p.bothFrom due q)).Trace t tr g o) :
    Apart P (Program.wait due p) q t tr g o := by
  have hmax : max t due = due := Nat.max_eq_right (Nat.le_of_lt hdue)
  cases h with
  | left => exact .left
  | wait h =>
    rw [hmax] at h
    refine (hp hq h).imp (.step fun hp' => .wait ?_) hlater
    rwa [hmax]

/-- While the left program waits for `due`, the right one does what it does alone. -/
theorem apart_rightUntil (hq : q.Asks (P · = false)) (hdue : t < due)
    (h : Trace (rightUntil (fun t q => p.bothFrom t q) due t q) t tr g o) :
    Apart P (Program.wait due p) q t tr g o := by
  induction q generalizing t tr g o with
  | done b =>
    refine apart_resumed hp hq hdue (fun _ _ _ hb => ?_) h
    cases hb with
    | left => exact ⟨none, .left, rfl⟩
    | done => exact ⟨_, .done, rfl⟩
  | never =>
    refine apart_resumed hp hq hdue (fun _ _ _ hb => ?_) h
    cases hb
    exact ⟨none, .left, rfl⟩
  | wait s q ih =>
    rw [rightUntil] at h
    split at h
    · next hs =>
      -- the right program need not wait
      refine (ih hq hdue h).imp (.refl _ _) (.step fun hq' => .wait ?_)
      rwa [Nat.max_eq_left hs]
    · next hs =>
      split at h
      · next hlate =>
        -- the left program goes first
        exact apart_resumed hp hq hdue (.step fun hq' => hq'.wait_of_le (Nat.le_of_lt hdue) hlate) h
      · next hearly =>
        -- the right program goes first, before the left one resumes
        have hts : t < s := Nat.not_le.mp hs
        have hsdue : s < due := Nat.not_le.mp hearly
        have hmax : max t s = s := Nat.max_eq_right (Nat.le_of_lt hts)
        cases h with
        | left => exact .left
        | wait h =>
          rw [hmax] at h
          refine (ih hq hsdue h).imp
            (.step fun hp' => hp'.wait_of_le (Nat.le_of_lt hts) (Nat.le_of_lt hsdue))
            (.step fun hq' => .wait ?_)
          rwa [hmax]
  | now k ih =>
    cases h with
    | left => exact .left
    | now h => exact (ih t (hq t) hdue h).imp (.refl _ _) (.step .now)
  | ask c k ih =>
    cases h with
    | left => exact .left
    | ask r h => exact .ask_right hq.1 (ih r (hq.2 r) hdue h)
  | count x n q ih =>
    cases h with
    | left => exact .left
    | count h => exact (ih hq.2 hdue h).count_right x n
  | emit e q ih =>
    cases h with
    | left => exact .left
    | emit h => exact (ih hq.2 hdue h).imp (.refl _ _) (.step .emit)
  | consult key k ih =>
    cases h with
    | left => exact .left
    | consult v h => exact (ih v (hq.2 v) hdue h).imp (.refl _ _) (.step (.consult v))
  | remember key text q ih =>
    cases h with
    | left => exact .left
    | remember h => exact (ih hq.2 hdue h).imp (.refl _ _) (.step .remember)

end Until

/-- From an instant on, each of two programs does what it does alone. -/
theorem apart_bothFrom (hp : p.Asks (P · = true)) (hq : q.Asks (P · = false))
    (h : (p.bothFrom t q).Trace t tr g o) : Apart P p q t tr g o := by
  induction p generalizing t tr g o q with
  | done a =>
    rcases bind_cases h with ⟨hq', rfl⟩ | ⟨b, t', tr₁, tr₂, g₁, g₂, hq', hend, rfl, rfl⟩
    · exact .right .done hq hq' nofun
    · cases hend with
      | left =>
        rw [List.append_nil, add_zero]
        exact .right .done hq hq' nofun
      | done =>
        rw [List.append_nil, add_zero]
        refine .right .done hq hq' ?_
        rintro _ _ ⟨⟩
        exact ⟨rfl, rfl⟩
  | never =>
    rcases bind_cases h with ⟨hq', rfl⟩ | ⟨b, t', tr₁, tr₂, g₁, g₂, hq', hend, rfl, rfl⟩
    · exact .right .left hq hq' nofun
    · cases hend
      rw [List.append_nil, add_zero]
      exact .right .left hq hq' nofun
  | wait s p ih =>
    rw [bothFrom] at h
    split at h
    · next hs =>
      refine (ih hp hq h).imp (.step fun hp' => .wait ?_) (.refl _ _)
      rwa [Nat.max_eq_left hs]
    · next hs => exact apart_rightUntil (ih hp) hq (Nat.not_le.mp hs) h
  | now k ih =>
    cases h with
    | left => exact .left
    | now h => exact (ih t (hp t) hq h).imp (.step .now) (.refl _ _)
  | ask c k ih =>
    cases h with
    | left => exact .left
    | ask r h => exact .ask_left hp.1 (ih r (hp.2 r) hq h)
  | count x n p ih =>
    cases h with
    | left => exact .left
    | count h => exact (ih hp.2 hq h).count_left x n
  | emit e p ih =>
    cases h with
    | left => exact .left
    | emit h => exact (ih hp.2 hq h).imp (.step .emit) (.refl _ _)
  | consult key k ih =>
    cases h with
    | left => exact .left
    | consult v h => exact (ih v (hp.2 v) hq h).imp (.step (.consult v)) (.refl _ _)
  | remember key text p ih =>
    cases h with
    | left => exact .left
    | remember h => exact (ih hp.2 hq h).imp (.step .remember) (.refl _ _)

/-- **At once**, the calls of each of two programs are those of that program alone, and what is
counted is the sum. -/
theorem both (hp : p.Asks (P · = true)) (hq : q.Asks (P · = false))
    (h : (p.both q).Trace t tr g o) : Apart P p q t tr g o := by
  cases h with
  | left => exact .left
  | now h => exact apart_bothFrom hp hq h

end Both

end Trace

/-! ## To the end -/

/-- What a program may do beside any world, started at an instant, when it comes to its end: the
calls it makes, how much each counter grows, what it ends with, and when. -/
abbrev Completes (p : Program ε α) (t : Nat) (tr : List Sent) (g : Counter → Nat) (a : α)
    (t' : Nat) : Prop :=
  p.Trace t tr g (some (a, t'))

/-- **A run that ends**, with its record, and how much it adds to each counter. -/
theorem completes_run {p : Program ε α} {m : Machine σ} {a : α}
    (h : (p.run w limit m).outcome? = some a) :
    ∃ g t', p.Completes m.now (p.record w limit m) g a t' ∧
      ∀ x, (p.run w limit m).machine.total x = m.total x + g x := by
  obtain ⟨g, o, htrace, hout, htotal⟩ := trace_record w limit p m
  rw [h, Option.map_eq_some_iff] at hout
  obtain ⟨⟨a, t'⟩, rfl, rfl⟩ := hout
  exact ⟨g, t', htrace, htotal⟩

namespace Completes

variable {t t' : Nat} {tr : List Sent} {g : Counter → Nat} {b : β}

/-- **In sequence**, both programs come to their ends. -/
theorem bind_cases {p : Program ε α} {f : α → Program ε β} (h : Completes (p >>= f) t tr g b t') :
    ∃ a t₁ tr₁ tr₂ g₁ g₂, p.Completes t tr₁ g₁ a t₁ ∧ (f a).Completes t₁ tr₂ g₂ b t' ∧
      tr = tr₁ ++ tr₂ ∧ g = g₁ + g₂ := by
  rcases Trace.bind_cases h with ⟨-, hnone⟩ | hsplit
  · cases hnone
  · exact hsplit

/-- **At once**, each of two programs ends as it does alone. -/
theorem both {P : Call → Bool} {p : Program ε α} {q : Program ε β} {x : α × β}
    (hp : p.Asks (P · = true)) (hq : q.Asks (P · = false))
    (h : (p.both q).Completes t tr g x t') :
    ∃ g₁ g₂ t₁ t₂, p.Completes t (tr.filter (P ·.call)) g₁ x.1 t₁ ∧
      q.Completes t (tr.filter (!P ·.call)) g₂ x.2 t₂ ∧ g = g₁ + g₂ := by
  obtain ⟨g₁, g₂, o₁, o₂, hp', hq', hg, ho⟩ := Trace.both hp hq h
  obtain ⟨hleft, hright⟩ := ho x t' rfl
  obtain ⟨⟨a, t₁⟩, rfl, rfl⟩ := Option.map_eq_some_iff.mp hleft
  obtain ⟨⟨b, t₂⟩, rfl, rfl⟩ := Option.map_eq_some_iff.mp hright
  exact ⟨g₁, g₂, t₁, t₂, hp', hq', hg⟩

end Completes

end Program

end CodeNav

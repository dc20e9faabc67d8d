import CodeNav.Proofs.Lookup.Sequence

/-!
# What a program may do

`Program.Every P` says of the tree of a program that **every step in it satisfies `P`**, whatever
is answered. A step is what others can see of a program (`Step`): waiting and reading the clock are
none, so where programs are put together, in sequence, in a race or at once, no new steps come
about (`Every.bind`, `Every.race`, `Every.both`). Three predicates are of this kind: `Asks P` is
about the calls, `Silent` says that nothing is handed out, `Uncached` that the cache is left alone.

* `Asks.sentOnly_run` — **what is not in the tree is never sent**, at any limit and beside any
  world;
* `Silent.emitted_bind` — what a silent program and the next one show is **up to the next one**.
-/

namespace CodeNav

namespace Machine

variable {σ : Type} {P Q : Call → Prop} {m m' m'' : Machine σ}

/-- A call is one call more. -/
@[simp] theorem calls_note_called (m : Machine σ) (c : Call) :
    (m.note (.called c)).calls = m.calls ++ [c] := by
  simp [calls, note]

/-- What is counted is no call. -/
@[simp] theorem calls_note_counted (m : Machine σ) (x : Counter) (n : Nat) :
    (m.note (.counted x n)).calls = m.calls := by
  simp [calls, note]

/-- The calls between two states of a machine all satisfy `P`. -/
def SentOnly (P : Call → Prop) (m m' : Machine σ) : Prop :=
  ∃ sent, m'.calls = m.calls ++ sent ∧ ∀ c ∈ sent, P c

theorem SentOnly.refl (m : Machine σ) : SentOnly P m m := ⟨[], by simp, List.forall_mem_nil _⟩

theorem SentOnly.trans (h : SentOnly P m m') (h' : SentOnly P m' m'') : SentOnly P m m'' := by
  obtain ⟨sent, hsent, hP⟩ := h
  obtain ⟨sent', hsent', hP'⟩ := h'
  refine ⟨sent ++ sent', ?_, List.forall_mem_append.mpr ⟨hP, hP'⟩⟩
  rw [hsent', hsent, List.append_assoc]

theorem SentOnly.mono (h : SentOnly P m m') (hPQ : ∀ c, P c → Q c) : SentOnly Q m m' := by
  obtain ⟨sent, hsent, hP⟩ := h
  exact ⟨sent, hsent, fun c hc => hPQ c (hP c hc)⟩

end Machine

namespace Program

variable {σ ε α β : Type} {w : World σ} {limit : Nat}

/-! ## Steps -/

/-- What others can see of a program: what it asks for, counts and hands out, and what it does with
the cache of file texts. -/
inductive Step (ε : Type) where
  | ask (c : Call)
  | count (counter : Counter) (n : Nat)
  | emit (e : ε)
  | consult (key : ContentKey)
  | remember (key : ContentKey) (text : String)

/-- Every step that the program may take satisfies `P`. -/
def Every (P : Step ε → Prop) : Program ε α → Prop
  | done _ => True
  | never => True
  | wait _ p => p.Every P
  | now k => ∀ t, (k t).Every P
  | ask c k => P (.ask c) ∧ ∀ r, (k r).Every P
  | count x n p => P (.count x n) ∧ p.Every P
  | emit e p => P (.emit e) ∧ p.Every P
  | consult key k => P (.consult key) ∧ ∀ o, (k o).Every P
  | remember key text p => P (.remember key text) ∧ p.Every P

namespace Every

variable {P Q : Step ε → Prop}

/-- Steps that satisfy `P` satisfy all that follows from it. -/
theorem mono {p : Program ε α} (hp : p.Every P) (hPQ : ∀ s, P s → Q s) : p.Every Q := by
  induction p with
  | done a => trivial
  | never => trivial
  | wait t p ih => exact ih hp
  | now k ih => exact fun t => ih t (hp t)
  | ask c k ih => exact ⟨hPQ _ hp.1, fun r => ih r (hp.2 r)⟩
  | count x n p ih => exact ⟨hPQ _ hp.1, ih hp.2⟩
  | emit e p ih => exact ⟨hPQ _ hp.1, ih hp.2⟩
  | consult key k ih => exact ⟨hPQ _ hp.1, fun o => ih o (hp.2 o)⟩
  | remember key text p ih => exact ⟨hPQ _ hp.1, ih hp.2⟩

/-- **In sequence**, the steps are those of the first program and those of the second one, whatever
it is told. -/
theorem bind {p : Program ε α} {f : α → Program ε β} (hp : p.Every P) (hf : ∀ a, (f a).Every P) :
    Every P (p >>= f) := by
  change (p.bind f).Every P
  induction p with
  | done a => exact hf a
  | never => trivial
  | wait t p ih => exact ih hp
  | now k ih => exact fun t => ih t (hp t)
  | ask c k ih => exact ⟨hp.1, fun r => ih r (hp.2 r)⟩
  | count x n p ih => exact ⟨hp.1, ih hp.2⟩
  | emit e p ih => exact ⟨hp.1, ih hp.2⟩
  | consult key k ih => exact ⟨hp.1, fun o => ih o (hp.2 o)⟩
  | remember key text p ih => exact ⟨hp.1, ih hp.2⟩

theorem pure (a : α) : Every P (Pure.pure a : Program ε α) := trivial

theorem tally {x : Counter} {n : Nat} (h : P (.count x n)) :
    Every P (tally x n : Program ε Unit) := ⟨h, trivial⟩

theorem call {c : Call} (h : P (.ask c)) : Every P (call c : Program ε _) :=
  ⟨h, fun _ => trivial⟩

/-- Waiting for an answer is no step. -/
theorem await (r : Promise α) : Every P (await r : Program ε α) := by
  cases r <;> trivial

section Race

variable {received : Outcome α → Program ε Unit} (hr : ∀ o, (received o).Every P)

include hr

theorem receive (p : Promise (Outcome α)) : (receive received p).Every P :=
  (await p).bind fun o => (hr o).bind fun _ => pure o

theorem firstResults (p q : Promise (Outcome α)) (a b : Side) :
    (firstResults received p a q b).Every P := by
  refine (receive hr p).bind fun o => ?_
  split
  · exact pure _
  · exact (receive hr q).bind fun _ => pure _

/-- **In a race**, the steps are those of its two searches, and what is done when an answer is
received. -/
theorem race (delay : Nat) {primary fallback : Program ε (Promise (Outcome α))}
    (hp : primary.Every P) (hf : fallback.Every P) :
    (race delay primary fallback received).Every P := by
  intro start
  refine hp.bind fun p => ?_
  split
  · exact (receive hr p).bind fun _ => pure _
  · refine Every.bind trivial fun _ => hf.bind fun f => ?_
    split
    · exact firstResults hr p f _ _
    · exact firstResults hr f p _ _

end Race

/-- While the left program waits, the steps are those of the right one, up to where `resume` takes
over. -/
theorem rightUntil {γ : Type} {resume : Nat → Program ε β → Program ε γ}
    (hresume : ∀ t q, q.Every P → (resume t q).Every P) (due t : Nat) {q : Program ε β}
    (hq : q.Every P) : (rightUntil resume due t q).Every P := by
  induction q generalizing t with
  | done b => exact hresume due _ hq
  | never => exact hresume due _ hq
  | wait s q ih =>
    rw [Program.rightUntil]
    split
    · exact ih t hq
    · split
      · exact hresume due _ hq
      · exact ih s hq
  | now k ih => exact fun t => ih t t (hq t)
  | ask c k ih => exact ⟨hq.1, fun r => ih r t (hq.2 r)⟩
  | count x n q ih => exact ⟨hq.1, ih t hq.2⟩
  | emit e q ih => exact ⟨hq.1, ih t hq.2⟩
  | consult key k ih => exact ⟨hq.1, fun o => ih o t (hq.2 o)⟩
  | remember key text q ih => exact ⟨hq.1, ih t hq.2⟩

theorem bothFrom {p : Program ε α} (hp : p.Every P) (t : Nat) {q : Program ε β}
    (hq : q.Every P) : (p.bothFrom t q).Every P := by
  induction p generalizing t q with
  | done a => exact hq.bind fun _ => trivial
  | never => exact hq.bind fun _ => trivial
  | wait s p ih =>
    rw [Program.bothFrom]
    split
    · exact ih hp t hq
    · exact rightUntil (fun t q hq => ih hp t hq) s t hq
  | now k ih => exact fun t => ih t (hp t) t hq
  | ask c k ih => exact ⟨hp.1, fun r => ih r (hp.2 r) t hq⟩
  | count x n p ih => exact ⟨hp.1, ih hp.2 t hq⟩
  | emit e p ih => exact ⟨hp.1, ih hp.2 t hq⟩
  | consult key k ih => exact ⟨hp.1, fun o => ih o (hp.2 o) t hq⟩
  | remember key text p ih => exact ⟨hp.1, ih hp.2 t hq⟩

/-- **At once**, the steps are those of the two programs. -/
theorem both {p : Program ε α} {q : Program ε β} (hp : p.Every P) (hq : q.Every P) :
    (p.both q).Every P :=
  fun t => hp.bothFrom t hq

end Every

/-! ## What is sent -/

/-- The step is a call that satisfies `P`, or no call. -/
def Step.Asks (P : Call → Prop) : Step ε → Prop
  | .ask c => P c
  | _ => True

/-- Every call that the program may make satisfies `P`. -/
abbrev Asks (P : Call → Prop) (p : Program ε α) : Prop := p.Every (Step.Asks P)

namespace Asks

variable {P Q : Call → Prop} {p : Program ε α}

/-- Calls that satisfy `P` satisfy all that follows from it. -/
theorem mono (hp : p.Asks P) (hPQ : ∀ c, P c → Q c) : p.Asks Q := by
  refine Every.mono hp fun s hs => ?_
  cases s with
  | ask c => exact hPQ c hs
  | _ => trivial

/-- **A run sends nothing that its program does not ask for.** -/
theorem sentOnly_run (h : p.Asks P) (m : Machine σ) :
    Machine.SentOnly P m (p.run w limit m).machine := by
  induction p generalizing m with
  | done a => exact .refl m
  | never => exact .refl m
  | wait t p ih =>
    rw [run]
    split
    · exact ih h (m.moveTo t)
    · exact .refl m
  | now k ih => exact ih _ (h _) m
  | ask c k ih =>
    let m' : Machine σ := { m with world := (w.respond c m.now m.world).2 }
    have hcall : Machine.SentOnly P m (m'.note (.called c)) :=
      ⟨[c], Machine.calls_note_called m' c, List.forall_mem_singleton.mpr h.1⟩
    exact hcall.trans (ih _ (h.2 _) _)
  | count x n p ih =>
    have hcount : Machine.SentOnly P m (m.note (.counted x n)) :=
      ⟨[], by simp, List.forall_mem_nil _⟩
    exact hcount.trans (ih h.2 _)
  | emit e p ih => exact ih h.2 m
  | consult key k ih => exact ih _ (h.2 _) { m with cache := (m.cache.get? key).2 }
  | remember key text p ih => exact ih h.2 { m with cache := m.cache.insert key text }

end Asks

/-! ## What is shown -/

/-- The step hands out nothing. -/
def Step.IsSilent : Step ε → Prop
  | .emit _ => False
  | _ => True

/-- The program hands out nothing. -/
abbrev Silent (p : Program ε α) : Prop := p.Every Step.IsSilent

namespace Silent

variable {p : Program ε α}

/-- What is handed out is in the tree. -/
theorem emitted_run (h : p.Silent) (m : Machine σ) : (p.run w limit m).emitted = [] := by
  induction p generalizing m with
  | done a => rfl
  | never => rfl
  | wait t p ih =>
    rw [run]
    split
    · exact ih h (m.moveTo t)
    · rfl
  | now k ih => exact ih _ (h _) m
  | ask c k ih => exact ih _ (h.2 _) _
  | count x n p ih => exact ih h.2 _
  | emit e p ih => exact h.1.elim
  | consult key k ih => exact ih _ (h.2 _) _
  | remember key text p ih => exact ih h.2 _

/-- What is shown of a silent program and the next one is what the next one shows, once the silent
one has ended. -/
theorem emitted_bind {m : Machine σ} (hp : p.Silent) (f : α → Program ε β) :
    ((p >>= f).run w limit m).emitted =
      match (p.run w limit m).outcome? with
      | some a => ((f a).run w limit (p.run w limit m).machine).emitted
      | none => [] := by
  have hes : (p.run w limit m).emitted = [] := hp.emitted_run m
  rw [run_bind]
  revert hes
  obtain ⟨progress, es, m'⟩ := p.run w limit m
  rintro rfl
  cases progress <;> rfl

end Silent

/-! ## What is remembered -/

/-- The step leaves the cache of file texts alone. -/
def Step.IsUncached : Step ε → Prop
  | .consult _ => False
  | .remember _ _ => False
  | _ => True

/-- The program never touches the cache. -/
abbrev Uncached (p : Program ε α) : Prop := p.Every Step.IsUncached

end Program

end CodeNav

import CodeNav.Lookup.Engine

/-!
# Programs that only measure time

A lookup reads the clock, but only to wait for a while: started later, it does the same
things that much later. `Shifted δ R p q` says that `q` is `p` moved by `δ` milliseconds
and that their ends are related by `R`; it is a **lockstep** of the two trees, so it can
be followed through `both`, where two programs interleave.

* `Shifted.bind`, `Shifted.both` — moving goes through sequences and through two programs
  at once.
* `Engine.definition_timeless`, `Engine.references_timeless` — searching only measures
  time. Only a hover does more: it uses the cache of file texts.
-/

namespace CodeNav

/-- The same answer, `δ` milliseconds later. -/
def Promise.later {α : Type} (δ : Nat) : Promise α → Promise α
  | never => never
  | due t a => due (t + δ) a

namespace Promise

variable {α β : Type}

@[simp] theorem later_never (δ : Nat) : (never : Promise α).later δ = never := rfl

@[simp] theorem later_due (δ t : Nat) (a : α) : (due t a).later δ = due (t + δ) a := rfl

@[simp] theorem isBy_later (δ t : Nat) (p : Promise α) : (p.later δ).isBy (t + δ) = p.isBy t := by
  cases p <;> simp [isBy]

@[simp] theorem isFirst_later (δ : Nat) (p : Promise α) (q : Promise β) :
    (p.later δ).isFirst (q.later δ) = p.isFirst q := by
  cases p <;> cases q <;> simp [isFirst]

end Promise

namespace Program

variable {ε α β α' β' γ γ' : Type} {δ : Nat}

/-- The second program does what the first one does, `δ` milliseconds later, and never
touches the cache. -/
inductive Shifted (δ : Nat) (R : α → β → Prop) : Program ε α → Program ε β → Prop where
  | done {a : α} {b : β} (h : R a b) : Shifted δ R (.done a) (.done b)
  | never : Shifted δ R .never .never
  | wait {t : Nat} {p : Program ε α} {q : Program ε β} (h : Shifted δ R p q) :
      Shifted δ R (.wait t p) (.wait (t + δ) q)
  | now {k : Nat → Program ε α} {l : Nat → Program ε β}
      (h : ∀ t, Shifted δ R (k t) (l (t + δ))) : Shifted δ R (.now k) (.now l)
  | ask {c : Call} {k : Promise c.Answer → Program ε α} {l : Promise c.Answer → Program ε β}
      (h : ∀ r, Shifted δ R (k r) (l (r.later δ))) : Shifted δ R (.ask c k) (.ask c l)
  | count {x : Counter} {n : Nat} {p : Program ε α} {q : Program ε β} (h : Shifted δ R p q) :
      Shifted δ R (.count x n p) (.count x n q)
  | emit {e : ε} {p : Program ε α} {q : Program ε β} (h : Shifted δ R p q) :
      Shifted δ R (.emit e p) (.emit e q)

/-- Started later, the program does the same things later and ends with the same value. -/
def Timeless (p : Program ε α) : Prop := ∀ δ, Shifted δ Eq p p

namespace Shifted

variable {R : α → β → Prop} {S : α' → β' → Prop}

/-- Moved programs in sequence. -/
theorem bind {p : Program ε α} {q : Program ε β} {f : α → Program ε α'} {g : β → Program ε β'}
    (h : Shifted δ R p q) (hf : ∀ a b, R a b → Shifted δ S (f a) (g b)) :
    Shifted δ S (p >>= f) (q >>= g) := by
  change Shifted δ S (p.bind f) (q.bind g)
  induction h with
  | done hab => exact hf _ _ hab
  | never => exact .never
  | wait _ ih => exact .wait ih
  | now _ ih => exact .now ih
  | ask _ ih => exact .ask ih
  | count _ ih => exact .count ih
  | emit _ ih => exact .emit ih

/-- A program that ends does so at any time. -/
theorem pure {a : α} {b : β} (h : R a b) :
    Shifted δ R (Pure.pure a : Program ε α) (Pure.pure b) := .done h

/-! ## Two programs at once -/

/-- While the left program waits, the right one runs in lockstep with its copy. -/
theorem rightUntil {f : Nat → Program ε β → Program ε γ} {g : Nat → Program ε β' → Program ε γ'}
    {T : γ → γ' → Prop} {U : β → β' → Prop}
    (hfg : ∀ t q q', Shifted δ U q q' → Shifted δ T (f t q) (g (t + δ) q'))
    {q : Program ε β} {q' : Program ε β'} (h : Shifted δ U q q') (due t : Nat) :
    Shifted δ T (rightUntil f due t q) (Program.rightUntil g (due + δ) (t + δ) q') := by
  induction h generalizing t with
  | done hab => exact .wait (hfg _ _ _ (.done hab))
  | never => exact .wait (hfg _ _ _ .never)
  | @wait s q q' h ih =>
    -- both sides compare the same way, since all instants are moved alike
    simp only [Program.rightUntil, Nat.add_le_add_iff_right]
    split
    · exact ih t
    · split
      · exact .wait (hfg _ _ _ (.wait h))
      · exact .wait (ih s)
  | now _ ih => exact .now fun t => ih t t
  | ask _ ih => exact .ask fun r => ih r t
  | count _ ih => exact .count (ih t)
  | emit _ ih => exact .emit (ih t)

/-- Two programs and their copies run at once. -/
theorem bothFrom {U : α' → β' → Prop} {p : Program ε α} {p' : Program ε β}
    (h : Shifted δ R p p') {q : Program ε α'} {q' : Program ε β'} (hq : Shifted δ U q q')
    (t : Nat) :
    Shifted δ (fun x y => R x.1 y.1 ∧ U x.2 y.2) (p.bothFrom t q) (p'.bothFrom (t + δ) q') := by
  induction h generalizing t q q' with
  | done hab => exact hq.bind fun _ _ hb => .done ⟨hab, hb⟩
  | never => exact hq.bind fun _ _ _ => .never
  | wait _ ih =>
    simp only [Program.bothFrom, Nat.add_le_add_iff_right]
    split
    · exact ih hq t
    · exact rightUntil (fun t _ _ hq => ih hq t) hq _ t
  | now _ ih => exact .now fun t => ih t hq t
  | ask _ ih => exact .ask fun r => ih r hq t
  | count _ ih => exact .count (ih hq t)
  | emit _ ih => exact .emit (ih hq t)

end Shifted

/-! ## What is timeless -/

namespace Timeless

/-- A result depends on no time. -/
theorem pure (a : α) : Timeless (Pure.pure a : Program ε α) := fun _ => .pure rfl

/-- In sequence, the second program begins later and is not the worse for it. -/
theorem bind {p : Program ε α} {f : α → Program ε β} (hp : p.Timeless)
    (hf : ∀ a, (f a).Timeless) : Timeless (p >>= f) :=
  fun δ => (hp δ).bind fun a _ hab => hab ▸ hf a δ

theorem tally (x : Counter) (n : Nat) : Timeless (tally x n : Program ε Unit) :=
  fun _ => .count (.done rfl)

theorem give (e : ε) : Timeless (give e) := fun _ => .emit (.done rfl)

/-- Two programs that do not depend on the time do not depend on it together, since each sees the
same clock. -/
theorem both {p : Program ε α} {q : Program ε β} (hp : p.Timeless) (hq : q.Timeless) :
    Timeless (p.both q) := by
  intro δ
  refine .now fun t => ?_
  have h := (hp δ).bothFrom (hq δ) t
  simpa only [← Prod.ext_iff] using h

end Timeless

/-- Calls, made later, are answered later. -/
theorem shifted_call (c : Call) :
    Shifted δ (fun r s => s = r.later δ) (call c : Program ε _) (call c) :=
  .ask fun _ => .done rfl

/-- Waiting for a later answer ends with the same value. -/
theorem shifted_await (r : Promise α) :
    Shifted δ Eq (await r : Program ε α) (await (r.later δ)) := by
  cases r with
  | never => exact .never
  | due t a => exact .wait (.done rfl)

/-- A program that makes a call, waits for the answer and goes on from there. -/
theorem timeless_call (c : Call) {f : c.Answer → Program ε β} (hf : ∀ a, (f a).Timeless) :
    Timeless (call c >>= fun r => await r >>= f) := by
  intro δ
  refine (shifted_call c).bind ?_
  rintro r _ rfl
  refine (shifted_await r).bind ?_
  rintro a _ rfl
  exact hf a δ

section Race

variable {received : Outcome α → Program ε Unit}

/-- An answer that comes later is received later. -/
theorem shifted_receive (hr : ∀ o, (received o).Timeless) (p : Promise (Outcome α)) :
    Shifted δ Eq (receive received p) (receive received (p.later δ)) := by
  refine (shifted_await p).bind ?_
  rintro o _ rfl
  exact ((hr o).bind fun _ => .pure o) δ

/-- If both sides come later by as much, the same one is first. -/
theorem shifted_firstResults (hr : ∀ o, (received o).Timeless) (p q : Promise (Outcome α))
    (a b : Side) :
    Shifted δ Eq (firstResults received p a q b)
      (firstResults received (p.later δ) a (q.later δ) b) := by
  refine (shifted_receive hr p).bind ?_
  rintro o _ rfl
  cases o.results? with
  | some results => exact .pure rfl
  | none =>
    refine (shifted_receive hr q).bind ?_
    rintro o' _ rfl
    exact .pure rfl

/-- A race only measures time if the two searches do. -/
theorem timeless_race (hr : ∀ o, (received o).Timeless) (delay : Nat)
    {primary fallback : Program ε (Promise (Outcome α))}
    (hp : ∀ δ, Shifted δ (fun r s => s = r.later δ) primary primary)
    (hf : ∀ δ, Shifted δ (fun r s => s = r.later δ) fallback fallback) :
    Timeless (race delay primary fallback received) := by
  intro δ
  refine .now fun start => ?_
  refine (hp δ).bind ?_
  rintro p _ rfl
  have hend : start + δ + delay = start + delay + δ := by omega
  rw [hend, Promise.isBy_later]
  split
  · -- the primary answers in time
    refine (shifted_receive hr p).bind ?_
    rintro o _ rfl
    exact .pure rfl
  · -- the fallback is sent as well
    refine .wait ((hf δ).bind ?_)
    rintro f _ rfl
    rw [Promise.isFirst_later]
    split
    · exact shifted_firstResults hr p f _ _
    · exact shifted_firstResults hr f p _ _

end Race

end Program

/-! ## Searching -/

namespace Engine

variable {ε : Type} {δ : Nat}

open Program

/-- A search that is sent later is answered later, by as much. -/
theorem shifted_send (scope : Scope) (query : Query) (fileLocal : Bool) :
    Shifted δ (fun r s => s = r.later δ) (send scope query fileLocal : Program ε _)
      (send scope query fileLocal) :=
  (Timeless.tally _ _ δ).bind fun _ _ _ => shifted_call (.search query.text fileLocal)

/-- Counting needs no clock. -/
theorem received_timeless (scope : Scope) (o : Outcome Hit) :
    Timeless (received scope o : Program ε Unit) := by
  cases o <;> exact .tally _ _

/-- **A search in a scope does not depend on when it begins**: a race only compares instants with
each other. -/
theorem searchScope_timeless (e : Engine) (scope : Scope) (query : Query) (fileLocal : Bool) :
    Timeless (e.searchScope scope query fileLocal : Program ε _) := by
  rw [searchScope]
  split
  · -- the index-only query alone
    intro δ
    refine (shifted_send _ _ _).bind ?_
    rintro r _ rfl
    exact shifted_receive (received_timeless scope) r
  · -- a race
    refine (timeless_race (received_timeless scope) _ (fun _ => shifted_send _ _ _)
      fun _ => shifted_send _ _ _).bind fun raced => ?_
    cases raced with
    | error err => exact .pure _
    | ok r =>
      refine Timeless.bind ?_ fun _ => .pure _
      cases r.winner with
      | primary => exact .pure _
      | fallback => exact .tally _ _

/-- Nor does asking about a repository. -/
theorem repoFlags_timeless (e : Engine) (repo : String) :
    Timeless (e.repoFlags repo : Program ε _) := by
  rw [repoFlags]
  split
  · exact .pure _
  · split
    · exact .pure _
    · refine timeless_call (.repository repo) fun info => ?_
      split <;> exact .pure _

/-- Nor do tiers, each of which begins where the last one ended. -/
theorem searchTiers_timeless (e : Engine) (document : Document) (profile : Profile)
    (token : String) (flags : RepoInfo) (scopes : List Scope) :
    Timeless (e.searchTiers document profile token flags scopes : Program ε _) := by
  induction scopes with
  | nil => exact .pure _
  | cons scope scopes ih =>
    refine (e.searchScope_timeless _ _ _).bind fun found => ?_
    split
    · exact .pure _
    · exact ih
    · exact .pure _

/-- Nor does the whole search for definitions. -/
theorem definitionsOf_timeless (e : Engine) (document : Document) (profile : Profile)
    (token : String) : Timeless (e.definitionsOf document profile token : Program ε _) :=
  (e.repoFlags_timeless _).bind fun _ => e.searchTiers_timeless _ _ _ _ _

/-- **Searching for definitions only measures time.** -/
theorem definition_timeless (e : Engine) (document : Document) (position : Position) :
    Timeless (e.definition document position : Program ε _) := by
  rw [definition]
  split
  · exact .pure _
  · split
    · exact .pure _
    · exact e.definitionsOf_timeless _ _ _

/-- **Searching for references only measures time**, although two searches run at once. -/
theorem references_timeless (e : Engine) (document : Document) (position : Position) :
    Timeless (e.references document position : Program ε _) := by
  rw [references]
  split
  · exact .pure _
  · refine (e.repoFlags_timeless _).bind fun flags => ?_
    dsimp only
    split
    · exact (e.searchScope_timeless _ _ _).bind fun _ => .pure _
    · exact ((e.searchScope_timeless _ _ _).both (e.searchScope_timeless _ _ _)).bind
        fun _ => .pure _

end Engine

end CodeNav

import Mathlib.Logic.Basic
import CodeNav.Proofs.Lookup.Shift
import CodeNav.Proofs.Lookup.Reach

/-!
# Who wins a race

Two searches are raced: what each of them comes to is known beforehand, as a promise counted from
the instant at which it is sent, and both leave a mark when they are sent (`Program.issue`).

* `Race.Favors` — what the race is to come to, said by what **both sides finish with and when**: the
  primary alone if it is in time, else the earliest results there are, else what is left when both
  are through.
* `Promise.settle` — what waiting for one side and then for the other comes to.
* `Race.leads_leader` — a late race waits first for the side that **leads**: the other one does not
  finish before it, and a tie is the primary's.
* `race_favors_primary` — so the race comes to what it is to come to, at that instant and not
  before, beside any world; and the fallback is sent once, when the delay is over, or never.
-/

namespace CodeNav

namespace Promise

variable {α β : Type}

/-- Another answer that is made of this one. -/
def map (f : α → β) : Promise α → Promise β
  | never => never
  | due t a => due t (f a)

/-- An answer that is put off is there as much later: a fallback that is sent after the delay may be
reckoned from the start of the race. -/
theorem readyBy?_later (δ n : Nat) (p : Promise α) :
    (p.later δ).readyBy? (δ + n) = p.readyBy? n := by
  cases p with
  | never => rfl
  | due t a => simp [readyBy?_due, Nat.add_comm δ n]

/-- What is made of an answer is there when the answer is. -/
theorem readyBy?_map (f : α → β) (t : Nat) (p : Promise α) :
    (p.map f).readyBy? t = (p.readyBy? t).map f := by
  cases p with
  | never => rfl
  | due s a =>
    simp only [map, readyBy?_due]
    split <;> rfl

theorem later_later (δ δ' : Nat) (p : Promise α) : (p.later δ).later δ' = p.later (δ + δ') := by
  cases p with
  | never => rfl
  | due t a => simp [Nat.add_assoc]

/-- What comes of waiting for one side and, if it has no results, for the other. -/
def settle (first : Promise (Outcome α)) (firstSide : Side) (second : Promise (Outcome α))
    (secondSide : Side) : Promise (Except SearchError (Raced α)) :=
  match first with
  | never => never
  | due t o =>
    match o.results? with
    | some results => due t (.ok ⟨results, firstSide⟩)
    | none =>
      match second with
      | never => never
      | due t' o' => due (max t t') (o.combine firstSide o' secondSide)

section Settle

variable {t t' n : Nat} {o o' : Outcome α} {q : Promise (Outcome α)} {a b : Side}

/-- Results of the first side are final, and the other side is not looked at. -/
theorem settle_of_some {results : List α} (h : o.results? = some results) :
    (due t o).settle a q b = due t (.ok ⟨results, a⟩) := by
  simp only [settle, h]

/-- Without results the other side has to be waited for, so if it never comes, nothing does. -/
theorem settle_never_of_none (h : o.results? = none) : (due t o).settle a never b = never := by
  simp only [settle, h]

/-- Both have to be there, so the later instant counts. -/
theorem settle_due_of_none (h : o.results? = none) :
    (due t o).settle a (due t' o') b = due (max t t') (o.combine a o' b) := by
  simp only [settle, h]

/-- Nothing is settled before the first side has answered. -/
theorem settle_readyBy?_of_not_le (h : ¬ t ≤ n) :
    ((due t o).settle a q b).readyBy? n = none := by
  cases ho : o.results? with
  | some results => rw [settle_of_some ho, readyBy?_due, if_neg h]
  | none =>
    cases q with
    | never => rw [settle_never_of_none ho, readyBy?_never]
    | due t' o' =>
      have hmax : ¬ max t t' ≤ n := by omega
      rw [settle_due_of_none ho, readyBy?_due, if_neg hmax]

end Settle

/-- Only the time between the two sides matters, and not when they are sent. -/
theorem settle_later (δ : Nat) (p q : Promise (Outcome α)) (a b : Side) :
    settle (p.later δ) a (q.later δ) b = (settle p a q b).later δ := by
  cases p with
  | never => rfl
  | due t o =>
    cases ho : o.results? with
    | some results => simp only [later_due, settle_of_some ho]
    | none =>
      cases q with
      | never => simp only [later_due, later_never, settle_never_of_none ho]
      | due t' o' => simp only [later_due, settle_due_of_none ho, Nat.add_max_add_right]

end Promise

/-- Results are an answer that is not empty: an empty one does not end a race. -/
theorem Outcome.results?_eq_some_iff {α : Type} {o : Outcome α} {results : List α} :
    o.results? = some results ↔ o = .ok results ∧ results ≠ [] := by
  cases o with
  | error e => simp [results?]
  | ok as =>
    cases as with
    | nil =>
      simp only [results?, reduceCtorEq, Except.ok.injEq, false_iff, not_and, not_not]
      exact Eq.symm
    | cons a as =>
      simp only [results?, Option.some.injEq, Except.ok.injEq, iff_self_and]
      rintro rfl
      exact List.cons_ne_nil a as

/-- If the second side has results, it does not matter how the first one came to none. -/
theorem Outcome.combine_of_results {α : Type} {o : Outcome α} {results : List α}
    (h : results ≠ []) (a b : Side) : o.combine a (.ok results) b = .ok ⟨results, b⟩ := by
  cases results with
  | nil => exact absurd rfl h
  | cons r rs => rfl

/-- The side that is raced against. -/
def Side.other : Side → Side
  | primary => fallback
  | fallback => primary

@[simp] theorem Side.other_other (s : Side) : s.other.other = s := by
  cases s <;> rfl

/-- There are two sides, so what holds of one and of the other holds of both. -/
theorem Side.eq_or_eq_other (s s' : Side) : s' = s ∨ s' = s.other := by
  cases s <;> cases s' <;> simp [other]

/-! ## What a race is to come to -/

namespace Race

variable {α : Type}

/-- What a side finishes with, counted from the start of the race: the fallback is sent when the
delay is over. -/
def finish (delay : Nat) (reply : Side → Promise (Outcome α)) : Side → Promise (Outcome α)
  | .primary => reply .primary
  | .fallback => (reply .fallback).later delay

/-- Whether a side that finishes at `t` comes before the other, which finishes at `t'`. -/
def Ahead (side : Side) (t t' : Nat) : Prop := t < t' ∨ t = t' ∧ side = .primary

/-- Who is ahead is not later, but it may be a tie. -/
theorem Ahead.le {side : Side} {t t' : Nat} (h : Ahead side t t') : t ≤ t' := by
  rcases h with hlt | ⟨rfl, -⟩
  · exact Nat.le_of_lt hlt
  · exact Nat.le_refl t

/-- A tie is decided one way only: it is the primary's. -/
theorem Ahead.not_other {side : Side} {t t' : Nat} (h : Ahead side.other t t') :
    ¬ Ahead side t' t := by
  rintro (hlt | ⟨rfl, rfl⟩)
  · exact Nat.not_le_of_lt hlt h.le
  · rcases h with hlt | ⟨-, heq⟩
    · exact Nat.lt_irrefl _ hlt
    · cases heq

/-- A side finishes with results. -/
def Finds (finish : Side → Promise (Outcome α)) (side : Side) (t : Nat) (results : List α) : Prop :=
  finish side = .due t (.ok results) ∧ results ≠ []

/-- What a race comes to, and when; **the primary is favoured**. -/
structure Favors (delay : Nat) (reply : Side → Promise (Outcome α))
    (verdict : Promise (Except SearchError (Raced α))) : Prop where
  /-- a primary that is in time decides, whatever it answers -/
  inTime : ∀ t o, reply .primary = .due t o → t ≤ delay → verdict = .due t (o.wonBy .primary)
  /-- if it is late and results come at all, the earliest ones do -/
  found : (reply .primary).isBy delay = false →
    (∃ side t results, Finds (finish delay reply) side t results) →
    ∃ side t results, Finds (finish delay reply) side t results ∧
      (∀ t' results', Finds (finish delay reply) side.other t' results' → Ahead side t t') ∧
      verdict = .due t (.ok ⟨results, side⟩)
  /-- if no results come and both sides finish, an empty answer comes before a failure, and the
  first of two failures -/
  exhausted : (reply .primary).isBy delay = false →
    (∀ side t results, ¬ Finds (finish delay reply) side t results) →
    ∀ first t o t' o', finish delay reply first = .due t o →
      finish delay reply first.other = .due t' o' → Ahead first t t' →
      (∀ results, o = .ok results → verdict = .due t' (.ok ⟨[], first⟩)) ∧
      (∀ e results, o = .error e → o' = .ok results →
        verdict = .due t' (.ok ⟨[], first.other⟩)) ∧
      ∀ e e', o = .error e → o' = .error e' → verdict = .due t' (.error e)
  /-- if no results come and one side never finishes, neither does the race -/
  pending : (reply .primary).isBy delay = false →
    (∀ side t results, ¬ Finds (finish delay reply) side t results) →
    (∃ side, finish delay reply side = .never) → verdict = .never

/-- The other side does not finish before this one. -/
def Leads (finish : Side → Promise (Outcome α)) (first : Side) : Prop :=
  ∀ t' o', finish first.other = .due t' o' → ∃ t o, finish first = .due t o ∧ Ahead first t t'

/-- The side that a late race waits for first. -/
def leader (delay : Nat) (reply : Side → Promise (Outcome α)) : Side :=
  if (reply .primary).isFirst ((reply .fallback).later delay) then .primary else .fallback

/-- **The side that is waited for first leads**: the other one does not finish before it, and a tie
is decided for the primary. -/
theorem leads_leader (delay : Nat) (reply : Side → Promise (Outcome α)) :
    Leads (finish delay reply) (leader delay reply) := by
  intro t' o' h
  rw [leader] at h ⊢
  cases hp : reply .primary with
  | never =>
    cases hf : reply .fallback with
    | never => simp [hp, hf, Promise.isFirst, finish, Side.other] at h
    | due tf f => simp [hp, hf, Promise.isFirst, finish, Side.other] at h
  | due tp p =>
    cases hf : reply .fallback with
    | never => simp [hp, hf, Promise.isFirst, finish, Side.other] at h
    | due tf f =>
      by_cases hle : tp ≤ tf + delay
      · simp only [hp, hf, Promise.later_due, Promise.isFirst, hle, decide_true, if_true, finish,
          Side.other, Promise.due.injEq] at h ⊢
        refine ⟨tp, p, ⟨rfl, rfl⟩, ?_⟩
        rcases Nat.lt_or_eq_of_le hle with hlt | heq
        · exact .inl (h.1 ▸ hlt)
        · exact .inr ⟨h.1 ▸ heq, rfl⟩
      · simp only [hp, hf, Promise.later_due, Promise.isFirst, hle, decide_false,
          Bool.false_eq_true, if_false, finish, Side.other, Promise.due.injEq] at h ⊢
        refine ⟨tf + delay, f, ⟨rfl, rfl⟩, .inl ?_⟩
        omega

/-! ## Waiting for the side that leads -/

section Settle

variable {finish : Side → Promise (Outcome α)} {first : Side}

/-- A side that never finds anything has an answer without results, if any. -/
theorem results?_of_not_finds {t : Nat} {o : Outcome α}
    (hno : ∀ t results, ¬ Finds finish first t results) (h : finish first = .due t o) :
    o.results? = none := by
  refine Option.eq_none_iff_forall_ne_some.mpr fun results hresults => ?_
  obtain ⟨rfl, hne⟩ := Outcome.results?_eq_some_iff.mp hresults
  exact hno t results ⟨h, hne⟩

/-- **A leader with results wins when it finishes.** -/
theorem settle_of_finds {t : Nat} {results : List α} (h : Finds finish first t results) :
    (finish first).settle first (finish first.other) first.other =
      .due t (.ok ⟨results, first⟩) := by
  have hresults : Outcome.results? (.ok results : Outcome α) = some results :=
    Outcome.results?_eq_some_iff.mpr ⟨rfl, h.2⟩
  rw [h.1, Promise.settle_of_some hresults]

/-- If the leader has no results, both are waited for, and that is until the other one is there. -/
theorem settle_of_not_finds {t t' : Nat} {o o' : Outcome α}
    (hno : ∀ t results, ¬ Finds finish first t results) (h : finish first = .due t o)
    (h' : finish first.other = .due t' o') (hahead : Ahead first t t') :
    (finish first).settle first (finish first.other) first.other =
      .due t' (o.combine first o' first.other) := by
  have hnone : o.results? = none := results?_of_not_finds hno h
  have hmax : max t t' = t' := Nat.max_eq_right hahead.le
  rw [h, h', Promise.settle_due_of_none hnone, hmax]

/-- **The earliest results win**, as soon as there are any. -/
theorem Leads.settle_found (hlead : Leads finish first)
    (h : ∃ side t results, Finds finish side t results) :
    ∃ side t results, Finds finish side t results ∧
      (∀ t' results', Finds finish side.other t' results' → Ahead side t t') ∧
      (finish first).settle first (finish first.other) first.other =
        .due t (.ok ⟨results, side⟩) := by
  by_cases hfirst : ∃ t results, Finds finish first t results
  · obtain ⟨t, results, hfinds⟩ := hfirst
    refine ⟨first, t, results, hfinds, fun t' results' h' => ?_, settle_of_finds hfinds⟩
    obtain ⟨s, o, hs, hahead⟩ := hlead t' _ h'.1
    cases hs.symm.trans hfinds.1
    exact hahead
  · -- then the other side has them, and it is waited for
    have hno : ∀ t results, ¬ Finds finish first t results := fun t results hfinds =>
      hfirst ⟨t, results, hfinds⟩
    obtain ⟨side, t', results', hfinds⟩ := h
    rcases first.eq_or_eq_other side with rfl | rfl
    · exact absurd hfinds (hno t' results')
    · obtain ⟨t, o, ht, hahead⟩ := hlead t' _ hfinds.1
      refine ⟨first.other, t', results', hfinds, fun s results h' => ?_, ?_⟩
      · rw [Side.other_other] at h'
        exact absurd h' (hno s results)
      · rw [settle_of_not_finds hno ht hfinds.1 hahead, Outcome.combine_of_results hfinds.2]

/-- A side that is ahead is the one that leads. -/
theorem Leads.eq_of_ahead (hlead : Leads finish first) {side : Side} {t t' : Nat}
    {o o' : Outcome α} (h : finish side = .due t o) (h' : finish side.other = .due t' o')
    (hahead : Ahead side t t') : side = first := by
  rcases first.eq_or_eq_other side with heq | rfl
  · exact heq
  · rw [Side.other_other] at h'
    obtain ⟨s, p, hs, hahead'⟩ := hlead t o h
    cases hs.symm.trans h'
    exact absurd hahead' hahead.not_other

/-- Without results, both sides are waited for. -/
theorem Leads.settle_pending (hlead : Leads finish first)
    (hno : ∀ side t results, ¬ Finds finish side t results) (h : ∃ side, finish side = .never) :
    (finish first).settle first (finish first.other) first.other = .never := by
  obtain ⟨side, hside⟩ := h
  cases hfirst : finish first with
  | never => rfl
  | due t o =>
    rcases first.eq_or_eq_other side with rfl | rfl
    · cases hside.symm.trans hfirst
    · have hnone : o.results? = none := results?_of_not_finds (hno first) hfirst
      rw [hside, Promise.settle_never_of_none hnone]

end Settle

/-! ## What a race comes to -/

/-- What a race comes to, as it is run. -/
def verdict (delay : Nat) (reply : Side → Promise (Outcome α)) :
    Promise (Except SearchError (Raced α)) :=
  if (reply .primary).isBy delay then (reply .primary).map (·.wonBy .primary)
  else
    (finish delay reply (leader delay reply)).settle (leader delay reply)
      (finish delay reply (leader delay reply).other) (leader delay reply).other

/-- A primary that is late is settled with the fallback, whoever leads. -/
theorem verdict_of_late {delay : Nat} {reply : Side → Promise (Outcome α)}
    (h : (reply .primary).isBy delay = false) :
    verdict delay reply =
      (finish delay reply (leader delay reply)).settle (leader delay reply)
        (finish delay reply (leader delay reply).other) (leader delay reply).other := by
  rw [verdict, h, if_neg Bool.false_ne_true]

/-- What two answers without results come to. -/
theorem combine_of_exhausted {finish : Side → Promise (Outcome α)} {first : Side} {t t' : Nat}
    {o o' : Outcome α} (hno : ∀ side t results, ¬ Finds finish side t results)
    (h : finish first = .due t o) (h' : finish first.other = .due t' o') :
    (∀ results, o = .ok results → o.combine first o' first.other = .ok ⟨[], first⟩) ∧
      (∀ e results, o = .error e → o' = .ok results →
        o.combine first o' first.other = .ok ⟨[], first.other⟩) ∧
      ∀ e e', o = .error e → o' = .error e' → o.combine first o' first.other = .error e := by
  have hempty : ∀ side t results, finish side = .due t (.ok results) → results = [] :=
    fun side t results hside => by_contra fun hne => hno side t results ⟨hside, hne⟩
  have hnone' : o'.results? = none := results?_of_not_finds (hno first.other) h'
  refine ⟨?_, ?_, ?_⟩
  · rintro results rfl
    obtain rfl := hempty first t results h
    simp only [Outcome.combine, hnone']
  · rintro e results rfl rfl
    obtain rfl := hempty first.other t' results h'
    rfl
  · rintro e e' rfl rfl
    rfl

/-- **The race comes to what it is to come to**, in each of the four cases. -/
theorem favors_verdict (delay : Nat) (reply : Side → Promise (Outcome α)) :
    Favors delay reply (verdict delay reply) where
  inTime t o h hle := by
    simp only [verdict, h, Promise.isBy, hle, decide_true, if_true, Promise.map]
  found hlate h := by
    rw [verdict_of_late hlate]
    exact (leads_leader delay reply).settle_found h
  exhausted hlate hno first t o t' o' h h' hahead := by
    obtain rfl := (leads_leader delay reply).eq_of_ahead h h' hahead
    rw [verdict_of_late hlate, settle_of_not_finds (hno _) h h' hahead]
    obtain ⟨hok, hsecond, herror⟩ := combine_of_exhausted hno h h'
    exact ⟨fun results ho => by rw [hok results ho],
      fun e results ho ho' => by rw [hsecond e results ho ho'],
      fun e e' ho ho' => by rw [herror e e' ho ho']⟩
  pending hlate hno h := by
    rw [verdict_of_late hlate]
    exact (leads_leader delay reply).settle_pending hno h

/-- The clauses leave no choice. -/
theorem Favors.unique {delay : Nat} {reply : Side → Promise (Outcome α)}
    {v v' : Promise (Except SearchError (Raced α))} (h : Favors delay reply v)
    (h' : Favors delay reply v') : v = v' := by
  cases hlate : (reply .primary).isBy delay with
  | true =>
    obtain ⟨t, o, hp, hle⟩ : ∃ t o, reply .primary = .due t o ∧ t ≤ delay := by
      cases hp : reply .primary with
      | never => simp [hp, Promise.isBy] at hlate
      | due t o => exact ⟨t, o, rfl, by simpa [hp, Promise.isBy] using hlate⟩
    rw [h.inTime t o hp hle, h'.inTime t o hp hle]
  | false =>
    by_cases hfinds : ∃ side t results, Finds (finish delay reply) side t results
    · obtain ⟨s, t, results, hs, hbest, rfl⟩ := h.found hlate hfinds
      obtain ⟨s', t', results', hs', hbest', rfl⟩ := h'.found hlate hfinds
      rcases s.eq_or_eq_other s' with rfl | rfl
      · cases hs.1.symm.trans hs'.1
        rfl
      · rw [Side.other_other] at hbest'
        exact absurd (hbest t' results' hs') (hbest' t results hs).not_other
    · have hno : ∀ side t results, ¬ Finds (finish delay reply) side t results :=
        fun side t results hf => hfinds ⟨side, t, results, hf⟩
      by_cases hnever : ∃ side, finish delay reply side = .never
      · rw [h.pending hlate hno hnever, h'.pending hlate hno hnever]
      · -- both finish, and one of them is ahead
        have hdue : ∀ side, ∃ t o, finish delay reply side = .due t o := by
          intro side
          cases hside : finish delay reply side with
          | never => exact absurd ⟨side, hside⟩ hnever
          | due t o => exact ⟨t, o, rfl⟩
        obtain ⟨t', o', ht'⟩ := hdue (leader delay reply).other
        obtain ⟨t, o, ht, hahead⟩ := leads_leader delay reply t' o' ht'
        obtain ⟨hok, hsecond, herror⟩ := h.exhausted hlate hno _ t o t' o' ht ht' hahead
        obtain ⟨hok', hsecond', herror'⟩ := h'.exhausted hlate hno _ t o t' o' ht ht' hahead
        cases o with
        | ok results => rw [hok results rfl, hok' results rfl]
        | error e =>
          cases o' with
          | ok results => rw [hsecond e results rfl rfl, hsecond' e results rfl rfl]
          | error e' => rw [herror e e' rfl rfl, herror' e e' rfl rfl]

/-- A late race comes to nothing before the delay is over. -/
theorem verdict_readyBy?_of_lt {delay n : Nat} {reply : Side → Promise (Outcome α)}
    (hlate : (reply .primary).isBy delay = false) (hn : n < delay) :
    (verdict delay reply).readyBy? n = none := by
  have hfinish : ∀ side t o, finish delay reply side = .due t o → ¬ t ≤ n := by
    intro side t o h
    cases side with
    | primary =>
      have hlt : ¬ t ≤ delay := by
        simpa [show reply .primary = .due t o from h, Promise.isBy] using hlate
      omega
    | fallback =>
      cases hf : reply .fallback with
      | never => simp [finish, hf] at h
      | due s p =>
        simp only [finish, hf, Promise.later_due, Promise.due.injEq] at h
        omega
  rw [verdict_of_late hlate]
  cases hfirst : finish delay reply (leader delay reply) with
  | never => rfl
  | due t o => exact Promise.settle_readyBy?_of_not_le (hfinish _ t o hfirst)

end Race

/-! ## Sending and waiting -/

namespace Program

variable {σ ε α : Type} {w : World σ} {limit : Nat}

/-- The program counts and does nothing else. -/
def Counts : Program ε α → Prop
  | done _ => True
  | count _ _ p => p.Counts
  | _ => False

/-- Such a program ends at once, at any limit, and shows nothing. -/
theorem Counts.run {p : Program ε α} (h : p.Counts) (m : Machine σ) :
    ∃ a m', m'.now = m.now ∧ p.run w limit m = ⟨.done a, [], m'⟩ := by
  induction p generalizing m with
  | done a => exact ⟨a, m, rfl, rfl⟩
  | count x n p ih => exact ih h (m.note (.counted x n))
  | _ => exact h.elim

theorem Counts.silent {p : Program ε α} (h : p.Counts) : p.Silent := by
  induction p with
  | done a => trivial
  | count x n p ih => exact ⟨trivial, ih h⟩
  | _ => exact h.elim

/-- Send a search whose answer is known: what is handed out is the side, and when it was sent. -/
def issue (reply : Side → Promise (Outcome α)) (side : Side) :
    Program (Side × Nat) (Promise (Outcome α)) := do
  let t ← clock
  give (side, t)
  return (reply side).later t

/-- Sending takes no time and leaves the world as it is, so a race may be told by its promises
alone. -/
theorem run_issue (reply : Side → Promise (Outcome α)) (side : Side) (m : Machine σ) :
    (issue reply side).run w limit m =
      ⟨.done ((reply side).later m.now), [(side, m.now)], m⟩ := rfl

section Waiting

variable {received : Outcome α → Program ε Unit} (hr : ∀ o, (received o).Counts)

include hr

/-- Who waits for an answer goes on when it is there, and not before. -/
theorem run_receive_due {t : Nat} (ht : t ≤ limit) (o : Outcome α) (m : Machine σ) :
    ∃ m', m'.now = max m.now t ∧
      (receive received (.due t o)).run w limit m = ⟨.done o, [], m'⟩ := by
  obtain ⟨a, m', hnow, hrun⟩ : ∃ a m', m'.now = (m.moveTo t).now ∧
      (received o).run w limit (m.moveTo t) = ⟨.done a, [], m'⟩ := (hr o).run (m.moveTo t)
  refine ⟨m', hnow, ?_⟩
  change (wait t (received o >>= fun _ => pure o)).run w limit m = _
  rw [Program.run, if_pos (by simp [ht]), run_bind, hrun]
  rfl

/-- Waiting for an answer comes to that answer, at its instant. -/
theorem outcome?_receive {m : Machine σ} (hm : m.now ≤ limit) (p : Promise (Outcome α)) :
    ((receive received p).run w limit m).outcome? = p.readyBy? limit := by
  cases p with
  | never => rfl
  | due t o =>
    rw [Promise.readyBy?_due]
    split
    case isTrue ht =>
      obtain ⟨m', -, hrun⟩ := run_receive_due hr ht o m
      rw [hrun]
      rfl
    case isFalse ht =>
      change ((wait t (received o >>= fun _ => pure o)).run w limit m).outcome? = none
      rw [run, if_neg (by simp; omega)]
      rfl

/-- The first answer is there, without results. -/
theorem outcome?_secondResults {t : Nat} (ht : t ≤ limit) {o : Outcome α} (ho : o.results? = none)
    {m : Machine σ} (hm : m.now ≤ limit) (q : Promise (Outcome α)) (a b : Side) :
    ((receive received q >>= fun o' => pure (o.combine a o' b)).run w limit m).outcome? =
      ((Promise.due t o).settle a q b).readyBy? limit := by
  have hq : ((receive received q).run w limit m).outcome? = q.readyBy? limit :=
    outcome?_receive hr hm q
  cases q with
  | never => rw [(run_bind_of_none hq _).1, Promise.settle_never_of_none ho, Promise.readyBy?_never]
  | due t' o' =>
    rw [Promise.settle_due_of_none ho, Promise.readyBy?_due]
    rw [Promise.readyBy?_due] at hq
    by_cases ht' : t' ≤ limit
    · rw [if_pos ht'] at hq
      rw [(run_bind_of_some hq _).1, if_pos (Nat.max_le.mpr ⟨ht, ht'⟩)]
      rfl
    · rw [if_neg ht'] at hq
      rw [(run_bind_of_none hq _).1, if_neg fun h => ht' (Nat.max_le.mp h).2]

/-- **Waiting for the first answer and then for the second one** comes to what it is to come to, at
that instant. -/
theorem outcome?_firstResults {m : Machine σ} (hm : m.now ≤ limit) (p q : Promise (Outcome α))
    (a b : Side) :
    ((firstResults received p a q b).run w limit m).outcome? =
      (p.settle a q b).readyBy? limit := by
  cases p with
  | never => rfl
  | due t o =>
    by_cases ht : t ≤ limit
    · obtain ⟨m', hnow, hrun⟩ := run_receive_due (w := w) hr ht o m
      have ho : ((receive received (.due t o)).run w limit m).outcome? = some o := by
        rw [hrun]
        rfl
      have hm' : m'.now ≤ limit := by omega
      rw [firstResults, (run_bind_of_some ho _).1, hrun]
      cases hresults : o.results? with
      | some results =>
        rw [Promise.settle_of_some hresults, Promise.readyBy?_due, if_pos ht]
        rfl
      | none => exact outcome?_secondResults hr ht hresults hm' q a b
    · have hnone : ((receive received (.due t o)).run w limit m).outcome? = none := by
        rw [outcome?_receive hr hm, Promise.readyBy?_due, if_neg ht]
      rw [firstResults, (run_bind_of_none hnone _).1, Promise.settle_readyBy?_of_not_le ht]

end Waiting

/-! ## Running a race -/

section Race

variable {received : Outcome α → Program (Side × Nat) Unit} (hr : ∀ o, (received o).Counts)
  {delay : Nat} {reply : Side → Promise (Outcome α)} {n : Nat} {m : Machine σ}

/-- A primary that is in time is sent, and waited for. -/
theorem run_race_of_isBy (h : (reply .primary).isBy delay = true) :
    (race delay (issue reply .primary) (issue reply .fallback) received).run w limit m =
      let r := (receive received ((reply .primary).later m.now) >>= fun o =>
        pure (o.wonBy .primary)).run w limit m
      { r with emitted := (.primary, m.now) :: r.emitted } := by
  have hby : ((reply .primary).later m.now).isBy (m.now + delay) = true := by
    rw [Nat.add_comm, Promise.isBy_later, h]
  simp only [race, run_bind, run_issue, clock, run, hby, if_true, List.nil_append,
    List.singleton_append]

/-- Whether the primary is late does not depend on when the race begins. -/
theorem isBy_later_of_late (h : (reply .primary).isBy delay = false) (start : Nat) :
    ((reply .primary).later start).isBy (start + delay) = false := by
  rw [Nat.add_comm, Promise.isBy_later, h]

/-- Until the delay is over, a late primary is waited for alone. -/
theorem run_race_of_lt (h : (reply .primary).isBy delay = false) (hn : n < delay) :
    let r := (race delay (issue reply .primary) (issue reply .fallback) received).run w
      (m.now + n) m
    r.outcome? = none ∧ r.emitted = [(.primary, m.now)] := by
  have hlimit : (decide (m.now + delay ≤ m.now) || decide (m.now + delay ≤ m.now + n)) = false := by
    simp only [Bool.or_eq_false_iff, decide_eq_false_iff_not]
    omega
  simp only [race, run_bind, run_issue, clock, sleepUntil, run, isBy_later_of_late h,
    Bool.false_eq_true, if_false, hlimit]
  exact ⟨rfl, rfl⟩

/-- Then the fallback is sent too, and the side that leads is waited for first. -/
theorem run_race_of_le (h : (reply .primary).isBy delay = false) (hn : delay ≤ n) :
    (race delay (issue reply .primary) (issue reply .fallback) received).run w (m.now + n) m =
      let first := Race.leader delay reply
      let r := (firstResults received ((Race.finish delay reply first).later m.now) first
        ((Race.finish delay reply first.other).later m.now) first.other).run w (m.now + n)
          (m.moveTo (m.now + delay))
      { r with emitted := (.primary, m.now) :: (.fallback, m.now + delay) :: r.emitted } := by
  have hlimit : (decide (m.now + delay ≤ m.now) || decide (m.now + delay ≤ m.now + n)) = true := by
    simp only [Bool.or_eq_true, decide_eq_true_eq]
    omega
  have hnow : (m.moveTo (m.now + delay)).now = m.now + delay :=
    Nat.max_eq_right (Nat.le_add_right m.now delay)
  have hlater : (reply .fallback).later (m.now + delay) =
      ((reply .fallback).later delay).later m.now := by
    rw [Promise.later_later, Nat.add_comm]
  simp only [race, run_bind, run_issue, clock, sleepUntil, run, isBy_later_of_late h,
    Bool.false_eq_true, if_false, hlimit, if_true, hnow, hlater, Promise.isFirst_later,
    Race.leader]
  split
  · rfl
  · rfl

include hr

/-- A run of a race comes to its verdict as soon as that is there. -/
theorem outcome?_race (m : Machine σ) :
    ((race delay (issue reply .primary) (issue reply .fallback) received).run w
      (m.now + n) m).outcome? = (Race.verdict delay reply).readyBy? n := by
  have hm : m.now ≤ m.now + n := Nat.le_add_right m.now n
  cases hlate : (reply .primary).isBy delay with
  | true =>
    have ho := outcome?_receive (w := w) hr hm ((reply .primary).later m.now)
    rw [Promise.readyBy?_later] at ho
    rw [run_race_of_isBy hlate, Race.verdict, if_pos hlate, Promise.readyBy?_map]
    change ((receive received _ >>= _).run w (m.now + n) m).outcome? = _
    cases hready : (reply .primary).readyBy? n with
    | some o =>
      rw [hready] at ho
      rw [(run_bind_of_some ho _).1]
      rfl
    | none =>
      rw [hready] at ho
      rw [(run_bind_of_none ho _).1]
      rfl
  | false =>
    by_cases hn : delay ≤ n
    · have hm' : (m.moveTo (m.now + delay)).now ≤ m.now + n := by
        simp only [Machine.moveTo]
        omega
      rw [run_race_of_le hlate hn, Race.verdict_of_late hlate, ← Promise.readyBy?_later m.now,
        ← Promise.settle_later]
      exact outcome?_firstResults hr hm' _ _ _ _
    · have hlt : n < delay := Nat.lt_of_not_le hn
      rw [(run_race_of_lt hlate hlt).1, Race.verdict_readyBy?_of_lt hlate hlt]

/-- The fallback is sent when the delay is over, if it is sent. -/
theorem emitted_race (m : Machine σ) :
    ((race delay (issue reply .primary) (issue reply .fallback) received).run w
      (m.now + n) m).emitted =
        (.primary, m.now) ::
          if (reply .primary).isBy delay = false ∧ delay ≤ n then [(.fallback, m.now + delay)]
          else [] := by
  have hsilent : ∀ o, (received o).Silent := fun o => (hr o).silent
  cases hlate : (reply .primary).isBy delay with
  | true =>
    rw [run_race_of_isBy hlate, if_neg (by simp)]
    exact congrArg _ (Silent.emitted_run ((Every.receive hsilent _).bind fun o => .pure _) m)
  | false =>
    by_cases hn : delay ≤ n
    · rw [run_race_of_le hlate hn, if_pos ⟨rfl, hn⟩]
      exact congrArg (fun es => _ :: _ :: es)
        (Silent.emitted_run (Every.firstResults hsilent _ _ _ _) _)
    · rw [(run_race_of_lt hlate (Nat.lt_of_not_le hn)).2, if_neg fun h => hn h.2]

/-- **A race favours the primary.** What it comes to is fixed by what the two sides finish with and
when (`Race.Favors`, which leaves no choice), it comes to that at that instant and not before,
beside any world, and the fallback is sent at most once, when the delay is over and only if the
primary is late. -/
theorem race_favors_primary (delay : Nat) (reply : Side → Promise (Outcome α)) :
    ∃ verdict, Race.Favors delay reply verdict ∧
      (∀ verdict', Race.Favors delay reply verdict' → verdict' = verdict) ∧
      ∀ (w : World σ) (m : Machine σ) (n : Nat),
        let r := (race delay (issue reply .primary) (issue reply .fallback) received).run w
          (m.now + n) m
        r.outcome? = verdict.readyBy? n ∧
          r.emitted = (.primary, m.now) ::
            if (reply .primary).isBy delay = false ∧ delay ≤ n then [(.fallback, m.now + delay)]
            else [] :=
  ⟨Race.verdict delay reply, Race.favors_verdict delay reply,
    fun _ h => h.unique (Race.favors_verdict delay reply),
    fun _ m _ => ⟨outcome?_race hr m, emitted_race hr m⟩⟩

end Race

end Program

namespace Engine

open Program

/-- Where answers of searches are received, they are counted and no more. -/
theorem received_counts {ε : Type} (scope : Scope) (o : Outcome Hit) :
    (received scope o : Program ε Unit).Counts := by
  cases o <;> trivial

/-- Two failures at the same instant, if the fallback is sent after two milliseconds. -/
def tiedFailures : Side → Promise (Outcome Hit)
  | .primary => .due 7 (.error (.timeout 7))
  | .fallback => .due 5 (.error (.timeout 5))

theorem race_tiedFailures :
    let w : World Unit := ⟨fun _ _ s => (.never, s)⟩
    let r := (race 2 (issue tiedFailures .primary) (issue tiedFailures .fallback)
      (received .currentRepository)).run w (0 + 7) { world := () }
    r.outcome? = some (.error (.timeout 7)) ∧ r.emitted = [(.primary, 0), (.fallback, 2)] := by
  intro w r
  obtain ⟨verdict, hfavors, -, hrun⟩ :=
    race_favors_primary (received_counts .currentRepository) 2 tiedFailures
  have hno : ∀ side t results, ¬ Race.Finds (Race.finish 2 tiedFailures) side t results := by
    rintro (_ | _) t results ⟨⟨⟩, -⟩
  have hverdict : verdict = .due 7 (.error (.timeout 7)) :=
    (hfavors.exhausted rfl hno .primary 7 _ 7 _ rfl rfl (.inr ⟨rfl, rfl⟩)).2.2 _ _ rfl rfl
  obtain ⟨houtcome, hemitted⟩ := hrun w { world := () } 7
  rw [hverdict] at houtcome
  exact ⟨houtcome, hemitted⟩

end Engine

end CodeNav

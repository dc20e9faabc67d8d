import CodeNav.Lookup.Provider
import CodeNav.Proofs.Lookup.Shift
import CodeNav.Proofs.Lru.Recency

/-!
# Answers that depend on the question alone

A **steady** world answers each call after a delay and with a value that depend on the call
alone. Beside a steady world, what a lookup hands out can still depend on the machine it
runs on: on the instant, on the cache of file texts, on what the world remembers. Here it
is shown that it does not.

* `Program.follow` runs a program without a limit; wherever `run` stops, the rest of it
  follows (`Program.follow_eq_run`).
* `Machine.Faithful` — **every text in the cache is the one the world would send**. Lookups
  keep it so.
* `Sources.answer_settled` — a lookup hands out the same values from every faithful machine.
-/

namespace CodeNav

/-! ## Running without a limit -/

/-- A program that has been run for as long as it goes: what it ended with, if it ended,
what it handed out, and the machine it leaves. -/
structure Followed (σ ε α : Type) where
  outcome : Option α
  emitted : List ε
  machine : Machine σ

namespace Program

variable {σ ε α β : Type} {w : World σ}

/-- Run a program, however long it waits. -/
def follow (w : World σ) : Program ε α → Machine σ → Followed σ ε α
  | done a, m => ⟨some a, [], m⟩
  | never, m => ⟨none, [], m⟩
  | wait t p, m => p.follow w (m.moveTo t)
  | now k, m => (k m.now).follow w m
  | ask c k, m =>
    let (r, world) := w.respond c m.now m.world
    (k r).follow w ({ m with world }.note (.called c))
  | count x n p, m => p.follow w (m.note (.counted x n))
  | emit e p, m =>
    let r := p.follow w m
    { r with emitted := e :: r.emitted }
  | consult key k, m =>
    let (v, cache) := m.cache.get? key
    (k v).follow w { m with cache }
  | remember key text p, m => p.follow w { m with cache := m.cache.insert key text }

end Program

/-- What follows where a run came to stand. -/
def Progress.follow {σ ε α : Type} (w : World σ) (m : Machine σ) : Progress ε α → Followed σ ε α
  | .done a => ⟨some a, [], m⟩
  | .waiting t next => next.follow w (m.moveTo t)
  | .stuck => ⟨none, [], m⟩

namespace Program

variable {σ ε α β : Type} {w : World σ}

/-- The whole run is a run up to a limit and what follows it. -/
theorem follow_eq_run (limit : Nat) (p : Program ε α) (m : Machine σ) :
    p.follow w m =
      let r := p.run w limit m
      let f := r.progress.follow w r.machine
      { f with emitted := r.emitted ++ f.emitted } := by
  induction p generalizing m with
  | done b => rfl
  | never => rfl
  | wait t p ih =>
    simp only [run]
    split
    · exact ih _
    · rfl
  | now k ih => exact ih _ _
  | ask c k ih => exact ih _ _
  | count x n p ih => exact ih _
  | emit e p ih => simp only [follow, run, ih m, List.cons_append]
  | consult key k ih => exact ih _ _
  | remember key text p ih => exact ih _

/-- The whole run is a poll and what follows it. -/
theorem follow_eq_poll (p : Program ε α) (m : Machine σ) :
    p.follow w m =
      let r := p.poll w m
      let f := r.progress.follow w r.machine
      { f with emitted := r.emitted ++ f.emitted } :=
  follow_eq_run m.now p m

/-- The clock never goes back. -/
theorem now_le_follow (p : Program ε α) (m : Machine σ) :
    m.now ≤ (p.follow w m).machine.now := by
  induction p generalizing m with
  | done b => exact Nat.le_refl _
  | never => exact Nat.le_refl _
  | wait t p ih => exact Nat.le_trans (Nat.le_max_left _ _) (ih (m.moveTo t))
  | now k ih => exact ih _ _
  | ask c k ih =>
    let m' : Machine σ := { m with world := (w.respond c m.now m.world).2 }
    exact ih (w.respond c m.now m.world).1 (m'.note (.called c))
  | count x n p ih => exact ih (m.note _)
  | emit e p ih => exact ih m
  | consult key k ih => exact ih (m.cache.get? key).1 { m with cache := (m.cache.get? key).2 }
  | remember key text p ih => exact ih { m with cache := m.cache.insert key text }

/-- A poll takes no time, and what waits after it waits for a later instant. -/
theorem poll_now (p : Program ε α) (m : Machine σ) :
    (p.poll w m).machine.now = m.now ∧
      ∀ t next, (p.poll w m).progress = .waiting t next → m.now < t := by
  -- the limit of a poll is the instant it began, which the clock still shows
  suffices h : ∀ m : Machine σ, ∀ limit, m.now = limit →
      (p.run w limit m).machine.now = limit ∧
        ∀ t next, (p.run w limit m).progress = .waiting t next → limit < t from h m _ rfl
  induction p with
  | done b =>
    intro m limit hm
    exact ⟨hm, fun _ _ h => nomatch h⟩
  | never =>
    intro m limit hm
    exact ⟨hm, fun _ _ h => nomatch h⟩
  | wait t p ih =>
    intro m limit hm
    simp only [run, hm, Bool.or_self, decide_eq_true_eq]
    split
    · next hle => exact ih _ _ (by simp only [Machine.moveTo]; omega)
    · next hlt =>
      refine ⟨hm, fun t' next h => ?_⟩
      cases h
      omega
  | now k ih => exact fun m limit hm => ih _ m limit hm
  | ask c k ih =>
    intro m limit hm
    let m' : Machine σ := { m with world := (w.respond c m.now m.world).2 }
    exact ih (w.respond c m.now m.world).1 (m'.note (.called c)) limit hm
  | count x n p ih => exact fun m limit hm => ih (m.note _) limit hm
  | emit e p ih => exact fun m limit hm => ih m limit hm
  | consult key k ih =>
    exact fun m limit hm =>
      ih (m.cache.get? key).1 { m with cache := (m.cache.get? key).2 } limit hm
  | remember key text p ih =>
    exact fun m limit hm => ih { m with cache := m.cache.insert key text } limit hm

/-- In a sequence the second program starts on the machine the first one leaves, if the
first one ends. -/
theorem follow_bind (p : Program ε α) (f : α → Program ε β) (m : Machine σ) :
    (p >>= f).follow w m =
      match (p.follow w m).outcome with
      | none => ⟨none, (p.follow w m).emitted, (p.follow w m).machine⟩
      | some a =>
        { (f a).follow w (p.follow w m).machine with
          emitted :=
            (p.follow w m).emitted ++ ((f a).follow w (p.follow w m).machine).emitted } := by
  change (p.bind f).follow w m = _
  induction p generalizing m with
  | done a => rfl
  | never => rfl
  | wait t p ih => exact ih _
  | now k ih => exact ih _ _
  | ask c k ih => exact ih _ _
  | count x n p ih => exact ih _
  | emit e p ih =>
    simp only [Program.bind, follow, ih m]
    cases (p.follow w m).outcome <;> rfl
  | consult key k ih => exact ih _ _
  | remember key text p ih => exact ih _

end Program

/-! ## Steady worlds -/

/-- What is answered to each call and after how many milliseconds; none if never. -/
abbrev Replies := (c : Call) → Option (Nat × c.Answer)

/-- A reply, given at an instant, as a promise. -/
def Promise.ofReply {α : Type} (t : Nat) : Option (Nat × α) → Promise α
  | none => .never
  | some (d, a) => .due (t + d) a

theorem Promise.later_ofReply {α : Type} (δ t : Nat) (r : Option (Nat × α)) :
    (Promise.ofReply t r).later δ = Promise.ofReply (t + δ) r := by
  cases r with
  | none => rfl
  | some r => simp only [ofReply, later_due, Nat.add_right_comm]

/-- A world whose answers, and how long they take, depend on the calls alone. -/
def World.Steady {σ : Type} (w : World σ) (replies : Replies) : Prop :=
  ∀ c t s, (w.respond c t s).1 = .ofReply t (replies c)

/-- Every text in the cache is the one the world would send. -/
def Machine.Faithful {σ : Type} (replies : Replies) (m : Machine σ) : Prop :=
  ∀ key text, (key, text) ∈ m.cache.entries →
    ∃ d, replies (.content key.repo key.revision key.path) = some (d, .ok (some text))

namespace Program

variable {σ ε α β : Type} {w : World σ} {replies : Replies}

/-- What the program ends with and hands out is the same from every faithful machine, and it
leaves a faithful one. -/
structure Settled (w : World σ) (replies : Replies) (p : Program ε α) : Prop where
  outcome : ∀ m m' : Machine σ, m.Faithful replies → m'.Faithful replies →
    (p.follow w m).outcome = (p.follow w m').outcome
  emitted : ∀ m m' : Machine σ, m.Faithful replies → m'.Faithful replies →
    (p.follow w m).emitted = (p.follow w m').emitted
  faithful : ∀ m : Machine σ, m.Faithful replies → (p.follow w m).machine.Faithful replies

/-- A program and its moved copy, on machines that differ by as much. -/
theorem Shifted.follow (hw : w.Steady replies) {δ : Nat} {p q : Program ε α}
    (h : Shifted δ Eq p q) (m m' : Machine σ) (hm : m'.now = m.now + δ) :
    (p.follow w m).outcome = (q.follow w m').outcome ∧
      (p.follow w m).emitted = (q.follow w m').emitted ∧
      (p.follow w m).machine.cache = m.cache := by
  induction h generalizing m m' with
  | done hab => exact ⟨congrArg some hab, rfl, rfl⟩
  | never => exact ⟨rfl, rfl, rfl⟩
  | wait _ ih =>
    refine ih (m.moveTo _) (m'.moveTo _) ?_
    simp only [Machine.moveTo]
    omega
  | now _ ih => simpa only [Program.follow, hm] using ih m.now m m' hm
  | @ask c k l _ ih =>
    have hr : (w.respond c m'.now m'.world).1 = (w.respond c m.now m.world).1.later δ := by
      rw [hw, hw, Promise.later_ofReply, hm]
    have h := ih (w.respond c m.now m.world).1
      ({ m with world := (w.respond c m.now m.world).2 }.note (.called c))
      ({ m' with world := (w.respond c m'.now m'.world).2 }.note (.called c)) hm
    rwa [← hr] at h
  | count _ ih => exact ih (m.note _) (m'.note _) hm
  | @emit e p q _ ih =>
    obtain ⟨ho, he, hc⟩ := ih m m' hm
    exact ⟨ho, congrArg (e :: ·) he, hc⟩

/-- Beside a steady world, a program that only measures time is settled. -/
theorem Timeless.settled (hw : w.Steady replies) {p : Program ε α} (hp : p.Timeless) :
    p.Settled w replies := by
  -- of two machines, one is later than the other
  have key : ∀ m m' : Machine σ, m.now ≤ m'.now →
      (p.follow w m).outcome = (p.follow w m').outcome ∧
      (p.follow w m).emitted = (p.follow w m').emitted := by
    intro m m' hle
    have h := (hp (m'.now - m.now)).follow hw m m' (by omega)
    exact ⟨h.1, h.2.1⟩
  refine ⟨fun m m' _ _ => ?_, fun m m' _ _ => ?_, fun m hm => ?_⟩
  · rcases Nat.le_total m.now m'.now with hle | hle
    · exact (key m m' hle).1
    · exact (key m' m hle).1.symm
  · rcases Nat.le_total m.now m'.now with hle | hle
    · exact (key m m' hle).2
    · exact (key m' m hle).2.symm
  · have hc := ((hp 0).follow hw m m rfl).2.2
    rwa [Machine.Faithful, hc]

theorem Settled.bind {p : Program ε α} {f : α → Program ε β} (hp : p.Settled w replies)
    (hf : ∀ a, (f a).Settled w replies) : Settled w replies (p >>= f) := by
  refine ⟨fun m m' hm hm' => ?_, fun m m' hm hm' => ?_, fun m hm => ?_⟩
  all_goals rw [follow_bind]
  · rw [follow_bind, hp.outcome m m' hm hm']
    split
    · rfl
    · next a _ => exact (hf a).outcome _ _ (hp.faithful m hm) (hp.faithful m' hm')
  · rw [follow_bind, hp.outcome m m' hm hm']
    split
    · exact hp.emitted m m' hm hm'
    · next a _ =>
      have h := (hf a).emitted _ _ (hp.faithful m hm) (hp.faithful m' hm')
      simp only [hp.emitted m m' hm hm', h]
  · split
    · exact hp.faithful m hm
    · next a _ => exact (hf a).faithful _ (hp.faithful m hm)

end Program

/-! ## What lookups hand out -/

namespace Engine

variable {σ ε : Type} {w : World σ} {replies : Replies}

open Program

/-- The text of a file that a reply holds. -/
def sentText : Except SearchError (Option String) → Option String
  | .ok (some text) => some text
  | _ => none

/-- Hit or miss, the text of a file is what the world would send. -/
theorem content_follow (hw : w.Steady replies) (key : ContentKey) {m : Machine σ}
    (hm : m.Faithful replies) :
    ((content key : Program ε _).follow w m).outcome =
        (replies (.content key.repo key.revision key.path)).map (sentText ·.2) ∧
      ((content key : Program ε _).follow w m).emitted = [] ∧
      ((content key : Program ε _).follow w m).machine.Faithful replies := by
  have hkept : ∀ k t, (k, t) ∈ (m.cache.get? key).2.entries →
      ∃ d, replies (.content k.repo k.revision k.path) = some (d, .ok (some t)) :=
    fun k t h => hm k t (Lru.entries_get?_subset _ _ h)
  cases hget : (m.cache.get? key).1 with
  | some text =>
    -- hit:
    obtain ⟨d, hd⟩ := hm key text (Lru.mem_of_get?_eq_some hget)
    simp only [content, follow, hget, hd]
    exact ⟨rfl, rfl, hkept⟩
  | none =>
    -- miss:
    simp only [content, follow, hget]
    change _ ∧ _ ∧ _
    simp only [follow_bind, call, follow, hw _ _ _]
    cases hreply : replies (.content key.repo key.revision key.path) with
    | none => exact ⟨rfl, rfl, hkept⟩
    | some r =>
      obtain ⟨d, fetched⟩ := r
      match fetched, hreply with
      | .ok (some text), hreply =>
        refine ⟨rfl, rfl, fun k t h => ?_⟩
        rcases List.mem_cons.mp (Lru.entries_insert_subset _ _ _ h) with heq | h
        · cases heq
          exact ⟨d, hreply⟩
        · exact hkept k t h
      | .ok none, _ => exact ⟨rfl, rfl, hkept⟩
      | .error _, _ => exact ⟨rfl, rfl, hkept⟩

theorem content_settled (hw : w.Steady replies) (key : ContentKey) :
    (content key : Program ε _).Settled w replies where
  outcome m m' hm hm' := by rw [(content_follow hw key hm).1, (content_follow hw key hm').1]
  emitted m m' hm hm' := by rw [(content_follow hw key hm).2.1, (content_follow hw key hm').2.1]
  faithful m hm := (content_follow hw key hm).2.2

theorem hover_settled (hw : w.Steady replies) (e : Engine) (document : Document)
    (position : Position) : (e.hover document position : Program ε _).Settled w replies := by
  have hpure : ∀ {α : Type} (a : α), (pure a : Program ε α).Settled w replies :=
    fun a => (Timeless.pure a).settled hw
  rw [hover]
  split
  · exact hpure _
  · split
    · exact hpure _
    · refine ((e.definitionsOf_timeless _ _ _).settled hw).bind fun found => ?_
      split
      · exact hpure _
      · exact hpure _
      · refine Settled.bind ?_ fun _ => hpure _
        rw [definingText]
        split
        · exact hpure _
        · exact content_settled hw _

end Engine

namespace Sources

variable {σ : Type} {w : World σ} {replies : Replies}

open Program

theorem indexed_timeless {α : Type} (s : Sources) (fallback : α)
    {ask : Program Snapshot (Promise (Except SearchError α))}
    (hask : ∀ δ, Shifted δ (fun r s => s = r.later δ) ask ask) :
    (s.indexed fallback ask).Timeless := by
  rw [indexed]
  split
  · intro δ
    refine (hask δ).bind ?_
    rintro r _ rfl
    refine (shifted_await r).bind ?_
    rintro answer _ rfl
    split <;> exact .pure rfl
  · exact .pure _

theorem definition_timeless (s : Sources) (d : Document) (p : Position) :
    (s.definition d p).Timeless := by
  refine (s.indexed_timeless [] fun _ => shifted_call (.indexedDefinition d p)).bind
    fun known => ?_
  split
  · exact .give _
  · refine (s.engine.definition_timeless d p).bind fun found => ?_
    split
    · exact .give _
    · exact .pure _

theorem references_timeless (s : Sources) (d : Document) (p : Position) (declaration : Bool) :
    (s.references d p declaration).Timeless := by
  refine (s.indexed_timeless [] fun _ =>
    shifted_call (.indexedReferences d p declaration)).bind fun known => ?_
  dsimp only
  split
  -- what is known is handed out first; then, known or not, the search goes the same way
  refine (Timeless.give _).bind fun _ => ?_
  all_goals
    refine (s.engine.references_timeless d p).bind fun found => ?_
    split
    · exact .pure _
    · split
      · exact .pure _
      · exact .give _

theorem hover_settled (hw : w.Steady replies) (s : Sources) (d : Document) (p : Position) :
    (s.hover d p).Settled w replies := by
  refine ((s.indexed_timeless none fun _ => shifted_call (.indexedHover d p)).settled hw).bind
    fun known => ?_
  split
  · exact (Timeless.give _).settled hw
  · refine (Engine.hover_settled hw s.engine d p).bind fun found => ?_
    split
    · exact (Timeless.give _).settled hw
    · exact (Timeless.pure _).settled hw

/-- **What a lookup hands out does not depend on the machine it runs on**, as long as the
cache is faithful. -/
theorem answer_settled (hw : w.Steady replies) (s : Sources) (q : Question) :
    (s.answer q).Settled w replies := by
  rw [answer]
  cases q.operation with
  | definition => exact (s.definition_timeless _ _).settled hw
  | references => exact (s.references_timeless _ _ _).settled hw
  | hover => exact hover_settled hw s _ _

end Sources

end CodeNav

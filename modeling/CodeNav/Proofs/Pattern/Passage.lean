import CodeNav.Proofs.Pattern.Bounds

/-!
# From one place to another

`Regex.Passes` says between which places an expression can match, whatever a search prefers: it has
no continuation and no fuel, and one clause for each kind of expression.

* `follows_ways` — a search **only goes where the expression passes**.
* `finds_ways` — if the expression passes to a place from which the search can go on, then **the
  search goes on**, there or from a place it prefers. The rounds of repetitions have to take a
  character each (`Regex.advances`), since a search gives up rounds that take none.

So for a pattern that passes from each place in one way only, or in ways that agree on what is asked
of them, the order in which a search tries things is of no account.
-/

namespace CodeNav

namespace Regex

variable {β : Type}

/-- A way from one place to another, with the spans of the groups at both. -/
abbrev Way := Cursor → Captures → Cursor → Captures → Prop

/-- `n` rounds, one behind the other. -/
def Chain (way : Way) : Nat → Way
  | 0, here, caps, there, caps' => there = here ∧ caps' = caps
  | n + 1, here, caps, there, caps' =>
    ∃ mid mids, way here caps mid mids ∧ Chain way n mid mids there caps'

/-- At least `least` rounds, and at most `most`. -/
def Rounds (way : Way) (least : Nat) (most : Option Nat) : Way := fun here caps there caps' =>
  ∃ n, least ≤ n ∧ (∀ m ∈ most, n ≤ max least m) ∧ Chain way n here caps there caps'

/-- Where an expression can match. -/
def Passes : Regex → Way
  | empty, here, caps, there, caps' => there = here ∧ caps' = caps
  | set s, here, caps, there, caps' =>
    ∃ c rest, here.rest = c :: rest ∧ s.mem c = true ∧ there = here.past c rest ∧ caps' = caps
  | look l, here, caps, there, caps' => l.holds here = true ∧ there = here ∧ caps' = caps
  | seq a b, here, caps, there, caps' =>
    ∃ mid mids, a.Passes here caps mid mids ∧ b.Passes mid mids there caps'
  | alt a b, here, caps, there, caps' =>
    a.Passes here caps there caps' ∨ b.Passes here caps there caps'
  | group i a, here, caps, there, caps' =>
    ∃ inner, a.Passes here caps there inner ∧ caps' = (i, here.pos, there.pos) :: inner
  | rounds least most _ a, here, caps, there, caps' =>
    Rounds a.Passes least most here caps there caps'

/-- Rounds behind rounds. -/
theorem Chain.append {way : Way} {m n : Nat} {here mid there : Cursor}
    {caps mids caps' : Captures} (h : Chain way m here caps mid mids)
    (h' : Chain way n mid mids there caps') : Chain way (m + n) here caps there caps' := by
  induction m generalizing here caps with
  | zero =>
    obtain ⟨rfl, rfl⟩ := h
    rwa [Nat.zero_add]
  | succ m ih =>
    obtain ⟨next, nexts, hway, hchain⟩ := h
    rw [Nat.succ_add]
    exact ⟨next, nexts, hway, ih hchain⟩

/-- Rounds are some rounds and some more. -/
theorem Chain.split {way : Way} {m n : Nat} {here there : Cursor} {caps caps' : Captures}
    (h : Chain way (m + n) here caps there caps') :
    ∃ mid mids, Chain way m here caps mid mids ∧ Chain way n mid mids there caps' := by
  induction m generalizing here caps with
  | zero =>
    rw [Nat.zero_add] at h
    exact ⟨here, caps, ⟨rfl, rfl⟩, h⟩
  | succ m ih =>
    rw [Nat.succ_add] at h
    obtain ⟨next, nexts, hhead, hchain⟩ := h
    obtain ⟨mid, mids, hfront, hback⟩ := ih hchain
    exact ⟨mid, mids, ⟨next, nexts, hhead, hfront⟩, hback⟩

/-! ## A search only goes where the expression passes -/

/-- Every answer of a search comes from a continuation called at the end of a way. -/
def Follows (way : Way) (search : Search β) : Prop :=
  ∀ here caps k b, search here caps k = some b →
    ∃ there caps', way here caps there caps' ∧ k there caps' = some b

namespace Follows

variable {way : Way} {body : Search β} (h : Follows way body)

include h

/-- A fixed number of rounds is one behind the other, and the search enters each from where the last
one ended. -/
theorem exactly (n : Nat) : Follows (Chain way n) (exactly body n) := by
  induction n with
  | zero => exact fun here caps _ _ hb => ⟨here, caps, ⟨rfl, rfl⟩, hb⟩
  | succ n ih =>
    intro here caps k b hb
    obtain ⟨mid, mids, hway, hb'⟩ := h here caps _ b hb
    obtain ⟨there, caps', hchain, hk⟩ := ih mid mids k b hb'
    exact ⟨there, caps', ⟨mid, mids, hway, hchain⟩, hk⟩

/-- Greedy or not, only the order of the attempts differs, so no order leads elsewhere. -/
theorem atMost (greedy : Bool) (n : Nat) :
    Follows (fun here caps there caps' => ∃ m ≤ n, Chain way m here caps there caps')
      (atMost greedy body n) := by
  induction n with
  | zero => exact fun here caps _ _ hb => ⟨here, caps, ⟨0, Nat.le_refl 0, rfl, rfl⟩, hb⟩
  | succ n ih =>
    intro here caps k b hb
    rcases prefer_eq_some hb with hmore | hless
    · obtain ⟨mid, mids, hway, hb'⟩ := h here caps _ b hmore
      obtain ⟨there, caps', ⟨m, hm, hchain⟩, hk⟩ := ih mid mids k b hb'
      exact ⟨there, caps', ⟨m + 1, Nat.succ_le_succ hm, mid, mids, hway, hchain⟩, hk⟩
    · exact ⟨here, caps, ⟨0, Nat.zero_le _, rfl, rfl⟩, hless⟩

/-- A search that runs out of rounds to try stops where it is, which is the end of a way too. -/
theorem further (greedy : Bool) (fuel : Nat) :
    Follows (fun here caps there caps' => ∃ m, Chain way m here caps there caps')
      (further greedy body fuel) := by
  induction fuel with
  | zero => exact fun here caps _ _ hb => ⟨here, caps, ⟨0, rfl, rfl⟩, hb⟩
  | succ fuel ih =>
    intro here caps k b hb
    rcases prefer_eq_some hb with hmore | hless
    · obtain ⟨mid, mids, hway, hb'⟩ := h here caps _ b hmore
      split at hb'
      · cases hb'
      · obtain ⟨there, caps', ⟨m, hchain⟩, hk⟩ := ih mid mids k b hb'
        exact ⟨there, caps', ⟨m + 1, mid, mids, hway, hchain⟩, hk⟩
    · exact ⟨here, caps, ⟨0, rfl, rfl⟩, hless⟩

theorem oneOrMore (greedy : Bool) (fuel : Nat) :
    Follows (fun here caps there caps' => ∃ m, Chain way (m + 1) here caps there caps')
      (oneOrMore greedy body fuel) := by
  intro here caps k b hb
  obtain ⟨mid, mids, hway, hb'⟩ := h here caps _ b hb
  split at hb'
  · exact ⟨mid, mids, ⟨0, mid, mids, hway, rfl, rfl⟩, hb'⟩
  · obtain ⟨there, caps', ⟨m, hchain⟩, hk⟩ := h.further greedy fuel mid mids k b hb'
    exact ⟨there, caps', ⟨m, mid, mids, hway, hchain⟩, hk⟩

theorem anyNumber (greedy : Bool) (fuel : Nat) :
    Follows (fun here caps there caps' => ∃ m, Chain way m here caps there caps')
      (anyNumber greedy body fuel) := by
  intro here caps k b hb
  rcases prefer_eq_some hb with hmore | hless
  · obtain ⟨there, caps', ⟨m, hchain⟩, hk⟩ := h.oneOrMore greedy fuel here caps k b hmore
    exact ⟨there, caps', ⟨m + 1, hchain⟩, hk⟩
  · exact ⟨here, caps, ⟨0, rfl, rfl⟩, hless⟩

/-- **Bounded or not, repetitions only lead where their rounds do**, and never outside their bounds.
-/
theorem repeated (least : Nat) (most : Option Nat) (greedy : Bool) (fuel : Nat) :
    Follows (Rounds way least most) (repeated least most greedy body fuel) := by
  intro here caps k b hb
  cases most with
  | some most =>
    obtain ⟨mid, mids, hfront, hb'⟩ := h.exactly least here caps _ b hb
    obtain ⟨there, caps', ⟨m, hm, hback⟩, hk⟩ := h.atMost greedy (most - least) mid mids k b hb'
    refine ⟨there, caps', ⟨least + m, Nat.le_add_right least m, ?_, hfront.append hback⟩, hk⟩
    rintro _ ⟨⟩
    omega
  | none =>
    cases least with
    | zero =>
      obtain ⟨there, caps', ⟨m, hchain⟩, hk⟩ := h.anyNumber greedy fuel here caps k b hb
      exact ⟨there, caps', ⟨m, Nat.zero_le m, nofun, hchain⟩, hk⟩
    | succ n =>
      obtain ⟨mid, mids, hfront, hb'⟩ := h.exactly n here caps _ b hb
      obtain ⟨there, caps', ⟨m, hback⟩, hk⟩ := h.oneOrMore greedy fuel mid mids k b hb'
      exact ⟨there, caps', ⟨n + (m + 1), by omega, nofun, hfront.append hback⟩, hk⟩

end Follows

/-- **A search only goes where the expression passes.** -/
theorem follows_ways (fuel : Nat) (r : Regex) : Follows r.Passes (ways fuel r : Search β) := by
  induction r with
  | empty => exact fun here caps _ _ hb => ⟨here, caps, ⟨rfl, rfl⟩, hb⟩
  | set s =>
    intro here caps k b hb
    rw [ways] at hb
    split at hb
    · cases hb
    · next c rest hrest =>
      split at hb
      · next hc => exact ⟨_, caps, ⟨c, rest, hrest, hc, rfl, rfl⟩, hb⟩
      · cases hb
  | look l =>
    intro here caps k b hb
    rw [ways] at hb
    split at hb
    · next hl => exact ⟨here, caps, ⟨hl, rfl, rfl⟩, hb⟩
    · cases hb
  | seq a b iha ihb =>
    intro here caps k x hx
    obtain ⟨mid, mids, ha, hx'⟩ := iha here caps _ x hx
    obtain ⟨there, caps', hb, hk⟩ := ihb mid mids k x hx'
    exact ⟨there, caps', ⟨mid, mids, ha, hb⟩, hk⟩
  | alt a b iha ihb =>
    intro here caps k x hx
    rcases orElse_eq_some hx with hx | hx
    · obtain ⟨there, caps', ha, hk⟩ := iha here caps k x hx
      exact ⟨there, caps', .inl ha, hk⟩
    · obtain ⟨there, caps', hb, hk⟩ := ihb here caps k x hx
      exact ⟨there, caps', .inr hb, hk⟩
  | group i a ih =>
    intro here caps k x hx
    obtain ⟨there, inner, ha, hk⟩ := ih here caps _ x hx
    exact ⟨there, _, ⟨inner, ha, rfl⟩, hk⟩
  | rounds least most greedy a ih => exact ih.repeated least most greedy fuel

/-! ## If the expression passes, the search goes on -/

/-- Every match takes a character. -/
def takesSome : Regex → Bool
  | empty | look _ => false
  | set _ => true
  | seq a b => a.takesSome || b.takesSome
  | alt a b => a.takesSome && b.takesSome
  | group _ a => a.takesSome
  | rounds least _ _ a => 0 < least && a.takesSome

/-- Every round of a repetition takes a character. -/
def advances : Regex → Bool
  | empty | set _ | look _ => true
  | seq a b | alt a b => a.advances && b.advances
  | group _ a => a.advances
  | rounds _ _ _ a => a.takesSome && a.advances

/-- Not back, and the characters between the two places are gone. -/
structure Onward (here there : Cursor) : Prop where
  le : here.pos ≤ there.pos
  sum : there.pos + there.rest.length = here.pos + here.rest.length

theorem Onward.refl (here : Cursor) : Onward here here := ⟨Nat.le_refl _, rfl⟩

theorem Onward.trans {here mid there : Cursor} (h : Onward here mid) (h' : Onward mid there) :
    Onward here there := ⟨Nat.le_trans h.le h'.le, h'.sum.trans h.sum⟩

/-- Going onward in each round is going onward. -/
theorem Chain.onward {way : Way} (hway : ∀ {here caps there caps'}, way here caps there caps' →
    Onward here there) {n : Nat} {here there : Cursor} {caps caps' : Captures}
    (h : Chain way n here caps there caps') : Onward here there := by
  induction n generalizing here caps with
  | zero =>
    obtain ⟨rfl, -⟩ := h
    exact .refl _
  | succ n ih =>
    obtain ⟨mid, mids, hhead, hchain⟩ := h
    exact (hway hhead).trans (ih hchain)

/-- **No expression goes back**, and the characters it passes are the ones that are gone. -/
theorem Passes.onward {r : Regex} {here there : Cursor} {caps caps' : Captures}
    (h : r.Passes here caps there caps') : Onward here there := by
  induction r generalizing here there caps caps' with
  | empty =>
    obtain ⟨rfl, -⟩ := h
    exact .refl _
  | set s =>
    obtain ⟨c, rest, hrest, -, rfl, -⟩ := h
    refine ⟨Nat.le_succ _, ?_⟩
    simp only [Cursor.past, hrest, List.length_cons]
    omega
  | look l =>
    obtain ⟨-, rfl, -⟩ := h
    exact .refl _
  | seq a b iha ihb =>
    obtain ⟨mid, mids, ha, hb⟩ := h
    exact (iha ha).trans (ihb hb)
  | alt a b iha ihb => exact h.elim iha ihb
  | group i a ih =>
    obtain ⟨inner, ha, -⟩ := h
    exact ih ha
  | rounds least most greedy a ih =>
    obtain ⟨n, -, -, hchain⟩ := h
    exact hchain.onward ih

/-- Every span ends where it begins or behind that, and not behind a place. -/
def InFront (caps : Captures) (pos : Nat) : Prop :=
  ∀ i start stop, (i, start, stop) ∈ caps → start ≤ stop ∧ stop ≤ pos

/-- A span in front of a place is in front of the places behind it. -/
theorem InFront.mono {caps : Captures} {pos pos' : Nat} (h : InFront caps pos) (hle : pos ≤ pos') :
    InFront caps pos' := fun i start stop hmem =>
  ⟨(h i start stop hmem).1, Nat.le_trans (h i start stop hmem).2 hle⟩

/-- Rounds keep spans in front if each of them does. -/
theorem Chain.inFront {way : Way} (hway : ∀ {here caps there caps'}, way here caps there caps' →
    InFront caps here.pos → InFront caps' there.pos) {n : Nat} {here there : Cursor}
    {caps caps' : Captures} (h : Chain way n here caps there caps') (hcaps : InFront caps here.pos) :
    InFront caps' there.pos := by
  induction n generalizing here caps with
  | zero =>
    obtain ⟨rfl, rfl⟩ := h
    exact hcaps
  | succ n ih =>
    obtain ⟨mid, mids, hhead, hchain⟩ := h
    exact ih hchain (hway hhead hcaps)

/-- **What the groups span lies on the way.** -/
theorem Passes.inFront {r : Regex} {here there : Cursor} {caps caps' : Captures}
    (h : r.Passes here caps there caps') (hcaps : InFront caps here.pos) :
    InFront caps' there.pos := by
  induction r generalizing here there caps caps' with
  | empty =>
    obtain ⟨rfl, rfl⟩ := h
    exact hcaps
  | set s =>
    obtain ⟨c, rest, -, -, rfl, rfl⟩ := h
    exact hcaps.mono (Nat.le_succ _)
  | look l =>
    obtain ⟨-, rfl, rfl⟩ := h
    exact hcaps
  | seq a b iha ihb =>
    obtain ⟨mid, mids, ha, hb⟩ := h
    exact ihb hb (iha ha hcaps)
  | alt a b iha ihb => exact h.elim (iha · hcaps) (ihb · hcaps)
  | group i a ih =>
    obtain ⟨inner, ha, rfl⟩ := h
    intro j start stop hmem
    rcases List.mem_cons.mp hmem with heq | hmem
    · cases heq
      exact ⟨ha.onward.le, Nat.le_refl _⟩
    · exact ih ha hcaps j start stop hmem
  | rounds least most greedy a ih =>
    obtain ⟨n, -, -, hchain⟩ := h
    exact hchain.inFront ih hcaps

/-- An expression that takes a character gets on, which is what bounds the rounds of a repetition.
-/
theorem Passes.lt {r : Regex} (hr : r.takesSome = true) {here there : Cursor}
    {caps caps' : Captures} (h : r.Passes here caps there caps') : here.pos < there.pos := by
  induction r generalizing here there caps caps' with
  | empty | look l => cases hr
  | set s =>
    obtain ⟨c, rest, -, -, rfl, -⟩ := h
    exact Nat.lt_succ_self _
  | seq a b iha ihb =>
    obtain ⟨mid, mids, ha, hb⟩ := h
    rcases Bool.or_eq_true_iff.mp hr with hr | hr
    · exact Nat.lt_of_lt_of_le (iha hr ha) hb.onward.le
    · exact Nat.lt_of_le_of_lt ha.onward.le (ihb hr hb)
  | alt a b iha ihb =>
    obtain ⟨hra, hrb⟩ := Bool.and_eq_true_iff.mp hr
    exact h.elim (iha hra) (ihb hrb)
  | group i a ih =>
    obtain ⟨inner, ha, -⟩ := h
    exact ih hr ha
  | rounds least most greedy a ih =>
    obtain ⟨hleast, ha⟩ := Bool.and_eq_true_iff.mp hr
    obtain ⟨n, hn, -, hchain⟩ := h
    obtain ⟨n, rfl⟩ : ∃ m, n = m + 1 :=
      Nat.exists_eq_add_one_of_ne_zero (by have := of_decide_eq_true hleast; omega)
    obtain ⟨mid, mids, hhead, hchain⟩ := hchain
    exact Nat.lt_of_lt_of_le (ih ha hhead) (hchain.onward Passes.onward).le

/-- For whether there is an answer, it does not matter which attempt comes first. -/
theorem isSome_orElse {first : Option β} {second : Unit → Option β} :
    (orElse first second).isSome ↔ first.isSome ∨ (second ()).isSome := by
  cases first <;> simp [orElse]

/-- So greed changes which answer is found, and not whether one is. -/
theorem isSome_prefer {greedy : Bool} {more less : Unit → Option β} :
    (prefer greedy more less).isSome ↔ (more ()).isSome ∨ (less ()).isSome := by
  cases greedy with
  | true => exact isSome_orElse
  | false => exact isSome_orElse.trans or_comm

/-- A search that goes on if there is a way to go on, with `fuel` characters left or fewer. -/
def Finds (fuel : Nat) (way : Way) (search : Search β) : Prop :=
  ∀ here caps k there caps', here.rest.length ≤ fuel → way here caps there caps' →
    (k there caps').isSome → (search here caps k).isSome

namespace Finds

variable {fuel : Nat} {way : Way} {body : Search β} (h : Finds fuel way body)
  (honward : ∀ {here caps there caps'}, way here caps there caps' → Onward here there)

include h honward

/-- Each round leaves no more characters than there were, so the fuel lasts. -/
theorem exactly (n : Nat) : Finds fuel (Chain way n) (exactly body n) := by
  induction n with
  | zero =>
    rintro here caps k there caps' - ⟨rfl, rfl⟩ hk
    exact hk
  | succ n ih =>
    rintro here caps k there caps' hfuel ⟨mid, mids, hhead, hchain⟩ hk
    have hle := (honward hhead).le
    have hsum := (honward hhead).sum
    exact h here caps _ mid mids hfuel hhead (ih mid mids k there caps' (by omega) hchain hk)

/-- The search gives up a round only if it cannot go on behind it. -/
theorem atMost (greedy : Bool) (n : Nat) :
    Finds fuel (fun here caps there caps' => ∃ m ≤ n, Chain way m here caps there caps')
      (atMost greedy body n) := by
  induction n with
  | zero =>
    rintro here caps k there caps' - ⟨m, hm, hchain⟩ hk
    obtain rfl : m = 0 := Nat.le_zero.mp hm
    obtain ⟨rfl, rfl⟩ := hchain
    exact hk
  | succ n ih =>
    rintro here caps k there caps' hfuel ⟨m, hm, hchain⟩ hk
    rw [Regex.atMost, isSome_prefer]
    cases m with
    | zero =>
      obtain ⟨rfl, rfl⟩ := hchain
      exact .inr hk
    | succ m =>
      obtain ⟨mid, mids, hhead, hchain⟩ := hchain
      have hle := (honward hhead).le
      have hsum := (honward hhead).sum
      exact .inl (h here caps _ mid mids hfuel hhead
        (ih mid mids k there caps' (by omega) ⟨m, Nat.le_of_succ_le_succ hm, hchain⟩ hk))

variable (hlt : ∀ {here caps there caps'}, way here caps there caps' → here.pos < there.pos)

include hlt

/-- Each round takes a character, so there are no more rounds than characters. -/
theorem further (greedy : Bool) {n rounds : Nat} {here there : Cursor} {caps caps' : Captures}
    {k : Cursor → Captures → Option β} (hfuel : here.rest.length ≤ fuel)
    (hrounds : here.rest.length ≤ rounds) (hchain : Chain way n here caps there caps')
    (hk : (k there caps').isSome) : (further greedy body rounds here caps k).isSome := by
  induction rounds generalizing n here caps with
  | zero =>
    cases n with
    | zero =>
      obtain ⟨rfl, rfl⟩ := hchain
      exact hk
    | succ n =>
      obtain ⟨mid, mids, hhead, -⟩ := hchain
      have := hlt hhead
      have := (honward hhead).sum
      omega
  | succ rounds ih =>
    rw [Regex.further, isSome_prefer]
    cases n with
    | zero =>
      obtain ⟨rfl, rfl⟩ := hchain
      exact .inr hk
    | succ n =>
      obtain ⟨mid, mids, hhead, hchain⟩ := hchain
      have hpos := hlt hhead
      have hsum := (honward hhead).sum
      refine .inl (h here caps _ mid mids hfuel hhead ?_)
      rw [if_neg (by omega)]
      exact ih (by omega) (by omega) hchain

theorem oneOrMore (greedy : Bool) :
    Finds fuel (fun here caps there caps' => ∃ m, Chain way (m + 1) here caps there caps')
      (oneOrMore greedy body fuel) := by
  rintro here caps k there caps' hfuel ⟨m, mid, mids, hhead, hchain⟩ hk
  have hpos := hlt hhead
  have hsum := (honward hhead).sum
  refine h here caps _ mid mids hfuel hhead ?_
  rw [if_neg (by omega)]
  exact h.further honward hlt greedy (by omega) (by omega) hchain hk

theorem anyNumber (greedy : Bool) :
    Finds fuel (fun here caps there caps' => ∃ m, Chain way m here caps there caps')
      (anyNumber greedy body fuel) := by
  rintro here caps k there caps' hfuel ⟨m, hchain⟩ hk
  rw [Regex.anyNumber, isSome_prefer]
  cases m with
  | zero =>
    obtain ⟨rfl, rfl⟩ := hchain
    exact .inr hk
  | succ m =>
    exact .inl (h.oneOrMore honward hlt greedy here caps k there caps' hfuel ⟨m, hchain⟩ hk)

/-- **A repetition goes on if some number of rounds within its bounds does.** Without an upper
bound, this needs rounds that take a character each. -/
theorem repeated (least : Nat) (most : Option Nat) (greedy : Bool) :
    Finds fuel (Rounds way least most) (repeated least most greedy body fuel) := by
  rintro here caps k there caps' hfuel ⟨n, hn, hmost, hchain⟩ hk
  -- the rounds that there have to be, then the others
  have hleft : ∀ {m mid mids}, Chain way m here caps mid mids → mid.rest.length ≤ fuel := by
    intro m mid mids hfront
    have hle := (hfront.onward honward).le
    have hsum := (hfront.onward honward).sum
    omega
  cases most with
  | some most =>
    obtain ⟨d, rfl⟩ := Nat.exists_eq_add_of_le hn
    obtain ⟨mid, mids, hfront, hback⟩ := hchain.split
    have hd := hmost most rfl
    exact h.exactly honward least here caps _ mid mids hfuel hfront
      (h.atMost honward greedy _ mid mids k there caps' (hleft hfront)
        ⟨d, by omega, hback⟩ hk)
  | none =>
    cases least with
    | zero => exact h.anyNumber honward hlt greedy here caps k there caps' hfuel ⟨n, hchain⟩ hk
    | succ least =>
      obtain ⟨d, rfl⟩ := Nat.exists_eq_add_of_le hn
      rw [Nat.add_right_comm, Nat.add_assoc] at hchain
      obtain ⟨mid, mids, hfront, hback⟩ := hchain.split
      exact h.exactly honward least here caps _ mid mids hfuel hfront
        (h.oneOrMore honward hlt greedy mid mids k there caps' (hleft hfront)
          ⟨d, hback⟩ hk)

end Finds

/-- **If the expression passes, the search goes on.** -/
theorem finds_ways (fuel : Nat) {r : Regex} (hr : r.advances = true) :
    Finds fuel r.Passes (ways fuel r : Search β) := by
  induction r with
  | empty =>
    rintro here caps k there caps' - ⟨rfl, rfl⟩ hk
    exact hk
  | set s =>
    rintro here caps k there caps' - ⟨c, rest, hrest, hc, rfl, rfl⟩ hk
    simp only [ways, hrest, hc]
    exact hk
  | look l =>
    rintro here caps k there caps' - ⟨hl, rfl, rfl⟩ hk
    rw [ways, if_pos hl]
    exact hk
  | seq a b iha ihb =>
    obtain ⟨hra, hrb⟩ := Bool.and_eq_true_iff.mp hr
    rintro here caps k there caps' hfuel ⟨mid, mids, ha, hb⟩ hk
    have hle := ha.onward.le
    have hsum := ha.onward.sum
    exact iha hra here caps _ mid mids hfuel ha
      (ihb hrb mid mids k there caps' (by omega) hb hk)
  | alt a b iha ihb =>
    obtain ⟨hra, hrb⟩ := Bool.and_eq_true_iff.mp hr
    rintro here caps k there caps' hfuel hab hk
    rw [ways, isSome_orElse]
    exact hab.imp (fun ha => iha hra here caps k there caps' hfuel ha hk)
      fun hb => ihb hrb here caps k there caps' hfuel hb hk
  | group i a ih =>
    rintro here caps k there caps' hfuel ⟨inner, ha, rfl⟩ hk
    exact ih hr here caps _ there inner hfuel ha hk
  | rounds least most greedy a ih =>
    obtain ⟨htakes, hra⟩ := Bool.and_eq_true_iff.mp hr
    exact (ih hra).repeated Passes.onward (Passes.lt htakes) least most greedy

/-! ## Expressions in a row -/

section Row

variable {rs : List Regex} {s : CharSet} {here there : Cursor} {caps caps' : Captures}
  {before : Option Char} {pos : Nat} {rest : List Char}

/-- A row is its first expression and the others behind it, also if there are no others. -/
theorem passes_seqs_cons {r : Regex} :
    (seqs (r :: rs)).Passes here caps there caps' ↔
      ∃ mid mids, r.Passes here caps mid mids ∧ (seqs rs).Passes mid mids there caps' := by
  cases rs with
  | nil =>
    constructor
    · exact fun h => ⟨there, caps', h, rfl, rfl⟩
    · rintro ⟨mid, mids, h, rfl, rfl⟩
      exact h
  | cons r' rs => exact Iff.rfl

/-- The characters of a text pass that text alone. -/
theorem passes_letters {t : List Char} :
    (seqs (letters t ++ rs)).Passes ⟨before, pos, rest⟩ caps there caps' ↔
      ∃ y, rest = t ++ y ∧
        (seqs rs).Passes ⟨t.getLast?.or before, pos + t.length, y⟩ caps there caps' := by
  induction t generalizing before pos rest with
  | nil => simp [letters]
  | cons c t ih =>
    have hletters : letters (c :: t) ++ rs = .set (.only c) :: (letters t ++ rs) := rfl
    simp only [hletters, passes_seqs_cons, Cursor.behind_cons]
    constructor
    · rintro ⟨_, _, ⟨d, rest', rfl, hd, rfl, rfl⟩, hpasses⟩
      obtain rfl : d = c := by simpa [CharSet.mem] using hd
      obtain ⟨y, rfl, hpasses⟩ := ih.mp hpasses
      exact ⟨y, rfl, hpasses⟩
    · rintro ⟨y, rfl, hpasses⟩
      exact ⟨_, caps, ⟨c, t ++ y, rfl, by simp [CharSet.mem], rfl, rfl⟩, ih.mpr ⟨y, rfl, hpasses⟩⟩

/-- An assertion is a condition on where the others begin, and passes nothing. -/
theorem passes_look {l : Look} :
    (seqs (look l :: rs)).Passes here caps there caps' ↔
      l.holds here = true ∧ (seqs rs).Passes here caps there caps' := by
  rw [passes_seqs_cons]
  constructor
  · rintro ⟨_, _, ⟨hl, rfl, rfl⟩, h⟩
    exact ⟨hl, h⟩
  · rintro ⟨hl, h⟩
    exact ⟨here, caps, ⟨hl, rfl, rfl⟩, h⟩

end Row

/-! ## Texts of a kind -/

/-- An expression reads the texts of a kind: wherever it stands, it passes just those, and it closes
no group. -/
structure Reads (r : Regex) (kind : List Char → Prop) : Prop where
  passes_iff : ∀ {before : Option Char} {pos : Nat} {rest : List Char} {caps : Captures}
    {there : Cursor} {caps' : Captures}, r.Passes ⟨before, pos, rest⟩ caps there caps' ↔
      ∃ x y, rest = x ++ y ∧ kind x ∧ there = ⟨x.getLast?.or before, pos + x.length, y⟩ ∧
        caps' = caps

section Reads

variable {r : Regex} {rs : List Regex} {kind kind' : List Char → Prop} {s : CharSet}
  {there : Cursor} {caps caps' : Captures} {before : Option Char} {pos : Nat} {rest : List Char}

theorem Reads.congr (h : Reads r kind) (hkind : ∀ x, kind x ↔ kind' x) : Reads r kind' := by
  obtain rfl : kind = kind' := funext fun x => propext (hkind x)
  exact h

/-- Characters in a row read just the text they spell. -/
theorem reads_letters (t : List Char) : Reads (seqs (letters t)) (· = t) := by
  refine ⟨fun {before pos rest caps there caps'} => ?_⟩
  have hnil : letters t = letters t ++ [] := (List.append_nil _).symm
  rw [hnil, passes_letters]
  constructor
  · rintro ⟨y, rfl, rfl, rfl⟩
    exact ⟨t, y, rfl, rfl, rfl, rfl⟩
  · rintro ⟨_, y, rfl, rfl, rfl, rfl⟩
    exact ⟨y, rfl, rfl, rfl⟩

/-- Rounds over a set take a character each, so their number is the length of the text. -/
theorem reads_chain (s : CharSet) (n : Nat) {before : Option Char} {pos : Nat} {rest : List Char} :
    Chain (set s).Passes n ⟨before, pos, rest⟩ caps there caps' ↔
      ∃ x y, rest = x ++ y ∧ (x.length = n ∧ ∀ c ∈ x, s.mem c = true) ∧
        there = ⟨x.getLast?.or before, pos + x.length, y⟩ ∧ caps' = caps := by
  induction n generalizing before pos rest with
  | zero =>
    constructor
    · rintro ⟨rfl, rfl⟩
      exact ⟨[], rest, rfl, ⟨rfl, List.forall_mem_nil _⟩, rfl, rfl⟩
    · rintro ⟨x, y, rfl, ⟨hx, -⟩, rfl, rfl⟩
      obtain rfl := List.length_eq_zero_iff.mp hx
      exact ⟨rfl, rfl⟩
  | succ n ih =>
    constructor
    · rintro ⟨_, _, ⟨c, rest', rfl, hc, rfl, rfl⟩, hchain⟩
      obtain ⟨x, y, rfl, ⟨hx, hmem⟩, rfl, rfl⟩ := ih.mp hchain
      exact ⟨c :: x, y, rfl, ⟨by rw [List.length_cons, hx], List.forall_mem_cons.mpr ⟨hc, hmem⟩⟩,
        (Cursor.behind_cons ..).symm, rfl⟩
    · rintro ⟨x, y, rfl, ⟨hx, hmem⟩, rfl, rfl⟩
      obtain ⟨c, x, rfl⟩ := List.exists_cons_of_length_eq_add_one hx
      obtain ⟨hc, hmem⟩ := List.forall_mem_cons.mp hmem
      exact ⟨_, caps', ⟨c, x ++ y, rfl, hc, rfl, rfl⟩,
        ih.mpr ⟨x, y, rfl, ⟨Nat.succ.inj hx, hmem⟩, Cursor.behind_cons .., rfl⟩⟩

/-- Rounds over a set read any text of its characters. -/
theorem reads_run (least : Nat) (greedy : Bool) (s : CharSet) :
    Reads (rounds least none greedy (set s))
      fun x => least ≤ x.length ∧ ∀ c ∈ x, s.mem c = true := by
  refine ⟨fun {before pos rest caps there caps'} => ?_⟩
  constructor
  · rintro ⟨n, hn, -, hchain⟩
    obtain ⟨x, y, hrest, ⟨rfl, hmem⟩, h⟩ := (reads_chain s n).mp hchain
    exact ⟨x, y, hrest, ⟨hn, hmem⟩, h⟩
  · rintro ⟨x, y, hrest, ⟨hn, hmem⟩, h⟩
    exact ⟨x.length, hn, nofun, (reads_chain s x.length).mpr ⟨x, y, hrest, ⟨rfl, hmem⟩, h⟩⟩

/-- An optional expression may be left out. -/
theorem passes_optional {r : Regex} {greedy : Bool} {here : Cursor} :
    (rounds 0 (some 1) greedy r).Passes here caps there caps' ↔
      (there = here ∧ caps' = caps) ∨ r.Passes here caps there caps' := by
  constructor
  · rintro ⟨n, -, hn, hchain⟩
    have hn : n ≤ 1 := hn 1 rfl
    rcases Nat.le_one_iff_eq_zero_or_eq_one.mp hn with rfl | rfl
    · exact .inl hchain
    · obtain ⟨mid, mids, h, rfl, rfl⟩ := hchain
      exact .inr h
  · rintro (h | h)
    · exact ⟨0, Nat.le_refl 0, fun m _ => Nat.zero_le _, h⟩
    · refine ⟨1, Nat.zero_le 1, ?_, there, caps', h, rfl, rfl⟩
      rintro m ⟨⟩
      exact Nat.le_refl 1

/-- What may be left out reads the empty text too. -/
theorem Reads.optional (h : Reads r kind) (greedy : Bool) :
    Reads (rounds 0 (some 1) greedy r) fun x => x = [] ∨ kind x := by
  refine ⟨fun {before pos rest caps there caps'} => ?_⟩
  rw [passes_optional, h.passes_iff]
  constructor
  · rintro (⟨rfl, rfl⟩ | ⟨x, y, hrest, hx, hthere⟩)
    · exact ⟨[], rest, rfl, .inl rfl, rfl, rfl⟩
    · exact ⟨x, y, hrest, .inr hx, hthere⟩
  · rintro ⟨x, y, rfl, rfl | hx, hthere⟩
    · exact .inl hthere
    · exact .inr ⟨x, y, rfl, hx, hthere⟩

/-- In a row, the first expression passes a text of its kind, and the others go on behind it. -/
theorem Reads.passes (h : Reads r kind) :
    (seqs (r :: rs)).Passes ⟨before, pos, rest⟩ caps there caps' ↔
      ∃ x y, rest = x ++ y ∧ kind x ∧
        (seqs rs).Passes ⟨x.getLast?.or before, pos + x.length, y⟩ caps there caps' := by
  rw [passes_seqs_cons]
  constructor
  · rintro ⟨_, _, hr, hpasses⟩
    obtain ⟨x, y, hrest, hx, rfl, rfl⟩ := h.passes_iff.mp hr
    exact ⟨x, y, hrest, hx, hpasses⟩
  · rintro ⟨x, y, hrest, hx, hpasses⟩
    exact ⟨_, caps, h.passes_iff.mpr ⟨x, y, hrest, hx, rfl, rfl⟩, hpasses⟩

/-- Two expressions in a row read a text of the first kind and then one of the second: the kinds are
put together as the expressions are. -/
theorem Reads.seqs (h : Reads r kind) (h' : Reads (seqs rs) kind') :
    Reads (Regex.seqs (r :: rs)) fun x => ∃ a b, x = a ++ b ∧ kind a ∧ kind' b := by
  refine ⟨fun {before pos rest caps there caps'} => ?_⟩
  rw [h.passes]
  constructor
  · rintro ⟨a, _, rfl, ha, hpasses⟩
    obtain ⟨b, y, rfl, hb, rfl, rfl⟩ := h'.passes_iff.mp hpasses
    exact ⟨a ++ b, y, (List.append_assoc ..).symm, ⟨a, b, rfl, ha, hb⟩,
      Cursor.behind_append .., rfl⟩
  · rintro ⟨_, y, rfl, ⟨a, b, rfl, ha, hb⟩, rfl, rfl⟩
    exact ⟨a, b ++ y, List.append_assoc .., ha,
      h'.passes_iff.mpr ⟨b, y, rfl, hb, (Cursor.behind_append ..).symm, rfl⟩⟩

/-- A fixed text in front stays in front. -/
theorem reads_letters_append (h : Reads (Regex.seqs rs) kind) (t : List Char) :
    Reads (Regex.seqs (letters t ++ rs)) fun x => ∃ b, x = t ++ b ∧ kind b := by
  refine ⟨fun {before pos rest caps there caps'} => ?_⟩
  rw [passes_letters]
  constructor
  · rintro ⟨_, rfl, hpasses⟩
    obtain ⟨b, y, rfl, hb, rfl, rfl⟩ := h.passes_iff.mp hpasses
    exact ⟨t ++ b, y, (List.append_assoc ..).symm, ⟨b, rfl, hb⟩, Cursor.behind_append .., rfl⟩
  · rintro ⟨_, y, rfl, ⟨b, rfl, hb⟩, rfl, rfl⟩
    exact ⟨b ++ y, List.append_assoc ..,
      h.passes_iff.mpr ⟨b, y, rfl, hb, (Cursor.behind_append ..).symm, rfl⟩⟩

/-- A group spans a text of its kind. -/
theorem Reads.passes_group (h : Reads r kind) {i : Nat} :
    (Regex.seqs (group i r :: rs)).Passes ⟨before, pos, rest⟩ caps there caps' ↔
      ∃ x y, rest = x ++ y ∧ kind x ∧ (Regex.seqs rs).Passes
        ⟨x.getLast?.or before, pos + x.length, y⟩ ((i, pos, pos + x.length) :: caps)
        there caps' := by
  rw [passes_seqs_cons]
  constructor
  · rintro ⟨_, _, ⟨_, hr, rfl⟩, hpasses⟩
    obtain ⟨x, y, hrest, hx, rfl, rfl⟩ := h.passes_iff.mp hr
    exact ⟨x, y, hrest, hx, hpasses⟩
  · rintro ⟨x, y, hrest, hx, hpasses⟩
    exact ⟨_, _, ⟨caps, h.passes_iff.mpr ⟨x, y, hrest, hx, rfl, rfl⟩, rfl⟩, hpasses⟩

/-- An optional group spans one, or takes no part. -/
theorem Reads.passes_optional_group (h : Reads r kind) {i : Nat} {greedy : Bool} :
    (Regex.seqs (rounds 0 (some 1) greedy (group i r) :: rs)).Passes
        ⟨before, pos, rest⟩ caps there caps' ↔
      ∃ x y spans, rest = x ++ y ∧
        (x = [] ∧ spans = [] ∨ kind x ∧ spans = [(i, pos, pos + x.length)]) ∧
        (Regex.seqs rs).Passes ⟨x.getLast?.or before, pos + x.length, y⟩ (spans ++ caps) there
          caps' := by
  rw [passes_seqs_cons]
  simp only [passes_optional]
  constructor
  · rintro ⟨_, _, ⟨rfl, rfl⟩ | ⟨_, hr, rfl⟩, hpasses⟩
    · exact ⟨[], rest, [], rfl, .inl ⟨rfl, rfl⟩, hpasses⟩
    · obtain ⟨x, y, hrest, hx, rfl, rfl⟩ := h.passes_iff.mp hr
      exact ⟨x, y, _, hrest, .inr ⟨hx, rfl⟩, hpasses⟩
  · rintro ⟨x, y, spans, rfl, ⟨rfl, rfl⟩ | ⟨hx, rfl⟩, hpasses⟩
    · exact ⟨_, _, .inl ⟨rfl, rfl⟩, hpasses⟩
    · exact ⟨_, _, .inr ⟨caps, h.passes_iff.mpr ⟨x, y, rfl, hx, rfl, rfl⟩, rfl⟩, hpasses⟩

end Reads

end Regex

namespace Pattern

open Regex

variable {p : Pattern} {fuel : Nat} {here there : Cursor} {m : Found}

/-- A match ends where the expression passes to. -/
theorem exists_passes_of_matchAt? (h : p.matchAt? fuel here = some m) :
    ∃ there caps, p.regex.Passes here [] there caps ∧ m = ⟨here.pos, there.pos, caps⟩ := by
  obtain ⟨there, caps, hpasses, hm⟩ := follows_ways fuel p.regex here [] _ m h
  exact ⟨there, caps, hpasses, (Option.some.inj hm).symm⟩

/-- **Where a pattern is found, its groups span parts of the text.** -/
theorem group?_within {s : List Char} {i start stop : Nat} (h : p.find? s = some m)
    (hgroup : m.group? i = some (start, stop)) : start ≤ stop ∧ stop ≤ s.length := by
  obtain ⟨k, hmatch, -⟩ := findFrom?_eq_some_iff.mp h
  have hwithin := within_of_matchAt? hmatch
  obtain ⟨there, caps, hpasses, rfl⟩ := exists_passes_of_matchAt? hmatch
  rw [Found.group?, Option.map_eq_some_iff] at hgroup
  obtain ⟨⟨j, span⟩, hfind, rfl⟩ := hgroup
  have hfront := hpasses.inFront nofun j start stop (List.mem_of_find?_eq_some hfind)
  exact ⟨hfront.1, Nat.le_trans hfront.2 hwithin.2⟩

/-- Without a match at any place nothing is listed. -/
theorem findAllFrom_eq_nil (h : ∀ j, p.matchAt? fuel (here.advance j) = none)
    (lastStop : Option Nat) (steps : Nat) : p.findAllFrom fuel lastStop steps here = [] := by
  refine List.eq_nil_iff_forall_not_mem.mpr fun m hm => ?_
  obtain ⟨j, hmatch⟩ := matchAt?_of_mem_findAllFrom hm
  rw [h j] at hmatch
  cases hmatch

/-- Where the expression passes, there is a match. -/
theorem isSome_matchAt? (hp : p.regex.advances = true) (hfuel : here.rest.length ≤ fuel)
    {caps : Captures} (h : p.regex.Passes here [] there caps) :
    (p.matchAt? fuel here).isSome :=
  finds_ways fuel hp here [] _ there caps hfuel h rfl

/-! ## All matches -/

section All

variable (hp : p.regex.takesSome = true)

include hp

/-- A match begins where it was looked for, and takes a character at least. -/
theorem lt_of_matchAt? (h : p.matchAt? fuel here = some m) :
    m.start = here.pos ∧ here.pos < m.stop := by
  obtain ⟨there, caps, hpasses, rfl⟩ := exists_passes_of_matchAt? h
  exact ⟨rfl, hpasses.lt hp⟩

/-- A match at the place where a search begins is listed, and the search goes on behind it. -/
theorem findAllFrom_cons (hm : p.matchAt? fuel here = some m) (lastStop : Option Nat)
    (steps : Nat) : p.findAllFrom fuel lastStop (steps + 1) here =
      m :: p.findAllFrom fuel (some m.stop) steps (here.advance (m.stop - here.pos)) := by
  obtain ⟨hstart, hstop⟩ := lt_of_matchAt? hp hm
  have hfind : p.findFrom? fuel here = some m := by
    refine findFrom?_eq_some_iff.mpr ⟨0, ?_, nofun⟩
    rwa [Cursor.advance_zero]
  have hne : (m.start = m.stop && lastStop = some m.stop : Bool) = false := by
    have : m.start ≠ m.stop := by omega
    simp [this]
  simp only [findAllFrom, hfind, hne]
  rfl

/-- **A place with a match is covered**: a match that is listed begins there or before it, and ends
behind it. -/
theorem exists_covering {k : Nat} (hk : k ≤ here.rest.length)
    (hm : (p.matchAt? fuel (here.advance k)).isSome) {lastStop : Option Nat} {steps : Nat}
    (hsteps : k < steps) :
    ∃ m ∈ p.findAllFrom fuel lastStop steps here, ∃ j ≤ k,
      p.matchAt? fuel (here.advance j) = some m ∧ here.pos + k < m.stop := by
  induction steps generalizing here k lastStop with
  | zero => omega
  | succ steps ih =>
    obtain ⟨m, hm⟩ := Option.isSome_iff_exists.mp hm
    obtain ⟨j, hj, m', hm', hfind⟩ := findFrom?_of_matchAt? hm
    obtain ⟨hstart, hstop⟩ := lt_of_matchAt? hp hm'
    have hpos : (here.advance j).pos = here.pos + j := by
      rw [Cursor.advance_eq (by omega)]
    have hne : (m'.start = m'.stop && lastStop = some m'.stop : Bool) = false := by
      have : m'.start ≠ m'.stop := by omega
      simp [this]
    simp only [findAllFrom, hfind, hne]
    rcases Nat.lt_or_ge (here.pos + k) m'.stop with hcovers | hbefore
    · exact ⟨m', List.mem_cons_self, j, hj, hm', hcovers⟩
    · -- the first match ends before the place; the search goes on behind it
      obtain ⟨d, hd⟩ : ∃ d, m'.stop = here.pos + d := Nat.exists_eq_add_of_le (by omega)
      have hadvance : here.advance d = ⟨_, here.pos + d, here.rest.drop d⟩ :=
        Cursor.advance_eq (by omega)
      have hbehind : (p.matchAt? fuel ((here.advance d).advance (k - d))).isSome := by
        rw [Cursor.advance_advance, Nat.add_sub_cancel' (by omega), hm]
        rfl
      rw [hd, Nat.add_sub_cancel_left]
      have hleft : k - d ≤ (here.advance d).rest.length := by
        rw [hadvance, List.length_drop]
        omega
      obtain ⟨m, hmem, i, hi, hmatch, hcovers⟩ := ih hleft hbehind (by omega)
      refine ⟨m, List.mem_cons_of_mem _ hmem, d + i, by omega, ?_, ?_⟩
      · rwa [Cursor.advance_advance] at hmatch
      · rw [hadvance] at hcovers
        dsimp only at hcovers
        omega

/-- The same for the matches in a text. -/
theorem exists_covering_findAll {s : List Char} {k : Nat} (hk : k ≤ s.length)
    (hm : (p.matchAt? s.length ((Cursor.start s).advance k)).isSome) :
    ∃ m ∈ p.findAll s, ∃ j ≤ k,
      p.matchAt? s.length ((Cursor.start s).advance j) = some m ∧ k < m.stop := by
  obtain ⟨m, hmem, j, hj, hmatch, hcovers⟩ :=
    @exists_covering p s.length (Cursor.start s) hp k hk hm none (2 * s.length + 2) (by omega)
  exact ⟨m, hmem, j, hj, hmatch, by simpa [Cursor.start] using hcovers⟩

/-- Places without a match may be passed over. -/
theorem findAllFrom_advance {n : Nat} (hn : n ≤ here.rest.length)
    (hnone : ∀ j < n, p.matchAt? fuel (here.advance j) = none) (lastStop : Option Nat)
    (steps : Nat) :
    p.findAllFrom fuel lastStop steps here =
      p.findAllFrom fuel lastStop steps (here.advance n) := by
  have hadvance : here.advance n = ⟨_, here.pos + n, here.rest.drop n⟩ := Cursor.advance_eq hn
  have hfind : p.findFrom? fuel here = p.findFrom? fuel (here.advance n) := by
    refine Option.ext fun m => ?_
    rw [findFrom?_eq_some_iff, findFrom?_eq_some_iff]
    constructor
    · rintro ⟨k, hk, hfirst⟩
      have hnk : n ≤ k := by
        refine Nat.le_of_not_lt fun hlt => ?_
        rw [hnone k hlt] at hk
        cases hk
      refine ⟨k - n, ?_, fun j hj => ?_⟩
      · rwa [Cursor.advance_advance, Nat.add_sub_cancel' hnk]
      · rw [Cursor.advance_advance]
        exact hfirst _ (by omega)
    · rintro ⟨k, hk, hfirst⟩
      rw [Cursor.advance_advance] at hk
      refine ⟨n + k, hk, fun j hj => ?_⟩
      rcases Nat.lt_or_ge j n with hlt | hge
      · exact hnone j hlt
      · have := hfirst (j - n) (by omega)
        rwa [Cursor.advance_advance, Nat.add_sub_cancel' hge] at this
  cases steps with
  | zero => rfl
  | succ steps =>
    rw [findAllFrom, findAllFrom, ← hfind]
    cases hm : p.findFrom? fuel here with
    | none => rfl
    | some m =>
      rw [hfind] at hm
      obtain ⟨k, hmatch, -⟩ := findFrom?_eq_some_iff.mp hm
      obtain ⟨hstart, hstop⟩ := lt_of_matchAt? hp hmatch
      have hle : here.pos + n ≤ ((here.advance n).advance k).pos := by
        refine Nat.le_trans (Nat.le_of_eq ?_) (Cursor.pos_le_advance _ k)
        rw [hadvance]
      have hne : (m.start = m.stop && lastStop = some m.stop : Bool) = false := by
        have : m.start ≠ m.stop := by omega
        simp [this]
      have hskip : n + (m.stop - (here.advance n).pos) = m.stop - here.pos := by
        rw [hadvance]
        dsimp only
        omega
      simp only [hne, Bool.false_eq_true, if_false]
      rw [Cursor.advance_advance, hskip]

end All

end Pattern

end CodeNav

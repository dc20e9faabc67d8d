import CodeNav.Proofs.Pattern.Literal

/-!
# What a group spans

A search tries many ways and keeps the spans of the groups of the way it is on. A search `Keeps`
a property of places and spans if **every answer comes from a continuation that was called where
the property holds**; repetitions keep what one round keeps, so this goes through any expression.

If a numbered group stands for the characters of a text, each for itself (`Regex.Spells`), then
it **spans exactly that text wherever the pattern is found** (`Pattern.slice_of_group?`), whatever
stands around the group.
-/

namespace CodeNav

namespace Regex

variable {β : Type}

/-! ## Properties that searches keep -/

/-- From a place with the property, the continuation is called at places with the property. -/
def Keeps (P : Cursor → Captures → Prop) (search : Search β) : Prop :=
  ∀ here caps k b, P here caps → search here caps k = some b →
    ∃ there caps', P there caps' ∧ k there caps' = some b

/-- An answer is from one of the attempts. -/
theorem orElse_eq_some {first : Option β} {second : Unit → Option β} {b : β}
    (h : orElse first second = some b) : first = some b ∨ second () = some b := by
  cases first with
  | none => exact .inr h
  | some a => exact .inl h

/-- In whichever order they are made. -/
theorem prefer_eq_some {greedy : Bool} {more less : Unit → Option β} {b : β}
    (h : prefer greedy more less = some b) : more () = some b ∨ less () = some b := by
  cases greedy with
  | true => exact orElse_eq_some h
  | false => exact (orElse_eq_some h).symm

namespace Keeps

variable {P : Cursor → Captures → Prop} {body : Search β} (h : Keeps P body)

include h

/-- What each round keeps, a fixed number of them does. -/
theorem exactly (n : Nat) : Keeps P (exactly body n) := by
  induction n with
  | zero => exact fun here caps _ _ hP hb => ⟨here, caps, hP, hb⟩
  | succ n ih =>
    intro here caps k b hP hb
    obtain ⟨there, caps', hP', hb'⟩ := h here caps _ b hP hb
    exact ih there caps' k b hP' hb'

theorem atMost (greedy : Bool) (n : Nat) : Keeps P (atMost greedy body n) := by
  induction n with
  | zero => exact fun here caps _ _ hP hb => ⟨here, caps, hP, hb⟩
  | succ n ih =>
    intro here caps k b hP hb
    rcases prefer_eq_some hb with hmore | hless
    · obtain ⟨there, caps', hP', hb'⟩ := h here caps _ b hP hmore
      exact ih there caps' k b hP' hb'
    · exact ⟨here, caps, hP, hless⟩

/-- So does any number of them: running out of rounds to try adds nothing. -/
theorem further (greedy : Bool) (fuel : Nat) : Keeps P (further greedy body fuel) := by
  induction fuel with
  | zero => exact fun here caps _ _ hP hb => ⟨here, caps, hP, hb⟩
  | succ fuel ih =>
    intro here caps k b hP hb
    rcases prefer_eq_some hb with hmore | hless
    · obtain ⟨there, caps', hP', hb'⟩ := h here caps _ b hP hmore
      split at hb'
      · cases hb'
      · exact ih there caps' k b hP' hb'
    · exact ⟨here, caps, hP, hless⟩

theorem oneOrMore (greedy : Bool) (fuel : Nat) : Keeps P (oneOrMore greedy body fuel) := by
  intro here caps k b hP hb
  obtain ⟨there, caps', hP', hb'⟩ := h here caps _ b hP hb
  split at hb'
  · exact ⟨there, caps', hP', hb'⟩
  · exact h.further greedy fuel there caps' k b hP' hb'

theorem anyNumber (greedy : Bool) (fuel : Nat) : Keeps P (anyNumber greedy body fuel) := by
  intro here caps k b hP hb
  rcases prefer_eq_some hb with hmore | hless
  · exact h.oneOrMore greedy fuel here caps k b hP hmore
  · exact ⟨here, caps, hP, hless⟩

/-- **Rounds keep what one round keeps.** -/
theorem repeated (least : Nat) (most : Option Nat) (greedy : Bool) (fuel : Nat) :
    Keeps P (repeated least most greedy body fuel) := by
  cases most with
  | some most =>
    intro here caps k b hP hb
    obtain ⟨there, caps', hP', hb'⟩ := h.exactly least here caps _ b hP hb
    exact h.atMost greedy _ there caps' k b hP' hb'
  | none =>
    cases least with
    | zero => exact h.anyNumber greedy fuel
    | succ n =>
      intro here caps k b hP hb
      obtain ⟨there, caps', hP', hb'⟩ := h.exactly n here caps _ b hP hb
      exact h.oneOrMore greedy fuel there caps' k b hP' hb'

end Keeps

/-! ## A group that stands for a text -/

/-- Every group with the number `n` stands for the text `t`. -/
def Spells (n : Nat) (t : List Char) : Regex → Prop
  | empty | set _ | look _ => True
  | seq a b | alt a b => a.Spells n t ∧ b.Spells n t
  | group i a => if i = n then a = seqs (letters t) else a.Spells n t
  | rounds _ _ _ a => a.Spells n t

/-- There is no numbered group. -/
def isGroupless : Regex → Bool
  | empty | set _ | look _ => true
  | seq a b | alt a b => a.isGroupless && b.isGroupless
  | group _ _ => false
  | rounds _ _ _ a => a.isGroupless

variable {n : Nat} {t : List Char}

/-- Without groups there is nothing that could span anything else. -/
theorem spells_of_isGroupless {r : Regex} (h : r.isGroupless = true) : r.Spells n t := by
  induction r with
  | empty => trivial
  | set s => trivial
  | look l => trivial
  | seq a b iha ihb =>
    obtain ⟨ha, hb⟩ := Bool.and_eq_true_iff.mp h
    exact ⟨iha ha, ihb hb⟩
  | alt a b iha ihb =>
    obtain ⟨ha, hb⟩ := Bool.and_eq_true_iff.mp h
    exact ⟨iha ha, ihb hb⟩
  | group i a ih => cases h
  | rounds least most greedy a ih => exact ih h

/-- A group around a text spans that text, wherever it matches. -/
theorem spells_group_letters : (group n (seqs (letters t))).Spells n t := by
  rw [Spells, if_pos rfl]

/-- A row spells what each of its parts does. -/
theorem spells_seqs {rs : List Regex} (h : ∀ r ∈ rs, r.Spells n t) : (seqs rs).Spells n t := by
  induction rs with
  | nil => trivial
  | cons r rs ih =>
    obtain ⟨hr, hrs⟩ := List.forall_mem_cons.mp h
    cases rs with
    | nil => exact hr
    | cons r' rs => exact ⟨hr, ih hrs⟩

/-- A place of a line, reached on a way on which the groups with the number `n` span `t`. -/
structure Spanned (line : List Char) (n : Nat) (t : List Char) (here : Cursor) (caps : Captures) :
    Prop where
  le : here.pos ≤ line.length
  rest : here.rest = line.drop here.pos
  spans : ∀ start stop, (n, start, stop) ∈ caps →
    slice line start stop = t ∧ stop = start + t.length

variable {line : List Char}

/-- Past a character, the spans are those of before. -/
theorem Spanned.past {here : Cursor} {caps : Captures} (h : Spanned line n t here caps) {c : Char}
    {rest : List Char} (hrest : here.rest = c :: rest) :
    Spanned line n t (here.past c rest) caps where
  le := by
    have hlength : (line.drop here.pos).length = rest.length + 1 := by
      rw [← h.rest, hrest, List.length_cons]
    rw [List.length_drop] at hlength
    simp only [Cursor.past]
    omega
  rest := by
    have hdrop : line.drop (here.pos + 1) = (line.drop here.pos).tail := by
      rw [List.tail_drop]
    simp only [Cursor.past, hdrop, ← h.rest, hrest, List.tail_cons]
  spans := h.spans

/-- Past the text, with its span. -/
theorem Spanned.close {here : Cursor} {caps : Captures} (h : Spanned line n t here caps)
    (ht : t <+: here.rest) :
    Spanned line n t (here.advance t.length)
      ((n, here.pos, (here.advance t.length).pos) :: caps) := by
  rw [Cursor.advance_eq ht.length_le]
  refine ⟨?_, ?_, ?_⟩
  · have hlength := ht.length_le
    rw [h.rest, List.length_drop] at hlength
    have := h.le
    dsimp only
    omega
  · rw [h.rest, List.drop_drop]
  · intro start stop hmem
    rcases List.mem_cons.mp hmem with heq | hmem
    · simp only [Prod.mk.injEq, true_and] at heq
      obtain ⟨rfl, rfl⟩ := heq
      refine ⟨?_, rfl⟩
      rw [slice, ← h.rest, Nat.add_sub_cancel_left]
      exact (List.prefix_iff_eq_take.mp ht).symm
    · exact h.spans start stop hmem

/-- Other groups may span what they like. -/
theorem Spanned.cons {here : Cursor} {caps : Captures} (h : Spanned line n t here caps) {i : Nat}
    (hi : i ≠ n) (span : Nat × Nat) : Spanned line n t here ((i, span) :: caps) where
  le := h.le
  rest := h.rest
  spans start stop hmem := by
    rcases List.mem_cons.mp hmem with heq | hmem
    · exact absurd (congrArg Prod.fst heq).symm hi
    · exact h.spans start stop hmem

/-- **A group that stands for a text spans that text on every way.** -/
theorem keeps_ways (line : List Char) (fuel : Nat) {r : Regex} (h : r.Spells n t) :
    Keeps (Spanned line n t) (ways fuel r : Search β) := by
  induction r with
  | empty => exact fun here caps _ _ hP hb => ⟨here, caps, hP, hb⟩
  | set s =>
    intro here caps k b hP hb
    rw [ways] at hb
    split at hb
    · cases hb
    · next c rest hrest =>
      split at hb
      · exact ⟨_, caps, hP.past hrest, hb⟩
      · cases hb
  | look l =>
    intro here caps k b hP hb
    rw [ways] at hb
    split at hb
    · exact ⟨here, caps, hP, hb⟩
    · cases hb
  | seq a b iha ihb =>
    intro here caps k x hP hx
    obtain ⟨there, caps', hP', hx'⟩ := iha h.1 here caps _ x hP hx
    exact ihb h.2 there caps' k x hP' hx'
  | alt a b iha ihb =>
    intro here caps k x hP hx
    rcases orElse_eq_some hx with hx | hx
    · exact iha h.1 here caps k x hP hx
    · exact ihb h.2 here caps k x hP hx
  | group i a ih =>
    intro here caps k x hP hx
    rw [Spells] at h
    split at h
    · next hi =>
      subst hi h
      rw [ways, ← List.append_nil (letters t), ways_letters] at hx
      split at hx
      · next hprefix =>
        exact ⟨_, _, hP.close (List.isPrefixOf_iff_prefix.mp hprefix), hx⟩
      · cases hx
    · next hi =>
      obtain ⟨there, caps', hP', hx'⟩ := ih h here caps _ x hP hx
      exact ⟨there, _, hP'.cons hi _, hx'⟩
  | rounds least most greedy a ih => exact (ih h).repeated least most greedy fuel

end Regex

namespace Pattern

open Regex

variable {p : Pattern} {n : Nat} {t line : List Char}

/-- At the start nothing is spanned. -/
theorem spanned_advance_start (k : Nat) :
    Spanned line n t ((Cursor.start line).advance k) [] := by
  obtain ⟨j, hj, heq⟩ := Cursor.exists_advance_start line k
  rw [heq, Cursor.advance_start hj]
  exact ⟨hj, rfl, nofun⟩

/-- **Where a pattern is found, a group that stands for a text spans that text.** -/
theorem slice_of_group? (h : p.regex.Spells n t) {m : Found} (hfind : p.find? line = some m)
    {start stop : Nat} (hgroup : m.group? n = some (start, stop)) :
    slice line start stop = t ∧ stop = start + t.length := by
  obtain ⟨k, hmatch, -⟩ := findFrom?_eq_some_iff.mp hfind
  obtain ⟨there, caps, hspanned, hm⟩ := keeps_ways line line.length h _ _ _ m
    (spanned_advance_start k) hmatch
  obtain rfl : (⟨_, there.pos, caps⟩ : Found) = m := Option.some.inj hm
  obtain ⟨entry, hentry, hspan⟩ := Option.map_eq_some_iff.mp hgroup
  have hn : entry.1 = n := by simpa using List.find?_some hentry
  have hmem : (n, start, stop) ∈ caps := by
    rw [← hn, ← hspan]
    exact List.mem_of_find?_eq_some hentry
  exact hspanned.spans start stop hmem

end Pattern

end CodeNav

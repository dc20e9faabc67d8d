import CodeNav.Pattern.Match
import Mathlib.Logic.Basic

/-!
# Where a pattern matches

A text is searched place by place, and `Cursor.advance` walks along its places. Every
search is a statement about the matches at single places:

* `findFrom?_eq_some_iff` — the match that is found is the one at the **first place that has
  one**.
* `mem_findAll_iff` — a pattern whose matches all take the same number of characters is found
  at a place **exactly if it matches there**, unless an earlier match overlaps it.
-/

namespace CodeNav

namespace Cursor

@[simp] theorem advance_zero (here : Cursor) : here.advance 0 = here := by
  rw [advance]

/-- At the end of a text there is no way on. -/
@[simp] theorem advance_nil (before : Option Char) (pos n : Nat) :
    (⟨before, pos, []⟩ : Cursor).advance n = ⟨before, pos, []⟩ := by
  cases n <;> rw [advance]

@[simp] theorem advance_cons (before : Option Char) (pos : Nat) (c : Char) (rest : List Char)
    (n : Nat) :
    (⟨before, pos, c :: rest⟩ : Cursor).advance (n + 1) =
      (⟨some c, pos + 1, rest⟩ : Cursor).advance n := rfl

theorem advance_advance (here : Cursor) (m n : Nat) :
    (here.advance m).advance n = here.advance (m + n) := by
  obtain ⟨before, pos, rest⟩ := here
  induction m generalizing before pos rest with
  | zero => simp
  | succ m ih =>
    cases rest with
    | nil => simp
    | cons c rest => rw [Nat.succ_add, advance_cons, advance_cons, ih]

/-- The place `n` characters further on, by the text around it. -/
theorem advance_eq {here : Cursor} {n : Nat} (hn : n ≤ here.rest.length) :
    here.advance n =
      ⟨(here.rest.take n).getLast?.or here.before, here.pos + n, here.rest.drop n⟩ := by
  obtain ⟨before, pos, rest⟩ := here
  induction n generalizing before pos rest with
  | zero => simp
  | succ n ih =>
    cases rest with
    | nil => simp at hn
    | cons c rest =>
      rw [advance_cons, ih _ _ _ (by simpa using hn)]
      simp only [List.take_succ_cons, List.drop_succ_cons, Nat.add_assoc, Nat.add_comm 1 n,
        List.getLast?_cons]
      cases (rest.take n).getLast? <;> rfl

/-- The place before the `n`-th character of a text. -/
theorem advance_start {s : List Char} {n : Nat} (hn : n ≤ s.length) :
    (start s).advance n = ⟨(s.take n).getLast?, n, s.drop n⟩ := by
  rw [@advance_eq (start s) n hn]
  simp [start]

/-- Behind a text and its first character, or behind the rest of the text. -/
theorem behind_cons (before : Option Char) (pos : Nat) (c : Char) (x y : List Char) :
    (⟨(c :: x).getLast?.or before, pos + (c :: x).length, y⟩ : Cursor) =
      ⟨x.getLast?.or (some c), pos + 1 + x.length, y⟩ := by
  rw [List.length_cons, List.getLast?_cons, Nat.add_comm x.length, Nat.add_assoc]
  cases x.getLast? <;> rfl

/-- Behind two texts. -/
theorem behind_append (before : Option Char) (pos : Nat) (a b y : List Char) :
    (⟨b.getLast?.or (a.getLast?.or before), pos + a.length + b.length, y⟩ : Cursor) =
      ⟨(a ++ b).getLast?.or before, pos + (a ++ b).length, y⟩ := by
  rw [List.length_append, List.getLast?_append, Option.or_assoc, Nat.add_assoc]

theorem pos_le_advance (here : Cursor) (n : Nat) : here.pos ≤ (here.advance n).pos := by
  obtain ⟨before, pos, rest⟩ := here
  induction n generalizing before pos rest with
  | zero => exact Nat.le_refl pos
  | succ n ih =>
    cases rest with
    | nil => exact Nat.le_refl pos
    | cons c rest => exact Nat.le_trans (Nat.le_succ pos) (ih (some c) (pos + 1) rest)

/-- Beyond the end there are no further places. -/
theorem exists_advance (here : Cursor) (n : Nat) :
    ∃ k ≤ here.rest.length, here.advance n = here.advance k := by
  rcases Nat.le_total n here.rest.length with hn | hn
  · exact ⟨n, hn, rfl⟩
  · refine ⟨here.rest.length, Nat.le_refl _, ?_⟩
    obtain ⟨d, rfl⟩ := Nat.exists_eq_add_of_le hn
    rw [← advance_advance, advance_eq (Nat.le_refl _), List.drop_length, advance_nil]

theorem exists_advance_start (s : List Char) (n : Nat) :
    ∃ k ≤ s.length, (start s).advance n = (start s).advance k :=
  exists_advance (start s) n

end Cursor

namespace Look

variable {before : Option Char} {pos : Nat} {rest : List Char}

theorem startOfLine_holds_iff :
    startOfLine.holds ⟨before, pos, rest⟩ = true ↔ ∀ c ∈ before, c = '\n' := by
  cases before <;> simp [holds]

theorem endOfLine_holds_iff :
    endOfLine.holds ⟨before, pos, rest⟩ = true ↔ ∀ c ∈ rest.head?, c = '\n' := by
  cases rest <;> simp [holds, Cursor.after]

end Look

/-- The text behind another one, by the places where it begins and ends. -/
theorem slice_of_drop {s front x y : List Char} {pos : Nat} (h : s.drop pos = front ++ (x ++ y)) :
    slice s (pos + front.length) (pos + front.length + x.length) = x := by
  rw [slice, ← List.drop_drop, h, List.drop_left, Nat.add_sub_cancel_left, List.take_left]

namespace Pattern

variable {p : Pattern} {fuel : Nat} {here : Cursor} {m : Found}

/-- **The match that is found stands at the first place that has one.** -/
theorem findFrom?_eq_some_iff :
    p.findFrom? fuel here = some m ↔
      ∃ k, p.matchAt? fuel (here.advance k) = some m ∧
        ∀ j < k, p.matchAt? fuel (here.advance j) = none := by
  obtain ⟨before, pos, rest⟩ := here
  rw [findFrom?]
  induction rest generalizing before pos with
  | nil =>
    rw [scan]
    constructor
    · intro h
      exact ⟨0, h, fun j hj => absurd hj (Nat.not_lt_zero j)⟩
    · rintro ⟨k, h, -⟩
      rwa [Cursor.advance_nil] at h
  | cons c rest ih =>
    rw [scan]
    cases hhere : p.matchAt? fuel ⟨before, pos, c :: rest⟩ with
    | some m' =>
      constructor
      · rintro ⟨⟩
        exact ⟨0, hhere, fun j hj => absurd hj (Nat.not_lt_zero j)⟩
      · rintro ⟨k, h, hfirst⟩
        -- a later place is not the first one
        cases k with
        | zero =>
          rw [Cursor.advance_zero, hhere] at h
          exact h
        | succ k =>
          have hnone := hfirst 0 (Nat.succ_pos k)
          rw [Cursor.advance_zero, hhere] at hnone
          cases hnone
    | none =>
      refine (ih (some c) (pos + 1)).trans ⟨?_, ?_⟩
      · rintro ⟨k, h, hfirst⟩
        refine ⟨k + 1, h, fun j hj => ?_⟩
        cases j with
        | zero => exact hhere
        | succ j => exact hfirst j (Nat.lt_of_succ_lt_succ hj)
      · rintro ⟨k, h, hfirst⟩
        cases k with
        | zero =>
          rw [Cursor.advance_zero, hhere] at h
          cases h
        | succ k => exact ⟨k, h, fun j hj => hfirst (j + 1) (Nat.succ_lt_succ hj)⟩

/-- A match at some place is found, there or before. -/
theorem findFrom?_of_matchAt? {k : Nat} (h : p.matchAt? fuel (here.advance k) = some m) :
    ∃ j ≤ k, ∃ m', p.matchAt? fuel (here.advance j) = some m' ∧
      p.findFrom? fuel here = some m' := by
  induction k using Nat.strongRecOn generalizing m with
  | ind k ih =>
    by_cases hfirst : ∀ j < k, p.matchAt? fuel (here.advance j) = none
    · exact ⟨k, Nat.le_refl k, m, h, findFrom?_eq_some_iff.mpr ⟨k, h, hfirst⟩⟩
    · simp only [not_forall] at hfirst
      obtain ⟨j, hj, hsome⟩ := hfirst
      obtain ⟨m', hm'⟩ := Option.ne_none_iff_exists'.mp hsome
      obtain ⟨i, hi, found⟩ := ih j hj hm'
      exact ⟨i, by omega, found⟩

/-- A pattern matches a text if it matches at one of its places. -/
theorem isMatch_iff {s : List Char} :
    p.isMatch s = true ↔
      ∃ k ≤ s.length, ∃ m, p.matchAt? s.length ((Cursor.start s).advance k) = some m := by
  rw [isMatch, find?, Option.isSome_iff_exists]
  constructor
  · rintro ⟨m, h⟩
    obtain ⟨n, hm, -⟩ := findFrom?_eq_some_iff.mp h
    obtain ⟨k, hk, heq⟩ := Cursor.exists_advance_start s n
    exact ⟨k, hk, m, heq ▸ hm⟩
  · rintro ⟨k, -, m, hm⟩
    obtain ⟨-, -, m', -, h⟩ := findFrom?_of_matchAt? hm
    exact ⟨m', h⟩

/-! ## All matches -/

/-- What is listed is a match at some place. -/
theorem matchAt?_of_mem_findAllFrom {lastStop : Option Nat} {steps : Nat}
    (h : m ∈ p.findAllFrom fuel lastStop steps here) :
    ∃ k, p.matchAt? fuel (here.advance k) = some m := by
  induction steps generalizing here lastStop with
  | zero => cases h
  | succ steps ih =>
    rw [findAllFrom] at h
    cases hfind : p.findFrom? fuel here with
    | none =>
      rw [hfind] at h
      cases h
    | some m' =>
      obtain ⟨k, hm', -⟩ := findFrom?_eq_some_iff.mp hfind
      simp only [hfind] at h
      split at h
      · -- an empty match is passed over, and the search goes on one place further
        obtain ⟨before, pos, rest⟩ := here
        cases rest with
        | nil => cases h
        | cons c rest =>
          obtain ⟨j, hm⟩ := ih h
          exact ⟨j + 1, hm⟩
      · rcases List.mem_cons.mp h with rfl | h
        · exact ⟨k, hm'⟩
        · obtain ⟨j, hm⟩ := ih h
          rw [Cursor.advance_advance] at hm
          exact ⟨_, hm⟩

/-- All matches of the pattern take `n` characters. -/
def HasWidth (p : Pattern) (n : Nat) : Prop :=
  ∀ fuel here m, p.matchAt? fuel here = some m → m.start = here.pos ∧ m.stop = here.pos + n

/-- A match is listed if those before it end before it begins. -/
theorem mem_findAllFrom {n : Nat} (hn : 0 < n) (hwidth : p.HasWidth n) {k : Nat}
    (hk : k ≤ here.rest.length) (hm : p.matchAt? fuel (here.advance k) = some m)
    (hclear : ∀ j < k, (p.matchAt? fuel (here.advance j)).isSome → j + n ≤ k)
    {lastStop : Option Nat} {steps : Nat} (hsteps : k < steps) :
    m ∈ p.findAllFrom fuel lastStop steps here := by
  induction steps generalizing here k lastStop with
  | zero => omega
  | succ steps ih =>
    obtain ⟨j, hj, m', hm', hfind⟩ := findFrom?_of_matchAt? hm
    obtain ⟨hstart, hstop⟩ := hwidth _ _ _ hm'
    have hpos : (here.advance j).pos = here.pos + j := by
      rw [Cursor.advance_eq (by omega)]
    have hne : (m'.start = m'.stop && lastStop = some m'.stop : Bool) = false := by
      have : m'.start ≠ m'.stop := by omega
      simp [this]
    simp only [findAllFrom, hfind, hne]
    rcases Nat.lt_or_eq_of_le hj with hlt | rfl
    · -- an earlier match is listed first; the search goes on behind it
      have hle := hclear j hlt (by rw [hm']; rfl)
      have hskip : m'.stop - here.pos = j + n := by omega
      rw [hskip]
      refine List.mem_cons_of_mem _ (ih (k := k - (j + n)) ?_ ?_ ?_ (by omega))
      · rw [Cursor.advance_eq (by omega)]
        simp only [List.length_drop]
        omega
      · rwa [Cursor.advance_advance, Nat.add_sub_cancel' hle]
      · intro i hi hsome
        rw [Cursor.advance_advance] at hsome
        have := hclear (j + n + i) (by omega) hsome
        omega
    · rw [hm] at hm'
      cases hm'
      exact List.mem_cons_self

/-- **All matches are found that overlap no earlier one.** -/
theorem mem_findAll_iff {n : Nat} (hn : 0 < n) (hwidth : p.HasWidth n) {s : List Char} {k : Nat}
    (hk : k ≤ s.length)
    (hclear : ∀ j < k, (p.matchAt? s.length ((Cursor.start s).advance j)).isSome → j + n ≤ k) :
    (∃ m ∈ p.findAll s, m.start = k) ↔
      (p.matchAt? s.length ((Cursor.start s).advance k)).isSome := by
  have hpos : ∀ i ≤ s.length, ((Cursor.start s).advance i).pos = i := by
    intro i hi
    rw [Cursor.advance_start hi]
  rw [findAll]
  constructor
  · rintro ⟨m, hmem, hstart⟩
    obtain ⟨i, hm⟩ := matchAt?_of_mem_findAllFrom hmem
    obtain ⟨j, hj, heq⟩ := Cursor.exists_advance_start s i
    rw [heq] at hm
    have hjk : j = k := by rw [← hpos j hj, ← (hwidth _ _ _ hm).1, hstart]
    rw [← hjk, hm]
    rfl
  · intro hsome
    obtain ⟨m, hm⟩ := Option.isSome_iff_exists.mp hsome
    refine ⟨m, mem_findAllFrom hn hwidth hk hm hclear (by omega), ?_⟩
    rw [(hwidth _ _ _ hm).1, hpos k hk]

end Pattern

end CodeNav

import CodeNav.Text.Blank
import CodeNav.Text.Category
import Mathlib.Algebra.Group.Nat.Defs

/-!
# Looking up a category

Bisecting a table finds **the run that a code point lies in** (`exists_liesIn_of_bisect`): one that
starts at or before it, while the next one, if there is one, starts behind it. So what holds of all
the runs that some code points lie in holds of their categories, and one reading of the table
(`hides`) is enough to see that **no blank is a word character** (`isWord_eq_false_of_isBlank`).
-/

namespace CodeNav.Text

namespace Category

section Bisect

variable {l : List (Nat × Category)}

/-- A code point lies in a run that starts at or before it, if the next run does not. -/
structure LiesIn (l : List (Nat × Category)) (n i : Nat) : Prop where
  lt : i < l.length
  start_le : l[i].1 ≤ n
  lt_next : ∀ h : i + 1 < l.length, n < l[i + 1].1

theorem getD_toArray {i : Nat} (hi : i < l.length) :
    l.toArray.getD i (0, .unassigned) = l[i] := by
  simp [Array.getD, hi]

/-- Between a run that starts at or before a code point and one that starts behind it, **the
bisection ends at the run that the code point lies in**. -/
theorem exists_liesIn_of_bisect {n fuel lo hi : Nat} (hlt : lo < hi) (hle : hi ≤ l.length)
    (hfuel : hi - lo ≤ 2 ^ fuel) (hlo : l[lo].1 ≤ n) (hhi : ∀ h : hi < l.length, n < l[hi].1) :
    ∃ i, ∃ h : LiesIn l n i, bisect l.toArray n fuel lo hi = (l.get ⟨i, h.lt⟩).2 := by
  induction fuel generalizing lo hi with
  | zero =>
    obtain rfl : hi = lo + 1 := by omega
    exact ⟨lo, ⟨hle, hlo, hhi⟩, by rw [bisect, getD_toArray hle, List.get_eq_getElem]⟩
  | succ fuel ih =>
    rw [Nat.pow_succ] at hfuel
    by_cases hdone : hi ≤ lo + 1
    · obtain rfl : hi = lo + 1 := by omega
      refine ⟨lo, ⟨hle, hlo, hhi⟩, ?_⟩
      rw [bisect, if_pos hdone, getD_toArray hle, List.get_eq_getElem]
    · have hmid : (lo + hi) / 2 < l.length := by omega
      rw [bisect, if_neg hdone]
      simp only [getD_toArray hmid]
      split
      · next hstart => exact ih (by omega) hle (by omega) hstart hhi
      · next hstart =>
        exact ih (by omega) (by omega) (by omega) hlo fun _ => Nat.lt_of_not_le hstart

end Bisect

/-- Blocks of code points, each by its first and its last one. -/
abbrev Blocks := List (Nat × Nat)

/-- Whether there are runs, at most `room` of them, and all those are hidden that blocks reach into,
when the blocks end at `last`. -/
def hides (blocks : Blocks) (last : Nat) : (room : Nat) → List (Nat × Category) → Bool
  | _, [] => false
  | room, [r] => room != 0 && last < r.1
  | 0, _ => false
  | room + 1, r :: next :: rest =>
    (last < r.1 || r.2.isHidden || blocks.all fun b => b.2 < r.1 || next.1 ≤ b.1) &&
      hides blocks last room (next :: rest)
termination_by structural _ l => l

section Hides

variable {blocks : Blocks} {last room : Nat} {l : List (Nat × Category)}
  (h : hides blocks last room l = true)

include h

theorem length_of_hides : 0 < l.length ∧ l.length ≤ room := by
  fun_induction hides blocks last room l with
  | case1 => cases h
  | case2 room r =>
    have hroom : room ≠ 0 := by simpa using (Bool.and_eq_true_iff.mp h).1
    exact ⟨Nat.one_pos, Nat.one_le_iff_ne_zero.mpr hroom⟩
  | case3 => cases h
  | case4 room r next rest ih =>
    have hle := (ih (Bool.and_eq_true_iff.mp h).2).2
    exact ⟨Nat.succ_pos _, Nat.succ_le_succ hle⟩

theorem isHidden_of_hides {n i : Nat} (hn : ∃ b ∈ blocks, b.1 ≤ n ∧ n ≤ b.2) (hlast : n ≤ last)
    (hi : LiesIn l n i) : (l.get ⟨i, hi.lt⟩).2.isHidden = true := by
  fun_induction hides blocks last room l generalizing i with
  | case1 => cases h
  | case2 room r =>
    obtain rfl : i = 0 := Nat.lt_one_iff.mp hi.lt
    have hlt : last < r.1 := of_decide_eq_true (Bool.and_eq_true_iff.mp h).2
    have hstart : r.1 ≤ n := hi.start_le
    omega
  | case3 => cases h
  | case4 room r next rest ih =>
    obtain ⟨hhead, htail⟩ := Bool.and_eq_true_iff.mp h
    cases i with
    | succ i =>
      exact ih htail ⟨Nat.lt_of_succ_lt_succ hi.lt, hi.start_le, fun h => hi.lt_next
        (Nat.succ_lt_succ h)⟩
    | zero =>
      have hstart : r.1 ≤ n := hi.start_le
      have hnext : n < next.1 := hi.lt_next (by simp)
      simp only [Bool.or_eq_true, decide_eq_true_eq, List.all_eq_true] at hhead
      rcases hhead with (hlt | hhidden) | hclear
      · omega
      · exact hhidden
      · obtain ⟨b, hb, hfirst, hlast⟩ := hn
        have := hclear b hb
        omega

end Hides

/-- The first run starts where the reading does. -/
theorem start_of_mem_head? {start len : Nat} {open? : Option Category} {s : List Char} :
    ∀ r ∈ (readRuns start open? len s).head?, r.1 = start := by
  fun_induction readRuns start open? len s with
  | case1 start open? =>
    cases open? <;> simp
  | case2 start open? len c rest hdigit ih => exact ih
  | case3 start open? =>
    cases open? <;> simp
  | case4 start len c d more hdigit ih => exact ih
  | case5 start len c d more k hdigit ih =>
    rintro _ ⟨⟩
    rfl

/-- The table as it is written. To unfold it is to read it once more. -/
@[irreducible] def entries : List (Nat × Category) := readRuns 0 none 0 (runs.flatMap String.toList)

/-- The blanks beyond ASCII. -/
def wideBlanks : Blocks :=
  [(0x85, 0x85), (0xA0, 0xA0), (0x1680, 0x1680), (0x2000, 0x200A), (0x2028, 0x2029),
    (0x202F, 0x202F), (0x205F, 0x205F), (0x3000, 0x3000)]

theorem hides_entries : hides wideBlanks 0x3000 10000 entries = true := by
  simp only [entries, runs, List.flatMap_cons, List.flatMap_nil]
  -- a literal is made from its characters: they are read off without decoding it
  repeat rw [String.toList_ofList]
  decide +kernel

/-- Blanks beyond ASCII have no glyph. -/
theorem isHidden_ofChar {c : Char} (h : ∃ b ∈ wideBlanks, b.1 ≤ c.toNat ∧ c.toNat ≤ b.2) :
    (ofChar c).isHidden = true := by
  obtain ⟨hpos, hlength⟩ := length_of_hides hides_entries
  have htable : table = entries.toArray := by rw [table, entries]
  have hhead : ∀ r ∈ entries.head?, r.1 = 0 := by
    rw [entries]
    exact start_of_mem_head?
  rw [List.head?_eq_getElem?, List.getElem?_eq_getElem hpos] at hhead
  have hfirst : entries[0].1 = 0 := hhead _ rfl
  have hlast : c.toNat ≤ 0x3000 := by
    obtain ⟨b, hb, -, hle⟩ := h
    have hends : ∀ b ∈ wideBlanks, b.2 ≤ 0x3000 := by decide
    exact Nat.le_trans hle (hends b hb)
  obtain ⟨i, hi, hcategory⟩ := @exists_liesIn_of_bisect entries c.toNat 32 0 entries.length hpos
    (Nat.le_refl _) (by omega) (by omega) fun h => absurd h (Nat.lt_irrefl _)
  rw [ofChar, htable, List.size_toArray, hcategory]
  exact isHidden_of_hides hides_entries h hlast hi

theorem not_word_of_isHidden {k : Category} (h : k.isHidden = true) : k.isLetter = false ∧
    k.isMark = false ∧ k ≠ .decimalNumber ∧ k ≠ .letterNumber ∧ k ≠ .connectorPunctuation := by
  revert h
  cases k <;> decide

end Category

/-- **No blank is a word character.** -/
theorem isWord_eq_false_of_isBlank {c : Char} (h : isBlank c = true) : isWord c = false := by
  rcases Nat.lt_or_ge c.toNat 128 with hlt | hge
  · have hascii : ∀ n < 128, isBlank (Char.ofNat n) = true → isWord (Char.ofNat n) = false := by
      decide +kernel
    have hchar := hascii c.toNat hlt
    rw [Char.ofNat_toNat] at hchar
    exact hchar h
  · simp only [isBlank, Bool.or_eq_true, Bool.and_eq_true, decide_eq_true_eq, beq_iff_eq] at h
    have hblock : ∃ b ∈ Category.wideBlanks, b.1 ≤ c.toNat ∧ c.toNat ≤ b.2 := by
      simp only [Category.wideBlanks, List.mem_cons, List.not_mem_nil, or_false, exists_eq_or_imp,
        exists_eq_left]
      omega
    have hother : isEnclosedLetter c.toNat = false ∧ c.toNat ≠ 0x200C ∧ c.toNat ≠ 0x200D := by
      simp only [isEnclosedLetter, Bool.or_eq_false_iff, Bool.and_eq_false_iff,
        decide_eq_false_iff_not]
      omega
    obtain ⟨hletter, hmark, hdigit, hnumber, hconnector⟩ :=
      Category.not_word_of_isHidden (Category.isHidden_ofChar hblock)
    simp [isWord, Nat.not_lt.mpr hge, hletter, hmark, hdigit, hnumber, hconnector, hother]

end CodeNav.Text

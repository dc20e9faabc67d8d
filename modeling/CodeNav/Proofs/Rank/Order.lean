import CodeNav.Rank
import Mathlib.Algebra.Order.Field.Basic
import Mathlib.Data.Rat.Cast.Order

/-!
# The order of ranked hits

Similarities are compared as fractions, without dividing; `Similarity.le_iff` says that this is
the order of the **ratios**. So hits are sorted by a number (`sortByProximity_eq`), and what is said
of sorting by a number (`sortBy`) is said of them, whatever the number is: the largest come first
(`pairwise_sortBy`), and hits with the same number **stay as they stood**, since whatever picks hits
of one number picks the same list before and after (`filter_sortBy`).
-/

namespace CodeNav

namespace Similarity

/-- The shared part of all segments; zero if there are none. -/
def ratio (s : Similarity) : ℚ := s.shared / s.total

theorem ratio_nonneg (s : Similarity) : 0 ≤ s.ratio :=
  div_nonneg (Nat.cast_nonneg _) (Nat.cast_nonneg _)

/-- **Fractions are compared as numbers.** -/
theorem le_iff (a b : Similarity) : a.le b = true ↔ a.ratio ≤ b.ratio := by
  rw [le]
  split
  · next ha =>
    have hzero : a.ratio = 0 := by simp [ratio, ha]
    simp [hzero, ratio_nonneg]
  · next ha =>
    have ha : (0 : ℚ) < a.total := by exact_mod_cast Nat.pos_of_ne_zero ha
    split
    · next hb =>
      have hzero : b.ratio = 0 := by simp [ratio, hb]
      rw [hzero, ratio, div_le_iff₀ ha]
      simp
    · next hb =>
      have hb : (0 : ℚ) < b.total := by exact_mod_cast Nat.pos_of_ne_zero hb
      rw [ratio, ratio, div_le_div_iff₀ ha hb, decide_eq_true_iff]
      exact_mod_cast Iff.rfl

end Similarity

/-- How near the file of a hit is to a path. -/
def proximity (origin : String) (h : Hit) : ℚ := (Similarity.between h.file origin).ratio

/-- The relation that hits are sorted by. -/
def nearer (origin : String) (a b : Hit) : Bool :=
  (Similarity.between b.file origin).le (Similarity.between a.file origin)

variable {origin : String}

theorem nearer_iff {a b : Hit} :
    nearer origin a b = true ↔ proximity origin b ≤ proximity origin a :=
  Similarity.le_iff _ _

/-! ## Sorting by a number -/

/-- Hits sorted by a number, the largest first. -/
def sortBy (key : Hit → ℚ) (hits : List Hit) : List Hit :=
  hits.mergeSort fun a b => key b ≤ key a

/-- Ranking sorts by how near the files are. -/
theorem sortByProximity_eq (hits : List Hit) (origin : String) :
    sortByProximity hits origin = sortBy (proximity origin) hits := by
  have hsame : nearer origin = fun a b => decide (proximity origin b ≤ proximity origin a) := by
    funext a b
    rw [Bool.eq_iff_iff, nearer_iff, decide_eq_true_iff]
  exact congrArg (fun above => hits.mergeSort above) hsame

variable (key : Hit → ℚ) (hits : List Hit)

theorem perm_sortBy : (sortBy key hits).Perm hits := List.mergeSort_perm hits _

/-- The comparison of numbers is one to sort by: what follows in the order is below. -/
theorem trans_and_total :
    (∀ a b c : Hit, decide (key b ≤ key a) = true → decide (key c ≤ key b) = true →
      decide (key c ≤ key a) = true) ∧
    ∀ a b : Hit, (decide (key b ≤ key a) || decide (key a ≤ key b)) = true := by
  simp only [decide_eq_true_iff, Bool.or_eq_true]
  exact ⟨fun a b c hab hbc => hbc.trans hab, fun a b => le_total _ _⟩

/-- The largest come first. -/
theorem pairwise_sortBy : (sortBy key hits).Pairwise fun a b => key b ≤ key a := by
  obtain ⟨htrans, htotal⟩ := trans_and_total key
  exact (List.pairwise_mergeSort htrans htotal hits).imp of_decide_eq_true

variable {key}

/-- **Hits of one number stay as they stood.** -/
theorem filter_sortBy {p : Hit → Bool}
    (hp : ∀ a b, p a = true → p b = true → key a = key b) :
    (sortBy key hits).filter p = hits.filter p := by
  obtain ⟨htrans, htotal⟩ := trans_and_total key
  have hsorted : (hits.filter p).Pairwise fun a b => decide (key b ≤ key a) = true := by
    refine List.pairwise_of_forall_mem_list fun a ha b hb => ?_
    rw [decide_eq_true_iff, hp a b (List.mem_filter.mp ha).2 (List.mem_filter.mp hb).2]
  have hkept : (hits.filter p).Sublist (sortBy key hits) :=
    List.sublist_mergeSort htrans htotal hsorted List.filter_sublist
  -- as many of them as before, so they are all there is
  have hsublist : (hits.filter p).Sublist ((sortBy key hits).filter p) := by
    simpa using hkept.filter p
  exact (hsublist.eq_of_length ((perm_sortBy key hits).filter p).length_eq.symm).symm

end CodeNav

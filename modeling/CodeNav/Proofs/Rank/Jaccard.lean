import CodeNav.Proofs.Rank.Order
import CodeNav.Proofs.Rank.Rounding
import Mathlib.Data.Finset.Card

/-!
# Ranking by the Jaccard index

The similarity of two paths counts the segments they share and the segments there are
(`shared_between`, `total_between`), so its ratio is the **Jaccard index** of their sets of
non-empty segments (`jaccard_eq`). What the sort compares is that index in double precision
(`Similarity.rounded`): a small fraction, which rounding keeps apart from the others and in order.
So **sorting by the rounded scores is sorting by the exact indices** (`sortByScore_eq`).
-/

namespace CodeNav

/-- The non-empty segments of a path. -/
def segmentSet (p : String) : Finset (List Char) := (Text.splitAt '/' p.toList).toFinset.erase []

/-- The share of common segments among all segments of two paths; zero if there are none. -/
def jaccard (a b : String) : ℚ :=
  ((segmentSet a ∩ segmentSet b).card : ℚ) / (segmentSet a ∪ segmentSet b).card

section Segments

/-- What is left by taking out repetitions has none, since what was kept once is taken out of the
rest. -/
theorem nodup_eraseDups {α : Type} [BEq α] [LawfulBEq α] :
    ∀ xs : List α, xs.eraseDups.Nodup
  | [] => by simp
  | x :: xs => by
    rw [List.eraseDups_cons, List.nodup_cons]
    refine ⟨?_, nodup_eraseDups _⟩
    simp [List.mem_eraseDups]
termination_by xs => xs.length
decreasing_by exact Nat.lt_succ_of_le (List.length_filter_le _ _)

/-- A segment that stands twice in a path counts once. -/
theorem nodup_pathSegments (p : String) : (pathSegments p).Nodup := nodup_eraseDups _

/-- The segments are those of the set, in some order. -/
theorem mem_pathSegments {p : String} {s : List Char} :
    s ∈ pathSegments p ↔ s ∈ segmentSet p := by
  simp [pathSegments, segmentSet, List.mem_eraseDups, and_comm]

theorem toFinset_pathSegments (p : String) : (pathSegments p).toFinset = segmentSet p := by
  ext s
  rw [List.mem_toFinset, mem_pathSegments]

/-- So counting the list is counting the set. -/
theorem length_pathSegments (p : String) : (pathSegments p).length = (segmentSet p).card := by
  rw [← toFinset_pathSegments, List.toFinset_card_of_nodup (nodup_pathSegments p)]

variable (a b : String)

/-- The segments that two paths share are counted by going through one of them. -/
theorem shared_between :
    (Similarity.between a b).shared = (segmentSet a ∩ segmentSet b).card := by
  have hnodup : ((pathSegments a).filter (pathSegments b).contains).Nodup :=
    (nodup_pathSegments a).filter _
  have hset : ((pathSegments a).filter (pathSegments b).contains).toFinset =
      segmentSet a ∩ segmentSet b := by
    ext s
    simp [mem_pathSegments]
  rw [← hset, List.toFinset_card_of_nodup hnodup]
  rfl

/-- All segments are counted without going through both: those of either path, less the shared ones.
-/
theorem total_between :
    (Similarity.between a b).total = (segmentSet a ∪ segmentSet b).card := by
  have htotal : (Similarity.between a b).total = (pathSegments a).length +
      (pathSegments b).length - (Similarity.between a b).shared := rfl
  rw [htotal, length_pathSegments, length_pathSegments, shared_between, Finset.card_union]

/-- The quotient of the two counts is the Jaccard index. -/
theorem jaccard_eq : (Similarity.between a b).ratio = jaccard a b := by
  rw [Similarity.ratio, shared_between, total_between, jaccard]

/-- Neither path is preferred: shared and all segments are the same the other way round. -/
theorem between_comm : Similarity.between a b = Similarity.between b a := by
  have hshared : (Similarity.between a b).shared = (Similarity.between b a).shared := by
    rw [shared_between, shared_between, Finset.inter_comm]
  have htotal : (Similarity.between a b).total = (Similarity.between b a).total := by
    rw [total_between, total_between, Finset.union_comm]
  cases hab : Similarity.between a b
  cases hba : Similarity.between b a
  simp_all

/-- The index of paths with fewer than `2 ^ 26` segments is a small fraction, so rounding keeps it
apart from others. -/
theorem isSmallFraction_jaccard {a b : String}
    (hsmall : (segmentSet a ∪ segmentSet b).card < 2 ^ 26) : IsSmallFraction (jaccard a b) := by
  rcases Nat.eq_zero_or_pos (segmentSet a ∪ segmentSet b).card with hnone | hsome
  · rw [jaccard, hnone, Nat.cast_zero, div_zero]
    exact IsSmallFraction.zero
  · exact ⟨_, _, Finset.card_le_card Finset.inter_subset_union, hsome, hsmall, rfl⟩

/-- All segments are shared when the sets are the same. -/
theorem jaccard_eq_one_iff {a b : String} :
    jaccard a b = 1 ↔ segmentSet a = segmentSet b ∧ (segmentSet a).Nonempty := by
  constructor
  · intro hone
    have hne : ((segmentSet a ∪ segmentSet b).card : ℚ) ≠ 0 := by
      intro hzero
      rw [jaccard, hzero, div_zero] at hone
      exact zero_ne_one hone
    have hcard : (segmentSet a ∩ segmentSet b).card = (segmentSet a ∪ segmentSet b).card := by
      exact_mod_cast (div_eq_one_iff_eq hne).mp hone
    have hsame : segmentSet a = segmentSet b :=
      inf_eq_sup.mp (Finset.eq_of_subset_of_card_le Finset.inter_subset_union hcard.ge)
    rw [← hsame, Finset.union_self, Nat.cast_ne_zero, Finset.card_ne_zero] at hne
    exact ⟨hsame, hne⟩
  · rintro ⟨hsame, hsome⟩
    rw [jaccard, ← hsame, Finset.inter_self, Finset.union_self]
    exact div_self (Nat.cast_ne_zero.mpr (Finset.card_ne_zero.mpr hsome))

/-- What is shared is a part of all. -/
theorem shared_le_total : (Similarity.between a b).shared ≤ (Similarity.between a b).total := by
  rw [shared_between, total_between]
  exact Finset.card_le_card Finset.inter_subset_union

end Segments

/-- The score in double precision; zero if there are no segments. -/
def Similarity.rounded (round : ℚ → ℚ) (s : Similarity) : ℚ :=
  if s.total = 0 then 0 else round s.ratio

/-- How similar two paths are, in double precision. -/
def score (round : ℚ → ℚ) (a b : String) : ℚ := (Similarity.between a b).rounded round

/-- The relation that hits are sorted by, on rounded scores. -/
def scoredAbove (round : ℚ → ℚ) (origin : String) (a b : Hit) : Bool :=
  score round b.file origin ≤ score round a.file origin

/-- Hits in the order of their rounded scores. -/
def sortByScore (round : ℚ → ℚ) (hits : List Hit) (origin : String) : List Hit :=
  hits.mergeSort (scoredAbove round origin)

section Score

variable {round : ℚ → ℚ} {a b c d : String}

/-- So it does not matter which of two paths was asked from. -/
theorem score_comm (round : ℚ → ℚ) (a b : String) : score round a b = score round b a := by
  rw [score, score, between_comm]

theorem ratio_le_one (a b : String) : (Similarity.between a b).ratio ≤ 1 :=
  div_le_one_of_le₀ (by exact_mod_cast shared_le_total a b) (Nat.cast_nonneg _)

section Rounds

variable (hround : RoundsToNearest round)
include hround

/-- Rounding leaves the score between zero and one. -/
theorem score_mem (a b : String) : 0 ≤ score round a b ∧ score round a b ≤ 1 := by
  rw [score, Similarity.rounded]
  split
  · exact ⟨le_rfl, zero_le_one⟩
  · have hzero := (Similarity.between a b).ratio_nonneg
    exact ⟨hround.nonneg hzero (ratio_le_one a b), hround.le_one hzero (ratio_le_one a b)⟩

/-- No segments at all score as a share of zero does. -/
theorem score_eq (a b : String) : score round a b = round (jaccard a b) := by
  rw [score, Similarity.rounded, jaccard_eq]
  split
  · next hnone =>
    have hzero : jaccard a b = 0 := by simp [jaccard, ← total_between, hnone]
    rw [hzero, hround.zero]
  · rfl

/-- Scores of few segments compare as the indices do. -/
theorem scoredAbove_iff {origin : String} {h k : Hit}
    (hh : (segmentSet h.file ∪ segmentSet origin).card < 2 ^ 26)
    (hk : (segmentSet k.file ∪ segmentSet origin).card < 2 ^ 26) :
    scoredAbove round origin h k = true ↔
      jaccard k.file origin ≤ jaccard h.file origin := by
  rw [scoredAbove, decide_eq_true_iff, score_eq hround, score_eq hround,
    hround.le_iff (isSmallFraction_jaccard hk) (isSmallFraction_jaccard hh)]

/-- **A score is one when the paths have the same segments, and some.** -/
theorem score_eq_one_iff (hsmall : (segmentSet a ∪ segmentSet b).card < 2 ^ 26) :
    score round a b = 1 ↔ segmentSet a = segmentSet b ∧ (segmentSet a).Nonempty := by
  have hone : score round a b = 1 ↔ jaccard a b = 1 := by
    rw [score_eq hround, ← hround.eq_iff (isSmallFraction_jaccard hsmall) IsSmallFraction.one,
      hround.one]
  rw [hone, jaccard_eq_one_iff]

end Rounds

/-- **Sorting by the rounded scores is sorting by the exact indices.** -/
theorem sortByScore_eq (hround : RoundsToNearest round) {hits : List Hit} {origin : String}
    (hsmall : ∀ h ∈ hits, (segmentSet h.file ∪ segmentSet origin).card < 2 ^ 26) :
    sortByScore round hits origin = sortByProximity hits origin := by
  have hagree : ∀ h ∈ hits, ∀ k ∈ hits, scoredAbove round origin h k = nearer origin h k := by
    intro h hh k hk
    rw [Bool.eq_iff_iff, scoredAbove_iff hround (hsmall h hh) (hsmall k hk), nearer_iff,
      proximity, proximity, jaccard_eq, jaccard_eq]
  have hsame := List.map_mergeSort (f := id) hagree
  rwa [List.map_id, List.map_id] at hsame

end Score

/-- Hits in descending order of a number, those of one number as they stood. -/
structure IsStableRanking (key : Hit → ℚ) (hits ranked : List Hit) : Prop where
  perm : ranked.Perm hits
  descending : ranked.Pairwise fun a b => key b ≤ key a
  stable : ∀ q, (ranked.filter fun h => key h = q) = hits.filter fun h => key h = q

/-- A comparison by which hits can be sorted. -/
structure IsPreference (above : Hit → Hit → Bool) : Prop where
  refl : ∀ a, above a a = true
  total : ∀ a b, above a b = true ∨ above b a = true
  trans : ∀ a b c, above a b = true → above b c = true → above a c = true

/-- Scores are numbers, so any two hits can be compared and comparisons follow from each other. -/
theorem isPreference_scoredAbove (round : ℚ → ℚ) (origin : String) :
    IsPreference (scoredAbove round origin) where
  refl a := by simp [scoredAbove]
  total a b := by simpa [scoredAbove] using le_total _ _
  trans a b c := by simpa [scoredAbove] using fun hab hbc => hbc.trans hab

/-- Sorting by a number ranks by that number, whatever it is. -/
theorem isStableRanking_sortBy (key : Hit → ℚ) (hits : List Hit) :
    IsStableRanking key hits (sortBy key hits) where
  perm := perm_sortBy key hits
  descending := pairwise_sortBy key hits
  stable q := filter_sortBy hits fun a b ha hb => by
    rw [of_decide_eq_true ha, of_decide_eq_true hb]

/-- The engine sorts by the exact index. -/
theorem proximity_eq (origin : String) : proximity origin = fun h => jaccard h.file origin :=
  funext fun h => jaccard_eq h.file origin

/-- **Ranking is a stable sort by the exact Jaccard index**, though the scores that are compared are
rounded: they are the indices in double precision, and for hits with few segments they compare as
the indices do. A score does not depend on the order of its paths, lies between zero and one, and is
one exactly for paths with the same segments, and some. -/
theorem ranks_by_jaccard {round : ℚ → ℚ} (hround : RoundsToNearest round) {hits : List Hit}
    {origin : String}
    (hsmall : ∀ h ∈ hits, (segmentSet h.file ∪ segmentSet origin).card < 2 ^ 26) :
    sortByScore round hits origin = sortByProximity hits origin ∧
      IsStableRanking (fun h => jaccard h.file origin) hits (sortByScore round hits origin) ∧
      IsPreference (scoredAbove round origin) ∧
      ∀ a b, score round a b = score round b a ∧ 0 ≤ score round a b ∧ score round a b ≤ 1 ∧
        ((segmentSet a ∪ segmentSet b).card < 2 ^ 26 →
          (score round a b = 1 ↔ segmentSet a = segmentSet b ∧ (segmentSet a).Nonempty)) := by
  have hsame := sortByScore_eq hround hsmall
  refine ⟨hsame, ?_, isPreference_scoredAbove round origin, fun a b => ?_⟩
  · rw [hsame, sortByProximity_eq, proximity_eq]
    exact isStableRanking_sortBy _ hits
  · obtain ⟨hzero, hone⟩ := score_mem hround a b
    exact ⟨score_comm round a b, hzero, hone, score_eq_one_iff hround⟩

/-- Two hits that are equally far, and a near one. -/
def tiedHits : List Hit :=
  ["p/one.ts", "q/two.ts", "a/three.ts"].map fun file =>
    { repository := "r", revision := "v", file, range := default }

theorem ranks_by_jaccard_of_ties :
    (∀ h ∈ tiedHits, (segmentSet h.file ∪ segmentSet "a/b/c.ts").card < 2 ^ 26) ∧
      IsStableRanking (fun h => jaccard h.file "a/b/c.ts") tiedHits
        (sortByScore toBinary64 tiedHits "a/b/c.ts") ∧
      score toBinary64 "a/b" "/b//a" = 1 := by
  have hfew : ∀ h ∈ tiedHits, (segmentSet h.file ∪ segmentSet "a/b/c.ts").card < 2 ^ 26 := by
    decide +kernel
  obtain ⟨-, hranking, -, hscore⟩ := ranks_by_jaccard roundsToNearest_toBinary64 hfew
  exact ⟨hfew, hranking, ((hscore "a/b" "/b//a").2.2.2 (by decide +kernel)).mpr (by decide +kernel)⟩

end CodeNav

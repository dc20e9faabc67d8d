import CodeNav.Source.Basic

/-!
# Ranking by path

Two paths are the more similar the larger a share of their segments they have in
common: the Jaccard index of their sets of non-empty segments. The index is kept as a
fraction, and **hits are ordered by comparing fractions exactly**; the sort is stable,
so hits of equal similarity stay in the order they came in.
-/

namespace CodeNav

/-- The non-empty segments of a path, each once. -/
def pathSegments (p : String) : List (List Char) :=
  ((Text.splitAt '/' p.toList).filter fun s => !s.isEmpty).eraseDups

/-- How similar two paths are: the number of segments they share, and of all segments. -/
structure Similarity where
  shared : Nat
  total : Nat
  deriving DecidableEq, Repr

namespace Similarity

/-- The similarity of two paths. -/
def between (a b : String) : Similarity :=
  let left := pathSegments a
  let right := pathSegments b
  let shared := (left.filter right.contains).length
  ⟨shared, left.length + right.length - shared⟩

/-- At most as similar; the fraction with no segments at all counts as zero. -/
def le (a b : Similarity) : Bool :=
  if a.total = 0 then true
  else if b.total = 0 then a.shared = 0
  else a.shared * b.total ≤ b.shared * a.total

/-- The fraction as a number. -/
def score (s : Similarity) : Float :=
  if s.total = 0 then 0 else Float.ofNat s.shared / Float.ofNat s.total

end Similarity

/-- Hits ordered by the similarity of their files to `origin`, the most similar first. -/
def sortByProximity (hits : List Hit) (origin : String) : List Hit :=
  hits.mergeSort fun a b => (Similarity.between b.file origin).le (Similarity.between a.file origin)

end CodeNav

import CodeNav.Proofs.Docstring.Search
import CodeNav.Proofs.Pattern.Bounds

/-!
# The lines beside a definition

Passing lines over only moves the line from which one looks away: **the lines that are not
passed over are those away from the definition, or from a line beyond it**
(`exists_candidates_eq`).

A block beside a definition lies in these lines: its first line is not behind its last one, and
its body starts and stops inside the lines it is on (`extent?_placed`). For that it does not
matter what the delimiters look like.
-/

namespace CodeNav

/-- The line `i` lies on this side of the line `d`. -/
def Placement.Beyond (side : Placement) (d i : Nat) : Prop :=
  match side with
  | .below => d < i
  | .above => i < d

theorem Placement.Beyond.trans {side : Placement} {d i j : Nat} (h : side.Beyond d i)
    (h' : side.Beyond i j) : side.Beyond d j := by
  cases side with
  | below => exact Nat.lt_trans h h'
  | above => exact Nat.lt_trans h' h

namespace Docstring

/-! ## Looking away -/

theorem candidates_eq (lines : List (List Char)) (d : Nat) (ignore : Option Pattern)
    (side : Placement) : candidates lines d ignore side =
      (away lines d side).dropWhile fun l => ignore.any (·.isMatch l.1) := by
  cases ignore <;> rfl

/-- **What is not passed over are the lines away from the definition or from a line beyond.** -/
theorem exists_candidates_eq {lines : List (List Char)} {d : Nat} (hd : d ≤ lines.length)
    (ignore : Option Pattern) (side : Placement) :
    ∃ edge, (edge = d ∨ side.Beyond d edge) ∧ edge ≤ lines.length ∧
      candidates lines d ignore side = away lines edge side := by
  rw [candidates_eq]
  generalize (fun l : NumberedLine => ignore.any (·.isMatch l.1)) = isIgnored
  cases side with
  | below =>
    have hsuffix := List.dropWhile_suffix (l := lines.zipIdx.drop (d + 1)) isIgnored
    have heq := List.suffix_iff_eq_drop.mp hsuffix
    rw [List.drop_drop, Nat.add_right_comm] at heq
    refine ⟨_, ?_, ?_, heq⟩
    · exact (Nat.eq_or_lt_of_le (Nat.le_add_right d _)).imp Eq.symm id
    · simp only [List.length_drop, List.length_zipIdx]
      omega
  | above =>
    have hsuffix := List.dropWhile_suffix (l := (lines.zipIdx.take d).reverse) isIgnored
    have hfront := List.reverse_prefix.mpr hsuffix
    rw [List.reverse_reverse] at hfront
    have heq := congrArg List.reverse (List.prefix_iff_eq_take.mp hfront)
    rw [List.take_take, List.reverse_reverse] at heq
    refine ⟨_, ?_, ?_, heq⟩
    · exact Nat.lt_or_eq_of_le (Nat.min_le_right _ d) |>.symm
    · exact Nat.le_trans (Nat.min_le_right _ d) hd

section Away

variable {lines : List (List Char)} {edge i : Nat} {line : List Char} {side : Placement}

/-- A line away from an edge is a line of the source beyond it. -/
theorem of_mem_away (h : (line, i) ∈ away lines edge side) :
    lines[i]? = some line ∧ side.Beyond edge i := by
  cases side with
  | below =>
    obtain ⟨k, hk⟩ := List.mem_iff_getElem?.mp h
    rw [away, List.getElem?_drop, List.getElem?_zipIdx, Option.map_eq_some_iff] at hk
    obtain ⟨_, hline, heq⟩ := hk
    simp only [Prod.mk.injEq, Nat.zero_add] at heq
    obtain ⟨rfl, rfl⟩ := heq
    exact ⟨hline, Nat.le_add_right (edge + 1) k⟩
  | above =>
    obtain ⟨k, hk⟩ := List.mem_iff_getElem?.mp (List.mem_reverse.mp h)
    rw [List.getElem?_take] at hk
    split at hk
    · next hlt =>
      rw [List.getElem?_zipIdx, Option.map_eq_some_iff] at hk
      obtain ⟨_, hline, heq⟩ := hk
      simp only [Prod.mk.injEq, Nat.zero_add] at heq
      obtain ⟨rfl, rfl⟩ := heq
      exact ⟨hline, hlt⟩
    · cases hk

/-- Behind the nearest line follow the lines away from it. -/
theorem away_eq_cons {more : List NumberedLine} (hedge : edge ≤ lines.length)
    (h : away lines edge side = (line, i) :: more) :
    lines[i]? = some line ∧ side.Beyond edge i ∧ more = away lines i side := by
  have hmem : (line, i) ∈ away lines edge side := h ▸ List.mem_cons_self
  obtain ⟨hline, hbeyond⟩ := of_mem_away hmem
  refine ⟨hline, hbeyond, ?_⟩
  cases side with
  | below =>
    rw [away] at h
    have hlt : edge + 1 < lines.zipIdx.length := by
      refine Nat.lt_of_not_le fun hle => ?_
      rw [List.drop_eq_nil_of_le hle] at h
      cases h
    rw [List.drop_eq_getElem_cons hlt, List.cons.injEq, List.getElem_zipIdx, Prod.mk.injEq,
      Nat.zero_add] at h
    obtain ⟨⟨-, rfl⟩, rfl⟩ := h
    rfl
  | above =>
    rw [away] at h
    cases edge with
    | zero => cases h
    | succ n =>
      have hlt : n < lines.zipIdx.length := by
        rw [List.length_zipIdx]
        exact hedge
      rw [← List.take_append_getElem hlt, List.reverse_append, List.reverse_singleton,
        List.singleton_append, List.cons.injEq, List.getElem_zipIdx, Prod.mk.injEq,
        Nat.zero_add] at h
      obtain ⟨⟨-, rfl⟩, rfl⟩ := h
      rfl

end Away

/-! ## Blocks -/

/-- An extent inside the lines of a source. -/
structure Extent.Placed (e : Extent) (lines : List (List Char)) : Prop where
  first_le : e.first ≤ e.last
  last_lt : e.last < lines.length
  start_le : ∀ line ∈ lines[e.first]?, e.start ≤ line.length
  stop_le : ∀ line ∈ lines[e.last]?, e.stop ≤ line.length
  start_le_stop : e.first = e.last → e.start ≤ e.stop

section Extent

variable {lines : List (List Char)} {edge i : Nat} {line : List Char} {block : BlockStyle}
  {e : Extent}

/-- An extent on one line. -/
theorem Extent.Placed.ofLine (hline : lines[i]? = some line) {start stop : Nat}
    (hle : start ≤ stop) (hstop : stop ≤ line.length) :
    (⟨i, start, i, stop⟩ : Extent).Placed lines where
  first_le := Nat.le_refl i
  last_lt := (List.getElem?_eq_some_iff.mp hline).1
  start_le l hl := by
    obtain rfl := Option.mem_unique hl hline
    exact Nat.le_trans hle hstop
  stop_le l hl := by
    obtain rfl := Option.mem_unique hl hline
    exact hstop
  start_le_stop _ := hle

/-- An extent over several lines. -/
theorem Extent.Placed.ofLines {j : Nat} {line' : List Char} (hline : lines[i]? = some line)
    (hline' : lines[j]? = some line') (hlt : i < j) {start stop : Nat}
    (hstart : start ≤ line.length) (hstop : stop ≤ line'.length) :
    (⟨i, start, j, stop⟩ : Extent).Placed lines where
  first_le := Nat.le_of_lt hlt
  last_lt := (List.getElem?_eq_some_iff.mp hline').1
  start_le l hl := by
    obtain rfl := Option.mem_unique hl hline
    exact hstart
  stop_le l hl := by
    obtain rfl := Option.mem_unique hl hline'
    exact hstop
  start_le_stop heq := absurd heq (Nat.ne_of_lt hlt)

variable (hedge : edge ≤ lines.length)

include hedge

theorem extentBelow?_placed (h : extentBelow? block (away lines edge .below) = some e) :
    e.Placed lines ∧ edge < e.first := by
  generalize hnear : away lines edge .below = near at h
  cases near with
  | nil => cases h
  | cons nearest more =>
    obtain ⟨line, i⟩ := nearest
    obtain ⟨hline, hbeyond, rfl⟩ := away_eq_cons hedge hnear
    simp only [extentBelow?, Option.bind_eq_bind, Option.bind_eq_some_iff] at h
    obtain ⟨opened, hopened, ⟨last, stop⟩, hclosed, heq⟩ := h
    cases heq
    have hopen := (Pattern.find?_within hopened).stop_le
    refine ⟨?_, hbeyond⟩
    rcases Option.or_eq_some_iff.mp hclosed with hsame | ⟨-, hlater⟩
    · -- it closes behind the opening delimiter, on the same line
      obtain ⟨m, hm, heq⟩ := Option.map_eq_some_iff.mp hsame
      cases heq
      obtain ⟨hstart, hstop⟩ := Pattern.find?_within hm
      rw [List.length_drop] at hstop
      exact Extent.Placed.ofLine hline (by omega) (by omega)
    · obtain ⟨⟨line', j⟩, hmem, hj⟩ := exists_mem_of_firstSome hlater
      obtain ⟨m, hm, heq⟩ := Option.map_eq_some_iff.mp hj
      cases heq
      obtain ⟨hline', hlt⟩ := of_mem_away hmem
      obtain ⟨hstart, hstop⟩ := Pattern.find?_within hm
      exact Extent.Placed.ofLines hline hline' hlt hopen (Nat.le_trans hstart hstop)

theorem extentAbove?_placed (h : extentAbove? block (away lines edge .above) = some e) :
    e.Placed lines ∧ e.last < edge := by
  generalize hnear : away lines edge .above = near at h
  cases near with
  | nil => cases h
  | cons nearest more =>
    obtain ⟨line, i⟩ := nearest
    obtain ⟨hline, hbeyond, rfl⟩ := away_eq_cons hedge hnear
    simp only [extentAbove?, Option.bind_eq_bind, Option.bind_eq_some_iff] at h
    obtain ⟨closed, hclosed, ⟨first, start⟩, hopened, heq⟩ := h
    cases heq
    obtain ⟨hle, hclose⟩ := Pattern.within_of_mem_findAll (List.mem_of_getLast? hclosed)
    refine ⟨?_, hbeyond⟩
    rcases Option.or_eq_some_iff.mp hopened with hsame | ⟨-, hearlier⟩
    · -- it opens before the closing delimiter, on the same line
      obtain ⟨m, hm, heq⟩ := Option.map_eq_some_iff.mp hsame
      cases heq
      have hstop := (Pattern.find?_within hm).stop_le
      rw [List.length_take] at hstop
      exact Extent.Placed.ofLine hline (by omega) (by omega)
    · obtain ⟨⟨line', j⟩, hmem, hj⟩ := exists_mem_of_firstSome hearlier
      obtain ⟨m, hm, heq⟩ := Option.map_eq_some_iff.mp hj
      cases heq
      obtain ⟨hline', hlt⟩ := of_mem_away hmem
      exact Extent.Placed.ofLines hline' hline hlt (Pattern.find?_within hm).stop_le
        (Nat.le_trans hle hclose)

/-- **A block lies in the lines beside its definition.** -/
theorem extent?_placed {side : Placement}
    (h : extent? block side (away lines edge side) = some e) :
    e.Placed lines ∧ side.Beyond edge e.first ∧ side.Beyond edge e.last := by
  cases side with
  | below =>
    obtain ⟨hplaced, hlt⟩ := extentBelow?_placed hedge h
    exact ⟨hplaced, hlt, Nat.lt_of_lt_of_le hlt hplaced.first_le⟩
  | above =>
    obtain ⟨hplaced, hlt⟩ := extentAbove?_placed hedge h
    exact ⟨hplaced, Nat.lt_of_le_of_lt hplaced.first_le hlt, hlt⟩

end Extent

end Docstring

end CodeNav

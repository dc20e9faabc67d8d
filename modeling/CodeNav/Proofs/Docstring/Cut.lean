import CodeNav.Proofs.Docstring.Beside
import CodeNav.Proofs.Docstring.Body

/-!
# Lines cut from a source

Documentation is cut out of the lines of a source, a piece of each and in their order
(`CutFrom`). Every step from the lines of a comment to its documentation keeps that: taking
group 1 of each line of a run (`cutFrom_run`), taking the part of each line that is inside a
block, its decoration removed (`cutFrom_contents`), its indentation too, and keeping the core of
what is there (`Core.cutFrom_shown`).
-/

namespace CodeNav

open Text

/-- A part of a line without the decoration in front of it. -/
def BlockStyle.bare (block : BlockStyle) (part : List Char) : List Char :=
  match block.noise with
  | some noise => noise.dropFirst part
  | none => part

/-- Decoration stands at the front of a part, or nowhere. -/
def BlockStyle.IsFrontal (block : BlockStyle) : Prop :=
  ∀ noise ∈ block.noise, noise.regex.isAnchored = true

namespace Docstring

/-- The lines are pieces of the lines of a source from number `first` on, one of each. -/
def CutFrom (source : List (List Char)) (first : Nat) (body : List (List Char)) : Prop :=
  ∀ k piece, body[k]? = some piece → ∃ line, source[first + k]? = some line ∧ piece <:+: line

namespace CutFrom

variable {source body : List (List Char)} {first : Nat}

theorem single {line piece : List Char} (hline : source[first]? = some line)
    (hpiece : piece <:+: line) : CutFrom source first [piece] := by
  intro k l hl
  cases k with
  | zero =>
    cases hl
    exact ⟨line, hline, hpiece⟩
  | succ k => cases hl

/-- Cutting more off each line. -/
theorem map (h : CutFrom source first body) {f : List Char → List Char}
    (hf : ∀ line, f line <:+: line) : CutFrom source first (body.map f) := by
  intro k piece hpiece
  rw [List.getElem?_map, Option.map_eq_some_iff] at hpiece
  obtain ⟨l, hl, rfl⟩ := hpiece
  obtain ⟨line, hline, hpiece⟩ := h k l hl
  exact ⟨line, hline, (hf l).trans hpiece⟩

/-- Leaving lines out on both ends. -/
theorem middle {before kept after : List (List Char)}
    (h : CutFrom source first (before ++ kept ++ after)) :
    CutFrom source (first + before.length) kept := by
  intro k piece hpiece
  have hk : k < kept.length := (List.getElem?_eq_some_iff.mp hpiece).1
  rw [Nat.add_assoc]
  refine h (before.length + k) piece ?_
  rw [List.getElem?_append_left (by rw [List.length_append]; omega),
    List.getElem?_append_right (by omega), Nat.add_sub_cancel_left, hpiece]

/-- What a line does not hold is in no line that is cut from lines like it. -/
theorem notMem {c : Char} (h : CutFrom source first body) (hsource : ∀ line ∈ source, c ∉ line) :
    ∀ piece ∈ body, c ∉ piece := by
  intro piece hpiece hc
  obtain ⟨k, hk⟩ := List.mem_iff_getElem?.mp hpiece
  obtain ⟨line, hline, hpiece⟩ := h k piece hk
  exact hsource line (List.mem_of_getElem? hline) (hpiece.subset hc)

end CutFrom

/-- The core of a body is cut from lines further on, inside those the body is cut from. -/
theorem Core.cutFrom_shown {source body : List (List Char)} {first : Nat} (c : Core body)
    (h : CutFrom source first body) : CutFrom source (first + c.before.length) c.shown := by
  rw [c.body_eq] at h
  exact h.middle.map fun line => (isPrefix_trimEnd line).isInfix

theorem Core.length_shown_le {body : List (List Char)} (c : Core body) :
    c.before.length + c.shown.length ≤ body.length := by
  have hlength := congrArg List.length c.body_eq
  simp only [List.length_append] at hlength
  rw [shown, List.length_map]
  omega

/-! ## Runs of line comments -/

/-- The body of a line comment is a piece of its line. -/
theorem isInfix_of_bodyBy? {p : Pattern} {line body : List Char}
    (h : LineStyle.bodyBy? p line = some body) : body <:+: line := by
  obtain ⟨m, -, rfl⟩ := Option.map_eq_some_iff.mp h
  cases htext : Pattern.text? line m 1 with
  | none => exact List.nil_infix
  | some body =>
    obtain ⟨⟨start, stop⟩, -, rfl⟩ := Option.map_eq_some_iff.mp htext
    exact (List.take_prefix _ _).isInfix.trans (List.drop_suffix _ _).isInfix

section Run

variable {α β : Type} {f : α → Option β}

/-- A run holds the answers for the first elements of a list. -/
theorem getElem?_of_getElem?_mapWhile {l : List α} {k : Nat} {b : β}
    (h : (mapWhile f l)[k]? = some b) : ∃ a, l[k]? = some a ∧ f a = some b := by
  induction l generalizing k with
  | nil => cases h
  | cons a l ih =>
    rw [mapWhile] at h
    cases ha : f a with
    | none =>
      rw [ha] at h
      cases h
    | some b' =>
      rw [ha] at h
      cases k with
      | zero =>
        cases h
        exact ⟨a, rfl, ha⟩
      | succ k => exact ih h

theorem length_mapWhile_le (f : α → Option β) (l : List α) :
    (mapWhile f l).length ≤ l.length := by
  induction l with
  | nil => exact Nat.le_refl _
  | cons a l ih =>
    rw [mapWhile]
    split
    · exact Nat.succ_le_succ ih
    · exact Nat.zero_le _

end Run

/-- The run of a style away from an edge, in source order. -/
def runOf (style : LineStyle) (side : Placement) (near : List NumberedLine) : List (List Char) :=
  let bodies := mapWhile (fun (line, _) => style.leadingBody? line) near
  if side = .above then bodies.reverse else bodies

/-- The number of the first line of a run of `n` lines away from an edge. -/
def runStart (side : Placement) (edge n : Nat) : Nat :=
  match side with
  | .below => edge + 1
  | .above => edge - n

/-- The lines above an edge count down from it. -/
theorem getElem?_away_above {lines : List (List Char)} {edge k i : Nat} {line : List Char}
    (hedge : edge ≤ lines.length) (h : (away lines edge .above)[k]? = some (line, i)) :
    edge = i + k + 1 ∧ lines[i]? = some line := by
  have hlength : (lines.zipIdx.take edge).length = edge := by
    rw [List.length_take, List.length_zipIdx, Nat.min_eq_left hedge]
  have hk : k < edge := by
    have hlt := (List.getElem?_eq_some_iff.mp h).1
    rwa [away, List.length_reverse, hlength] at hlt
  rw [away, List.getElem?_reverse (by rwa [hlength]), hlength, List.getElem?_take,
    if_pos (by omega), List.getElem?_zipIdx, Option.map_eq_some_iff] at h
  obtain ⟨_, hline, heq⟩ := h
  simp only [Prod.mk.injEq, Nat.zero_add] at heq
  obtain ⟨rfl, rfl⟩ := heq
  exact ⟨by omega, hline⟩

/-- **A run of line comments is cut from the lines away from its edge.** -/
theorem cutFrom_run {lines : List (List Char)} {edge : Nat} (hedge : edge ≤ lines.length)
    (style : LineStyle) (side : Placement) :
    let run := runOf style side (away lines edge side)
    CutFrom lines (runStart side edge run.length) run ∧
      ∀ k < run.length, side.Beyond edge (runStart side edge run.length + k) := by
  cases side with
  | below =>
    refine ⟨fun k piece hpiece => ?_, fun k _ => Nat.le_add_right (edge + 1) k⟩
    obtain ⟨⟨line, i⟩, hline, hbody⟩ := getElem?_of_getElem?_mapWhile hpiece
    rw [away, List.getElem?_drop, List.getElem?_zipIdx, Option.map_eq_some_iff] at hline
    obtain ⟨_, hline, heq⟩ := hline
    cases heq
    exact ⟨line, hline, isInfix_of_bodyBy? hbody⟩
  | above =>
    have hle : (mapWhile (fun l : NumberedLine => style.leadingBody? l.1)
        (away lines edge .above)).length ≤ edge := by
      refine Nat.le_trans (length_mapWhile_le _ _) ?_
      rw [away, List.length_reverse]
      exact List.length_take_le _ _
    simp only [runOf, if_pos, runStart, List.length_reverse]
    generalize hbodies : mapWhile (fun l : NumberedLine => style.leadingBody? l.1)
      (away lines edge .above) = bodies at hle ⊢
    refine ⟨fun k piece hpiece => ?_, fun k hk => by simp only [Placement.Beyond]; omega⟩
    have hk : k < bodies.length := by
      rw [← List.length_reverse]
      exact (List.getElem?_eq_some_iff.mp hpiece).1
    rw [List.getElem?_reverse hk, ← hbodies] at hpiece
    obtain ⟨⟨line, i⟩, hnear, hbody⟩ := getElem?_of_getElem?_mapWhile hpiece
    obtain ⟨heq, hline⟩ := getElem?_away_above hedge hnear
    rw [hbodies] at heq
    have hi : edge - bodies.length + k = i := by omega
    exact ⟨line, hi ▸ hline, isInfix_of_bodyBy? hbody⟩

/-! ## Blocks -/

section Block

variable {e : Extent} {block : BlockStyle} {lines : List (List Char)}

section Part

variable {line : List Char} {i : Nat}

/-- Of a line between the delimiters, all is in the block. -/
theorem Extent.part_between (hfirst : i ≠ e.first) (hlast : i ≠ e.last) : e.part line i = line := by
  simp only [part, if_neg hfirst, if_neg hlast, slice, List.drop_zero, Nat.sub_zero,
    List.take_length]

theorem Extent.part_first (h : e.first ≠ e.last) : e.part line e.first = line.drop e.start := by
  simp only [part, if_neg h, if_pos, slice, ← List.length_drop, List.take_length]

theorem Extent.part_last (h : e.first ≠ e.last) : e.part line e.last = line.take e.stop := by
  simp only [part, if_neg h.symm, if_pos, slice, List.drop_zero, Nat.sub_zero]

end Part

/-- What the segments of a block are, and of which lines. -/
theorem getElem?_segments {k i : Nat} {segment : List Char}
    (h : (e.segments block lines)[k]? = some (segment, i)) :
    i = e.first + k ∧ k < e.last + 1 - e.first ∧
      ∃ line, lines[i]? = some line ∧ segment = block.bare (e.part line i) := by
  rw [Extent.segments, List.getElem?_map, Option.map_eq_some_iff] at h
  obtain ⟨⟨line, j⟩, hline, heq⟩ := h
  rw [List.getElem?_take] at hline
  split at hline
  · next hk =>
    rw [List.getElem?_drop, List.getElem?_zipIdx, Option.map_eq_some_iff] at hline
    obtain ⟨_, hline, heq'⟩ := hline
    simp only [Prod.mk.injEq, Nat.zero_add] at heq'
    obtain ⟨rfl, rfl⟩ := heq'
    cases heq
    exact ⟨rfl, hk, _, hline, rfl⟩
  · cases hline

/-- A segment is a piece of its line. -/
theorem isInfix_segment (hblock : block.IsFrontal) (line : List Char) (i : Nat) :
    block.bare (e.part line i) <:+: line := by
  have hpart : e.part line i <:+: line :=
    (List.take_prefix _ _).isInfix.trans (List.drop_suffix _ _).isInfix
  rw [BlockStyle.bare]
  cases hnoise : block.noise with
  | none => exact hpart
  | some noise => exact (Pattern.dropFirst_suffix (hblock noise hnoise) _).isInfix.trans hpart

/-- What stands on the lines of a block, without delimiters and decoration. -/
def Extent.contents (e : Extent) (block : BlockStyle) (lines : List (List Char)) :
    List (List Char) :=
  (e.segments block lines).map (·.1)

/-- The contents of a block that lies on lines that are known. -/
theorem contents_append {before body after : List (List Char)} (hfirst : e.first = before.length)
    (hlast : e.last + 1 = before.length + body.length) :
    e.contents block (before ++ body ++ after) =
      (body.zipIdx before.length).map fun l => block.bare (e.part l.1 l.2) := by
  have hlines : ((before ++ body ++ after).zipIdx.drop e.first).take (e.last + 1 - e.first) =
      body.zipIdx before.length := by
    have hcount : e.last + 1 - e.first = (body.zipIdx before.length).length := by
      rw [List.length_zipIdx]
      omega
    rw [List.append_assoc, List.zipIdx_append, Nat.zero_add, hfirst,
      List.drop_left' (List.length_zipIdx), List.zipIdx_append, ← hfirst, hcount, hfirst,
      List.take_left]
  rw [Extent.contents, Extent.segments, hlines, List.map_map]
  rfl

theorem map_segments (amount : Nat) :
    ((e.segments block lines).map fun (segment, _) => stripIndent amount segment) =
      (e.contents block lines).map (stripIndent amount) := by
  rw [Extent.contents, List.map_map]
  rfl

/-- **The body of a block is cut from the lines it lies on.** -/
theorem cutFrom_contents (hblock : block.IsFrontal) :
    CutFrom lines e.first (e.contents block lines) := by
  intro k piece hpiece
  rw [Extent.contents, List.getElem?_map, Option.map_eq_some_iff] at hpiece
  obtain ⟨⟨segment, i⟩, hsegment, rfl⟩ := hpiece
  obtain ⟨rfl, -, line, hline, rfl⟩ := getElem?_segments hsegment
  exact ⟨line, hline, isInfix_segment hblock line _⟩

theorem isInfix_stripIndent (amount : Nat) (line : List Char) : stripIndent amount line <:+: line :=
  (List.drop_suffix _ _).isInfix

theorem cutFrom_stripped (hblock : block.IsFrontal) (amount : Nat) :
    CutFrom lines e.first ((e.contents block lines).map (stripIndent amount)) :=
  (cutFrom_contents hblock).map (isInfix_stripIndent amount)

theorem length_contents_le : (e.contents block lines).length ≤ e.last + 1 - e.first := by
  rw [Extent.contents, List.length_map, Extent.segments, List.length_map]
  exact List.length_take_le _ _

end Block

end Docstring

end CodeNav

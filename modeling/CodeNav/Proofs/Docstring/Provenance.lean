import CodeNav.Proofs.Docstring.Careful
import CodeNav.Proofs.Language.Comments

/-!
# Where documentation comes from

The documentation of a definition, by its lines, is **cut from lines of the source that stand
below each other: the definition's own line, or lines on one side of it** (`Provenance`). It has a
line at least, text on its first and its last one, and no blank at the end of any.

* On the definition's line a trimmed piece is taken (`provenance_inline`).
* Beside it, what a run or a block yields is a core of lines cut from there
  (`Core.provenance`), and both are found away from the definition or from a line beyond it
  (`provenance_run`, `provenance_block`).

For the built-in languages that is all there is to find, and the search never reaches for
anything that is not there (`found_in_source`).
-/

namespace CodeNav.Docstring

open Text

/-- Documentation of the definition on line `d`, by its lines, and the source it comes from. -/
structure Provenance (source : List (List Char)) (side : Placement) (d : Nat)
    (doc : List (List Char)) : Prop where
  ne_nil : doc ≠ []
  text_first : ∀ line ∈ doc.head?, allBlank line = false
  text_last : ∀ line ∈ doc.getLast?, allBlank line = false
  no_blank_end : ∀ line ∈ doc, ∀ c ∈ line.getLast?, isBlank c = false
  cut : ∃ first, CutFrom source first doc ∧
    ((first = d ∧ doc.length = 1) ∨ ∀ k < doc.length, side.Beyond d (first + k))

variable {source : List (List Char)} {side : Placement} {d : Nat}

/-- The core of a body that is cut from lines on one side. -/
theorem Core.provenance {body : List (List Char)} (c : Core body) {first : Nat}
    (hcut : CutFrom source first body) (hside : ∀ k < body.length, side.Beyond d (first + k)) :
    Provenance source side d c.shown where
  ne_nil := c.shown_ne_nil
  text_first line hline := by
    rw [shown, List.head?_map, Option.mem_def, Option.map_eq_some_iff] at hline
    obtain ⟨l, hl, rfl⟩ := hline
    rw [allBlank_trimEnd]
    exact c.text_first l hl
  text_last line hline := by
    rw [shown, List.getLast?_map, Option.mem_def, Option.map_eq_some_iff] at hline
    obtain ⟨l, hl, rfl⟩ := hline
    rw [allBlank_trimEnd]
    exact c.text_last l hl
  no_blank_end line hline := by
    obtain ⟨l, -, rfl⟩ := List.mem_map.mp hline
    exact isBlank_getLast?_trimEnd
  cut := by
    refine ⟨_, c.cutFrom_shown hcut, .inr fun k hk => ?_⟩
    have hle := c.length_shown_le
    rw [Nat.add_assoc]
    exact hside _ (by omega)

/-- A comment on the definition's own line. -/
theorem provenance_inline {style : CommentStyle} {line doc : List Char}
    (hline : source[d]? = some line) (h : inline? style line = some doc) :
    Provenance source side d [doc] := by
  obtain ⟨s, hs, hdoc⟩ : ∃ s, s <:+: line ∧ nonBlank? s = some doc := by
    rw [inline?] at h
    rcases Option.or_eq_some_iff.mp h with hbody | ⟨-, hblock⟩
    · obtain ⟨body, htrailing, hdoc⟩ := Option.bind_eq_some_iff.mp hbody
      obtain ⟨style, -, htrailing⟩ := Option.bind_eq_some_iff.mp htrailing
      exact ⟨body, isInfix_of_bodyBy? htrailing, hdoc⟩
    · obtain ⟨block, -, hblock⟩ := Option.bind_eq_some_iff.mp hblock
      simp only [inlineBlock?, Option.bind_eq_bind, Option.bind_eq_some_iff] at hblock
      obtain ⟨opened, -, closed, -, hdoc⟩ := hblock
      exact ⟨_, (List.take_prefix _ _).isInfix.trans (List.drop_suffix _ _).isInfix, hdoc⟩
  obtain ⟨hpiece, htext, hend⟩ := nonBlank?_eq_some hdoc
  have hhead : ∀ l ∈ [doc].head?, allBlank l = false := by
    rintro l ⟨⟩
    exact htext
  refine ⟨List.cons_ne_nil _ _, hhead, hhead, ?_, d, ?_, .inl ⟨rfl, rfl⟩⟩
  · rw [List.forall_mem_singleton]
    exact hend
  · exact CutFrom.single hline (hpiece.trans hs)

section Beside

variable {ignore : Option Pattern} {doc : List Char} (hd : d ≤ source.length)

include hd

/-- What is not passed over lies on the side of the definition, and what is away from there too. -/
theorem exists_edge (ignore : Option Pattern) (side : Placement) :
    ∃ edge ≤ source.length, candidates source d ignore side = away source edge side ∧
      ∀ i, side.Beyond edge i → side.Beyond d i := by
  obtain ⟨edge, hbeyond, hedge, hnear⟩ := exists_candidates_eq hd ignore side
  refine ⟨edge, hedge, hnear, fun i hi => ?_⟩
  rcases hbeyond with rfl | hbeyond
  · exact hi
  · exact hbeyond.trans hi

/-- A run of line comments beside the definition. -/
theorem provenance_run {style : LineStyle}
    (h : lineRun? style side (candidates source d ignore side) = some doc) :
    ∃ ls, doc = unlines ls ∧ Provenance source side d ls := by
  obtain ⟨edge, hedge, hnear, hside⟩ := exists_edge hd ignore side
  rw [hnear, lineRun?] at h
  split at h
  · cases h
  · obtain ⟨c, rfl⟩ := finish?_eq_some_iff.mp h
    obtain ⟨hcut, hlies⟩ := cutFrom_run hedge style side
    exact ⟨c.shown, rfl, c.provenance hcut fun k hk => hside _ (hlies k hk)⟩

/-- A block beside the definition. -/
theorem provenance_block {block : BlockStyle} {e : Extent} (hblock : block.IsFrontal)
    (he : extent? block side (candidates source d ignore side) = some e) {amount : Nat}
    (h : finish? ((e.contents block source).map (stripIndent amount)) = some doc) :
    ∃ ls, doc = unlines ls ∧ Provenance source side d ls := by
  obtain ⟨edge, hedge, hnear, hside⟩ := exists_edge hd ignore side
  rw [hnear] at he
  obtain ⟨hplaced, hfirst, hlast⟩ := extent?_placed hedge he
  obtain ⟨c, rfl⟩ := finish?_eq_some_iff.mp h
  refine ⟨c.shown, rfl, c.provenance (cutFrom_stripped hblock amount) fun k hk => hside _ ?_⟩
  rw [List.length_map] at hk
  have hk := Nat.lt_of_lt_of_le hk length_contents_le
  cases side with
  | below => exact Nat.lt_of_lt_of_le hfirst (Nat.le_add_right _ _)
  | above =>
    have hle := hplaced.first_le
    simp only [Placement.Beyond] at hlast ⊢
    omega

end Beside

/-- What is found, by its lines. -/
theorem exists_provenance {styles : List CommentStyle}
    (hstyles : ∀ style ∈ styles, style.placement = side ∧ ∀ block ∈ style.block, block.IsFrontal)
    {ignore : Option Pattern} {text doc : String} (h : find? styles ignore text d = some doc) :
    ∃ ls, doc.toList = unlines ls ∧ Provenance (lines text.toList) side d ls := by
  have hreached : ∀ {style}, Reaches styles ignore (lines text.toList) d style →
      d ≤ (lines text.toList).length ∧ style ∈ styles := by
    intro style hreaches
    obtain ⟨line, hline, -⟩ := hreaches.not_inline
    obtain ⟨earlier, later, rfl, -⟩ := hreaches.not_earlier
    exact ⟨Nat.le_of_lt (List.getElem?_eq_some_iff.mp hline).1, by simp⟩
  rcases find?_cases h with ⟨line, hline, style, -, hinline⟩ | ⟨style, hreaches, hrun⟩ |
    ⟨block, e, hfrom⟩
  · exact ⟨[doc.toList], by simp [unlines, joinWith], provenance_inline hline hinline⟩
  · obtain ⟨hle, hmem⟩ := hreached hreaches
    obtain ⟨line, -, hrun⟩ := Option.bind_eq_some_iff.mp hrun
    rw [(hstyles style hmem).1] at hrun
    exact provenance_run hle hrun
  · obtain ⟨style, hreaches, hblock, -, he⟩ := hfrom.reached
    obtain ⟨hle, hmem⟩ := hreached hreaches
    obtain ⟨hside, hfrontal⟩ := hstyles style hmem
    have hfinished := hfrom.finished
    rw [map_segments] at hfinished
    exact provenance_block hle (hfrontal block hblock) (hside ▸ he) hfinished

/-- **Documentation of a built-in language comes from the source.** What is found has a text, and
its lines are cut from the definition's own line or from lines on the side that the language
documents on; and for every line of every text, there or not, the search looks up no line that
is not there and makes no cut that is out of range. -/
theorem found_in_source {p : Profile} (hp : p ∈ Builtin.profiles) (text : String) (d : Nat) :
    ∃ side, p.DocumentsOn side ∧
      (∀ doc, find? p.comments p.ignore text d = some doc →
        doc ≠ "" ∧ Provenance (lines text.toList) side d (splitAt '\n' doc.toList)) ∧
      Careful.find? p.comments p.ignore text d = .ok (find? p.comments p.ignore text d) := by
  obtain ⟨side, hside⟩ := Builtin.exists_side hp
  refine ⟨side, hside, fun doc hdoc => ?_, Careful.careful_find? p.comments p.ignore text d⟩
  obtain ⟨ls, hls, hprovenance⟩ := exists_provenance (fun style hstyle =>
    ⟨hside style hstyle, fun block hblock => Builtin.isFrontal_of_mem hp hstyle hblock⟩) hdoc
  obtain ⟨first, hcut, -⟩ := hprovenance.cut
  have hlines := hcut.notMem fun line hline => newline_notMem_of_mem_lines hline
  rw [← splitAt_unlines hprovenance.ne_nil hlines, ← hls] at hprovenance
  refine ⟨?_, hprovenance⟩
  rintro rfl
  exact Bool.noConfusion (hprovenance.text_first [] rfl)

/-- A block of four lines, two of them shown, and an annotation between it and its definition. -/
def annotated : String :=
  "class A \x7b\n  /**\n   * Runs it.\n   *   Twice.\n   */\n  @Override\n  void run() \x7b\x7d\n"

/-- Two lines of a block are shown, and they come from the lines above the annotation. -/
theorem annotated_found_in_source : ∃ p ∈ Builtin.profiles, p.id = "java" ∧
    find? p.comments p.ignore annotated 6 = some "Runs it.\n  Twice." ∧
    Provenance (lines annotated.toList) .above 6 ["Runs it.".toList, "  Twice.".toList] ∧
    Careful.find? p.comments p.ignore annotated 6 = .ok (some "Runs it.\n  Twice.") := by
  have hjava : ∃ t ∈ Builtin.texts, t.id = "java" ∧ t.read?.any fun p =>
      p.id = "java" ∧ find? p.comments p.ignore annotated 6 = some "Runs it.\n  Twice." ∧
        ¬ p.DocumentsOn .below := by
    decide +kernel
  obtain ⟨p, hp, hq⟩ := Builtin.exists_profile hjava
  obtain ⟨hid, hfind, hbelow⟩ := of_decide_eq_true hq
  obtain ⟨side, hside, hfound, hcareful⟩ := found_in_source hp annotated 6
  obtain rfl : side = .above := by
    cases side with
    | above => rfl
    | below => exact absurd hside hbelow
  exact ⟨p, hp, hid, hfind, (hfound _ hfind).2, hfind ▸ hcareful⟩

end CodeNav.Docstring

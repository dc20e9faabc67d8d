import CodeNav.Proofs.Language.Comments
import CodeNav.Proofs.Docstring.Search

/-!
# How far a block is moved to the left

`Answers` says that the documentation of a definition is that of a block beside it: nothing is
found on the definition's line, by the styles tried before, or as a run of line comments. Of such
a block the lines with text are shown, and between them the blank ones; **each loses the
indentation of the first one, or all of its own if it has less** (`dedented`). What is left of a
line begins where its text does, or further left (`trimStart_stripIndent`).

Text behind the opening delimiter counts as indented like the line it is on, whatever stands
between the two. So **the first line shown is flush exactly if it has a line for itself, or no
more blanks behind the delimiter than there are in front of it**, and not always.
-/

namespace CodeNav.Docstring

open Text

/-! ## Stripping an indentation -/

/-- Only blanks are stripped, and those behind them stay in front of the text. -/
theorem stripIndent_eq (amount : Nat) (line : List Char) :
    stripIndent amount line = (line.takeWhile isBlank).drop amount ++ trimStart line := by
  have hline : line = line.takeWhile isBlank ++ trimStart line :=
    List.takeWhile_append_dropWhile.symm
  have hle : min amount (leadingBlanks line) ≤ (line.takeWhile isBlank).length :=
    Nat.min_le_right _ _
  have hamount : (line.takeWhile isBlank).drop (min amount (leadingBlanks line)) =
      (line.takeWhile isBlank).drop amount := by
    rcases Nat.le_total amount (leadingBlanks line) with hle | hle
    · rw [Nat.min_eq_left hle]
    · rw [Nat.min_eq_right hle, List.drop_eq_nil_of_le hle, leadingBlanks, List.drop_length]
  calc stripIndent amount line
    _ = (line.takeWhile isBlank ++ trimStart line).drop (min amount (leadingBlanks line)) := by
        rw [← hline, stripIndent]
    _ = (line.takeWhile isBlank).drop amount ++ trimStart line := by
        rw [List.drop_append_of_le_length hle, hamount]

theorem leadingBlanks_eq_zero {line : List Char} (h : ∀ c ∈ line.head?, isBlank c = false) :
    leadingBlanks line = 0 := by
  rw [leadingBlanks, List.length_eq_zero_iff]
  cases line with
  | nil => rfl
  | cons c line => exact List.takeWhile_cons_of_neg (Bool.eq_false_iff.mp (h c rfl))

theorem head?_trimStart (line : List Char) : ∀ c ∈ (trimStart line).head?, isBlank c = false := by
  intro c hc
  have hnot := List.head?_dropWhile_not isBlank line
  rw [trimStart] at hc
  rw [Option.mem_def.mp hc] at hnot
  simpa using hnot

/-- What a line keeps of its indentation. -/
theorem leadingBlanks_stripIndent (amount : Nat) (line : List Char) :
    leadingBlanks (stripIndent amount line) = leadingBlanks line - amount := by
  have hblank : ∀ c ∈ (line.takeWhile isBlank).drop amount, isBlank c = true :=
    fun c hc => List.mem_takeWhile_imp (List.mem_of_mem_drop hc)
  have htext : (trimStart line).takeWhile isBlank = [] :=
    List.length_eq_zero_iff.mp (leadingBlanks_eq_zero (head?_trimStart line))
  rw [stripIndent_eq, leadingBlanks, List.takeWhile_append_of_pos hblank, htext, List.append_nil,
    List.length_drop, leadingBlanks]

theorem trimStart_stripIndent (amount : Nat) (line : List Char) :
    trimStart (stripIndent amount line) = trimStart line := by
  have hblank : ∀ c ∈ (line.takeWhile isBlank).drop amount, isBlank c = true :=
    fun c hc => List.mem_takeWhile_imp (List.mem_of_mem_drop hc)
  rw [stripIndent_eq, trimStart, List.dropWhile_append_of_pos hblank, ← trimStart, trimStart,
    trimStart, List.dropWhile_idempotent]

theorem allBlank_stripIndent (amount : Nat) (line : List Char) :
    allBlank (stripIndent amount line) = allBlank line := by
  have hblank : ∀ l : List Char, allBlank l = (trimStart l).isEmpty := by
    intro l
    rw [Bool.eq_iff_iff, List.isEmpty_iff, trimStart, List.dropWhile_eq_nil_iff, allBlank,
      List.all_eq_true]
  rw [hblank, hblank, trimStart_stripIndent]

/-- Trimming the end of a line with text leaves its indentation alone. -/
theorem leadingBlanks_trimEnd {line : List Char} (h : allBlank line = false) :
    leadingBlanks (trimEnd line) = leadingBlanks line := by
  obtain ⟨behind, hbehind⟩ := isPrefix_trimEnd line
  have hshort : ((trimEnd line).takeWhile isBlank).length ≠ (trimEnd line).length := by
    intro hall
    have hfull := (List.takeWhile_prefix isBlank).eq_of_length hall
    have hblank : allBlank (trimEnd line) = true :=
      List.all_eq_true.mpr (List.takeWhile_eq_self_iff.mp hfull)
    rw [allBlank_trimEnd, h] at hblank
    cases hblank
  conv_rhs => rw [← hbehind]
  rw [leadingBlanks, leadingBlanks, List.takeWhile_append, if_neg hshort]

/-! ## The lines of a block -/

namespace Core

variable {body : List (List Char)}

/-- The first line with text. -/
def first (c : Core body) : List Char := c.kept.head c.kept_ne_nil

/-- The lines as they are shown after moving them to the left: each without as many blanks in
front as the margin is wide, or without all it has if these are fewer. -/
def moved (c : Core body) (margin : Nat) : List (List Char) :=
  c.kept.map fun line => trimEnd (stripIndent margin line)

/-- The core of lines that were changed where that matters to no blank line. -/
theorem exists_of_map {f : List Char → List Char} (hf : ∀ l, allBlank (f l) = allBlank l)
    (c : Core (body.map f)) :
    ∃ c' : Core body, c.kept = c'.kept.map f := by
  obtain ⟨front, after, hbody, hfront, hafter⟩ := List.map_eq_append_iff.mp c.body_eq
  obtain ⟨before, kept, rfl, hbefore, hkept⟩ := List.map_eq_append_iff.mp hfront
  have hblank : ∀ {l : List (List Char)}, (∀ line ∈ l.map f, allBlank line = true) →
      ∀ line ∈ l, allBlank line = true := by
    intro l hl line hline
    rw [← hf]
    exact hl _ (List.mem_map_of_mem hline)
  refine ⟨⟨before, kept, after, hbody, ?_, ?_, ?_, ?_, ?_⟩, hkept.symm⟩
  · rintro rfl
    exact c.kept_ne_nil hkept.symm
  · exact hblank (hbefore ▸ c.blank_before)
  · exact hblank (hafter ▸ c.blank_after)
  · intro line hline
    have hmem : f line ∈ c.kept.head? := by
      rw [← hkept, List.head?_map, Option.mem_def.mp hline]
      rfl
    rw [← hf]
    exact c.text_first _ hmem
  · intro line hline
    have hmem : f line ∈ c.kept.getLast? := by
      rw [← hkept, List.getLast?_map, Option.mem_def.mp hline]
      rfl
    rw [← hf]
    exact c.text_last _ hmem

end Core

section Block

variable {e : Extent} {block : BlockStyle} {source : List (List Char)}

/-- The indentation of a block whose first line with text is known: that of the line itself, or
of the line of the opening delimiter, if the text stands there. -/
def Extent.margin (e : Extent) (source : List (List Char))
    (c : Core (e.contents block source)) : Nat :=
  if c.before = [] then leadingBlanks (source[e.first]?.getD []) else leadingBlanks c.first

/-- The indentation is measured on the first line with text. -/
theorem indent_eq_margin (c : Core (e.contents block source)) :
    e.indent source (e.segments block source) = e.margin source c := by
  obtain ⟨front, after, hsegments, hfront, -⟩ := List.map_eq_append_iff.mp c.body_eq
  obtain ⟨before, kept, rfl, hbefore, hkept⟩ := List.map_eq_append_iff.mp hfront
  cases kept with
  | nil => exact absurd hkept.symm c.kept_ne_nil
  | cons l kept =>
    obtain ⟨segment, i⟩ := l
    have hfirst : c.first = segment := by
      simp only [Core.first, ← hkept, List.map_cons, List.head_cons]
    have htext : allBlank segment = false := by
      refine c.text_first segment ?_
      rw [← hkept]
      rfl
    have hblank : ∀ l ∈ before, (!allBlank l.1) = false := by
      intro l hl
      rw [c.blank_before l.1 (hbefore ▸ List.mem_map_of_mem hl)]
      rfl
    have hfind : (e.segments block source).find? (fun l => !allBlank l.1) = some (segment, i) := by
      rw [hsegments, List.append_assoc, List.find?_append,
        List.find?_eq_none.mpr fun l hl => Bool.eq_false_iff.mp (hblank l hl)]
      simp [htext]
    have hi : i = e.first + before.length := by
      have hget : (e.segments block source)[before.length]? = some (segment, i) := by
        rw [hsegments, List.append_assoc, List.getElem?_append_right (Nat.le_refl _), Nat.sub_self]
        rfl
      exact (getElem?_segments hget).1
    have hnil : i = e.first ↔ c.before = [] := by
      rw [← hbefore, List.map_eq_nil_iff, ← List.length_eq_zero_iff]
      omega
    rw [Extent.indent, hfind, Extent.margin, hfirst]
    exact if_congr hnil rfl rfl

end Block

/-! ## What is shown of a block -/

section Dedented

variable {styles : List CommentStyle} {ignore : Option Pattern} {source : List (List Char)}
  {d : Nat} {block : BlockStyle} {e : Extent} {doc : List Char}

/-- The documentation of a block, by the lines it is made of. -/
theorem FromBlock.exists_core (h : FromBlock styles ignore source d block e doc) :
    ∃ c : Core (e.contents block source), doc = unlines (c.moved (e.margin source c)) := by
  have hfinished := h.finished
  rw [map_segments] at hfinished
  obtain ⟨shown, rfl⟩ := finish?_eq_some_iff.mp hfinished
  obtain ⟨c, hkept⟩ := shown.exists_of_map (allBlank_stripIndent _)
  refine ⟨c, ?_⟩
  rw [Core.shown, hkept, List.map_map, indent_eq_margin c]
  rfl

/-- A text is read by its lines if no line feed gets into them. -/
theorem splitAt_moved (hblock : block.IsFrontal) (hsource : ∀ line ∈ source, '\n' ∉ line)
    (c : Core (e.contents block source)) (margin : Nat) :
    splitAt '\n' (unlines (c.moved margin)) = c.moved margin := by
  have hcut : CutFrom source e.first (e.contents block source) := cutFrom_contents hblock
  rw [c.body_eq] at hcut
  refine splitAt_unlines (by simpa [Core.moved] using c.kept_ne_nil) ?_
  exact (hcut.middle.map fun line =>
    (isPrefix_trimEnd _).isInfix.trans (isInfix_stripIndent margin line)).notMem hsource

/-- The first line shown is flush if the margin is as wide as its indentation. -/
theorem Core.flush_moved_iff {body : List (List Char)} (c : Core body) {margin : Nat} :
    (∀ line ∈ (c.moved margin).head?, leadingBlanks line = 0) ↔
      leadingBlanks c.first ≤ margin := by
  have hhead : c.kept.head? = some c.first := List.head?_eq_some_head c.kept_ne_nil
  have htext : allBlank (stripIndent margin c.first) = false := by
    rw [allBlank_stripIndent]
    exact c.text_first _ hhead
  rw [moved, List.head?_map, hhead]
  simp only [Option.map_some, Option.mem_def, Option.some.injEq, forall_eq',
    leadingBlanks_trimEnd htext, leadingBlanks_stripIndent, Nat.sub_eq_zero_iff_le]

end Dedented

/-- **A block is moved to the left by the indentation of its first line with text.** Its lines
with text, and those between them, are shown in order; each loses as many blanks as its margin,
or all it has, and the blanks at its end. The first line shown is flush unless it stands behind
the opening delimiter, with more blanks in front than the line of the delimiter has. -/
theorem dedented {p : Profile} (hp : p ∈ Builtin.profiles) {text : String} {d : Nat}
    {block : BlockStyle} {e : Extent} {doc : List Char}
    (h : FromBlock p.comments p.ignore (lines text.toList) d block e doc) :
    find? p.comments p.ignore text d = some (String.ofList doc) ∧
    ∃ c : Core (e.contents block (lines text.toList)),
      splitAt '\n' doc = c.moved (e.margin (lines text.toList) c) ∧
      ((∀ line ∈ (splitAt '\n' doc).head?, leadingBlanks line = 0) ↔
        (c.before = [] →
          leadingBlanks c.first ≤ leadingBlanks ((lines text.toList)[e.first]?.getD []))) := by
  refine ⟨h.find?_eq, ?_⟩
  have hfrontal : block.IsFrontal := by
    obtain ⟨style, hreaches, hblock, -⟩ := h.reached
    obtain ⟨earlier, later, hstyles, -⟩ := hreaches.not_earlier
    exact Builtin.isFrontal_of_mem hp (hstyles ▸ List.mem_append_right _ List.mem_cons_self) hblock
  obtain ⟨c, rfl⟩ := h.exists_core
  have hsplit := splitAt_moved hfrontal (fun line hline => newline_notMem_of_mem_lines hline) c
    (e.margin (lines text.toList) c)
  refine ⟨c, hsplit, ?_⟩
  rw [hsplit, c.flush_moved_iff, Extent.margin]
  split
  · next hnil => simp [hnil]
  · next hne => simp [hne]

/-- Documentation of a built-in language that is neither on the definition's line nor in a run
comes from a block. -/
theorem exists_fromBlock (id text : String) (d : Nat) (doc : String)
    (h : ∃ t ∈ Builtin.texts, t.id = id ∧ t.read?.any fun p =>
      p.id = id ∧ find? p.comments p.ignore text d = some doc ∧
        ∀ style ∈ p.comments, (∀ line ∈ (lines text.toList)[d]?, inline? style line = none) ∧
          style.line.bind (lineRun? · style.placement
            (candidates (lines text.toList) d p.ignore style.placement)) = none) :
    ∃ p ∈ Builtin.profiles, p.id = id ∧
      ∃ block e, FromBlock p.comments p.ignore (lines text.toList) d block e doc.toList := by
  obtain ⟨p, hp, hq⟩ := Builtin.exists_profile h
  obtain ⟨hid, hfind, hstyles⟩ := of_decide_eq_true hq
  refine ⟨p, hp, hid, ?_⟩
  rcases find?_cases hfind with ⟨line, hline, style, hmem, hinline⟩ | ⟨style, hreaches, hrun⟩ |
    hblock
  · rw [(hstyles style hmem).1 line hline] at hinline
    cases hinline
  · obtain ⟨earlier, later, heq, -⟩ := hreaches.not_earlier
    have hmem : style ∈ p.comments := heq ▸ List.mem_append_right _ List.mem_cons_self
    rw [(hstyles style hmem).2] at hrun
    cases hrun
  · exact hblock

/-- Text behind the delimiter and below it. -/
def hanging : String := "def f():\n    \"\"\"Runs it.\n      Twice.\n    \"\"\"\n"

/-- Both lines lose the four blanks in front of the delimiter. -/
theorem hanging_dedented : ∃ p ∈ Builtin.profiles, p.id = "python" ∧
    ∃ block e, FromBlock p.comments p.ignore (lines hanging.toList) 0 block e
      "Runs it.\n  Twice.".toList ∧
    ∃ c : Core (e.contents block (lines hanging.toList)),
      ["Runs it.".toList, "  Twice.".toList] = c.moved (e.margin (lines hanging.toList) c) := by
  obtain ⟨p, hp, hid, block, e, hblock⟩ :=
    exists_fromBlock "python" hanging 0 "Runs it.\n  Twice." (by decide +kernel)
  obtain ⟨-, c, hc, -⟩ := dedented hp hblock
  exact ⟨p, hp, hid, block, e, hblock, c, hc⟩

/-- Text behind the delimiter, on a line without indentation. -/
def unindented : String := "/** Runs it. */\nvoid run() \x7b\x7d\n"

/-- The text keeps the blank between the delimiter and itself. -/
theorem unindented_not_flush : ∃ p ∈ Builtin.profiles, p.id = "java" ∧
    find? p.comments p.ignore unindented 1 = some " Runs it." ∧
    ∃ block e, FromBlock p.comments p.ignore (lines unindented.toList) 1 block e
      " Runs it.".toList ∧
    ¬ ∀ line ∈ (splitAt '\n' " Runs it.".toList).head?, leadingBlanks line = 0 := by
  obtain ⟨p, hp, hid, block, e, hblock⟩ :=
    exists_fromBlock "java" unindented 1 " Runs it." (by decide +kernel)
  refine ⟨p, hp, hid, hblock.find?_eq, block, e, hblock, fun h => ?_⟩
  exact absurd (h " Runs it.".toList rfl) (by decide)

end CodeNav.Docstring

import CodeNav.Docstring
import CodeNav.Proofs.Text.Lines

/-!
# What is kept of a body

The lines of a comment become documentation in two steps: blank lines go from both ends, and
blanks go from the ends of lines. `Core` is what the first step keeps, with the blank lines on
its two sides. **Documentation is the core of a body, its lines trimmed at their ends, and there
is none exactly if the whole body is blank** (`finish?_eq_some_iff`).
-/

namespace CodeNav.Docstring

open Text

/-- The lines of a body without the blank ones on both ends. -/
structure Core (body : List (List Char)) where
  before : List (List Char)
  kept : List (List Char)
  after : List (List Char)
  body_eq : body = before ++ kept ++ after
  kept_ne_nil : kept ≠ []
  blank_before : ∀ line ∈ before, allBlank line = true
  blank_after : ∀ line ∈ after, allBlank line = true
  text_first : ∀ line ∈ kept.head?, allBlank line = false
  text_last : ∀ line ∈ kept.getLast?, allBlank line = false

namespace Core

variable {body : List (List Char)}

/-- The lines as they are shown. -/
def shown (c : Core body) : List (List Char) := c.kept.map trimEnd

/-- What the two passes over the ends leave. -/
def ofKept (h : (body.dropWhile allBlank).rdropWhile allBlank ≠ []) : Core body where
  before := body.takeWhile allBlank
  kept := (body.dropWhile allBlank).rdropWhile allBlank
  after := (body.dropWhile allBlank).rtakeWhile allBlank
  body_eq := by
    rw [List.append_assoc, List.rdropWhile_append_rtakeWhile, List.takeWhile_append_dropWhile]
  kept_ne_nil := h
  blank_before line hline := List.mem_takeWhile_imp hline
  blank_after line hline := List.mem_rtakeWhile_imp hline
  text_first line hline := by
    have hfirst : line ∈ (body.dropWhile allBlank).head? := by
      obtain ⟨rest, hrest⟩ := List.rdropWhile_prefix allBlank (body.dropWhile allBlank)
      rw [← hrest, List.head?_append, Option.mem_def.mp hline]
      rfl
    have hnot := List.head?_dropWhile_not allBlank body
    rw [Option.mem_def.mp hfirst] at hnot
    simpa using hnot
  text_last line hline := by
    obtain ⟨hne, rfl⟩ := List.mem_getLast?_eq_getLast hline
    exact Bool.eq_false_iff.mpr (List.rdropWhile_last_not allBlank _ hne)

/-- Dropping lines in front as long as they are blank leaves the core and what is behind it. -/
theorem dropWhile_eq (c : Core body) : body.dropWhile allBlank = c.kept ++ c.after := by
  obtain ⟨line, rest, hkept⟩ := List.exists_cons_of_ne_nil c.kept_ne_nil
  have hline : allBlank line = false := c.text_first line (by rw [hkept]; rfl)
  rw [congrArg (List.dropWhile allBlank) c.body_eq, List.append_assoc,
    List.dropWhile_append_of_pos c.blank_before, hkept, List.cons_append,
    List.dropWhile_cons_of_neg (Bool.eq_false_iff.mp hline)]

theorem rdropWhile_eq (c : Core body) :
    (body.dropWhile allBlank).rdropWhile allBlank = c.kept := by
  have hafter : ∀ line ∈ c.after.reverse, allBlank line = true := by
    simpa using c.blank_after
  have hlast : ∀ hne : c.kept ≠ [], ¬ allBlank (c.kept.getLast hne) = true := fun hne =>
    Bool.eq_false_iff.mp (c.text_last _ (List.getLast_mem_getLast? hne))
  rw [c.dropWhile_eq, List.rdropWhile, List.reverse_append,
    List.dropWhile_append_of_pos hafter]
  exact List.rdropWhile_eq_self_iff.mpr hlast

theorem shown_ne_nil (c : Core body) : c.shown ≠ [] := by
  simpa [shown] using c.kept_ne_nil

end Core

/-- **Documentation is the core of a body, as it is shown.** -/
theorem finish?_eq_some_iff {body : List (List Char)} {doc : List Char} :
    finish? body = some doc ↔ ∃ c : Core body, doc = unlines c.shown := by
  have hfinish : finish? body =
      if ((body.dropWhile allBlank).rdropWhile allBlank).isEmpty then none
      else some (unlines (((body.dropWhile allBlank).rdropWhile allBlank).map trimEnd)) := rfl
  rw [hfinish]
  constructor
  · intro h
    split at h
    · cases h
    · next hne =>
      cases h
      exact ⟨Core.ofKept (by simpa using hne), rfl⟩
  · rintro ⟨c, rfl⟩
    rw [c.rdropWhile_eq, if_neg (by simpa using c.kept_ne_nil), Core.shown]

/-- A text that is not blank, trimmed, is a piece of it that no blank stands at an end of. -/
theorem nonBlank?_eq_some {s t : List Char} (h : nonBlank? s = some t) :
    t <:+: s ∧ allBlank t = false ∧ ∀ c ∈ t.getLast?, isBlank c = false := by
  rw [nonBlank?] at h
  split at h
  · cases h
  · next hne =>
    cases h
    refine ⟨isInfix_trim s, ?_, isBlank_getLast?_trimEnd⟩
    rw [trim, allBlank_trimEnd]
    refine Bool.eq_false_iff.mpr fun hblank => hne ?_
    rw [trim, List.isEmpty_iff, trimEnd_eq_nil_iff]
    exact List.all_eq_true.mp hblank

end CodeNav.Docstring

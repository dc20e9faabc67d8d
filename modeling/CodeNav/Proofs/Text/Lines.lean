import CodeNav.Proofs.Text.Pieces
import Mathlib.Data.List.DropRight
import Mathlib.Data.List.Infix

/-!
# Lines and what trimming leaves of them

A line holds no line feed (`newline_notMem_of_mem_lines`), so **lines written below each other
are cut apart again as they were** (`splitAt_unlines`), as is all that is put together from pieces
without separators (`splitAt_joinWith`). A text is put together again from its pieces
(`joinWith_splitAt`), each of which ends at separators (`exists_of_mem_splitAt`).

Trimming takes blanks from the ends of a text only: what is left is a piece of the text, and no
blank stands at a trimmed end of it.
-/

namespace CodeNav.Text

/-! ## Lines -/

/-- A text is split at every separator. -/
theorem sep_notMem_of_mem_splitAt {sep : Char} {s piece : List Char} (h : piece ∈ splitAt sep s) :
    sep ∉ piece := by
  induction s generalizing piece with
  | nil =>
    rw [splitAt, List.mem_singleton] at h
    simp [h]
  | cons c s ih =>
    by_cases hc : c = sep
    · rw [splitAt, if_pos hc] at h
      rcases List.mem_cons.mp h with rfl | h
      · exact List.not_mem_nil
      · exact ih h
    · obtain ⟨front, pieces, hs, hcons⟩ := splitAt_cons_ne s hc
      rw [hcons] at h
      rcases List.mem_cons.mp h with rfl | h
      · have hfront : sep ∉ front := ih (hs ▸ List.mem_cons_self)
        simpa [Ne.symm hc] using hfront
      · exact ih (hs ▸ List.mem_cons_of_mem _ h)

/-- The pieces of a text are pieces of it, the first one at its front. -/
theorem isInfix_splitAt (sep : Char) (s : List Char) :
    (∀ piece ∈ (splitAt sep s).head?, piece <+: s) ∧ ∀ piece ∈ splitAt sep s, piece <:+: s := by
  induction s with
  | nil => simp [splitAt]
  | cons c s ih =>
    obtain ⟨hfront, hpieces⟩ := ih
    by_cases hc : c = sep
    · rw [splitAt, if_pos hc, List.forall_mem_cons]
      refine ⟨?_, List.nil_infix, fun piece hpiece => ?_⟩
      · rintro _ ⟨⟩
        exact List.nil_prefix
      · exact List.infix_cons (hpieces piece hpiece)
    · obtain ⟨front, pieces, hs, hcons⟩ := splitAt_cons_ne s hc
      rw [hs] at hfront hpieces
      have hlonger : c :: front <+: c :: s := List.prefix_cons_inj c |>.mpr (hfront front rfl)
      rw [hcons, List.forall_mem_cons]
      refine ⟨?_, hlonger.isInfix, fun piece hpiece => ?_⟩
      · rintro _ ⟨⟩
        exact hlonger
      · exact List.infix_cons (hpieces piece (List.mem_cons_of_mem _ hpiece))

/-- A line is shortened at its end only. -/
theorem isPrefix_dropReturn (line : List Char) : dropReturn line <+: line := by
  rw [dropReturn]
  split
  · exact List.dropLast_prefix line
  · exact List.prefix_refl line

/-- No line goes on over its end. -/
theorem newline_notMem_of_mem_lines {s line : List Char} (h : line ∈ lines s) : '\n' ∉ line := by
  obtain ⟨piece, hpiece, rfl⟩ := List.mem_map.mp h
  exact fun hmem => sep_notMem_of_mem_splitAt hpiece ((isPrefix_dropReturn piece).subset hmem)

/-- So what does not stand in a text stands in none of its lines. -/
theorem isInfix_of_mem_lines {s line : List Char} (h : line ∈ lines s) : line <:+: s := by
  obtain ⟨piece, hpiece, rfl⟩ := List.mem_map.mp h
  exact (isPrefix_dropReturn piece).isInfix.trans ((isInfix_splitAt '\n' s).2 piece hpiece)

/-- Even the empty text has a line. -/
theorem lines_ne_nil (s : List Char) : lines s ≠ [] := by
  rw [lines, ne_eq, List.map_eq_nil_iff]
  exact splitAt_ne_nil '\n' s

/-- A line that ends is split off. -/
theorem splitAt_line {l : List Char} (h : '\n' ∉ l) (rest : List Char) :
    splitAt '\n' (l ++ '\n' :: rest) = l :: splitAt '\n' rest := by
  rw [splitAt_append, splitAt_of_not_mem h, List.singleton_append]

/-! ## Pieces put together -/

theorem joinWith_singleton (sep p : List Char) : joinWith sep [p] = p := List.intercalate_singleton

theorem joinWith_cons_cons (sep p q : List Char) (ps : List (List Char)) :
    joinWith sep (p :: q :: ps) = p ++ sep ++ joinWith sep (q :: ps) := List.intercalate_cons_cons

/-- Joining part by part takes a separator between the parts, unless one of them is empty. -/
theorem joinWith_append {sep : List Char} {ps qs : List (List Char)} (hps : ps ≠ [])
    (hqs : qs ≠ []) : joinWith sep (ps ++ qs) = joinWith sep ps ++ sep ++ joinWith sep qs := by
  induction ps with
  | nil => exact absurd rfl hps
  | cons p ps ih =>
    cases ps with
    | nil =>
      obtain ⟨q, qs, rfl⟩ := List.exists_cons_of_ne_nil hqs
      rw [List.singleton_append, joinWith_cons_cons, joinWith_singleton]
    | cons p' ps =>
      have ih := ih (List.cons_ne_nil p' ps)
      rw [List.cons_append] at ih
      rw [List.cons_append, List.cons_append, joinWith_cons_cons, ih, joinWith_cons_cons]
      simp only [List.append_assoc]

theorem joinWith_concat {sep : List Char} {ps : List (List Char)} (h : ps ≠ []) (p : List Char) :
    joinWith sep (ps ++ [p]) = joinWith sep ps ++ sep ++ p := by
  rw [joinWith_append h (List.cons_ne_nil p []), joinWith_singleton]

/-- A character of joined texts is from one of them, or the separator. -/
theorem mem_joinWith {sep c : Char} {ps : List (List Char)} (h : c ∈ joinWith [sep] ps) :
    c = sep ∨ ∃ p ∈ ps, c ∈ p := by
  induction ps with
  | nil => cases h
  | cons p ps ih =>
    cases ps with
    | nil =>
      rw [joinWith_singleton] at h
      exact .inr ⟨p, List.mem_cons_self, h⟩
    | cons q ps =>
      rw [joinWith_cons_cons, List.append_assoc] at h
      rcases List.mem_append.mp h with h | h
      · exact .inr ⟨p, List.mem_cons_self, h⟩
      · rcases List.mem_cons.mp h with h | h
        · exact .inl h
        · rcases ih h with h | ⟨p, hp, hc⟩
          · exact .inl h
          · exact .inr ⟨p, List.mem_cons_of_mem _ hp, hc⟩

/-- **Pieces without separators are read back as they were written.** -/
theorem splitAt_joinWith {sep : Char} {ps : List (List Char)} (hne : ps ≠ [])
    (h : ∀ p ∈ ps, sep ∉ p) : splitAt sep (joinWith [sep] ps) = ps := by
  induction ps with
  | nil => exact absurd rfl hne
  | cons p ps ih =>
    obtain ⟨hp, hps⟩ := List.forall_mem_cons.mp h
    cases ps with
    | nil =>
      rw [joinWith_singleton]
      exact splitAt_of_not_mem hp
    | cons q qs =>
      rw [joinWith_cons_cons, List.append_assoc, List.singleton_append, splitAt_append,
        splitAt_of_not_mem hp, List.singleton_append, ih (List.cons_ne_nil _ _) hps]

/-- Lines without line feeds are read back as they were written. -/
theorem splitAt_unlines {ls : List (List Char)} (hne : ls ≠ []) (h : ∀ l ∈ ls, '\n' ∉ l) :
    splitAt '\n' (unlines ls) = ls :=
  splitAt_joinWith hne h

/-- A text is put together again from its pieces. -/
theorem joinWith_splitAt (sep : Char) (s : List Char) : joinWith [sep] (splitAt sep s) = s := by
  induction s with
  | nil => rfl
  | cons c s ih =>
    by_cases hc : c = sep
    · obtain ⟨piece, pieces, hs⟩ := List.exists_cons_of_ne_nil (splitAt_ne_nil sep s)
      rw [splitAt, if_pos hc, hs, joinWith_cons_cons, ← hs, ih, hc]
      rfl
    · obtain ⟨piece, pieces, hs, hcons⟩ := splitAt_cons_ne s hc
      rw [hcons]
      rw [hs] at ih
      cases pieces with
      | nil => rw [joinWith_singleton, ← ih, joinWith_singleton]
      | cons p ps => rw [joinWith_cons_cons, ← ih, joinWith_cons_cons, List.cons_append,
          List.cons_append]

/-- **A piece ends at separators**, or where the text does. -/
theorem exists_of_mem_splitAt {sep : Char} {s piece : List Char} (h : piece ∈ splitAt sep s) :
    ∃ front back, s = front ++ piece ++ back ∧ (∀ c ∈ front.getLast?, c = sep) ∧
      ∀ c ∈ back.head?, c = sep := by
  obtain ⟨ps, qs, hpieces⟩ := List.append_of_mem h
  have hfront : ∃ front, (∀ c ∈ front.getLast?, c = sep) ∧
      joinWith [sep] (ps ++ piece :: qs) = front ++ joinWith [sep] (piece :: qs) := by
    by_cases hps : ps = []
    · exact ⟨[], by simp, by rw [hps]; rfl⟩
    · refine ⟨joinWith [sep] ps ++ [sep], ?_, joinWith_append hps (List.cons_ne_nil _ _)⟩
      simp
  have hback : ∃ back, (∀ c ∈ back.head?, c = sep) ∧
      joinWith [sep] (piece :: qs) = piece ++ back := by
    cases qs with
    | nil => exact ⟨[], by simp, by rw [joinWith_singleton, List.append_nil]⟩
    | cons q qs =>
      refine ⟨sep :: joinWith [sep] (q :: qs), by simp, ?_⟩
      rw [joinWith_cons_cons, List.append_assoc, List.singleton_append]
  obtain ⟨front, hlast, heq⟩ := hfront
  obtain ⟨back, hhead, heq'⟩ := hback
  refine ⟨front, back, ?_, hlast, hhead⟩
  rw [← joinWith_splitAt sep s, hpieces, heq, heq', List.append_assoc]

/-! ## Trimming -/

/-- Trimming the end leaves a beginning. -/
theorem isPrefix_trimEnd (s : List Char) : trimEnd s <+: s := List.rdropWhile_prefix isBlank s

/-- What is left of a trimmed text stood in it. -/
theorem isInfix_trim (s : List Char) : trim s <:+: s :=
  (isPrefix_trimEnd _).isInfix.trans (List.dropWhile_suffix _).isInfix

/-- Trimming takes blanks away. -/
theorem exists_of_trim (s : List Char) :
    ∃ a b, s = a ++ trim s ++ b ∧ (∀ c ∈ a, isBlank c = true) ∧ ∀ c ∈ b, isBlank c = true := by
  refine ⟨s.takeWhile isBlank, (trimStart s).rtakeWhile isBlank, ?_,
    fun c => List.mem_takeWhile_imp, fun c => List.mem_rtakeWhile_imp⟩
  have hend : trim s ++ (trimStart s).rtakeWhile isBlank = trimStart s := by
    rw [List.rtakeWhile, trim, trimEnd, dropTail, ← List.reverse_append,
      List.takeWhile_append_dropWhile, List.reverse_reverse]
  rw [List.append_assoc, hend, trimStart, List.takeWhile_append_dropWhile]

/-- No blank stands at a trimmed end. -/
theorem isBlank_getLast?_trimEnd {s : List Char} :
    ∀ c ∈ (trimEnd s).getLast?, isBlank c = false := by
  intro c hc
  obtain ⟨hne, rfl⟩ := List.mem_getLast?_eq_getLast hc
  exact Bool.eq_false_iff.mpr (List.rdropWhile_last_not isBlank s hne)

/-- Trimming leaves a text alone that does not end in a blank. -/
theorem trimEnd_eq_self {s : List Char} (h : ∀ c ∈ s.getLast?, isBlank c = false) :
    trimEnd s = s := by
  refine List.rdropWhile_eq_self_iff.mpr fun hne => ?_
  simpa using h _ (List.getLast_mem_getLast? hne)

/-- Whether a text is blank is not decided by the blanks at its end. -/
theorem allBlank_trimEnd (s : List Char) : allBlank (trimEnd s) = allBlank s := by
  rw [Bool.eq_iff_iff, allBlank, allBlank, List.all_eq_true, List.all_eq_true]
  constructor
  · intro h
    refine trimEnd_eq_nil_iff.mp (List.eq_nil_iff_forall_not_mem.mpr ?_)
    have hnil : (trimEnd s).getLast? = none := by
      cases hlast : (trimEnd s).getLast? with
      | none => rfl
      | some c =>
        have hblank := h c (List.mem_of_getLast? hlast)
        rw [isBlank_getLast?_trimEnd c hlast] at hblank
        cases hblank
    rw [List.getLast?_eq_none_iff.mp hnil]
    exact fun _ => List.not_mem_nil
  · exact fun h c hc => h c ((isPrefix_trimEnd s).subset hc)

end CodeNav.Text

import CodeNav.Text.Lines
import Mathlib.Data.List.TakeWhile

/-!
# Cutting texts

`Text.splitAt` is a homomorphism at its separator: a text that is cut at one place of the
separator is cut into the pieces of its two halves.

`Text.trim` leaves nothing of a text exactly if it is blank (`trim_eq_nil_iff`).

`Text.words` is a homomorphism at every blank (`words_append_blank`) and undoes writing words
with spaces between them (`words_joinWith`), and `Text.cutAt?` finds a mark of two characters
behind any text without it (`cutAt?_append_mark`): the text may end in the first character of
the mark.
-/

namespace CodeNav.Text

theorem splitAt_ne_nil (sep : Char) (s : List Char) : splitAt sep s ≠ [] := by
  cases s with
  | nil => simp [splitAt]
  | cons c rest =>
    rw [splitAt]
    split
    · simp
    · split <;> simp

/-- A character that is no separator goes to the front of the first piece. -/
theorem splitAt_cons_ne {sep c : Char} (rest : List Char) (hc : c ≠ sep) :
    ∃ piece pieces, splitAt sep rest = piece :: pieces ∧
      splitAt sep (c :: rest) = (c :: piece) :: pieces := by
  obtain ⟨piece, pieces, h⟩ := List.exists_cons_of_ne_nil (splitAt_ne_nil sep rest)
  exact ⟨piece, pieces, h, by simp [splitAt, hc, h]⟩

theorem splitAt_append (sep : Char) (a b : List Char) :
    splitAt sep (a ++ sep :: b) = splitAt sep a ++ splitAt sep b := by
  induction a with
  | nil => simp [splitAt]
  | cons c a ih =>
    by_cases hc : c = sep
    · simp [splitAt, hc, ih]
    · obtain ⟨piece, pieces, h, h'⟩ := splitAt_cons_ne a hc
      rw [h', List.cons_append, splitAt, if_neg hc, ih, h]
      rfl

theorem splitAt_of_not_mem {sep : Char} {s : List Char} (h : sep ∉ s) : splitAt sep s = [s] := by
  induction s with
  | nil => rfl
  | cons c s ih =>
    obtain ⟨hc, hs⟩ := List.ne_and_not_mem_of_not_mem_cons h
    rw [splitAt, if_neg (Ne.symm hc), ih hs]

/-! ## Trimming -/

theorem trimEnd_eq_nil_iff {s : List Char} : trimEnd s = [] ↔ ∀ c ∈ s, isBlank c = true := by
  rw [trimEnd, dropTail, List.reverse_eq_nil_iff, List.dropWhile_eq_nil_iff]
  simp

/-- Nothing is left of a blank text, and of no other. -/
theorem trim_eq_nil_iff {s : List Char} : trim s = [] ↔ allBlank s := by
  rw [trim, trimEnd_eq_nil_iff, allBlank, List.all_eq_true]
  constructor
  · intro h c hc
    rw [← List.takeWhile_append_dropWhile (p := isBlank) (l := s)] at hc
    rcases List.mem_append.mp hc with hc | hc
    · exact List.mem_takeWhile_imp hc
    · exact h c hc
  · intro h c hc
    exact h c ((List.dropWhile_suffix _).subset hc)

theorem isEmpty_trimmed (s : String) : (trimmed s).isEmpty = isBlankText s := by
  rw [Bool.eq_iff_iff, isBlankText, ← trim_eq_nil_iff, trimmed, String.isEmpty_iff,
    String.ofList_eq_empty_iff]

/-! ## Words -/

/-- No character is blank. -/
def Unbroken (s : List Char) : Prop := ∀ c ∈ s, isBlank c = false

instance (s : List Char) : Decidable (Unbroken s) := List.decidableBAll _ s

@[simp] theorem unbroken_nil : Unbroken [] := nofun

@[simp] theorem unbroken_cons {c : Char} {s : List Char} :
    Unbroken (c :: s) ↔ isBlank c = false ∧ Unbroken s := List.forall_mem_cons

@[simp] theorem unbroken_append {s t : List Char} :
    Unbroken (s ++ t) ↔ Unbroken s ∧ Unbroken t := List.forall_mem_append

/-- Characters that are not blank go to the word that is being read. -/
theorem wordsFrom_append {s : List Char} (hs : Unbroken s) (word rest : List Char) :
    wordsFrom word (s ++ rest) = wordsFrom (s.reverse ++ word) rest := by
  induction s generalizing word with
  | nil => rfl
  | cons c s ih =>
    rw [unbroken_cons] at hs
    rw [List.cons_append, wordsFrom, hs.1, if_neg Bool.false_ne_true, ih hs.2]
    simp

/-- A blank ends the word that is being read, if there is one. -/
theorem wordsFrom_append_blank {c : Char} (hc : isBlank c = true) (s : List Char)
    (word t : List Char) :
    wordsFrom word (s ++ c :: t) = wordsFrom word s ++ wordsFrom [] t := by
  induction s generalizing word with
  | nil =>
    rw [List.nil_append, wordsFrom, wordsFrom, if_pos hc]
    split <;> rfl
  | cons d s ih =>
    rw [List.cons_append, wordsFrom, wordsFrom]
    split
    · split
      · exact ih []
      · rw [ih [], List.cons_append]
    · exact ih (d :: word)

/-- **At a blank, a text is cut into the words before it and those behind it.** -/
theorem words_append_blank {c : Char} (hc : isBlank c = true) (s t : List Char) :
    words (s ++ c :: t) = words s ++ words t :=
  wordsFrom_append_blank hc s [] t

/-- **Words are read back as they were written.** -/
theorem words_joinWith {ws : List (List Char)} (h : ∀ w ∈ ws, w ≠ [] ∧ Unbroken w) :
    words (joinWith [' '] ws) = ws := by
  have hblank : isBlank ' ' = true := by decide
  induction ws with
  | nil => rfl
  | cons w ws ih =>
    obtain ⟨⟨hne, hw⟩, hws⟩ := List.forall_mem_cons.mp h
    have ih := ih hws
    have hrev : (w.reverse ++ []).isEmpty = false := by simpa using hne
    simp only [words, joinWith] at ih ⊢
    cases ws with
    | nil =>
      rw [List.intercalate_singleton, ← List.append_nil w, wordsFrom_append hw]
      simp [wordsFrom, hne]
    | cons v vs =>
      rw [List.intercalate_cons_cons, List.append_assoc, wordsFrom_append hw, List.singleton_append,
        wordsFrom, if_pos hblank, hrev, if_neg Bool.false_ne_true, ih]
      simp

/-! ## Marks -/

theorem dropLead?_eq_some_iff {lead s rest : List Char} :
    dropLead? lead s = some rest ↔ s = lead ++ rest := by
  rw [dropLead?]
  split
  · next h =>
    obtain ⟨t, rfl⟩ := List.isPrefixOf_iff_prefix.mp h
    simp
  · next h =>
    refine ⟨nofun, ?_⟩
    rintro rfl
    exact absurd (List.isPrefixOf_iff_prefix.mpr (List.prefix_append _ _)) h

/-- What is cut is the text. -/
theorem eq_of_cutAt? {mark s before after : List Char}
    (h : cutAt? mark s = some (before, after)) : s = before ++ mark ++ after := by
  induction s generalizing before with
  | nil =>
    rw [cutAt?] at h
    split at h
    · next hmark =>
      cases h
      simpa using hmark
    · cases h
  | cons c s ih =>
    rw [cutAt?] at h
    split at h
    · next hlead =>
      cases h
      simpa using dropLead?_eq_some_iff.mp hlead
    · obtain ⟨⟨before', after'⟩, hcut, heq⟩ := Option.map_eq_some_iff.mp h
      cases heq
      rw [ih hcut]
      simp

/-- A text is cut exactly if the mark stands in it. -/
theorem cutAt?_eq_none_iff {mark s : List Char} (hmark : mark ≠ []) :
    cutAt? mark s = none ↔ ¬ mark <:+: s := by
  induction s with
  | nil => simp [cutAt?, hmark]
  | cons c s ih =>
    rw [cutAt?, List.infix_cons_iff, not_or, ← ih]
    cases hlead : dropLead? mark (c :: s) with
    | some rest =>
      have hfront : mark <+: c :: s := ⟨rest, (dropLead?_eq_some_iff.mp hlead).symm⟩
      simp [hfront]
    | none =>
      have hfront : ¬ mark <+: c :: s := by
        rintro ⟨rest, hrest⟩
        rw [dropLead?_eq_some_iff.mpr hrest.symm] at hlead
        cases hlead
      simp [hfront]

/-- A mark occurs in a text if it stands in it. -/
theorem occurs_iff {mark s : List Char} (hmark : mark ≠ []) :
    occurs mark s = true ↔ mark <:+: s := by
  rw [occurs, Option.isSome_iff_ne_none, ne_eq, cutAt?_eq_none_iff hmark, not_not]

/-- What is found in a text is found there whatever follows the text. -/
theorem cutAt?_append {mark s before after : List Char} (hmark : mark ≠ [])
    (h : cutAt? mark s = some (before, after)) (t : List Char) :
    cutAt? mark (s ++ t) = some (before, after ++ t) := by
  induction s generalizing before with
  | nil => simp [cutAt?, hmark] at h
  | cons c s ih =>
    rw [cutAt?] at h
    rw [List.cons_append, cutAt?]
    split at h
    · next hlead =>
      cases h
      have heq : c :: (s ++ t) = mark ++ (after ++ t) := by
        rw [← List.cons_append, dropLead?_eq_some_iff.mp hlead, List.append_assoc]
      rw [dropLead?_eq_some_iff.mpr heq]
    · next hlead =>
      obtain ⟨⟨before', after'⟩, hcut, heq⟩ := Option.map_eq_some_iff.mp h
      cases heq
      cases hlead' : dropLead? mark (c :: (s ++ t)) with
      | none => simp [ih hcut]
      | some rest =>
        -- the mark fits into `s`, so at the front it would have been found without `t`
        have hfits : mark.length ≤ (c :: s).length := by
          rw [eq_of_cutAt? hcut]
          simp only [List.length_cons, List.length_append]
          omega
        have hfront : mark <+: c :: s :=
          List.prefix_of_prefix_length_le ⟨rest, (dropLead?_eq_some_iff.mp hlead').symm⟩
            (List.prefix_append (c :: s) t) hfits
        obtain ⟨rest', hrest'⟩ := hfront
        rw [dropLead?_eq_some_iff.mpr hrest'.symm] at hlead
        cases hlead

section Mark

variable {x y : Char} {s : List Char}

theorem cutAt?_cons_ne {c : Char} (hc : c ≠ x) :
    cutAt? [x, y] (c :: s) = (cutAt? [x, y] s).map fun (before, after) => (c :: before, after) := by
  simp [cutAt?, dropLead?, List.isPrefixOf, Ne.symm hc]

/-- No mark begins where none began before `x` was put behind the text. -/
theorem dropLead?_append_half (hxy : x ≠ y) {c : Char}
    (h : dropLead? [x, y] (c :: s) = none) (t : List Char) :
    dropLead? [x, y] (c :: (s ++ x :: t)) = none := by
  cases s with
  | nil => simp [dropLead?, List.isPrefixOf, hxy.symm]
  | cons d s => simpa [dropLead?, List.isPrefixOf] using h

/-- A mark of two characters is found right behind a text that does not hold it. -/
theorem cutAt?_append_mark (hxy : x ≠ y) (hs : cutAt? [x, y] s = none) (t : List Char) :
    cutAt? [x, y] (s ++ x :: y :: t) = some (s, t) := by
  induction s with
  | nil => simp [cutAt?, dropLead?, List.isPrefixOf]
  | cons c s ih =>
    rw [cutAt?] at hs
    split at hs
    · cases hs
    · next hlead =>
      rw [Option.map_eq_none_iff] at hs
      simp [cutAt?, dropLead?_append_half hxy hlead, ih hs]

/-- The first character of a mark alone is no mark. -/
theorem cutAt?_append_half (hxy : x ≠ y) (hs : cutAt? [x, y] s = none) :
    cutAt? [x, y] (s ++ [x]) = none := by
  induction s with
  | nil => simp [cutAt?, dropLead?, List.isPrefixOf]
  | cons c s ih =>
    rw [cutAt?] at hs
    split at hs
    · cases hs
    · next hlead =>
      rw [Option.map_eq_none_iff] at hs
      simp [cutAt?, dropLead?_append_half hxy hlead, ih hs]

end Mark

end CodeNav.Text

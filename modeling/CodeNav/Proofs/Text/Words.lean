import CodeNav.Proofs.Text.Lines

/-!
# Words in a text

A word stands between blanks, so what stands in front of the first of them and behind the last is
of no account: **a word of a text that is written inside another one, between blanks, is a word of
that text too** (`mem_words_of_blank`).
-/

namespace CodeNav.Text

variable {w b s t : List Char}

/-- Blanks in front hold no word. -/
theorem words_blanks_append (hb : ∀ c ∈ b, isBlank c = true) (t : List Char) :
    words (b ++ t) = words t := by
  induction b with
  | nil => rfl
  | cons c b ih =>
    obtain ⟨hc, hb⟩ := List.forall_mem_cons.mp hb
    exact (words_append_blank hc [] (b ++ t)).trans (ih hb)

theorem words_of_unbroken (hne : w ≠ []) (hw : Unbroken w) : words w = [w] := by
  rw [words, ← List.append_nil w, wordsFrom_append hw]
  simp [wordsFrom, hne]

/-- A word is read up to the blank behind it. -/
theorem words_append (hne : w ≠ []) (hw : Unbroken w) (ht : ∀ c ∈ t.head?, isBlank c = true) :
    words (w ++ t) = w :: words t := by
  cases t with
  | nil =>
    rw [List.append_nil, words_of_unbroken hne hw]
    rfl
  | cons c t =>
    have htail : words (c :: t) = words t := words_append_blank (ht c rfl) [] t
    rw [words_append_blank (ht c rfl), words_of_unbroken hne hw, htail, List.singleton_append]

/-- A word is read up to the gap behind it. -/
theorem words_append_gap (hne : w ≠ []) (hw : Unbroken w) (hgap : b ≠ [])
    (hb : ∀ c ∈ b, isBlank c = true) (t : List Char) : words (w ++ (b ++ t)) = w :: words t := by
  obtain ⟨c, b, rfl⟩ := List.exists_cons_of_ne_nil hgap
  have hhead : ∀ d ∈ (c :: b ++ t).head?, isBlank d = true := by
    rintro _ ⟨⟩
    exact hb c List.mem_cons_self
  rw [words_append hne hw hhead, words_blanks_append hb]

/-- **What stands between blanks is a word.** -/
theorem mem_words_of_blank {c : Char} (hc : isBlank c = true) (hne : w ≠ []) (hw : Unbroken w)
    (ht : ∀ d ∈ t.head?, isBlank d = true) : w ∈ words (s ++ c :: (w ++ t)) := by
  rw [words_append_blank hc, words_append hne hw ht]
  exact List.mem_append_right _ List.mem_cons_self

end CodeNav.Text

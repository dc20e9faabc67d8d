import CodeNav.Checkout.Repository
import CodeNav.Proofs.Query.Text
import CodeNav.Proofs.Text.Pieces
import CodeNav.Query.Local

/-!
# The form of a query for the index alone

The term that asks the index alone gets its place in two ways: while a query is built, and by a
search through the terms of a finished one. **Both put it into the same place**
(`toIndexOnly_build`), since no term before the flags looks like a flag, whatever the token, the
names and the path are.

A local checkout has no index and skips the term. Since a query is cut at every blank, be it
between two terms or inside one, a term more is a few words more and moves none of the others
(`words_text`): **a checkout reads both forms alike**, with the same faults
(`parse_toIndexOnly`).
-/

namespace CodeNav.Query

open Text LocalQuery

/-! ## One place for the term -/

/-- What stands before the term of the index and the flags behind it. -/
def body (kind : QueryKind) (input : QueryInput) : List String :=
  front kind input ++ scopeTerms input

/-- The flags about forks and archives that a query ends with. -/
def trailingTerms (input : QueryInput) : List String :=
  (if input.includeForks then ["fork:yes"] else []) ++
    (if input.includeArchived then ["archived:yes"] else [])

theorem terms_build_of_indexOnly (kind : QueryKind) (input : QueryInput) :
    (build kind { input with indexOnly := true }).terms =
      body kind input ++ indexTerm :: trailingTerms input := by
  simp [build, body, front, trailingTerms, scopeTerms]

theorem terms_build_of_not_indexOnly (kind : QueryKind) (input : QueryInput) :
    (build kind { input with indexOnly := false }).terms =
      body kind input ++ trailingTerms input := by
  simp [build, body, front, trailingTerms, scopeTerms]

theorem ne_indexTerm_of_mem {kind : QueryKind} {input : QueryInput} {t : String}
    (h : t ∈ body kind input ++ trailingTerms input) : t ≠ indexTerm := by
  rintro rfl
  rcases List.mem_append.mp h with h | h
  · rcases List.mem_append.mp h with h | h
    · exact (noFlag_of_mem_front h).ne_indexTerm rfl
    · exact (noFlag_of_mem_scopeTerms h).ne_indexTerm rfl
  · simp only [trailingTerms, List.mem_append, List.mem_ite_nil_right, List.mem_singleton] at h
    rcases h with ⟨-, h⟩ | ⟨-, h⟩ <;> exact absurd h (by decide)

theorem not_isTrailingFlag_of_mem_body {kind : QueryKind} {input : QueryInput} {t : String}
    (h : t ∈ body kind input) : isTrailingFlag t = false := by
  rcases List.mem_append.mp h with h | h
  · exact (noFlag_of_mem_front h).1
  · exact (noFlag_of_mem_scopeTerms h).1

/-- The trailing flags begin where the body ends. -/
theorem span_body (kind : QueryKind) (input : QueryInput) :
    (body kind input ++ trailingTerms input).takeWhile (!isTrailingFlag ·) = body kind input ∧
      (body kind input ++ trailingTerms input).dropWhile (!isTrailingFlag ·) =
        trailingTerms input := by
  have hbody : ∀ t ∈ body kind input, (!isTrailingFlag t) = true := fun t ht => by
    simp [not_isTrailingFlag_of_mem_body ht]
  have htrailing : (trailingTerms input).takeWhile (!isTrailingFlag ·) = [] ∧
      (trailingTerms input).dropWhile (!isTrailingFlag ·) = trailingTerms input := by
    rw [trailingTerms]
    cases input.includeForks <;> cases input.includeArchived <;> decide
  rw [List.takeWhile_append_of_pos hbody, List.dropWhile_append_of_pos hbody, htrailing.1,
    htrailing.2, List.append_nil]
  exact ⟨rfl, rfl⟩

/-- A query that is built asks the index alone exactly if it was built for that. -/
theorem isIndexOnly_build (kind : QueryKind) (input : QueryInput) :
    (build kind input).isIndexOnly = input.indexOnly := by
  have hflags : indexTerm ∈ flagTerms input ↔ input.indexOnly = true := by
    simp [flagTerms, indexTerm]
  rw [Bool.eq_iff_iff, isIndexOnly, List.contains_iff_mem, terms_build, List.mem_append,
    List.mem_append, hflags]
  constructor
  · rintro (h | h | h)
    · exact absurd rfl (noFlag_of_mem_front h).ne_indexTerm
    · exact absurd rfl (noFlag_of_mem_scopeTerms h).ne_indexTerm
    · exact h
  · exact fun h => .inr (.inr h)

/-- **Asking the index alone while building and afterwards gives the same query.** -/
theorem toIndexOnly_build (kind : QueryKind) (input : QueryInput) :
    (build kind input).toIndexOnly = build kind { input with indexOnly := true } := by
  rw [toIndexOnly, isIndexOnly_build]
  cases hindex : input.indexOnly with
  | true =>
    rw [if_pos rfl, ← hindex]
  | false =>
    have hterms : (build kind input).terms = body kind input ++ trailingTerms input := by
      rw [← terms_build_of_not_indexOnly, ← hindex]
    obtain ⟨htake, hdrop⟩ := span_body kind input
    rw [if_neg Bool.false_ne_true, hterms, htake, hdrop, ← terms_build_of_indexOnly]

theorem toIndexOnly_toIndexOnly (q : Query) : q.toIndexOnly.toIndexOnly = q.toIndexOnly := by
  have hmem : q.toIndexOnly.isIndexOnly = true := by
    by_cases h : q.isIndexOnly = true
    · rwa [toIndexOnly, if_pos h]
    · rw [toIndexOnly, if_neg h, isIndexOnly, List.contains_iff_mem]
      exact List.mem_append_right _ List.mem_cons_self
  rw [toIndexOnly, if_pos hmem]

/-- Without its term, the query for the index alone is the plain query. -/
theorem filter_toIndexOnly_build (kind : QueryKind) (input : QueryInput) :
    (build kind input).toIndexOnly.terms.filter (· ≠ indexTerm) =
      (build kind { input with indexOnly := false }).terms := by
  have hkeep : (body kind input ++ trailingTerms input).filter (· ≠ indexTerm) =
      body kind input ++ trailingTerms input :=
    List.filter_eq_self.mpr fun t ht => by simpa using ne_indexTerm_of_mem ht
  rw [List.filter_append] at hkeep
  rw [toIndexOnly_build, terms_build_of_indexOnly, terms_build_of_not_indexOnly,
    List.filter_append, List.filter_cons_of_neg (by simp), hkeep]

/-! ## A checkout reads both forms alike -/

/-- The words of a query are the words of its terms. -/
theorem words_text (q : Query) : words q.text.toList = q.terms.flatMap (words ·.toList) := by
  have hblank : isBlank ' ' = true := by decide
  obtain ⟨ts⟩ := q
  induction ts with
  | nil => rfl
  | cons t ts ih =>
    cases ts with
    | nil => simp [text]
    | cons u us =>
      rw [List.flatMap_cons, ← ih, ← words_append_blank hblank]
      simp [text]

/-- A query that does not ask the index alone is told apart from the form that does. -/
theorem text_toIndexOnly_ne {q : Query} (hq : q.isIndexOnly = false) :
    q.toIndexOnly.text ≠ q.text := by
  intro heq
  obtain ⟨front, back, hplain, hindex⟩ : ∃ front back, q.terms = front ++ back ∧
      q.toIndexOnly.terms = front ++ indexTerm :: back :=
    ⟨_, _, List.takeWhile_append_dropWhile.symm, by rw [toIndexOnly, if_neg (by simp [hq])]⟩
  -- the term for the index is one more word
  have hterm : (words indexTerm.toList).length = 1 := by decide
  have hlength := congrArg (fun t : String => (words t.toList).length) heq
  simp only [words_text, hplain, hindex, List.flatMap_append, List.flatMap_cons,
    List.length_append, hterm] at hlength
  omega

/-- A term that is read as a flag changes nothing, wherever it stands. -/
theorem parse_insert_flag (ts us : List String) {t : String}
    (ht : (words t.toList).map Term.read = [.flag]) :
    parse (⟨ts ++ t :: us⟩ : Query).text = parse (⟨ts ++ us⟩ : Query).text := by
  have hskip : ∀ (d : Draft) (rest : List Term),
      (Term.flag :: rest).foldlM Draft.add d = rest.foldlM Draft.add d := fun _ _ => rfl
  simp only [parse, words_text, List.flatMap_append, List.flatMap_cons, List.map_append, ht,
    List.foldlM_append, List.singleton_append, hskip]

/-- **The form for the index alone reads as the query itself**, faults included. -/
theorem parse_toIndexOnly (q : Query) : parse q.toIndexOnly.text = parse q.text := by
  have hflag : (words indexTerm.toList).map Term.read = [.flag] := by decide
  rw [toIndexOnly]
  split
  · rfl
  · rw [parse_insert_flag _ _ hflag, List.takeWhile_append_dropWhile]

/-- **The form for the index alone commutes with building and cannot be told apart by a
checkout.** For every query that is built: asking the index alone afterwards is asking it while
building; asking for it twice is asking once; without its term the plain query is left; and a
checkout reads the same query or reports the same fault, so it makes the same search of it. -/
theorem index_form_invisible (kind : QueryKind) (input : QueryInput) :
    (build kind input).toIndexOnly = build kind { input with indexOnly := true } ∧
      (build kind input).toIndexOnly.toIndexOnly = (build kind input).toIndexOnly ∧
      (build kind input).toIndexOnly.terms.filter (· ≠ indexTerm) =
        (build kind { input with indexOnly := false }).terms ∧
      parse (build kind input).toIndexOnly.text = parse (build kind input).text ∧
      ∀ {τ : Type} (c : Checkout) (tree : FileTree) (tool : SearchTool τ) (fileLocal : Bool)
        (t : Nat) (s : τ),
        c.search tree tool (build kind input).toIndexOnly.text fileLocal t s =
          c.search tree tool (build kind input).text fileLocal t s := by
  have hparse := parse_toIndexOnly (build kind input)
  refine ⟨toIndexOnly_build kind input, toIndexOnly_toIndexOnly _,
    filter_toIndexOnly_build kind input, hparse, ?_⟩
  intro τ c tree tool fileLocal t s
  rw [Checkout.search, Checkout.search, hparse]

end CodeNav.Query

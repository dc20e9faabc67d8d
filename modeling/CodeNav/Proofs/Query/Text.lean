import CodeNav.Query.Basic

/-!
# The texts of queries

The terms of a query are a **front** that does not depend on how far it reaches, the terms of
the scope, and flags (`terms_build`). The form for the index alone adds its term behind the
front (`exists_terms`). So the first character behind the front tells the scope, and **queries
for the same token with different scopes have different texts** (`scope_eq_of_text_eq`), in
either form, whatever the token and the name of the repository are.
-/

namespace CodeNav.Query

/-- The terms before those of the scope. -/
def front (kind : QueryKind) (input : QueryInput) : List String :=
  patternTerms input.token kind ++
    ("patternType:regexp" :: "case:yes" :: (extensionTerm? input.path input.extensions).toList)

/-- The terms behind those of the scope. -/
def flagTerms (input : QueryInput) : List String :=
  (if input.indexOnly then [indexTerm] else []) ++
    ((if input.includeForks then ["fork:yes"] else []) ++
      (if input.includeArchived then ["archived:yes"] else []))

theorem terms_build (kind : QueryKind) (input : QueryInput) :
    (build kind input).terms = front kind input ++ (scopeTerms input ++ flagTerms input) := by
  simp [build, front, flagTerms]

theorem front_ne_nil (kind : QueryKind) (input : QueryInput) : front kind input ≠ [] := by
  cases kind <;> simp [front, patternTerms]

/-- A term that cannot be taken for a flag, the term of the index included. -/
def NoFlag (t : String) : Prop := isTrailingFlag t = false ∧ t.toList.head? ≠ some 'i'

theorem NoFlag.ne_indexTerm {t : String} (h : NoFlag t) : t ≠ indexTerm := by
  rintro rfl
  exact h.2 (by decide)

/-- No flag stands in front. -/
theorem noFlag_of_mem_front {kind : QueryKind} {input : QueryInput} {t : String}
    (h : t ∈ front kind input) : NoFlag t := by
  have hextension : ∀ t ∈ extensionTerm? input.path input.extensions, NoFlag t := by
    intro t ht
    rw [extensionTerm?] at ht
    split at ht
    · cases ht
    · cases ht
      simp [NoFlag, isTrailingFlag, List.isPrefixOf]
  simp only [front, List.mem_append, List.mem_cons, Option.mem_toList] at h
  rcases h with h | rfl | rfl | h
  · cases kind <;> simp only [patternTerms, List.mem_cons, List.not_mem_nil, or_false] at h <;>
      rcases h with rfl | rfl <;> simp [NoFlag, isTrailingFlag, List.isPrefixOf]
  · exact ⟨by decide, by decide⟩
  · exact ⟨by decide, by decide⟩
  · exact hextension t h

/-- A query in one of its two forms: as it is, or for the index alone. -/
def IsForm (q form : Query) : Prop := form = q ∨ form = q.toIndexOnly

/-- Either form of a query keeps what stands before the flags. -/
theorem IsForm.exists_append {q form : Query} (hform : q.IsForm form) {ts rest : List String}
    (hterms : q.terms = ts ++ rest) (hts : ∀ t ∈ ts, isTrailingFlag t = false) :
    ∃ rest', form.terms = ts ++ rest' ∧
      (rest' = rest ∨ rest' = rest.takeWhile (!isTrailingFlag ·) ++
        indexTerm :: rest.dropWhile (!isTrailingFlag ·)) := by
  rcases hform with rfl | rfl
  · exact ⟨rest, hterms, .inl rfl⟩
  · rw [toIndexOnly]
    split
    · exact ⟨rest, hterms, .inl rfl⟩
    · refine ⟨_, ?_, .inr rfl⟩
      have hkeep : ∀ t ∈ ts, (!isTrailingFlag t) = true := fun t ht => by simp [hts t ht]
      rw [hterms, List.takeWhile_append_of_pos hkeep, List.dropWhile_append_of_pos hkeep,
        List.append_assoc]

theorem noFlag_of_mem_scopeTerms {input : QueryInput} {t : String}
    (h : t ∈ scopeTerms input) : NoFlag t := by
  have hrepo : NoFlag (repoTerm input.repo input.revision) := by
    rw [repoTerm]
    split <;> simp [NoFlag, isTrailingFlag, List.isPrefixOf]
  rw [scopeTerms] at h
  split at h
  · simp only [List.mem_cons, List.not_mem_nil, or_false] at h
    rcases h with rfl | rfl
    · exact hrepo
    · simp [NoFlag, isTrailingFlag, List.isPrefixOf]
  · rwa [List.mem_singleton.mp h]
  · rw [List.mem_singleton.mp h]
    simp [NoFlag, isTrailingFlag, List.isPrefixOf]
  · cases h

/-- The flags that may stand behind the scope. -/
def flags : List String := [indexTerm, "fork:yes", "archived:yes"]

theorem mem_flags_of_mem_flagTerms {input : QueryInput} {t : String} (h : t ∈ flagTerms input) :
    t ∈ flags := by
  simp only [flagTerms, List.mem_append, List.mem_ite_nil_right, List.mem_singleton] at h
  rcases h with ⟨-, rfl⟩ | ⟨-, rfl⟩ | ⟨-, rfl⟩ <;> decide

/-- **Either form of a query is its front, the terms of its scope, and flags.** -/
theorem IsForm.exists_terms {kind : QueryKind} {input : QueryInput} {form : Query}
    (h : (build kind input).IsForm form) :
    ∃ rest, form.terms = front kind input ++ (scopeTerms input ++ rest) ∧
      ∀ t ∈ rest, t ∈ flags := by
  have hts : ∀ t ∈ front kind input ++ scopeTerms input, isTrailingFlag t = false := by
    intro t ht
    rcases List.mem_append.mp ht with ht | ht
    · exact (noFlag_of_mem_front ht).1
    · exact (noFlag_of_mem_scopeTerms ht).1
  have hterms : (build kind input).terms =
      (front kind input ++ scopeTerms input) ++ flagTerms input := by
    rw [terms_build, List.append_assoc]
  obtain ⟨rest, hrest, heq⟩ := h.exists_append hterms hts
  refine ⟨rest, by rw [hrest, List.append_assoc], ?_⟩
  rcases heq with rfl | rfl
  · exact fun t ht => mem_flags_of_mem_flagTerms ht
  · intro t ht
    rcases List.mem_append.mp ht with ht | ht
    · exact mem_flags_of_mem_flagTerms ((List.takeWhile_sublist _).subset ht)
    · rcases List.mem_cons.mp ht with rfl | ht
      · decide
      · exact mem_flags_of_mem_flagTerms ((List.dropWhile_sublist _).subset ht)

/-! ## Telling scopes apart -/

/-- The first character of what stands behind the front, if anything does. -/
def mark? (rest : List String) : Option Char := rest.head?.bind (·.toList.head?)

/-- The scope that a character stands for. -/
def scopeOfMark : Option Char → Scope
  | some 'r' => .currentRepository
  | some '-' => .otherRepositories
  | _ => .allRepositories

/-- The first character behind the front tells the scope; there is one unless nothing follows. -/
theorem scopeOfMark_eq {input : QueryInput} (hscope : input.scope ≠ .currentFile)
    {rest : List String} (hrest : ∀ t ∈ rest, t ∈ flags) :
    scopeOfMark (mark? (scopeTerms input ++ rest)) = input.scope ∧
      (mark? (scopeTerms input ++ rest) = none → scopeTerms input ++ rest = []) := by
  rw [scopeTerms]
  cases h : input.scope with
  | currentFile => exact absurd h hscope
  | currentRepository =>
    have hmark : mark? ([repoTerm input.repo input.revision] ++ rest) = some 'r' := by
      simp only [mark?, repoTerm, List.singleton_append, List.head?_cons, Option.bind_some]
      split <;> simp
    simp only [hmark]
    exact ⟨rfl, nofun⟩
  | otherRepositories =>
    have hmark : mark? (["-repo:^" ++ input.repo ++ "$"] ++ rest) = some '-' := by
      simp [mark?]
    simp only [hmark]
    exact ⟨rfl, nofun⟩
  | allRepositories =>
    cases rest with
    | nil => exact ⟨rfl, fun _ => rfl⟩
    | cons t rest =>
      have hflags : ∀ t ∈ flags, scopeOfMark t.toList.head? = .allRepositories ∧
          t.toList.head? ≠ none := by decide
      obtain ⟨hmark, hsome⟩ := hflags t (hrest t List.mem_cons_self)
      exact ⟨hmark, fun hnone => absurd hnone hsome⟩

/-- What stands behind some terms begins with a space and the first term of it. -/
theorem text_append_cons {ts : List String} (hts : ts ≠ []) (t : String) (rest : List String) :
    ∃ more, (⟨ts ++ t :: rest⟩ : Query).text.toList =
      (⟨ts⟩ : Query).text.toList ++ ' ' :: (t.toList ++ more) := by
  simp only [text]
  rw [String.intercalate_append_of_ne_nil hts (List.cons_ne_nil t rest)]
  cases rest with
  | nil => exact ⟨[], by simp⟩
  | cons u rest =>
    rw [String.intercalate_cons_cons]
    exact ⟨' ' :: (" ".intercalate (u :: rest)).toList, by simp⟩

/-- Behind the same front, the same text begins with the same character. -/
theorem mark?_eq_of_text_eq {ts rest rest' : List String} (hts : ts ≠ [])
    (hrest : mark? rest = none → rest = []) (hrest' : mark? rest' = none → rest' = [])
    (h : (⟨ts ++ rest⟩ : Query).text = (⟨ts ++ rest'⟩ : Query).text) :
    mark? rest = mark? rest' := by
  have hlist := congrArg String.toList h
  cases rest with
  | nil =>
    cases rest' with
    | nil => rfl
    | cons t' rest' =>
      obtain ⟨more', htext'⟩ := text_append_cons hts t' rest'
      rw [htext', List.append_nil] at hlist
      simp at hlist
  | cons t rest =>
    obtain ⟨more, htext⟩ := text_append_cons hts t rest
    cases rest' with
    | nil =>
      rw [htext, List.append_nil] at hlist
      simp at hlist
    | cons t' rest' =>
      obtain ⟨more', htext'⟩ := text_append_cons hts t' rest'
      rw [htext, htext', List.append_cancel_left_eq, List.cons.injEq] at hlist
      have hhead := congrArg List.head? hlist.2
      have hsome : t.toList.head? ≠ none := fun hnone => List.cons_ne_nil _ _ (hrest hnone)
      have hsome' : t'.toList.head? ≠ none := fun hnone => List.cons_ne_nil _ _ (hrest' hnone)
      rw [List.head?_append, List.head?_append,
        Option.or_of_isSome (Option.isSome_iff_ne_none.mpr hsome),
        Option.or_of_isSome (Option.isSome_iff_ne_none.mpr hsome')] at hhead
      exact hhead

/-- **Queries for the same token with different scopes have different texts**, in either form. -/
theorem scope_eq_of_text_eq {kind : QueryKind} {a b : QueryInput} {formA formB : Query}
    (hA : (build kind a).IsForm formA) (hB : (build kind b).IsForm formB)
    (hfront : front kind a = front kind b) (hscopeA : a.scope ≠ .currentFile)
    (hscopeB : b.scope ≠ .currentFile) (h : formA.text = formB.text) : a.scope = b.scope := by
  obtain ⟨restA, hrestA, hflagsA⟩ := hA.exists_terms
  obtain ⟨restB, hrestB, hflagsB⟩ := hB.exists_terms
  obtain ⟨hmarkA, hnoneA⟩ := scopeOfMark_eq hscopeA hflagsA
  obtain ⟨hmarkB, hnoneB⟩ := scopeOfMark_eq hscopeB hflagsB
  have htext : (⟨front kind a ++ (scopeTerms a ++ restA)⟩ : Query).text =
      (⟨front kind a ++ (scopeTerms b ++ restB)⟩ : Query).text := by
    rw [← hrestA, hfront, ← hrestB]
    exact h
  rw [← hmarkA, mark?_eq_of_text_eq (front_ne_nil kind a) hnoneA hnoneB htext, hmarkB]

end CodeNav.Query

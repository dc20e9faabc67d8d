import CodeNav.Proofs.Query.Terms

/-!
# The grammar of local queries

Whether a query is understood is a question about its words one by one, and about how many of them
are patterns (`exists_parse_iff`). It can be asked **without reading the query**: a `Grammatical`
list of words is one of written terms.

The lists of filters that a query holds are asked as a whole, and of its other lists the last entry
counts. If there is only one, **the order of the words does not matter** (`alike_of_perm`).
-/

namespace CodeNav.LocalQuery

open Text

/-! ## Words of a query -/

/-- The pattern that names a repository: all of the value, or what stands before the revision,
with the dollar sign of its mark. -/
def repoPattern (value : String) : String :=
  match cutAt? ['$', '@'] value.toList with
  | some (name, _) => String.ofList (name ++ ['$'])
  | none => value

theorem exists_repoFilter_iff {value : String} :
    (∃ f, repoFilter value = .ok f) ↔ (Pattern.parse? (repoPattern value)).isSome := by
  have hfilter (text : String) (revision : Option String) :
      (∃ f, (filter text >>= fun p => pure (⟨p, revision⟩ : RepoFilter)) = .ok f) ↔
        (Pattern.parse? text).isSome := by
    simp only [bind_eq_ok_iff, filter_eq_ok_iff, Option.isSome_iff_exists]
    constructor
    · rintro ⟨-, p, hp, -⟩
      exact ⟨p, hp⟩
    · rintro ⟨p, hp⟩
      exact ⟨_, p, hp, rfl⟩
  rw [repoPattern, repoFilter]
  cases cutAt? ['$', '@'] value.toList with
  | none => exact hfilter value none
  | some cut => exact hfilter (String.ofList (cut.1 ++ ['$'])) (some (String.ofList cut.2))

/-- The words of a query that is understood. -/
structure Grammatical (ws : List (List Char)) : Prop where
  types : ∀ v : String, "type:".toList ++ v.toList ∈ ws → v = "symbol" ∨ v = "file"
  files : ∀ v : String, "file:".toList ++ v.toList ∈ ws → (Pattern.parse? v).isSome
  excludedRepos : ∀ v : String, "-repo:".toList ++ v.toList ∈ ws → (Pattern.parse? v).isSome
  repos : ∀ v : String, "repo:".toList ++ v.toList ∈ ws → (Pattern.parse? (repoPattern v)).isSome
  onePattern : ws.countP (IsPattern ·) = 1

section Words

variable {ws : List (List Char)}

theorem mem_map_read_iff {t : Term} : t ∈ ws.map Term.read ↔ ∃ w ∈ ws, t.Spells w := by
  simp only [List.mem_map, read_eq_iff]

/-- The terms of words are understood one by one. -/
theorem forall_reads_iff :
    (∀ t ∈ ws.map Term.read, t.Reads) ↔
      (∀ v : String, "type:".toList ++ v.toList ∈ ws → v = "symbol" ∨ v = "file") ∧
      (∀ v : String, "file:".toList ++ v.toList ∈ ws → (Pattern.parse? v).isSome) ∧
      (∀ v : String, "-repo:".toList ++ v.toList ∈ ws → (Pattern.parse? v).isSome) ∧
      ∀ v : String, "repo:".toList ++ v.toList ∈ ws → (Pattern.parse? (repoPattern v)).isSome := by
  constructor
  · intro h
    have hreads (t : Term) (w : List Char) (hspells : t.Spells w) (hw : w ∈ ws) : t.Reads :=
      h t (mem_map_read_iff.mpr ⟨w, hw, hspells⟩)
    exact ⟨fun v => hreads (.type v) _ rfl, fun v => hreads (.file v) _ rfl,
      fun v => hreads (.excludedRepo v) _ rfl,
      fun v hv => exists_repoFilter_iff.mp (hreads (.repo v) _ rfl hv)⟩
  · rintro ⟨htypes, hfiles, hexcluded, hrepos⟩ t ht
    obtain ⟨w, hw, hspells⟩ := mem_map_read_iff.mp ht
    cases t with
    | type v => exact htypes v (hspells ▸ hw)
    | file v => exact hfiles v (hspells ▸ hw)
    | excludedRepo v => exact hexcluded v (hspells ▸ hw)
    | repo v => exact exists_repoFilter_iff.mpr (hrepos v (hspells ▸ hw))
    | case v => trivial
    | flag => trivial
    | pattern text => trivial

theorem isSome_pattern?_read (w : List Char) : (Term.read w).pattern?.isSome ↔ IsPattern w := by
  constructor
  · intro h
    cases hread : Term.read w with
    | pattern text => exact (read_eq_iff.mp hread).2
    | _ =>
      rw [hread] at h
      cases h
  · intro hw
    rw [read_of_isPattern hw]
    rfl

theorem length_patterns (ws : List (List Char)) :
    ((ws.map Term.read).filterMap Term.pattern?).length = ws.countP (IsPattern ·) := by
  rw [List.length_filterMap_eq_countP, List.countP_map]
  refine List.countP_congr fun w _ => ?_
  rw [Function.comp_apply, isSome_pattern?_read, decide_eq_true_eq]

end Words

/-- **A query is understood exactly if its words follow the grammar.** -/
theorem exists_parse_iff {query : String} :
    (∃ q, parse query = .ok q) ↔ Grammatical (words query.toList) := by
  simp only [parse_eq_ok_iff, terms, forall_reads_iff]
  have hone : (words query.toList).countP (IsPattern ·) = 1 ↔
      ∃ pattern, ((words query.toList).map Term.read).filterMap Term.pattern? = [pattern] := by
    rw [← length_patterns, List.length_eq_one_iff]
  constructor
  · rintro ⟨-, ⟨htypes, hfiles, hexcluded, hrepos⟩, pattern, hpattern, -⟩
    exact ⟨htypes, hfiles, hexcluded, hrepos, hone.mpr ⟨pattern, hpattern⟩⟩
  · rintro ⟨htypes, hfiles, hexcluded, hrepos, hcount⟩
    obtain ⟨pattern, hpattern⟩ := hone.mp hcount
    exact ⟨_, ⟨htypes, hfiles, hexcluded, hrepos⟩, pattern, hpattern, rfl⟩

/-! ## The order of the words -/

/-- Two queries that ask for the same in all that a checkout looks at. -/
structure Alike (q r : LocalQuery) : Prop where
  pattern : q.pattern = r.pattern
  kind : q.kind = r.kind
  caseSensitive : q.caseSensitive = r.caseSensitive
  includesRepo : ∀ name revision, q.includesRepo name revision = r.includesRepo name revision
  includesPath : ∀ path, q.includesPath path = r.includesPath path

/-- How many words begin with a lead. -/
def countLead (lead : String) (ws : List (List Char)) : Nat :=
  ws.countP (lead.toList.isPrefixOf ·)

theorem eq_of_perm_of_length_le_one {α : Type} {l l' : List α} (h : l.Perm l')
    (hl : l.length ≤ 1) : l = l' := by
  cases l with
  | nil => exact h.nil_eq
  | cons a rest =>
    obtain rfl : rest = [] :=
      List.length_eq_zero_iff.mp (Nat.le_zero.mp (Nat.le_of_succ_le_succ hl))
    exact h.singleton_eq

section Order

variable {ws ws' : List (List Char)} (hperm : ws.Perm ws')

include hperm

/-- What only words with a certain lead say is the same in any order, if there is one at most. -/
theorem filterMap_read_eq {lead : String} (hlead : countLead lead ws ≤ 1) {α : Type}
    {f : Term → Option α} (hf : ∀ t, (f t).isSome → t.lead? = some lead) :
    (ws.map Term.read).filterMap f = (ws'.map Term.read).filterMap f := by
  refine eq_of_perm_of_length_le_one ((hperm.map _).filterMap f) (Nat.le_trans ?_ hlead)
  rw [List.length_filterMap_eq_countP, List.countP_map, countLead]
  refine List.countP_mono_left fun w _ hw => ?_
  rw [List.isPrefixOf_iff_prefix]
  exact (spells_read w).begins (hf _ hw)

theorem grammatical_iff_of_perm : Grammatical ws ↔ Grammatical ws' := by
  have hgo {ws ws' : List (List Char)} (hperm : ws.Perm ws') (h : Grammatical ws) :
      Grammatical ws' :=
    ⟨fun v hv => h.types v (hperm.mem_iff.mpr hv), fun v hv => h.files v (hperm.mem_iff.mpr hv),
      fun v hv => h.excludedRepos v (hperm.mem_iff.mpr hv),
      fun v hv => h.repos v (hperm.mem_iff.mpr hv), hperm.countP_eq _ ▸ h.onePattern⟩
  exact ⟨hgo hperm, hgo hperm.symm⟩

end Order

/-- The terms of which one is asked for at most. -/
def single : List String := ["type:", "case:", "repo:"]

/-- What permuted words say is alike. -/
theorem alike_of_perm {first second : String} {q r : LocalQuery}
    (hperm : (words first.toList).Perm (words second.toList))
    (hsingle : ∀ lead ∈ single, countLead lead (words first.toList) ≤ 1)
    (hq : parse first = .ok q) (hr : parse second = .ok r) : q.Alike r := by
  obtain ⟨-, pattern, hpattern, rfl⟩ := parse_eq_ok_iff.mp hq
  obtain ⟨-, pattern', hpattern', rfl⟩ := parse_eq_ok_iff.mp hr
  have hterms : (terms first).Perm (terms second) := hperm.map _
  have hkind : (terms first).filterMap Term.kind? = (terms second).filterMap Term.kind? :=
    filterMap_read_eq hperm (hsingle "type:" (by decide)) fun t ht => by
      cases t <;> first | rfl | cases ht
  have hcase : (terms first).filterMap Term.case? = (terms second).filterMap Term.case? :=
    filterMap_read_eq hperm (hsingle "case:" (by decide)) fun t ht => by
      cases t <;> first | rfl | cases ht
  have hrepo : (terms first).filterMap Term.repo? = (terms second).filterMap Term.repo? :=
    filterMap_read_eq hperm (hsingle "repo:" (by decide)) fun t ht => by
      cases t <;> first | rfl | cases ht
  refine ⟨?_, ?_, ?_, fun name revision => ?_, fun path => ?_⟩
  · have hone := hterms.filterMap Term.pattern?
    rw [hpattern, hpattern'] at hone
    exact List.singleton_inj.mp hone.singleton_eq
  · rw [of, of, Draft.of, Draft.of, hkind]
  · rw [of, of, Draft.of, Draft.of, hcase]
  · have hexcluded : ((terms first).filterMap Term.excludedRepo?).any (·.isMatch name.toList) =
        ((terms second).filterMap Term.excludedRepo?).any (·.isMatch name.toList) :=
      (hterms.filterMap _).any_eq
    simp only [includesRepo, of, Draft.of, hexcluded, hrepo]
  · exact (hterms.filterMap Term.file?).all_eq

/-- **A query is understood exactly if its words follow the grammar, and their order does not
matter.** Queries whose words are permuted, with one kind, one case and one repository at most, are
understood both or not at all, and a checkout searches and answers alike for both. -/
theorem parse_by_grammar :
    (∀ query : String, (∃ q, parse query = .ok q) ↔ Grammatical (words query.toList)) ∧
    ∀ first second : String, (words first.toList).Perm (words second.toList) →
      (∀ lead ∈ single, countLead lead (words first.toList) ≤ 1) →
      ((∃ q, parse first = .ok q) ↔ ∃ r, parse second = .ok r) ∧
      ∀ q r, parse first = .ok q → parse second = .ok r → q.Alike r := by
  refine ⟨fun query => exists_parse_iff, fun first second hperm hsingle => ⟨?_, ?_⟩⟩
  · rw [exists_parse_iff, exists_parse_iff]
    exact grammatical_iff_of_perm hperm
  · exact fun q r => alike_of_perm hperm hsingle

/-- A query with two filters on files, and a repository and one that is left out. -/
def ordered : String :=
  "^f$ type:symbol case:yes file:\\.(rs)$ file:a repo:^r$@v -repo:^x$ fork:yes"

/-- The same words in another order. -/
def shuffled : String :=
  "file:a -repo:^x$ repo:^r$@v fork:yes ^f$ case:yes file:\\.(rs)$ type:symbol"

/-- Both orders are understood, and alike. -/
theorem shuffled_alike :
    Grammatical (words shuffled.toList) ∧
      ∃ q r, parse ordered = .ok q ∧ parse shuffled = .ok r ∧ q.Alike r := by
  have hperm : (words ordered.toList).Perm (words shuffled.toList) := by decide +kernel
  obtain ⟨hgrammar, horder⟩ := parse_by_grammar
  obtain ⟨hboth, halike⟩ := horder ordered shuffled hperm (by decide +kernel)
  obtain ⟨q, hq⟩ : ∃ q, parse ordered = .ok q := by
    have hread : (parse ordered).isOk := by decide +kernel
    cases hparse : parse ordered with
    | error e =>
      rw [hparse] at hread
      cases hread
    | ok q => exact ⟨q, rfl⟩
  obtain ⟨r, hr⟩ := hboth.mp ⟨q, hq⟩
  exact ⟨(hgrammar shuffled).mp ⟨r, hr⟩, q, r, hq, hr, halike q r hq hr⟩

end CodeNav.LocalQuery

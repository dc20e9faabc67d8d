import CodeNav.Proofs.Query.Scope
import Mathlib.Data.List.Induction

/-!
# The terms of local queries

Words are read by their leads, and no lead begins with another one, so **a word spells one term
only** (`read_eq_iff`), whichever lead is looked for first.

A query is read from left to right, and each term goes its own way (`Draft.add_eq_ok_iff`). So what
the terms say together is a function of the lists of their kinds, cases, filters and patterns
(`Draft.of`), and **reading finds that, or a term that is not understood, or not one pattern**
(`parse_eq_ok_iff`).
-/

namespace CodeNav.LocalQuery

open Text

/-! ## What a word spells -/

/-- The leads of all words but patterns. -/
def leads : List String := ["type:", "case:", "file:", "-repo:", "repo:"] ++ flagLeads

/-- A word that begins with no lead. -/
def IsPattern (w : List Char) : Prop := ∀ lead ∈ leads, ¬ lead.toList <+: w

instance (w : List Char) : Decidable (IsPattern w) := List.decidableBAll _ leads

/-- How a term is written. -/
def Term.Spells : Term → List Char → Prop
  | .type v, w => w = "type:".toList ++ v.toList
  | .case v, w => w = "case:".toList ++ v.toList
  | .file v, w => w = "file:".toList ++ v.toList
  | .excludedRepo v, w => w = "-repo:".toList ++ v.toList
  | .repo v, w => w = "repo:".toList ++ v.toList
  | .flag, w => ∃ lead ∈ flagLeads, lead.toList <+: w
  | .pattern text, w => w = text.toList ∧ IsPattern w

/-- A word has a value exactly if it opens with the lead, and the value is all behind it. -/
theorem value?_eq_some_iff {lead v : String} {w : List Char} :
    value? lead w = some v ↔ w = lead.toList ++ v.toList := by
  rw [value?, Option.map_eq_some_iff]
  constructor
  · rintro ⟨rest, hrest, rfl⟩
    rw [dropLead?_eq_some_iff.mp hrest, String.toList_ofList]
  · intro hw
    exact ⟨v.toList, dropLead?_eq_some_iff.mpr hw, String.ofList_toList⟩

/-- Leads are compared as they are written, capital letters and all. -/
theorem value?_eq_none_iff {lead : String} {w : List Char} :
    value? lead w = none ↔ ¬ lead.toList <+: w := by
  rw [value?, Option.map_eq_none_iff, dropLead?, ← List.isPrefixOf_iff_prefix]
  split <;> simp_all

/-- A word is read as a term that it spells. -/
theorem spells_read (w : List Char) : (Term.read w).Spells w := by
  unfold Term.read
  split
  · next h => exact value?_eq_some_iff.mp h
  next htype =>
  split
  · next h => exact value?_eq_some_iff.mp h
  next hcase =>
  split
  · next h => exact value?_eq_some_iff.mp h
  next hfile =>
  split
  · next h => exact value?_eq_some_iff.mp h
  next hexcluded =>
  split
  · next h => exact value?_eq_some_iff.mp h
  next hrepo =>
  rw [value?_eq_none_iff] at htype hcase hfile hexcluded hrepo
  split
  · next h => simpa [Term.Spells] using h
  · next h =>
    refine ⟨String.toList_ofList.symm, List.forall_mem_append.mpr ⟨?_, by simpa using h⟩⟩
    simp only [List.forall_mem_cons]
    exact ⟨htype, hcase, hfile, hexcluded, hrepo, nofun⟩

/-- What opens with no lead is a pattern. -/
theorem read_of_isPattern {w : List Char} (hw : IsPattern w) :
    Term.read w = .pattern (String.ofList w) := by
  have hnone (lead : String) (hlead : lead ∈ leads) : value? lead w = none :=
    value?_eq_none_iff.mpr (hw lead hlead)
  have hflag : (flagLeads.any fun lead => lead.toList.isPrefixOf w) = false := by
    rw [List.any_eq_false]
    intro lead hlead
    rw [List.isPrefixOf_iff_prefix]
    exact hw lead (List.mem_append_right _ hlead)
  rw [Term.read, hnone "type:" (by decide), hnone "case:" (by decide), hnone "file:" (by decide),
    hnone "-repo:" (by decide), hnone "repo:" (by decide), hflag]
  rfl

/-- A flag is passed over, whatever stands behind its lead. -/
theorem read_flag {lead : String} (hlead : lead ∈ flagLeads) (rest : List Char) :
    Term.read (lead.toList ++ rest) = .flag := by
  simp only [flagLeads, List.mem_cons, List.not_mem_nil, or_false] at hlead
  rcases hlead with rfl | rfl | rfl | rfl | rfl | rfl <;>
    simp [Term.read, value?, dropLead?, List.isPrefixOf, flagLeads]

/-- **A word spells one term only.** -/
theorem read_eq_iff {w : List Char} {t : Term} : Term.read w = t ↔ t.Spells w := by
  constructor
  · rintro rfl
    exact spells_read w
  · intro h
    cases t with
    | type v => rw [h]; simp [Term.read, value?, dropLead?, List.isPrefixOf]
    | case v => rw [h]; simp [Term.read, value?, dropLead?, List.isPrefixOf]
    | file v => rw [h, ← String.toList_append, read_file]
    | excludedRepo v => rw [h, ← String.toList_append, read_excludedRepo]
    | repo v => rw [h, ← String.toList_append, read_repo]
    | flag =>
      obtain ⟨lead, hlead, rest, rfl⟩ := h
      exact read_flag hlead rest
    | pattern text =>
      obtain ⟨rfl, hpattern⟩ := h
      rw [read_of_isPattern hpattern, String.ofList_toList]

/-! ## What terms say together -/

namespace Term

/-- The kind that a term asks for. -/
@[simp] def kind? : Term → Option MatchKind
  | type "symbol" => some .symbol
  | type "file" => some .file
  | _ => none

/-- Whether a term asks for the case to count. -/
@[simp] def case? : Term → Option Bool
  | case v => some (v = "yes")
  | _ => none

/-- The files that a term keeps. -/
@[simp] def file? : Term → Option Pattern
  | file v => Pattern.parse? v
  | _ => none

/-- The repositories that a term leaves out. -/
@[simp] def excludedRepo? : Term → Option Pattern
  | excludedRepo v => Pattern.parse? v
  | _ => none

/-- The repositories that a term keeps. -/
@[simp] def repo? : Term → Option RepoFilter
  | repo v => (repoFilter v).toOption
  | _ => none

/-- The pattern that a term is. -/
@[simp] def pattern? : Term → Option String
  | pattern text => some text
  | _ => none

/-- A term that is understood. -/
@[simp] def Reads : Term → Prop
  | type v => v = "symbol" ∨ v = "file"
  | file v => (Pattern.parse? v).isSome
  | excludedRepo v => (Pattern.parse? v).isSome
  | repo v => ∃ f, repoFilter v = .ok f
  | _ => True

/-- What all words of a term begin with, if it has a lead of its own. -/
def lead? : Term → Option String
  | type _ => some "type:"
  | case _ => some "case:"
  | file _ => some "file:"
  | excludedRepo _ => some "-repo:"
  | repo _ => some "repo:"
  | flag => none
  | pattern _ => none

/-- A term other than a pattern can be told by its lead. -/
theorem Spells.begins {t : Term} {w : List Char} (h : t.Spells w) {lead : String}
    (hlead : t.lead? = some lead) : lead.toList <+: w := by
  cases t <;> cases hlead <;> exact ⟨_, h.symm⟩

end Term

/-- What terms say, whatever their order is between the lists. -/
def Draft.of (ts : List Term) : Draft where
  pattern := (ts.filterMap Term.pattern?).head?
  kind := (ts.filterMap Term.kind?).getLast?.getD .file
  caseSensitive := (ts.filterMap Term.case?).getLast?.getD false
  fileFilters := ts.filterMap Term.file?
  repo := (ts.filterMap Term.repo?).getLast?
  excludedRepos := ts.filterMap Term.excludedRepo?

/-- What a term adds to what others say. -/
def Draft.with (d : Draft) (t : Term) : Draft where
  pattern := d.pattern.or t.pattern?
  kind := t.kind?.getD d.kind
  caseSensitive := t.case?.getD d.caseSensitive
  fileFilters := d.fileFilters ++ t.file?.toList
  repo := t.repo?.or d.repo
  excludedRepos := d.excludedRepos ++ t.excludedRepo?.toList

theorem filterMap_single {α : Type} (f : Term → Option α) (t : Term) :
    [t].filterMap f = (f t).toList := by
  cases h : f t <;> simp [h]

/-- A query is read term by term, and each says one thing more. -/
theorem Draft.of_concat (ts : List Term) (t : Term) :
    Draft.of (ts ++ [t]) = (Draft.of ts).with t := by
  have hlast {α : Type} (l : List α) (o : Option α) :
      (l ++ o.toList).getLast? = o.or l.getLast? := by
    cases o <;> simp
  have hfirst {α : Type} (l : List α) (o : Option α) : (l ++ o.toList).head? = l.head?.or o := by
    cases l <;> cases o <;> rfl
  simp only [Draft.of, Draft.with, List.filterMap_append, filterMap_single, hlast, hfirst]
  congr 1
  · cases t.kind? <;> rfl
  · cases t.case? <;> rfl

/-- **A term is taken into account exactly if it is understood and no second pattern.** -/
theorem Draft.add_eq_ok_iff {d d' : Draft} {t : Term} :
    d.add t = .ok d' ↔ t.Reads ∧ (t.pattern?.isSome → d.pattern = none) ∧ d.with t = d' := by
  cases t with
  | type v =>
    by_cases hsymbol : v = "symbol"
    · subst hsymbol
      simp [Draft.add, Draft.with]
    · by_cases hfile : v = "file"
      · subst hfile
        simp [Draft.add, Draft.with]
      · simp [Draft.add, hsymbol, hfile]
  | case v => simp [Draft.add, Draft.with]
  | file v =>
    cases hp : Pattern.parse? v with
    | none => simp [Draft.add, filter, hp]
    | some p => simp [Draft.add, Draft.with, filter, hp]
  | excludedRepo v =>
    cases hp : Pattern.parse? v with
    | none => simp [Draft.add, filter, hp]
    | some p => simp [Draft.add, Draft.with, filter, hp]
  | repo v =>
    cases hf : repoFilter v with
    | error e => simp [Draft.add, hf]
    | ok f => simp [Draft.add, Draft.with, hf, Except.toOption]
  | flag => simp [Draft.add, Draft.with]
  | pattern text =>
    cases hpattern : d.pattern with
    | none => simp [Draft.add, Draft.with, hpattern]
    | some other => simp [Draft.add, hpattern]

/-- **Terms are taken into account exactly if each is understood and there is no second pattern**,
and then the query says what they say together. -/
theorem foldlM_add_eq_ok_iff {ts : List Term} {d : Draft} :
    ts.foldlM Draft.add {} = .ok d ↔
      (∀ t ∈ ts, t.Reads) ∧ (ts.filterMap Term.pattern?).length ≤ 1 ∧ Draft.of ts = d := by
  induction ts using List.reverseRecOn generalizing d with
  | nil =>
    constructor
    · rintro ⟨⟩
      exact ⟨nofun, Nat.zero_le 1, rfl⟩
    · rintro ⟨-, -, rfl⟩
      rfl
  | append_singleton ts t ih =>
    have hstep : (ts ++ [t]).foldlM Draft.add {} = .ok d ↔
        ∃ d', ts.foldlM Draft.add {} = .ok d' ∧ d'.add t = .ok d := by
      rw [List.foldlM_append, bind_eq_ok_iff]
      simp only [List.foldlM_cons, List.foldlM_nil, bind_pure]
    have hcount : ((ts ++ [t]).filterMap Term.pattern?).length ≤ 1 ↔
        (ts.filterMap Term.pattern?).length ≤ 1 ∧
          (t.pattern?.isSome → (Draft.of ts).pattern = none) := by
      rw [List.filterMap_append, List.length_append, filterMap_single, Draft.of,
        List.head?_eq_none_iff, ← List.length_eq_zero_iff]
      cases h : t.pattern? with
      | none => simp
      | some text =>
        simp only [Option.length_toList, Option.isSome_some, reduceIte, true_imp_iff]
        omega
    rw [hstep, hcount, List.forall_mem_append, List.forall_mem_singleton, Draft.of_concat]
    constructor
    · rintro ⟨d', hd', hadd⟩
      obtain ⟨hreads, hone, rfl⟩ := ih.mp hd'
      obtain ⟨ht, hpattern, rfl⟩ := Draft.add_eq_ok_iff.mp hadd
      exact ⟨⟨hreads, ht⟩, ⟨hone, hpattern⟩, rfl⟩
    · rintro ⟨⟨hreads, ht⟩, ⟨hone, hpattern⟩, rfl⟩
      exact ⟨Draft.of ts, ih.mpr ⟨hreads, hone, rfl⟩, Draft.add_eq_ok_iff.mpr ⟨ht, hpattern, rfl⟩⟩

/-- The terms of a query. -/
def terms (query : String) : List Term := (words query.toList).map Term.read

/-- What terms say that hold one pattern. -/
def of (pattern : String) (ts : List Term) : LocalQuery where
  pattern
  kind := (Draft.of ts).kind
  caseSensitive := (Draft.of ts).caseSensitive
  fileFilters := (Draft.of ts).fileFilters
  repo := (Draft.of ts).repo
  excludedRepos := (Draft.of ts).excludedRepos

/-- **A query is understood exactly if each of its terms is and one of them is a pattern.** -/
theorem parse_eq_ok_iff {query : String} {q : LocalQuery} :
    parse query = .ok q ↔
      (∀ t ∈ terms query, t.Reads) ∧
        ∃ pattern, (terms query).filterMap Term.pattern? = [pattern] ∧
          of pattern (terms query) = q := by
  rw [parse, ← terms, bind_eq_ok_iff]
  constructor
  · rintro ⟨d, hd, hfinish⟩
    obtain ⟨hreads, hone, rfl⟩ := foldlM_add_eq_ok_iff.mp hd
    refine ⟨hreads, ?_⟩
    rw [Draft.finish] at hfinish
    split at hfinish
    · cases hfinish
    · next pattern hpattern =>
      rw [Draft.of, List.head?_eq_some_iff] at hpattern
      obtain ⟨rest, hpattern⟩ := hpattern
      obtain rfl : rest = [] := by
        rw [hpattern, List.length_cons] at hone
        exact List.length_eq_zero_iff.mp (by omega)
      exact ⟨pattern, hpattern, Except.ok.inj hfinish⟩
  · rintro ⟨hreads, pattern, hpattern, rfl⟩
    refine ⟨_, foldlM_add_eq_ok_iff.mpr ⟨hreads, Nat.le_of_eq ?_, rfl⟩, ?_⟩
    · rw [hpattern, List.length_singleton]
    · have hfirst : (Draft.of (terms query)).pattern = some pattern := by
        rw [Draft.of, hpattern, List.head?_cons]
      rw [Draft.finish, hfirst]
      rfl

end CodeNav.LocalQuery

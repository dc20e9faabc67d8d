import CodeNav.Proofs.Lookup.Memo
import CodeNav.Proofs.Lookup.Narrowing
import CodeNav.Proofs.Lookup.Reach

/-!
# Definitions, tier by tier

A lookup of definitions searches the current repository, and all repositories only if the
first search came back with nothing. This is said here of every run: beside any world, whenever
the answers come or fail to come, up to any limit.

* `tier_asks` — the search of a tier sends its query in its two forms and nothing else; the texts of
  different scopes are different (`isSearch_unique`).
* `definition_by_tiers` — what the lookup comes to, and **when all repositories are not searched**.
-/

namespace CodeNav

namespace Engine

open Program

variable {σ ε : Type}

/-! ## What is sent -/

/-- A search for a token of a document in a scope, in one of its two forms. -/
def IsSearch (kind : QueryKind) (document : Document) (profile : Profile) (token : String)
    (scope : Scope) (c : Call) : Prop :=
  ∃ flags form fileLocal, (query kind document profile token flags scope).IsForm form ∧
    c = .search form.text fileLocal

/-- A search is for one scope only. -/
theorem isSearch_unique {kind : QueryKind} {document : Document} {profile : Profile}
    {token : String} {a b : Scope} {c : Call} (ha : a ≠ .currentFile) (hb : b ≠ .currentFile)
    (h : IsSearch kind document profile token a c) (h' : IsSearch kind document profile token b c) :
    a = b := by
  obtain ⟨flags, form, fileLocal, hform, rfl⟩ := h
  obtain ⟨flags', form', fileLocal', hform', heq⟩ := h'
  exact Query.scope_eq_of_text_eq hform hform' rfl ha hb (Call.search.inj heq).1

/-! ## One tier after the other -/

/-- The search for the definitions of a token in a scope. -/
def tier (e : Engine) (document : Document) (profile : Profile) (token : String)
    (flags : RepoInfo) (scope : Scope) : Program ε (Outcome Hit) :=
  e.searchScope scope (query .definition document profile token flags scope) true

theorem tier_asks (e : Engine) (document : Document) (profile : Profile) (token : String)
    (flags : RepoInfo) (scope : Scope) :
    (e.tier document profile token flags scope : Program ε _).Asks
      (IsSearch .definition document profile token scope) :=
  e.searchScope_asks _ _ _ fun form hform => ⟨flags, form, true, hform, rfl⟩

section Run

variable (e : Engine) (document : Document) (profile : Profile) (token : String)
  (flags : RepoInfo) (w : World σ) (limit : Nat) {scope : Scope} {scopes : List Scope}
  {m : Machine σ} {t r : Ran σ ε (Outcome Hit)}
  (ht : (e.tier document profile token flags scope).run w limit m = t)
  (hr : (e.searchTiers document profile token flags (scope :: scopes)).run w limit m = r)

include ht hr

/-- A tier that finds nothing leaves it to the next ones. -/
theorem searchTiers_of_empty (hempty : t.outcome? = some (.ok [])) :
    r.outcome? = ((e.searchTiers document profile token flags scopes : Program ε _).run w limit
        t.machine).outcome? ∧
      r.machine = ((e.searchTiers document profile token flags scopes : Program ε _).run w limit
        t.machine).machine := by
  subst ht hr
  exact run_bind_of_some hempty _

/-- A tier that fails or finds something decides. -/
theorem searchTiers_of_ne_empty (hne : t.outcome? ≠ some (.ok [])) :
    r.outcome? = t.outcome?.map (·.map (refine · document profile)) ∧ r.machine = t.machine := by
  subst ht hr
  cases h : ((e.tier document profile token flags scope : Program ε _).run w limit m).outcome? with
  | none => exact run_bind_of_none h _
  | some found =>
    cases found with
    | error err => exact run_bind_of_some h _
    | ok hits =>
      cases hits with
      | nil => exact absurd h hne
      | cons hit hits => exact run_bind_of_some h _

end Run

/-- How a lookup of definitions comes about from what its two searches come to; none stands for
what has not ended. `inside` is said of it wherever all repositories must not be searched. -/
structure Tiered (publicInstance : Bool) (narrow : List Hit → List Hit)
    (current everywhere result : Option (Outcome Hit)) (inside : Prop) : Prop where
  unfinished : current = none → result = none ∧ inside
  failed : ∀ err, current = some (.error err) → result = some (.error err) ∧ inside
  found : ∀ hits, hits ≠ [] → current = some (.ok hits) →
    result = some (.ok (narrow hits)) ∧ inside
  closed : current = some (.ok []) → publicInstance = true → result = some (.ok []) ∧ inside
  beyond : current = some (.ok []) → publicInstance = false →
    (everywhere = none → result = none) ∧
    (∀ err, everywhere = some (.error err) → result = some (.error err)) ∧
    (everywhere = some (.ok []) → result = some (.ok [])) ∧
    ∀ hits, hits ≠ [] → everywhere = some (.ok hits) → result = some (.ok (narrow hits))
  /-- nothing is found only if nothing was found wherever it was looked for -/
  empty : result = some (.ok []) →
    current = some (.ok []) ∧ (publicInstance = true ∨ everywhere = some (.ok []))

/-- What the two searches come to together: the second counts if the first found nothing. -/
def decided (publicInstance : Bool) (narrow : List Hit → List Hit)
    (current everywhere : Option (Outcome Hit)) : Option (Outcome Hit) :=
  match current with
  | some (.ok []) => if publicInstance then some (.ok []) else everywhere.map (·.map narrow)
  | _ => current.map (·.map narrow)

theorem decided_of_ne_empty (publicInstance : Bool) (narrow : List Hit → List Hit)
    {current : Option (Outcome Hit)} (hne : current ≠ some (.ok []))
    (everywhere : Option (Outcome Hit)) :
    decided publicInstance narrow current everywhere = current.map (·.map narrow) := by
  rw [decided.eq_def]
  split
  · exact absurd rfl hne
  · rfl

theorem Tiered.of_decided {publicInstance : Bool} {narrow : List Hit → List Hit}
    (hnarrow : ∀ hits, narrow hits = [] ↔ hits = []) {current everywhere : Option (Outcome Hit)}
    {inside : Prop} (hinside : ¬ (current = some (.ok []) ∧ publicInstance = false) → inside) :
    Tiered publicInstance narrow current everywhere
      (decided publicInstance narrow current everywhere) inside := by
  have hnil : narrow [] = [] := (hnarrow []).mpr rfl
  -- an answer that was narrowed to nothing was nothing
  have hempty : ∀ o : Option (Outcome Hit), o.map (·.map narrow) = some (.ok []) →
      o = some (.ok []) := by
    rintro (_ | _ | hits) h
    · cases h
    · cases h
    · simp only [Option.map_some, Except.map, Option.some.injEq, Except.ok.injEq, hnarrow] at h
      rw [h]
  refine ⟨?_, ?_, ?_, ?_, ?_, ?_⟩
  · rintro rfl
    exact ⟨rfl, hinside (by simp)⟩
  · rintro err rfl
    exact ⟨rfl, hinside (by simp)⟩
  · rintro hits hne rfl
    have hne' : some (.ok hits : Outcome Hit) ≠ some (.ok []) := by simpa using hne
    exact ⟨decided_of_ne_empty _ _ hne' _, hinside fun h => hne' h.1⟩
  · rintro rfl rfl
    exact ⟨rfl, hinside (by simp)⟩
  · rintro rfl rfl
    refine ⟨?_, ?_, ?_, ?_⟩
    · rintro rfl
      rfl
    · rintro err rfl
      rfl
    · rintro rfl
      simp [decided, Except.map, hnil]
    · rintro hits - rfl
      rfl
  · intro h
    by_cases hcurrent : current = some (.ok [])
    · refine ⟨hcurrent, ?_⟩
      subst hcurrent
      cases publicInstance with
      | true => exact .inl rfl
      | false => exact .inr (hempty _ h)
    · rw [decided_of_ne_empty _ _ hcurrent] at h
      exact absurd (hempty _ h) hcurrent

/-- The two tiers decide together, and the second one is run only if the first found nothing. -/
theorem searchTiers_run (e : Engine) (document : Document) (profile : Profile) (token : String)
    (flags : RepoInfo) (w : World σ) (limit : Nat) {m : Machine σ}
    {current everywhere r : Ran σ ε (Outcome Hit)}
    (hcurrent : (e.tier document profile token flags .currentRepository).run w limit m = current)
    (heverywhere : (e.tier document profile token flags .allRepositories).run w limit
      current.machine = everywhere)
    (hr : (e.searchTiers document profile token flags e.definitionScopes).run w limit m = r) :
    r.outcome? = decided e.settings.publicInstance (refine · document profile) current.outcome?
        everywhere.outcome? ∧
      (¬ (current.outcome? = some (.ok []) ∧ e.settings.publicInstance = false) →
        r.machine = current.machine) := by
  have hnil : refine [] document profile = [] := refine_eq_nil_iff.mpr rfl
  rw [definitionScopes] at hr
  by_cases hempty : current.outcome? = some (.ok [])
  · cases hpublic : e.settings.publicInstance with
    | true =>
      rw [hpublic, if_pos rfl] at hr
      obtain ⟨hout, hmachine⟩ := e.searchTiers_of_empty _ _ _ _ w limit hcurrent hr hempty
      rw [hempty]
      exact ⟨hout, fun _ => hmachine⟩
    | false =>
      rw [hpublic, if_neg Bool.false_ne_true] at hr
      obtain ⟨hout, -⟩ := e.searchTiers_of_empty _ _ _ _ w limit hcurrent hr hempty
      refine ⟨?_, fun h => absurd ⟨hempty, rfl⟩ h⟩
      rw [hout, hempty]
      change _ = everywhere.outcome?.map _
      by_cases hempty' : everywhere.outcome? = some (.ok [])
      · rw [(e.searchTiers_of_empty _ _ _ _ w limit heverywhere rfl hempty').1, hempty']
        simp [searchTiers, Ran.outcome?, Except.map, hnil]
      · exact (e.searchTiers_of_ne_empty _ _ _ _ w limit heverywhere rfl hempty').1
  · have hscopes : ∃ scopes, (if e.settings.publicInstance then [Scope.currentRepository]
        else [.currentRepository, .allRepositories]) = .currentRepository :: scopes := by
      split <;> exact ⟨_, rfl⟩
    obtain ⟨scopes, hscopes⟩ := hscopes
    rw [hscopes] at hr
    obtain ⟨hout, hmachine⟩ := e.searchTiers_of_ne_empty _ _ _ _ w limit hcurrent hr hempty
    rw [decided_of_ne_empty _ _ hempty]
    exact ⟨hout, fun _ => hmachine⟩

/-- No search of all repositories was sent between two states of a machine. -/
def StaysInside (document : Document) (profile : Profile) (token : String) (m m' : Machine σ) :
    Prop :=
  Machine.SentOnly (fun c => ¬ IsSearch .definition document profile token .allRepositories c) m m'

theorem repoFlags_staysInside (e : Engine) (document : Document) (profile : Profile)
    (token : String) (w : World σ) (limit : Nat) (m : Machine σ) :
    StaysInside document profile token m
      ((e.repoFlags document.repo : Program ε _).run w limit m).machine := by
  refine ((e.repoFlags_asks document.repo).sentOnly_run m).mono ?_
  rintro _ rfl ⟨flags, form, fileLocal, -, h⟩
  cases h

theorem tier_staysInside (e : Engine) (document : Document) (profile : Profile) (token : String)
    (flags : RepoInfo) (w : World σ) (limit : Nat) (m : Machine σ) :
    StaysInside document profile token m
      ((e.tier document profile token flags .currentRepository : Program ε _).run w limit
        m).machine := by
  refine ((e.tier_asks document profile token flags .currentRepository).sentOnly_run m).mono ?_
  intro c hc hc'
  have hscope := isSearch_unique (by decide) (by decide) hc hc'
  cases hscope

/-- **Definitions are looked up tier by tier.** Where there is no token, or it is in a comment,
nothing is asked for and nothing is found, and a hover has nothing to show. Elsewhere, once the
facts about the repository are known, the search of the current repository decides, and that of
all repositories if the first one found nothing and the instance is not public. -/
theorem definition_by_tiers (e : Engine) (document : Document) (position : Position)
    (w : World σ) (limit : Nat) (m : Machine σ) :
    match e.tokenAt? document position with
    | some (profile, ⟨token, false⟩) =>
      let r := (e.definition document position : Program ε _).run w limit m
      let asked := (e.repoFlags document.repo : Program ε _).run w limit m
      (asked.outcome? = none →
        r.outcome? = none ∧ StaysInside document profile token m r.machine) ∧
      ∀ flags, asked.outcome? = some flags →
        let current := (e.tier document profile token flags .currentRepository :
          Program ε _).run w limit asked.machine
        let everywhere := (e.tier document profile token flags .allRepositories :
          Program ε _).run w limit current.machine
        Tiered e.settings.publicInstance (refine · document profile) current.outcome?
          everywhere.outcome? r.outcome? (StaysInside document profile token m r.machine)
    | _ =>
      (e.definition document position : Program ε _).run w limit m = ⟨.done (.ok []), [], m⟩ ∧
        (e.hover document position : Program ε _).run w limit m = ⟨.done (.ok none), [], m⟩ := by
  rw [definition, hover]
  split
  · next profile token htoken =>
    rw [htoken]
    intro r asked
    have hasked := e.repoFlags_staysInside (ε := ε) document profile token w limit m
    constructor
    · intro hnone
      obtain ⟨hout, hmachine⟩ := run_bind_of_none hnone fun flags =>
        e.searchTiers document profile token flags e.definitionScopes
      refine ⟨hout, ?_⟩
      rw [show r.machine = asked.machine from hmachine]
      exact hasked
    · intro flags hflags current everywhere
      obtain ⟨hout, hmachine⟩ := run_bind_of_some hflags fun flags =>
        e.searchTiers document profile token flags e.definitionScopes
      obtain ⟨hdecided, hsame⟩ :=
        e.searchTiers_run (ε := ε) document profile token flags w limit rfl rfl rfl
      rw [show r.outcome? = _ from hout.trans hdecided]
      refine .of_decided (fun _ => refine_eq_nil_iff) fun hinside => ?_
      rw [show r.machine = current.machine from hmachine.trans (hsame hinside)]
      exact hasked.trans (e.tier_staysInside document profile token flags w limit _)
  · next hquiet =>
    split
    · exact ⟨rfl, rfl⟩
    · next profile token htoken =>
      have hcomment : token.isComment = true := by
        rw [← Bool.not_eq_false]
        intro hcode
        refine hquiet profile token.text ?_
        rw [htoken, ← hcode]
      simp only [hcomment, if_true]
      exact ⟨rfl, rfl⟩

end Engine

namespace TwoLanguages

/-- The current repository has nothing; elsewhere there is one hit. -/
def beyondReplies : Replies
  | .search text _ =>
    if Text.occurs "repo:".toList text.toList then some (3, .ok []) else some (4, .ok [hit])
  | _ => none

def beyondWorld : World Unit := ⟨fun c t s => (.ofReply t (beyondReplies c), s)⟩

/-- The first tier is empty, and what the second one finds is the definition. -/
theorem definition_by_tiers_beyond :
    let tier := fun scope => (sources.engine.tier (question "plain").document plain "serve"
      ⟨false, false⟩ scope : Program Empty _)
    let current := (tier .currentRepository).run beyondWorld 100 machine
    let everywhere := (tier .allRepositories).run beyondWorld 100 current.machine
    let defined := (sources.engine.definition (question "plain").document ⟨0, 3⟩ :
      Program Empty _).run beyondWorld 100 machine
    current.outcome? = some (.ok []) ∧ everywhere.outcome? = some (.ok [hit]) ∧
      defined.outcome? = some (.ok [hit]) ∧ defined.machine.now = 7 := by
  have htiers := Engine.definition_by_tiers (ε := Empty) sources.engine (question "plain").document
    ⟨0, 3⟩ beyondWorld 100 machine
  rw [tokenAt?_plain] at htiers
  obtain ⟨-, -, -, hfound⟩ := (htiers.2 ⟨false, false⟩ rfl).beyond rfl rfl
  refine ⟨rfl, rfl, (hfound [hit] (List.cons_ne_nil _ _) rfl).trans ?_, ?_⟩
  · rw [refine_hit]
  · rw [Engine.definition, tokenAt?_plain]
    rfl

end TwoLanguages

end CodeNav

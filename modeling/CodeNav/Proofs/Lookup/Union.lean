import CodeNav.Proofs.Lookup.Both
import CodeNav.Proofs.Lookup.Memo
import CodeNav.Proofs.Lookup.Reach

/-!
# References from two searches

A lookup of references searches the current repository and, unless the instance is public, all
others at the same time, and unites what they come to.

* `distinct_eq_firsts` — taking hits with a memory of what was taken keeps **the hits that no
  earlier one has the same reference as**.
* `unite_united` — what two outcomes are united to, failures included.
* `references_united` — what the lookup comes to is what its searches are united to. Beside a
  memoryless world these are **what each search comes to alone**, whichever ends first.
-/

namespace CodeNav.Engine

open Program

variable {σ ε : Type}

/-! ## Each reference once -/

/-- The hits that no earlier hit of the list has the same reference as. -/
def firsts (hits : List Hit) : List Hit :=
  (hits.zipIdx.filter fun (h, i) => referenceKey h ∉ (hits.take i).map referenceKey).map Prod.fst

/-- The last hit is taken unless its reference was taken before. -/
theorem distinct_concat (seen : List (String × String × Range)) (hits : List Hit) (h : Hit) :
    distinct seen (hits ++ [h]) = distinct seen hits ++
      if referenceKey h ∈ seen ∨ referenceKey h ∈ hits.map referenceKey then [] else [h] := by
  induction hits generalizing seen with
  | nil => simp [distinct]
  | cons g hits ih =>
    simp only [List.cons_append, distinct, List.contains_iff_mem, List.map_cons, List.mem_cons]
    split
    · next hseen =>
      have hiff : (referenceKey h ∈ seen ∨ referenceKey h ∈ hits.map referenceKey) ↔
          (referenceKey h ∈ seen ∨ referenceKey h = referenceKey g ∨
            referenceKey h ∈ hits.map referenceKey) := by
        grind
      rw [ih, if_congr hiff rfl rfl]
    · have hiff : (referenceKey h ∈ referenceKey g :: seen ∨
          referenceKey h ∈ hits.map referenceKey) ↔
          (referenceKey h ∈ seen ∨ referenceKey h = referenceKey g ∨
            referenceKey h ∈ hits.map referenceKey) := by
        grind
      rw [ih, if_congr hiff rfl rfl, List.cons_append]

theorem firsts_concat (hits : List Hit) (h : Hit) :
    firsts (hits ++ [h]) = firsts hits ++
      if referenceKey h ∈ hits.map referenceKey then [] else [h] := by
  have hfront : ∀ x ∈ hits.zipIdx, (hits ++ [h]).take x.2 = hits.take x.2 := by
    intro x hx
    have hlt := List.snd_lt_of_mem_zipIdx hx
    exact List.take_append_of_le_length (Nat.le_of_lt hlt)
  simp only [firsts]
  rw [List.zipIdx_append, List.filter_append, List.map_append]
  congr 1
  · congr 1
    refine List.filter_congr fun x hx => ?_
    rw [hfront x hx]
  · have hlast : (hits ++ [h]).take hits.length = hits := List.take_left
    rw [List.zipIdx_singleton, Nat.zero_add]
    by_cases hkey : referenceKey h ∈ hits.map referenceKey
    · rw [if_pos hkey, List.filter_cons_of_neg (by simp only [hlast, hkey]; decide)]
      rfl
    · rw [if_neg hkey, List.filter_cons_of_pos (by simp only [hlast, hkey]; decide)]
      rfl

/-- **Taking hits with a memory keeps the first hit of each reference.** -/
theorem distinct_eq_firsts (hits : List Hit) : distinct [] hits = firsts hits := by
  induction hits using List.reverseRecOn with
  | nil => rfl
  | append_singleton hits h ih =>
    rw [distinct_concat, firsts_concat, ih]
    simp

theorem keys_distinct (seen : List (String × String × Range)) (hits : List Hit) :
    ((distinct seen hits).map referenceKey).Nodup ∧
      ∀ h ∈ distinct seen hits, referenceKey h ∉ seen := by
  induction hits generalizing seen with
  | nil => exact ⟨List.nodup_nil, nofun⟩
  | cons g hits ih =>
    rw [distinct]
    split
    · exact ih seen
    · next hnew =>
      obtain ⟨hnodup, hfresh⟩ := ih (referenceKey g :: seen)
      rw [List.map_cons, List.nodup_cons]
      refine ⟨⟨?_, hnodup⟩, ?_⟩
      · intro hmem
        obtain ⟨h, hh, hkey⟩ := List.mem_map.mp hmem
        exact hfresh h hh (hkey ▸ List.mem_cons_self)
      · intro h hh
        rcases List.mem_cons.mp hh with rfl | hh
        · simpa using hnew
        · exact fun hseen => hfresh h hh (List.mem_cons_of_mem _ hseen)

/-- No reference is lost. -/
theorem exists_mem_distinct {hits : List Hit} {h : Hit} (hh : h ∈ hits)
    (seen : List (String × String × Range)) :
    referenceKey h ∈ seen ∨ ∃ h' ∈ distinct seen hits, referenceKey h' = referenceKey h := by
  induction hits generalizing seen with
  | nil => cases hh
  | cons g hits ih =>
    rw [distinct]
    split
    · next hseen =>
      rcases List.mem_cons.mp hh with rfl | hh
      · exact .inl (by simpa using hseen)
      · exact ih hh seen
    · rcases List.mem_cons.mp hh with rfl | hh
      · exact .inr ⟨h, List.mem_cons_self, rfl⟩
      · rcases ih hh (referenceKey g :: seen) with hseen | ⟨h', hh', hkey⟩
        · rcases List.mem_cons.mp hseen with heq | hseen
          · exact .inr ⟨g, List.mem_cons_self, heq.symm⟩
          · exact .inl hseen
        · exact .inr ⟨h', List.mem_cons_of_mem _ hh', hkey⟩

/-! ## Uniting outcomes -/

/-- The hits of a search that succeeded. -/
def hitsOf : Outcome Hit → List Hit
  | .error _ => []
  | .ok hits => hits

/-- What some searches are united to. -/
structure United (outcomes : List (Outcome Hit)) (result : Outcome Hit) : Prop where
  succeeds_iff : (∃ hits, result = .ok hits) ↔ ∃ hits, .ok hits ∈ outcomes
  nodup : ∀ hits, result = .ok hits → (hits.map referenceKey).Nodup
  complete : ∀ hits, result = .ok hits → ∀ found, .ok found ∈ outcomes → ∀ h ∈ found,
    ∃ h' ∈ hits, referenceKey h' = referenceKey h
  /-- the first hit of each reference, in the order of the searches -/
  eq_firsts : ∀ hits, result = .ok hits → hits = firsts (outcomes.flatMap hitsOf)
  /-- the only search fails -/
  failed : ∀ err, outcomes = [.error err] → result = .error err
  /-- both searches fail -/
  bothFailed : ∀ err err', outcomes = [.error err, .error err'] →
    result = .error (.aggregate [err.message, err'.message])

/-- Outcomes are united to a failure exactly if all of them are failures. -/
theorem unite_cases (outcomes : List (Outcome Hit)) :
    (∃ hits, .ok hits ∈ outcomes) ∧ unite outcomes = .ok (distinct [] (outcomes.flatMap hitsOf)) ∨
      (∀ hits, .ok hits ∉ outcomes) ∧ ∃ err, unite outcomes = .error err := by
  have hall : (outcomes.filterMap fun | .error err => some err | .ok _ => none).length =
      outcomes.length ↔ ∀ hits, .ok hits ∉ outcomes := by
    rw [List.filterMap_length_eq_length]
    constructor
    · intro h hits hmem
      have := h _ hmem
      cases this
    · intro h o ho
      cases o with
      | error err => rfl
      | ok hits => exact absurd ho (h hits)
  simp only [unite]
  split
  · next hfailed =>
    refine .inr ⟨hall.mp hfailed, ?_⟩
    split <;> exact ⟨_, rfl⟩
  · next hsome =>
    have hok : ∃ hits, .ok hits ∈ outcomes := by
      simpa using mt hall.mpr hsome
    exact .inl ⟨hok, rfl⟩

theorem unite_united (outcomes : List (Outcome Hit)) : United outcomes (unite outcomes) := by
  rcases unite_cases outcomes with ⟨hok, heq⟩ | ⟨hnone, err, heq⟩
  · rw [heq]
    refine ⟨?_, ?_, ?_, ?_, ?_, ?_⟩
    · exact ⟨fun _ => hok, fun _ => ⟨_, rfl⟩⟩
    · rintro hits ⟨⟩
      exact (keys_distinct [] _).1
    · rintro hits ⟨⟩ found hfound h hh
      have hmem : h ∈ outcomes.flatMap hitsOf := List.mem_flatMap.mpr ⟨_, hfound, hh⟩
      rcases exists_mem_distinct hmem [] with hnil | hfirst
      · cases hnil
      · exact hfirst
    · rintro hits ⟨⟩
      exact distinct_eq_firsts _
    · rintro err rfl
      simp at hok
    · rintro err err' rfl
      simp at hok
  · rw [heq]
    refine ⟨?_, nofun, nofun, nofun, ?_, ?_⟩
    · exact ⟨nofun, fun ⟨hits, hmem⟩ => absurd hmem (hnone hits)⟩
    · rintro err' rfl
      exact heq.symm
    · rintro err' err'' rfl
      exact heq.symm

/-! ## The lookup -/

/-- The search for the references to a token in a scope. -/
def referenceTier (e : Engine) (document : Document) (profile : Profile) (token : String)
    (flags : RepoInfo) (scope : Scope) : Program ε (Outcome Hit) :=
  e.searchScope scope (query .references document profile token flags scope) false

section Tiers

variable (e : Engine) (document : Document) (profile : Profile) (token : String)
  (flags : RepoInfo) (ε : Type) (w : World σ) (limit : Nat) (m : Machine σ)
  (outcomes : List (Outcome Hit))

/-- The searches of a lookup of references, run at once from a machine, end with these outcomes. -/
def TiersEnd : Prop :=
  if e.settings.publicInstance then
    ∃ current, ((e.referenceTier document profile token flags .currentRepository :
        Program ε _).run w limit m).outcome? = some current ∧ outcomes = [current]
  else
    ∃ current other, (((e.referenceTier document profile token flags .currentRepository :
        Program ε _).both (e.referenceTier document profile token flags .otherRepositories)).run w
        limit m).outcome? = some (current, other) ∧ outcomes = [current, other]

/-- Each search of a lookup of references, run alone from a machine, ends with its outcome. -/
def EachEnds : Prop :=
  e.referenceScopes.map (fun scope => ((e.referenceTier document profile token flags scope :
    Program ε _).run w limit m).outcome?) = outcomes.map some

variable {e document profile token flags ε w limit m outcomes}

/-- **Beside a memoryless world the searches end together as each of them does alone.** -/
theorem tiersEnd_iff_eachEnds {answers : Answers} (hw : w.Memoryless answers) :
    e.TiersEnd document profile token flags ε w limit m outcomes ↔
      e.EachEnds document profile token flags ε w limit m outcomes := by
  rw [TiersEnd, EachEnds, referenceScopes]
  split
  · simp only [List.map_cons, List.map_nil]
    constructor
    · rintro ⟨current, hcurrent, rfl⟩
      simp [hcurrent]
    · intro h
      obtain ⟨current, rfl, hcurrent⟩ := List.map_eq_singleton_iff.mp h.symm
      exact ⟨current, hcurrent.symm, rfl⟩
  · have htimeless : ∀ scope, (e.referenceTier document profile token flags scope :
        Program ε _).Timeless := fun scope => e.searchScope_timeless _ _ _
    rw [outcome?_run_both hw (htimeless _) (htimeless _)]
    simp only [List.map_cons, List.map_nil, Option.bind_eq_some_iff, Option.map_eq_some_iff,
      Prod.mk.injEq]
    constructor
    · rintro ⟨current, other, ⟨_, hcurrent, _, hother, rfl, rfl⟩, rfl⟩
      simp [hcurrent, hother]
    · intro h
      obtain ⟨current, rest, rfl, hcurrent, hrest⟩ := List.map_eq_cons_iff.mp h.symm
      obtain ⟨other, rfl, hother⟩ := List.map_eq_singleton_iff.mp hrest
      exact ⟨current, other, ⟨current, hcurrent.symm, other, hother.symm, rfl, rfl⟩, rfl⟩

end Tiers

/-- **References are what the searches are united to.** For every token, in a comment or not, and
once the facts about the repository are known: when the searches have ended, the lookup has, with
what their outcomes are united to. Beside a memoryless world these outcomes are those of each
search alone, so it does not matter which of them ends first. -/
theorem references_united (e : Engine) (document : Document) (position : Position)
    {profile : Profile} {token : Token}
    (htoken : e.tokenAt? document position = some (profile, token)) (w : World σ) (limit : Nat)
    (m : Machine σ) {asked : Ran σ ε RepoInfo} {flags : RepoInfo}
    (hasked : (e.repoFlags document.repo).run w limit m = asked)
    (hflags : asked.outcome? = some flags) {outcomes : List (Outcome Hit)}
    (hends : e.TiersEnd document profile token.text flags ε w limit asked.machine outcomes) :
    ((e.references document position : Program ε _).run w limit m).outcome? =
        some (unite outcomes) ∧
      United outcomes (unite outcomes) ∧
      ∀ answers, w.Memoryless answers → ∀ outcomes',
        e.TiersEnd document profile token.text flags ε w limit asked.machine outcomes' ↔
          e.EachEnds document profile token.text flags ε w limit asked.machine outcomes' := by
  refine ⟨?_, unite_united outcomes, fun answers hw outcomes' => tiersEnd_iff_eachEnds hw⟩
  subst hasked
  rw [references, htoken]
  refine (run_bind_of_some hflags _).1.trans ?_
  rw [TiersEnd] at hends
  split at hends
  · next hpublic =>
    obtain ⟨current, hcurrent, rfl⟩ := hends
    simp only [hpublic, if_true]
    exact (run_bind_of_some hcurrent _).1
  · next hpublic =>
    obtain ⟨current, other, hboth, rfl⟩ := hends
    simp only [hpublic]
    exact (run_bind_of_some hboth _).1

end CodeNav.Engine

namespace CodeNav.TwoLanguages

/-- A hit in the file `name`. -/
def hitIn (name : String) : Hit := { hit with file := name }

/-- The other repositories answer at once, the current one later; one hit is found by both. -/
def lateReplies : Replies
  | .search text _ =>
    if Text.occurs "-repo:".toList text.toList then some (0, .ok [hitIn "b", hitIn "c"])
    else some (7, .ok [hitIn "a", hitIn "b"])
  | _ => none

def lateWorld : World Unit := ⟨fun c t s => (.ofReply t (lateReplies c), s)⟩

/-- The current repository comes first although it answers last, and `b` is listed once. -/
theorem late_references :
    sources.engine.TiersEnd (question "plain").document plain "serve" ⟨false, false⟩ Empty
        lateWorld 100 machine [.ok [hitIn "a", hitIn "b"], .ok [hitIn "b", hitIn "c"]] ∧
      ((sources.engine.references (question "plain").document ⟨0, 3⟩ : Program Empty _).run
        lateWorld 100 machine).outcome? = some (.ok [hitIn "a", hitIn "b", hitIn "c"]) := by
  have hends : sources.engine.TiersEnd (question "plain").document plain "serve" ⟨false, false⟩
      Empty lateWorld 100 machine [.ok [hitIn "a", hitIn "b"], .ok [hitIn "b", hitIn "c"]] :=
    ⟨_, _, rfl, rfl⟩
  refine ⟨hends, ?_⟩
  rw [(Engine.references_united _ _ _ tokenAt?_plain lateWorld 100 machine rfl rfl hends).1]
  rfl

end CodeNav.TwoLanguages

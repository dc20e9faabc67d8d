import CodeNav.Lookup.Engine
import CodeNav.Proofs.Rank.Jaccard
import Mathlib.Data.List.Perm.Subperm

/-!
# Which hits are left of a search for definitions

The hits go through four stages: what cannot be seen from the document goes, what does not fit
its imports goes, the rest is ranked, and if the document has hits of its own they are all that
is left. The first two stages give everything back rather than leave nothing.

**A hit in the document itself passes every stage.** It can always be seen, each rule of imports
keeps the querying file (`Imports.keepsOwn_of_mem_rules`), and since all such hits are equally
near, ranking leaves them in their order. So the stages commute with picking the document's own
hits (`filter_isIn_visible`, `filter_isIn_filterDefinitions`).

Nothing of this depends on the number that hits are ranked by, as long as it is the same for all
hits of a file: `refineBy_narrowed` puts the stages together for any such number, and
`refine_narrowed` reads off what is left by the exact similarity, and by any rounded one.
-/

namespace CodeNav

namespace Imports

/-- The rules of the languages that have imports. -/
def rules : List Rule := [java, cFamily, python, go, javascript]

/-- **A file sees itself**, by whatever rule and whatever it imports. -/
theorem keepsOwn_of_mem_rules {rule : Rule} (h : rule ∈ rules) (ctx : Context) :
    rule ctx ctx.path = true := by
  simp only [rules, List.mem_cons, List.not_mem_nil, or_false] at h
  rcases h with rfl | rfl | rfl | rfl | rfl
  · simp [java]
  · simp [cFamily]
  · simp [python]
  · simp [go]
  · simp [javascript]

end Imports

theorem Hit.isIn_iff {h : Hit} {d : Document} :
    h.isIn d = true ↔ h.repository = d.repo ∧ h.file = d.path := by
  simp [isIn]

/-- The rule of a profile, if it has one, is one of the five. -/
def Profile.HasKnownRule (p : Profile) : Prop := ∀ rule ∈ p.imports, rule ∈ Imports.rules

namespace Profile

variable {p : Profile} {hits : List Hit} {document : Document}

/-- Imports that no hit fits are not asked. -/
theorem filterDefinitions_eq_nil_iff {ctx : Imports.Context} :
    p.filterDefinitions hits ctx = [] ↔ hits = [] := by
  rw [filterDefinitions]
  split
  · rfl
  · dsimp only
    split
    · rfl
    · next rule _ hkept =>
      refine ⟨fun h => absurd (List.isEmpty_iff.mpr h) hkept, ?_⟩
      rintro rfl
      rfl

theorem filterDefinitions_sublist (ctx : Imports.Context) :
    (p.filterDefinitions hits ctx).Sublist hits := by
  rw [filterDefinitions]
  split
  · exact List.Sublist.refl _
  · dsimp only
    split
    · exact List.Sublist.refl _
    · exact List.filter_sublist

/-- The imports of a document take none of its own hits away. -/
theorem filter_isIn_filterDefinitions (hp : p.HasKnownRule) :
    (p.filterDefinitions hits ⟨document.path.toList, document.text.toList⟩).filter
        (·.isIn document) =
      hits.filter (·.isIn document) := by
  rw [filterDefinitions]
  split
  · rfl
  · next rule hrule =>
    have hown : ∀ h : Hit, h.isIn document = true →
        rule ⟨document.path.toList, document.text.toList⟩ h.file.toList = true := by
      intro h hin
      rw [(Hit.isIn_iff.mp hin).2]
      exact Imports.keepsOwn_of_mem_rules (hp rule hrule) _
    dsimp only
    split
    · rfl
    · rw [List.filter_filter]
      refine List.filter_congr fun h _ => ?_
      cases hin : h.isIn document with
      | false => rfl
      | true => rw [hown h hin, Bool.and_true]

end Profile

namespace Engine

variable {hits : List Hit} {document : Document}

/-- Hits that are all hidden are all seen. -/
theorem visible_eq_nil_iff : visible hits document = [] ↔ hits = [] := by
  rw [visible]
  split
  · rfl
  · next hseen =>
    refine ⟨fun h => absurd (List.isEmpty_iff.mpr h) hseen, ?_⟩
    rintro rfl
    rfl

/-- The document's own hits are preferred only if there are any. -/
theorem preferOwn_eq_nil_iff : preferOwn hits document = [] ↔ hits = [] := by
  rw [preferOwn]
  split
  · next hany =>
    obtain ⟨h, hmem, hin⟩ := List.any_eq_true.mp hany
    have hkept : h ∈ hits.filter (·.isIn document) := List.mem_filter.mpr ⟨hmem, hin⟩
    exact ⟨fun hnil => absurd (hnil ▸ hkept) List.not_mem_nil,
      fun hnil => absurd (hnil ▸ hmem) List.not_mem_nil⟩
  · rfl

theorem visible_sublist : (visible hits document).Sublist hits := by
  rw [visible]
  split
  · exact List.Sublist.refl _
  · exact List.filter_sublist

/-- The document's own hits can be seen. -/
theorem filter_isIn_visible :
    (visible hits document).filter (·.isIn document) = hits.filter (·.isIn document) := by
  rw [visible]
  split
  · rfl
  · rw [List.filter_filter]
    refine List.filter_congr fun h _ => ?_
    cases h.isIn document <;> simp

/-- Hits that are local to other files are seen only if there are no others. -/
theorem fileLocal_of_mem_visible {h : Hit} (hmem : h ∈ visible hits document)
    (hlocal : h.fileLocal = true) (hother : ∀ h ∈ hits, h.isIn document = false) :
    ∀ h ∈ hits, h.fileLocal = true := by
  rw [visible] at hmem
  split at hmem
  · next hseen =>
    intro h' hh'
    have hhidden := List.filter_eq_nil_iff.mp (List.isEmpty_iff.mp hseen) h' hh'
    simpa [hother h' hh'] using hhidden
  · obtain ⟨hin, hseen⟩ := List.mem_filter.mp hmem
    simp [hlocal, hother h hin] at hseen

/-- The hits that are ranked: those that can be seen and fit the imports. -/
def fitting (hits : List Hit) (document : Document) (profile : Profile) : List Hit :=
  profile.filterDefinitions (visible hits document) ⟨document.path.toList, document.text.toList⟩

/-! ## With and without hits of its own -/

/-- Narrow the hits for a definition, ranked by a number. -/
def refineBy (key : Hit → ℚ) (hits : List Hit) (document : Document) (profile : Profile) :
    List Hit :=
  preferOwn (sortBy key (fitting hits document profile)) document

/-- The number they are ranked by is how near their files are. -/
theorem refine_eq (hits : List Hit) (document : Document) (profile : Profile) :
    refine hits document profile = refineBy (proximity document.path) hits document profile := by
  rw [refineBy, ← sortByProximity_eq]
  rfl

section Refine

variable {profile : Profile} {key : Hit → ℚ}

theorem fitting_sublist : (fitting hits document profile).Sublist hits :=
  (Profile.filterDefinitions_sublist _).trans visible_sublist

/-- What is ranked could be seen. -/
theorem mem_of_mem_sort {h : Hit} (hmem : h ∈ sortBy key (fitting hits document profile)) :
    h ∈ visible hits document :=
  (Profile.filterDefinitions_sublist _).subset ((perm_sortBy key _).subset hmem)

/-- No stage leaves nothing of something. -/
theorem refineBy_eq_nil_iff : refineBy key hits document profile = [] ↔ hits = [] := by
  have hsort : sortBy key (fitting hits document profile) = [] ↔
      fitting hits document profile = [] := by
    rw [← List.length_eq_zero_iff, (perm_sortBy key _).length_eq, List.length_eq_zero_iff]
  rw [refineBy, preferOwn_eq_nil_iff, hsort, fitting, Profile.filterDefinitions_eq_nil_iff,
    visible_eq_nil_iff]

/-- **Narrowing never leaves nothing of something.** -/
theorem refine_eq_nil_iff : refine hits document profile = [] ↔ hits = [] := by
  rw [refine_eq, refineBy_eq_nil_iff]

variable (hkey : ∀ a b : Hit, a.file = b.file → key a = key b)

section Own

include hkey

/-- Up to the last stage the document's own hits are all there, in their order. -/
theorem filter_isIn_sort (hprofile : profile.HasKnownRule) :
    (sortBy key (fitting hits document profile)).filter (·.isIn document) =
      hits.filter (·.isIn document) := by
  have hsame : ∀ a b : Hit, a.isIn document = true → b.isIn document = true → key a = key b :=
    fun a b ha hb => hkey a b ((Hit.isIn_iff.mp ha).2.trans (Hit.isIn_iff.mp hb).2.symm)
  rw [filter_sortBy _ hsame, fitting, Profile.filter_isIn_filterDefinitions hprofile,
    filter_isIn_visible]

/-- **With hits of its own** the document is left with those. -/
theorem refineBy_of_own (hprofile : profile.HasKnownRule)
    (hown : ∃ h ∈ hits, h.isIn document = true) :
    refineBy key hits document profile = hits.filter (·.isIn document) := by
  obtain ⟨h, hmem, hin⟩ := hown
  have hkept : h ∈ (sortBy key (fitting hits document profile)).filter (·.isIn document) := by
    rw [filter_isIn_sort hkey hprofile]
    exact List.mem_filter.mpr ⟨hmem, hin⟩
  have hany : (sortBy key (fitting hits document profile)).any (·.isIn document) = true :=
    List.any_eq_true.mpr ⟨h, List.mem_filter.mp hkept⟩
  rw [← filter_isIn_sort hkey hprofile]
  exact if_pos hany

end Own

/-- **Without** them it is left with all that fits, ranked. -/
theorem refineBy_of_other (hother : ∀ h ∈ hits, h.isIn document = false) :
    refineBy key hits document profile = sortBy key (fitting hits document profile) := by
  refine if_neg fun hany => ?_
  obtain ⟨h, hmem, hin⟩ := List.any_eq_true.mp hany
  rw [hother h (visible_sublist.subset (mem_of_mem_sort hmem))] at hin
  cases hin

/-- What a lookup of definitions leaves of the hits of a search, ranked by a number. -/
structure Narrowed (key : Hit → ℚ) (hits : List Hit) (document : Document) (kept : List Hit) :
    Prop where
  ne_nil : kept ≠ []
  subperm : kept.Subperm hits
  /-- the document's own hits alone, if it has any, in their order -/
  own : (∃ h ∈ hits, h.isIn document = true) → kept = hits.filter (·.isIn document)
  /-- else, hits that are local to their file only if all of them are -/
  seen : (∀ h ∈ hits, h.isIn document = false) → (∃ h ∈ kept, h.fileLocal = true) →
    ∀ h ∈ hits, h.fileLocal = true
  /-- and those of the largest number first -/
  ranked : (∀ h ∈ hits, h.isIn document = false) → kept.Pairwise fun a b => key b ≤ key a
  /-- those of one number in their order -/
  stable : (∀ h ∈ hits, h.isIn document = false) → ∀ x,
    (kept.filter fun h => key h = x).Sublist hits

include hkey in
/-- Whatever number the hits are ranked by, as long as it is one for all hits of a file. -/
theorem refineBy_narrowed (hprofile : profile.HasKnownRule) (hne : hits ≠ []) :
    Narrowed key hits document (refineBy key hits document profile) := by
  have hperm := perm_sortBy key (fitting hits document profile)
  refine ⟨mt refineBy_eq_nil_iff.mp hne, ?_, refineBy_of_own hkey hprofile, ?_, ?_, ?_⟩
  · by_cases hown : ∃ h ∈ hits, h.isIn document = true
    · rw [refineBy_of_own hkey hprofile hown]
      exact List.filter_sublist.subperm
    · rw [refineBy_of_other (by simpa using hown)]
      exact hperm.subperm.trans fitting_sublist.subperm
  · rintro hother ⟨h, hmem, hlocal⟩
    rw [refineBy_of_other hother] at hmem
    exact fileLocal_of_mem_visible (mem_of_mem_sort hmem) hlocal hother
  · intro hother
    rw [refineBy_of_other hother]
    exact pairwise_sortBy key _
  · intro hother x
    have hequal : ∀ a b : Hit, decide (key a = x) = true → decide (key b = x) = true →
        key a = key b := by
      intro a b ha hb
      rw [of_decide_eq_true ha, of_decide_eq_true hb]
    rw [refineBy_of_other hother, filter_sortBy _ hequal]
    exact List.filter_sublist.trans fitting_sublist

end Refine

/-- How near the file of a hit is to a document, in double precision. -/
def nearness (round : ℚ → ℚ) (document : Document) (h : Hit) : ℚ :=
  score round h.file document.path

/-- **The hits for a definition are narrowed to what the document can mean**, and never to
nothing. They are ranked by the exact similarity of their files, and they would be narrowed in the
same way if it was rounded, however that is done; in double precision, for paths of fewer than
`2 ^ 26` segments, they are the same hits. -/
theorem refine_narrowed {profile : Profile} (hprofile : profile.HasKnownRule) (hne : hits ≠ []) :
    Narrowed (proximity document.path) hits document (refine hits document profile) ∧
      ∀ round : ℚ → ℚ,
        Narrowed (nearness round document) hits document
          (refineBy (nearness round document) hits document profile) ∧
        (RoundsToNearest round →
          (∀ h ∈ hits, (segmentSet h.file ∪ segmentSet document.path).card < 2 ^ 26) →
          refineBy (nearness round document) hits document profile =
            refine hits document profile) := by
  refine ⟨?_, fun round => ⟨refineBy_narrowed ?_ hprofile hne, fun hround hsmall => ?_⟩⟩
  · rw [refine_eq]
    refine refineBy_narrowed (fun a b hfile => ?_) hprofile hne
    rw [proximity, proximity, hfile]
  · intro a b hfile
    rw [nearness, nearness, hfile]
  · have hsame : sortBy (nearness round document) (fitting hits document profile) =
        sortByProximity (fitting hits document profile) document.path :=
      sortByScore_eq hround fun h hmem => hsmall h (fitting_sublist.subset hmem)
    rw [refineBy, hsame]
    rfl

/-- A hit in a file of the repository `r`. -/
def hitIn (file : String) (fileLocal : Bool) : Hit where
  repository := "r"
  revision := "v"
  file
  range := ⟨⟨0, 0⟩, ⟨0, 1⟩⟩
  fileLocal

/-- A language in which packages are directories. -/
def packaged : Profile := ⟨"go", "Go", ["go"], [], ⟨"", .empty, []⟩, none, some Imports.go⟩

theorem own_hits_alone :
    let hits := [hitIn "api/b.go" false, hitIn "api/a.go" true, hitIn "lib/c.go" false,
      hitIn "api/a.go" false]
    packaged.HasKnownRule ∧ hits ≠ [] ∧
      refine hits (.new "r" "v" "api/a.go" "go" "package api") packaged =
        [hitIn "api/a.go" true, hitIn "api/a.go" false] := by
  have hrule : packaged.HasKnownRule := by
    rintro rule ⟨⟩
    simp [Imports.rules]
  have hne : [hitIn "api/b.go" false, hitIn "api/a.go" true, hitIn "lib/c.go" false,
      hitIn "api/a.go" false] ≠ [] := List.cons_ne_nil _ _
  obtain ⟨h, -⟩ : Narrowed _ _ (.new "r" "v" "api/a.go" "go" "package api") _ ∧ _ :=
    refine_narrowed hrule hne
  exact ⟨hrule, hne, (h.own (by decide)).trans (by decide)⟩

end Engine

end CodeNav

import CodeNav.Proofs.Language.Index
import CodeNav.Proofs.Path.Extension
import Mathlib.Data.List.Forall2

/-!
# What a registry answers

A registry looks keys up in its indexes, and **answers as if it searched its list of profiles**
from the front (`ofProfiles_answers`):

* by id, with the first profile that has the id;
* for a path that has an extension, with the first profile that has the same extension, **letter
  by letter, the case of ASCII letters aside** (`lowerAscii_eq_iff`); for no other path;
* by both, with the profile of the id if there is one, and with that for the path if not.

What stands in an index is a place in the list, so no answer is lost on the way from the index to
the profile.
-/

namespace CodeNav

/-! ## Letters in either case -/

/-- An ASCII capital, and its small letter. -/
def IsCapitalOf (capital small : Char) : Prop :=
  'A'.toNat ≤ capital.toNat ∧ capital.toNat ≤ 'Z'.toNat ∧ small.toNat = capital.toNat + 32

/-- The same character, or an ASCII letter and its other case. -/
def SameLetter (a b : Char) : Prop := a = b ∨ IsCapitalOf a b ∨ IsCapitalOf b a

instance (capital small : Char) : Decidable (IsCapitalOf capital small) :=
  inferInstanceAs (Decidable (_ ∧ _))

instance (a b : Char) : Decidable (SameLetter a b) := inferInstanceAs (Decidable (_ ∨ _))

/-- Only the letters from A to Z have a small letter 32 places on. -/
theorem toNat_toLower (c : Char) : c.toLower.toNat =
    if 'A'.toNat ≤ c.toNat ∧ c.toNat ≤ 'Z'.toNat then c.toNat + 32 else c.toNat := by
  have hcapital : (c.val ≥ 'A'.val ∧ c.val ≤ 'Z'.val) ↔
      'A'.toNat ≤ c.toNat ∧ c.toNat ≤ 'Z'.toNat := by
    simp only [Char.toNat, ge_iff_le, UInt32.le_iff_toNat_le]
  by_cases h : c.val ≥ 'A'.val ∧ c.val ≤ 'Z'.val
  · have hlower : c.toLower.val = c.val + ('a'.val - 'A'.val) := congrArg Char.val (dif_pos h)
    have hrange := hcapital.mp h
    have hZ : 'Z'.toNat = 90 := rfl
    have hgap : ('a'.val - 'A'.val).toNat = 32 := by decide
    have hadd := UInt32.toNat_add c.val ('a'.val - 'A'.val)
    rw [if_pos hrange, Char.toNat, hlower]
    simp only [Char.toNat] at hrange hZ ⊢
    omega
  · have hlower : c.toLower = c := dif_neg h
    rw [hlower, if_neg fun hrange => h (hcapital.mpr hrange)]

/-- So two characters agree if they are the same or differ in case alone. -/
theorem toLower_eq_iff {a b : Char} : a.toLower = b.toLower ↔ SameLetter a b := by
  have hA : 'A'.toNat = 65 := rfl
  have hZ : 'Z'.toNat = 90 := rfl
  have ha := toNat_toLower a
  have hb := toNat_toLower b
  rw [SameLetter, IsCapitalOf, IsCapitalOf, ← Char.toNat_inj, ← Char.toNat_inj]
  split at ha <;> split at hb <;> omega

/-- Extensions are compared letter by letter, and other characters as they are. -/
theorem lowerAscii_eq_iff {s t : List Char} :
    lowerAscii s = lowerAscii t ↔ List.Forall₂ SameLetter s t := by
  rw [lowerAscii, lowerAscii, ← List.forall₂_eq_eq_eq, List.forall₂_map_left_iff,
    List.forall₂_map_right_iff]
  simp only [toLower_eq_iff]

/-- A profile has an extension, in either case. -/
def Profile.Claims (p : Profile) (ext : List Char) : Prop :=
  ∃ e ∈ p.extensions, List.Forall₂ SameLetter e.toList ext

instance (p : Profile) (ext : List Char) : Decidable (p.Claims ext) :=
  inferInstanceAs (Decidable (∃ e ∈ p.extensions, _))

/-! ## The registry -/

namespace Registry

/-- A registry answers as a search through a list of profiles does. -/
structure Answers (r : Registry) (profiles : List Profile) : Prop where
  /-- the first profile with an id answers for it -/
  get?_eq : ∀ id, r.get? id = profiles.find? (·.id = id)
  /-- the first profile that has the extension of a path answers for it -/
  forPath?_eq : ∀ path ext, Path.HasExtension path.toList ext →
    r.forPath? path = profiles.find? (·.Claims ext)
  /-- no profile answers for a path without an extension -/
  forPath?_eq_none : ∀ path, (∀ ext, ¬ Path.HasExtension path.toList ext) →
    r.forPath? path = none
  /-- a profile with the id that is asked for comes first -/
  resolve?_of_some : ∀ id path p, r.get? id = some p → r.resolve? (some id) path = some p
  /-- if there is none, the path decides -/
  resolve?_of_none : ∀ id? path, (∀ id ∈ id?, r.get? id = none) →
    r.resolve? id? path = r.forPath? path
  /-- who answers is in the list -/
  mem : ∀ p, (∃ id, r.get? id = some p) ∨ (∃ path, r.forPath? path = some p) ∨
    (∃ id? path, r.resolve? id? path = some p) → p ∈ profiles
  /-- the indexes point into the list that is kept -/
  lt : ∀ (key : String) i, r.byId[key]? = some i ∨ r.byExtension[key]? = some i →
    i < r.profiles.length

/-- **The first profile that claims the extension of a path is the answer.** -/
theorem forPath?_of_hasExtension (profiles : List Profile) {path : String} {ext : List Char}
    (h : Path.HasExtension path.toList ext) :
    (ofProfiles profiles).forPath? path = profiles.find? (·.Claims ext) := by
  rw [forPath?_ofProfiles, Path.extension?_eq_some_iff.mpr h, Option.bind_some]
  congr 1
  funext p
  rw [Bool.eq_iff_iff, decide_eq_true_eq, List.any_eq_true]
  simp only [decide_eq_true_eq, lowerAscii_eq_iff, Profile.Claims]

/-- A path without an extension belongs to no language. -/
theorem forPath?_of_not_hasExtension (profiles : List Profile) {path : String}
    (h : ∀ ext, ¬ Path.HasExtension path.toList ext) :
    (ofProfiles profiles).forPath? path = none := by
  have hnone : Path.extension? path.toList = none :=
    Option.eq_none_iff_forall_ne_some.mpr fun ext hext =>
      h ext (Path.extension?_eq_some_iff.mp hext)
  rw [forPath?_ofProfiles, hnone, Option.bind_none]

/-- What is found by its id is one of the profiles. -/
theorem mem_of_get? {profiles : List Profile} {id : String} {p : Profile}
    (h : (ofProfiles profiles).get? id = some p) : p ∈ profiles := by
  rw [get?_ofProfiles] at h
  exact List.mem_of_find?_eq_some h

/-- So is what is found by a path. -/
theorem mem_of_forPath? {profiles : List Profile} {path : String} {p : Profile}
    (h : (ofProfiles profiles).forPath? path = some p) : p ∈ profiles := by
  rw [forPath?_ofProfiles, Option.bind_eq_some_iff] at h
  obtain ⟨ext, -, hfind⟩ := h
  exact List.mem_of_find?_eq_some hfind

/-- And so is what a document is resolved to, either way. -/
theorem mem_of_resolve? {profiles : List Profile} {id? : Option String} {path : String}
    {p : Profile} (h : (ofProfiles profiles).resolve? id? path = some p) : p ∈ profiles := by
  rw [resolve?, Option.or_eq_some_iff] at h
  rcases h with hid | ⟨-, hpath⟩
  · obtain ⟨id, -, hget⟩ := Option.bind_eq_some_iff.mp hid
    exact mem_of_get? hget
  · exact mem_of_forPath? hpath

/-- **A registry answers as a search through its list does**, for every list of profiles: ids may
repeat, and extensions may be shared in any case. -/
theorem ofProfiles_answers (profiles : List Profile) : (ofProfiles profiles).Answers profiles where
  get?_eq := get?_ofProfiles profiles
  forPath?_eq _ _ h := forPath?_of_hasExtension profiles h
  forPath?_eq_none _ h := forPath?_of_not_hasExtension profiles h
  resolve?_of_some id path p h := by
    rw [resolve?, Option.bind_some, h, Option.some_or]
  resolve?_of_none id? path h := by
    have hnone : id?.bind (ofProfiles profiles).get? = none := Option.bind_eq_none_iff.mpr h
    rw [resolve?, hnone, Option.none_or]
  mem p h := by
    rcases h with ⟨id, hid⟩ | ⟨path, hpath⟩ | ⟨id?, path, hboth⟩
    · exact mem_of_get? hid
    · exact mem_of_forPath? hpath
    · exact mem_of_resolve? hboth
  lt key i h := by
    rw [byId_ofProfiles, byExtension_ofProfiles] at h
    exact h.elim (lt_of_getElem?_claimed _) (lt_of_getElem?_claimed _)

end Registry

/-! An id that two profiles have, and an extension that two share in different cases. -/

namespace SharedExtension

open Registry

/-- A profile with a name of its own. -/
def profile (id name : String) (extensions : List String) : Profile :=
  ⟨id, name, extensions, [], .fixed "[a-z]", none, none⟩

/-- The list. -/
def profiles : List Profile :=
  [profile "c" "C" ["c", "h"], profile "cpp" "C++" ["CPP", "H"], profile "c" "Old C" ["C"]]

/-- The first profile answers for the extension that it shares. A name that only opens with a dot
has no extension; an id that nobody has leaves the path to decide. -/
theorem shared_extension_answered :
    (Path.HasExtension "src/util.H/.".toList ['H'] ∧
      ((ofProfiles profiles).forPath? "src/util.H/.").map (·.name) = some "C") ∧
    ((∀ ext, ¬ Path.HasExtension "src/.h".toList ext) ∧
      (ofProfiles profiles).forPath? "src/.h" = none) ∧
    (∀ id ∈ some "java", (ofProfiles profiles).get? id = none) ∧
      (ofProfiles profiles).resolve? (some "java") "a.cpp" =
        (ofProfiles profiles).forPath? "a.cpp" := by
  have hanswers := ofProfiles_answers profiles
  have hextension : Path.HasExtension "src/util.H/.".toList ['H'] :=
    Path.extension?_eq_some_iff.mp (by decide +kernel)
  have hnone : ∀ ext, ¬ Path.HasExtension "src/.h".toList ext := by
    intro ext hext
    have hdot : Path.extension? "src/.h".toList = none := by decide +kernel
    rw [Path.extension?_eq_some_iff.mpr hext] at hdot
    cases hdot
  have hjava : ∀ id ∈ some "java", (ofProfiles profiles).get? id = none := by
    rintro _ ⟨⟩
    rw [hanswers.get?_eq]
    rfl
  refine ⟨⟨hextension, ?_⟩, ⟨hnone, hanswers.forPath?_eq_none _ hnone⟩, hjava,
    hanswers.resolve?_of_none _ _ hjava⟩
  rw [hanswers.forPath?_eq _ _ hextension]
  decide +kernel

end SharedExtension

end CodeNav

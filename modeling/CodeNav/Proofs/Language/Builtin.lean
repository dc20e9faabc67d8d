import CodeNav.Language.Builtin
import CodeNav.Proofs.Language.Index
import CodeNav.Proofs.Pattern.Ending
import CodeNav.Proofs.Text.Pieces

/-!
# Facts about the built-in languages

What holds of every row of the table is checked on the table, as texts, and carried over to the
profiles that the texts are read as (`of_read?`).

* **Identifiers.** ASCII word characters are identifier characters of every language
  (`isMatch_identifier`).
* **Extensions.** The registry finds the language of a path by its extension without regard to
  case (`forPath?_eq_some`). The files of a language are also told by a pattern made of its
  extensions, which has regard to it: it keeps the texts that end in a dot and one of the
  extensions as they are written (`exists_extensionPattern`), and they are written in lower case
  (`lowerAscii_of_mem_extensions`).
-/

namespace CodeNav.Builtin

open Text

/-! ## From texts to profiles -/

/-- What a profile has from the texts it is read from. -/
theorem of_read? {t : Profile.Written} {p : Profile} (h : t.read? = some p) :
    t.id = p.id ∧ t.extensions = p.extensions ∧
      Pattern.parse? t.identifier = some p.identifier := by
  simp only [Profile.Written.read?, Option.bind_eq_bind, Option.bind_eq_some_iff] at h
  obtain ⟨comments, -, identifier, hidentifier, ignore, -, heq⟩ := h
  cases heq
  exact ⟨rfl, rfl, hidentifier⟩

theorem ignore_of_mem_profiles {p : Profile} (h : p ∈ profiles) :
    ∃ t ∈ texts, readOptional Pattern.parse? t.ignore = some p.ignore := by
  obtain ⟨t, ht, hread⟩ := List.mem_filterMap.mp h
  simp only [Profile.Written.read?, Option.bind_eq_bind, Option.bind_eq_some_iff] at hread
  obtain ⟨comments, -, identifier, -, ignore, hignore, heq⟩ := hread
  cases heq
  exact ⟨t, ht, hignore⟩

theorem extensions_of_mem_profiles {p : Profile} (h : p ∈ profiles) :
    ∃ t ∈ texts, t.extensions = p.extensions := by
  obtain ⟨t, ht, hread⟩ := List.mem_filterMap.mp h
  exact ⟨t, ht, (of_read? hread).2.1⟩

theorem exists_profile {id : String} {Q : Profile → Bool}
    (h : ∃ t ∈ texts, t.id = id ∧ t.read?.any Q) : ∃ p ∈ profiles, Q p := by
  obtain ⟨t, ht, -, hany⟩ := h
  obtain ⟨p, hp, hq⟩ := (Option.any_eq_true _ _).mp hany
  exact ⟨p, List.mem_filterMap.mpr ⟨t, ht, hp⟩, hq⟩

/-- What holds of all profiles that are read from the table. -/
theorem forall_profiles {Q : Profile → Bool} (h : ∀ t ∈ texts, t.read?.all Q) :
    ∀ p ∈ profiles, Q p := by
  intro p hp
  obtain ⟨t, ht, hread⟩ := List.mem_filterMap.mp hp
  have hall := h t ht
  rwa [hread, Option.all_some] at hall

theorem ids_on_one_line : ∀ t ∈ texts, '\n' ∉ t.id.toList := by
  decide +kernel

/-- A language's name for itself is one line. -/
theorem newline_notMem_id {p : Profile} (h : p ∈ profiles) : '\n' ∉ p.id.toList := by
  obtain ⟨t, ht, hread⟩ := List.mem_filterMap.mp h
  rw [← (of_read? hread).1]
  exact ids_on_one_line t ht

/-! ## Identifiers -/

/-- The ASCII word characters. -/
def asciiWords : List Char := ((List.range 128).map Char.ofNat).filter isWord

theorem mem_asciiWords {c : Char} (hlt : c.toNat < 128) (hc : isWord c = true) :
    c ∈ asciiWords := by
  refine List.mem_filter.mpr ⟨List.mem_map.mpr ⟨c.toNat, List.mem_range.mpr hlt, ?_⟩, hc⟩
  exact Char.ofNat_toNat c

theorem identifiers_take_asciiWords : ∀ i ∈ (texts.map (·.identifier)).eraseDups,
    (Pattern.parse? i).all fun p => asciiWords.all fun c => p.isMatch [c] := by
  decide +kernel

/-- ASCII word characters are identifier characters of every language. -/
theorem isMatch_identifier {profile : Profile} (h : profile ∈ profiles) {c : Char}
    (hlt : c.toNat < 128) (hc : isWord c = true) : profile.identifier.isMatch [c] = true := by
  obtain ⟨t, ht, hread⟩ := List.mem_filterMap.mp h
  have hmem : t.identifier ∈ (texts.map (·.identifier)).eraseDups := by
    rw [List.mem_eraseDups]
    exact List.mem_map_of_mem ht
  have hall := identifiers_take_asciiWords _ hmem
  rw [(of_read? hread).2.2, Option.all_some, List.all_eq_true] at hall
  exact hall c (mem_asciiWords hlt hc)

/-! ## Extensions -/

/-- The pattern of the files of a language. -/
def extensionPattern (extensions : List String) : String :=
  "\\.(" ++ "|".intercalate extensions ++ ")$"

/-- There is an extension, and the pattern of the extensions reads as made of them. -/
theorem extensionPattern_reads : ∀ t ∈ texts, t.extensions ≠ [] ∧
    Unbroken (extensionPattern t.extensions).toList ∧
    (Pattern.parse? (extensionPattern t.extensions)).any (·.regex = .ending t.extensions) := by
  decide +kernel

theorem extensions_lower : ∀ t ∈ texts, ∀ e ∈ t.extensions,
    lowerAscii e.toList = e.toList ∧ '.' ∉ e.toList := by
  decide +kernel

section Profile

variable {profile : Profile} (hprofile : profile ∈ profiles)

include hprofile

theorem extensions_ne_nil : profile.extensions ≠ [] := by
  obtain ⟨t, ht, hext⟩ := extensions_of_mem_profiles hprofile
  exact hext ▸ (extensionPattern_reads t ht).1

/-- Built-in extensions are in lower case and hold no dot. -/
theorem lowerAscii_of_mem_extensions {e : String} (he : e ∈ profile.extensions) :
    lowerAscii e.toList = e.toList ∧ '.' ∉ e.toList := by
  obtain ⟨t, ht, hext⟩ := extensions_of_mem_profiles hprofile
  exact extensions_lower t ht e (hext ▸ he)

/-- **The pattern of the files of a built-in language keeps the texts that end in a dot and one
of its extensions.** -/
theorem exists_extensionPattern :
    Unbroken (extensionPattern profile.extensions).toList ∧
      ∃ p, Pattern.parse? (extensionPattern profile.extensions) = some p ∧
        ∀ s, p.isMatch s = true ↔ ∃ e ∈ profile.extensions, '.' :: e.toList <:+ s := by
  obtain ⟨t, ht, hext⟩ := extensions_of_mem_profiles hprofile
  obtain ⟨hne, hblank, hregex⟩ := extensionPattern_reads t ht
  rw [Option.any_eq_true] at hregex
  obtain ⟨p, hp, hregex⟩ := hregex
  rw [hext] at hne hblank hp hregex
  exact ⟨hblank, p, hp, fun s => Pattern.isMatch_ending_iff (of_decide_eq_true hregex) hne⟩

end Profile

/-- The profile for a path is a built-in one, and one of its extensions is the path's, case
aside. -/
theorem forPath?_eq_some {path : String} {profile : Profile}
    (h : registry.forPath? path = some profile) :
    profile ∈ profiles ∧ ∃ ext, Path.extension? path.toList = some ext ∧
      ∃ e ∈ profile.extensions, lowerAscii e.toList = lowerAscii ext := by
  rw [registry, Registry.forPath?_ofProfiles, Option.bind_eq_some_iff] at h
  obtain ⟨ext, hext, hfind⟩ := h
  refine ⟨List.mem_of_find?_eq_some hfind, ext, hext, ?_⟩
  simpa using List.find?_some hfind

end CodeNav.Builtin

import CodeNav.Path
import CodeNav.Proofs.Text.Pieces

/-!
# The extension of a path

The file name of a path is its last segment, the idle ones behind it aside, unless that leads up
(`HasFileName`); its extension is what follows the last dot of the name, if that dot does not open
it (`HasExtension`). Both are found by looking at the components (`extension?_eq_some_iff`).

A path that does not end in a slash, or in a dot behind a slash, ends in its file name; so
**what follows the last dot of the name ends the path** (`extension?_suffix`). Idle segments
at the end are left out of the name, and the text of such a path goes on behind it.
-/

namespace CodeNav

/-- A character of a text occurs a last time. -/
theorem Text.exists_last_of_mem {c : Char} {s : List Char} (h : c ∈ s) :
    ∃ a b, s = a ++ c :: b ∧ c ∉ b := by
  obtain ⟨b, a, hrev, hb⟩ := List.eq_append_cons_of_mem (List.mem_reverse.mpr h)
  refine ⟨a.reverse, b.reverse, ?_, by simpa using hb⟩
  rw [← List.reverse_reverse s, hrev]
  simp

/-- The last piece of a text is the whole of it, or stands behind the last separator. -/
theorem Text.exists_splitAt_eq (sep : Char) (s : List Char) :
    ∃ front last, splitAt sep s = front ++ [last] ∧ (s = last ∨ sep :: last <:+ s) := by
  by_cases h : sep ∈ s
  · obtain ⟨a, b, rfl, hb⟩ := exists_last_of_mem h
    refine ⟨splitAt sep a, b, ?_, .inr (List.suffix_append _ _)⟩
    rw [splitAt_append, splitAt_of_not_mem hb]
  · exact ⟨[], s, splitAt_of_not_mem h, .inl rfl⟩

namespace Path

/-- A text that ends in a slash, or in a dot behind one. -/
def EndsIdle (p : List Char) : Prop := ['/'] <:+ p ∨ ['/', '.'] <:+ p

instance (p : List Char) : Decidable (EndsIdle p) := inferInstanceAs (Decidable (_ ∨ _))

theorem ofSegment_eq_none_iff {s : List Char} : ofSegment s = none ↔ s = [] ∨ s = ['.'] := by
  rw [ofSegment]
  split
  · next h => simpa using h
  · next h => split <;> simpa using h

/-- A segment that names a file or a directory: it is neither empty nor `.` nor `..`. -/
structure IsName (s : List Char) : Prop where
  ne_nil : s ≠ []
  ne_here : s ≠ ['.']
  ne_up : s ≠ ['.', '.']

instance (s : List Char) : Decidable (IsName s) :=
  decidable_of_iff (s ≠ [] ∧ s ≠ ['.'] ∧ s ≠ ['.', '.'])
    ⟨fun ⟨hnil, hhere, hup⟩ => ⟨hnil, hhere, hup⟩, fun h => ⟨h.ne_nil, h.ne_here, h.ne_up⟩⟩

theorem ofSegment_eq_name_iff {s name : List Char} :
    ofSegment s = some (.name name) ↔ s = name ∧ IsName name := by
  constructor
  · intro h
    rw [ofSegment] at h
    split at h
    · cases h
    · next hidle =>
      split at h
      · cases h
      · next hup =>
        cases h
        simp only [Bool.or_eq_true, decide_eq_true_eq, not_or] at hidle
        exact ⟨rfl, hidle.1, hidle.2, hup⟩
  · rintro ⟨rfl, hname⟩
    simp [ofSegment, hname.ne_nil, hname.ne_here, hname.ne_up]

/-- The lead of a path is no name. -/
theorem getLast?_components {p name : List Char} : (components p).getLast? = some (.name name) ↔
    ((Text.splitAt '/' p).filterMap ofSegment).getLast? = some (.name name) := by
  rw [components, List.getLast?_append]
  cases ((Text.splitAt '/' p).filterMap ofSegment).getLast? with
  | some c => rfl
  | none =>
    rw [Option.none_or]
    split
    · simp
    · split <;> simp

/-- The last segment of a path that means something, if that is a name. -/
def HasFileName (p name : List Char) : Prop :=
  ∃ front idle, Text.splitAt '/' p = front ++ name :: idle ∧ IsName name ∧
    ∀ s ∈ idle, s = [] ∨ s = ['.']

theorem fileName?_eq_some_iff {p name : List Char} :
    fileName? p = some name ↔ HasFileName p name := by
  have hlast : fileName? p = some name ↔ (components p).getLast? = some (.name name) := by
    rw [fileName?]
    split <;> simp_all
  rw [hlast, getLast?_components, List.getLast?_eq_some_iff]
  constructor
  · rintro ⟨steps, hsteps⟩
    obtain ⟨front, rest, hsplit, -, hrest⟩ := List.filterMap_eq_append_iff.mp hsteps
    obtain ⟨idle, s, idle', rfl, -, hs, hidle'⟩ := List.filterMap_eq_cons_iff.mp hrest
    obtain ⟨rfl, hname⟩ := ofSegment_eq_name_iff.mp hs
    refine ⟨front ++ idle, idle', by simp [hsplit], hname, fun s hs => ?_⟩
    exact ofSegment_eq_none_iff.mp (List.filterMap_eq_nil_iff.mp hidle' s hs)
  · rintro ⟨front, idle, hsplit, hname, hidle⟩
    have hnone : idle.filterMap ofSegment = [] := List.filterMap_eq_nil_iff.mpr fun s hs =>
      ofSegment_eq_none_iff.mpr (hidle s hs)
    refine ⟨front.filterMap ofSegment, ?_⟩
    rw [hsplit, List.filterMap_append,
      List.filterMap_cons_some (ofSegment_eq_name_iff.mpr ⟨rfl, hname⟩), hnone]

/-- A path whose last segment means something ends in its file name. -/
theorem HasFileName.suffix {p name : List Char} (h : HasFileName p name) (hend : ¬ EndsIdle p) :
    name <:+ p := by
  obtain ⟨front, idle, hsplit, -, hidle⟩ := h
  obtain ⟨front', last, hsplit', hlast⟩ := Text.exists_splitAt_eq '/' p
  have hends : (front ++ name :: idle).getLast? = some last := by
    rw [← hsplit, hsplit', List.getLast?_concat]
  rcases List.eq_nil_or_concat idle with rfl | ⟨idle, s, rfl⟩
  · obtain rfl : name = last := by simpa using hends
    rcases hlast with rfl | hbehind
    · exact List.suffix_refl _
    · exact (List.suffix_cons _ _).trans hbehind
  · obtain rfl : s = last := by simpa [List.getLast?_cons] using hends
    -- an idle segment that stands behind no slash is the whole path, which then has no name
    rcases hidle s (by simp) with rfl | rfl <;> rcases hlast with rfl | hbehind
    · simp [Text.splitAt, List.singleton_eq_append_iff] at hsplit
    · exact absurd (.inl hbehind) hend
    · simp [Text.splitAt, List.singleton_eq_append_iff] at hsplit
    · exact absurd (.inr hbehind) hend

/-! ## Extensions -/

theorem ne_dot_of_mem_reverse {ext : List Char} (h : '.' ∉ ext) :
    ∀ c ∈ ext.reverse, decide (c ≠ '.') = true := by
  intro c hc
  rw [decide_eq_true_eq]
  rintro rfl
  exact h (List.mem_reverse.mp hc)

/-- **A name is cut at its last dot.** -/
theorem cutLastDot?_eq_some_iff {s stem ext : List Char} :
    cutLastDot? s = some (stem, ext) ↔ s = stem ++ '.' :: ext ∧ '.' ∉ ext := by
  have hcut : ∀ {a b : List Char}, '.' ∉ b → cutLastDot? (a ++ '.' :: b) = some (a, b) := by
    intro a b hb
    have htail : (a ++ '.' :: b).reverse.takeWhile (· ≠ '.') = b.reverse := by
      rw [List.reverse_append, List.reverse_cons, List.append_assoc,
        List.takeWhile_append_of_pos (ne_dot_of_mem_reverse hb)]
      simp
    have hlength : (a ++ '.' :: b).length - b.reverse.length - 1 = a.length := by
      simp only [List.length_append, List.length_cons, List.length_reverse]
      omega
    simp only [cutLastDot?, htail]
    rw [if_pos (by simp; omega), hlength, List.take_left, List.reverse_reverse]
  constructor
  · intro h
    by_cases hdot : '.' ∈ s
    · obtain ⟨a, b, rfl, hb⟩ := Text.exists_last_of_mem hdot
      rw [hcut hb] at h
      cases h
      exact ⟨rfl, hb⟩
    · have htail : (s.reverse ++ []).takeWhile (· ≠ '.') = s.reverse ++ [] := by
        rw [List.takeWhile_append_of_pos (ne_dot_of_mem_reverse hdot)]
        rfl
      rw [List.append_nil] at htail
      simp only [cutLastDot?, htail, List.length_reverse, Nat.lt_irrefl, if_false] at h
      cases h
  · rintro ⟨rfl, hdot⟩
    exact hcut hdot

/-- What stands behind the last dot of the file name, if anything stands in front of that dot. -/
def HasExtension (p ext : List Char) : Prop :=
  ∃ stem, HasFileName p (stem ++ '.' :: ext) ∧ stem ≠ [] ∧ '.' ∉ ext

/-- **The extension of a path is the one it has.** -/
theorem extension?_eq_some_iff {p ext : List Char} :
    extension? p = some ext ↔ HasExtension p ext := by
  simp only [extension?, Option.bind_eq_bind, Option.bind_eq_some_iff, HasExtension]
  constructor
  · rintro ⟨name, hname, ⟨stem, ext'⟩, hcut, hext⟩
    obtain ⟨rfl, hdot⟩ := cutLastDot?_eq_some_iff.mp hcut
    split at hext
    · cases hext
    · next hstem =>
      cases hext
      exact ⟨stem, fileName?_eq_some_iff.mp hname, by simpa using hstem, hdot⟩
  · rintro ⟨stem, hname, hstem, hdot⟩
    refine ⟨_, fileName?_eq_some_iff.mpr hname, (stem, ext),
      cutLastDot?_eq_some_iff.mpr ⟨rfl, hdot⟩, ?_⟩
    exact if_neg (by simpa using hstem)

/-- **A path that does not end idly ends in a dot and its extension.** -/
theorem extension?_suffix {p ext : List Char} (hend : ¬ EndsIdle p)
    (h : extension? p = some ext) : '.' :: ext <:+ p ∧ '.' ∉ ext := by
  obtain ⟨stem, hname, -, hdot⟩ := extension?_eq_some_iff.mp h
  exact ⟨(List.suffix_append _ _).trans (hname.suffix hend), hdot⟩

end Path

end CodeNav

import CodeNav.Language.Imports
import CodeNav.Proofs.Path.Extension
import CodeNav.Proofs.Pattern.Passage
import CodeNav.Proofs.Text.Category
import CodeNav.Proofs.Text.Words

/-!
# Paths of files and of what they import

A file is kept if its path, or its directory, `EndsIn` the path of an import: it is that path, or
has it behind a slash (`endsWithSegments_iff`).

The directory of a path is the path without its last segment (`dirname_joinWith`), so going up some
directories leaves out as many segments (`ancestor_joinWith`).
-/

namespace CodeNav

namespace Imports

open Text Regex

/-- The hits that a rule keeps for a querying file. -/
def Rule.keep (rule : Rule) (ctx : Context) (hits : List Hit) : List Hit :=
  hits.filter fun h => rule ctx h.file.toList

/-- A rule only leaves hits out: what it keeps was found, and fits the imports of the querying file.
-/
theorem Rule.mem_keep_iff {rule : Rule} {ctx : Context} {hits : List Hit} {h : Hit} :
    h ∈ rule.keep ctx hits ↔ h ∈ hits ∧ rule ctx h.file.toList = true :=
  List.mem_filter

/-- A path that is another one, or ends in a slash and that. -/
def EndsIn (p tail : List Char) : Prop := p = tail ∨ '/' :: tail <:+ p

instance (p tail : List Char) : Decidable (EndsIn p tail) := inferInstanceAs (Decidable (_ ∨ _))

variable {p tail head name stem ext : List Char}

/-- A tail is cut off exactly where the path ends in it, so what is left and the tail are the path.
-/
theorem dropTrail?_eq_some_iff : dropTrail? tail p = some head ↔ p = head ++ tail := by
  rw [dropTrail?, Option.map_eq_some_iff]
  simp only [dropLead?_eq_some_iff]
  constructor
  · rintro ⟨rest, hrest, rfl⟩
    rw [← List.reverse_inj, hrest]
    simp
  · rintro rfl
    exact ⟨head.reverse, by simp, List.reverse_reverse head⟩

/-- Only whole segments count: in front of the tail stands a slash or nothing, so `kit.go` is not at
the end of `toolkit.go`. An empty tail fits no path, since an import that names nothing would fit
all of them. -/
theorem endsWithSegments_iff : endsWithSegments p tail = true ↔ tail ≠ [] ∧ EndsIn p tail := by
  rw [endsWithSegments, EndsIn]
  cases hdrop : dropTrail? tail p with
  | none =>
    have hbehind : ¬ '/' :: tail <:+ p := by
      rintro ⟨front, rfl⟩
      have hsome : dropTrail? tail (front ++ '/' :: tail) = some (front ++ ['/']) :=
        dropTrail?_eq_some_iff.mpr (by simp)
      rw [hsome] at hdrop
      cases hdrop
    simp [hbehind]
  | some head =>
    obtain rfl := dropTrail?_eq_some_iff.mp hdrop
    have hbehind : head.getLast? = some '/' ↔ '/' :: tail <:+ head ++ tail := by
      rw [List.getLast?_eq_some_iff]
      constructor
      · rintro ⟨front, rfl⟩
        exact ⟨front, by simp⟩
      · rintro ⟨front, hfront⟩
        rw [← List.singleton_append, ← List.append_assoc] at hfront
        exact ⟨front, (List.append_cancel_right hfront).symm⟩
    simp [hbehind]

/-- A hit in a file. -/
def hitIn (file : String) : Hit :=
  ⟨"r", "HEAD", file, ⟨⟨0, 0⟩, ⟨0, 1⟩⟩, none, none, none, none, false⟩

/-! ## Names in statements -/

/-- The word that opens an import. -/
def importWord : List Char := "import".toList

/-- Any number of blanks, `least` or more. -/
abbrev blanks (least : Nat) : Regex := .rounds least none true (.set .blank)

/-- The characters of dotted names. -/
def dotted : CharSet := .union (.union .empty .word) (.only '.')

theorem mem_dotted {c : Char} : dotted.mem c = true ↔ isWord c = true ∨ c = '.' := by
  simp [dotted, CharSet.mem]

/-- A dotted name ends where a blank stands, so an expression that reads a name cannot run on into
the gap behind it. -/
theorem isBlank_eq_false_of_dotted {c : Char} (h : dotted.mem c = true) : isBlank c = false := by
  rcases mem_dotted.mp h with hword | rfl
  · refine Bool.eq_false_iff.mpr fun hblank => ?_
    rw [isWord_eq_false_of_isBlank hblank] at hword
    cases hword
  · decide

/-- Word characters and dots, one at least. -/
structure IsDotted (name : List Char) : Prop where
  ne_nil : name ≠ []
  dotted : ∀ c ∈ name, dotted.mem c = true

theorem reads_blanks : Reads (blanks 0) fun x => ∀ c ∈ x, isBlank c = true :=
  (reads_run 0 true .blank).congr fun x => by simp [CharSet.mem]

/-- Between two words of a statement stands a blank at least. -/
theorem reads_gap : Reads (blanks 1) fun x => x ≠ [] ∧ ∀ c ∈ x, isBlank c = true :=
  (reads_run 1 true .blank).congr fun x => by simp [CharSet.mem, Nat.one_le_iff_ne_zero]

/-- Greedy or not, a name may be read at any length: which one is taken is up to what follows it. -/
theorem reads_dotted (greedy : Bool) : Reads (.rounds 1 none greedy (.set dotted)) IsDotted :=
  (reads_run 1 greedy dotted).congr fun _ =>
    ⟨fun h => ⟨List.length_pos_iff.mp h.1, h.2⟩, fun h => ⟨List.length_pos_iff.mpr h.1, h.2⟩⟩

/-! ## Directories and names -/

theorem isName_of_notMem (h : '/' ∉ name) : ∀ c ∈ name.reverse, decide (c ≠ '/') = true := by
  intro c hc
  rw [decide_eq_true_eq]
  rintro rfl
  exact h (List.mem_reverse.mp hc)

/-- The directory ends at the last slash, as the name behind it has none. -/
theorem dirname_append (d : List Char) (h : '/' ∉ name) : dirname (d ++ '/' :: name) = d := by
  rw [dirname, List.reverse_append, List.reverse_cons, List.append_assoc,
    List.dropWhile_append_of_pos (isName_of_notMem h)]
  simp

/-- A file at the root is in the directory of the empty path. -/
theorem dirname_of_notMem (h : '/' ∉ name) : dirname name = [] := by
  rw [dirname, ← List.append_nil name.reverse, List.dropWhile_append_of_pos (isName_of_notMem h)]
  rfl

/-- What is added behind a path without a slash goes to its name, so an extension does. -/
theorem basename_append (d : List Char) (h : '/' ∉ name) :
    basename (d ++ name) = basename d ++ name := by
  rw [basename, basename, List.reverse_append, List.takeWhile_append_of_pos (isName_of_notMem h),
    List.reverse_append, List.reverse_reverse]

/-- What stands behind the last dot of a name is its extension, unless the dot opens the name. -/
theorem stripExtension_append (hslash : '/' ∉ ext) (hdot : '.' ∉ ext) (hstem : basename stem ≠ []) :
    stripExtension (stem ++ '.' :: ext) = stem := by
  have htail : (basename (stem ++ '.' :: ext)).reverse.takeWhile (· ≠ '.') = ext.reverse := by
    rw [basename_append stem (by simpa using hslash), List.reverse_append, List.reverse_cons,
      List.append_assoc, List.takeWhile_append_of_pos]
    · simp
    · intro c hc
      rw [decide_eq_true_eq]
      rintro rfl
      exact hdot (List.mem_reverse.mp hc)
  have hlonger : ext.length + 1 < (basename (stem ++ '.' :: ext)).length := by
    have := List.length_pos_iff.mpr hstem
    rw [basename_append stem (by simpa using hslash), List.length_append, List.length_cons]
    omega
  have hcut : (stem ++ '.' :: ext).length - ext.length - 1 = stem.length := by
    simp only [List.length_append, List.length_cons]
    omega
  simp only [stripExtension, htail, List.length_reverse, if_pos hlonger, hcut, List.take_left]

/-- **The directory of a path is the path without its last segment.** -/
theorem dirname_joinWith (ds : List (List Char)) (h : '/' ∉ name) :
    dirname (joinWith ['/'] (ds ++ [name])) = joinWith ['/'] ds := by
  by_cases hds : ds = []
  · subst hds
    simpa [joinWith] using dirname_of_notMem h
  · rw [joinWith_concat hds, List.append_assoc, List.singleton_append, dirname_append _ h]

/-- **Going up leaves out segments**, as long as there are any. -/
theorem ancestor_joinWith (n : Nat) {ds : List (List Char)} (h : ∀ d ∈ ds, '/' ∉ d) :
    ancestor n (joinWith ['/'] ds) = joinWith ['/'] (ds.take (ds.length - n)) := by
  induction n generalizing ds with
  | zero => simp [ancestor]
  | succ n ih =>
    rw [ancestor]
    rcases List.eq_nil_or_concat ds with rfl | ⟨front, last, rfl⟩
    · have hnil : dirname (joinWith ['/'] []) = joinWith ['/'] [] := rfl
      rw [hnil, ih h]
      simp
    · have hlast : '/' ∉ last := h last (by simp)
      rw [List.concat_eq_append, dirname_joinWith front hlast,
        ih fun d hd => h d (by simp [hd]), List.length_append, List.length_singleton,
        Nat.add_sub_add_right, List.take_append_of_le_length (Nat.sub_le _ _)]

/-- The segments of the directory of a path. -/
def folders (p : List Char) : List (List Char) := (splitAt '/' p).dropLast

/-- Going up leaves out whole folders, for no folder has a slash in it. -/
theorem slash_notMem_of_mem_folders {d : List Char} (h : d ∈ folders p) : '/' ∉ d :=
  sep_notMem_of_mem_splitAt (List.dropLast_subset _ h)

/-- The folders of a path, joined again, are its directory: `ancestor_joinWith` is about any path
then. -/
theorem dirname_eq (p : List Char) : dirname p = joinWith ['/'] (folders p) := by
  have hlast := List.dropLast_concat_getLast (splitAt_ne_nil '/' p)
  have hname : '/' ∉ (splitAt '/' p).getLast (splitAt_ne_nil '/' p) :=
    sep_notMem_of_mem_splitAt (List.getLast_mem _)
  rw [← dirname_joinWith (folders p) hname, folders, hlast, joinWith_splitAt]

end Imports

end CodeNav

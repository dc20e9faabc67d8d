import CodeNav.Proofs.Imports.Paths

/-!
# Paths by their segments

Paths of imports are texts, and what is done with them is meant for their segments.

* **Ends** — a path ends in another one behind a slash exactly if the segments of that are the
  last segments of the path (`endsIn_iff_suffix`), so no name is matched in part.
* **Normal paths** — a path is walked from its first segment to its last, the names that are not
  taken back kept on a stack. To walk a path below a directory is to walk the directory first and
  the path from there (`visit_joinPath`), also when one of them is empty. Only names are kept, so
  what is written down is normal (`isNormal_normalize`), and the walk of a normal path takes
  nothing back (`normalize_eq_self`).
-/

namespace CodeNav.Imports

open Text

variable {p tail d : List Char}

/-! ## Ends -/

/-- **What a path ends in, it ends in segment by segment.** -/
theorem endsIn_iff_suffix : EndsIn p tail ↔ splitAt '/' tail <:+ splitAt '/' p := by
  constructor
  · rintro (rfl | ⟨front, rfl⟩)
    · exact List.suffix_refl _
    · rw [splitAt_append]
      exact List.suffix_append _ _
  · rintro ⟨pieces, hpieces⟩
    have hp : joinWith ['/'] (pieces ++ splitAt '/' tail) = p := by
      rw [hpieces, joinWith_splitAt]
    by_cases hne : pieces = []
    · rw [hne, List.nil_append, joinWith_splitAt] at hp
      exact .inl hp.symm
    · rw [joinWith_append hne (splitAt_ne_nil '/' tail), joinWith_splitAt, List.append_assoc,
        List.singleton_append] at hp
      exact .inr ⟨_, hp⟩

/-! ## A walk along a path -/

theorem walk_name (h : Path.IsName d) (done : List (List Char)) : walk done d = d :: done := by
  simp [walk, h.ne_nil, h.ne_here, h.ne_up]

/-- Walk a path, having gone through `done`, the last first. -/
def visit (done : List (List Char)) (p : List Char) : List (List Char) :=
  (splitAt '/' p).foldl walk done

theorem normalize_eq (p : List Char) : normalize p = joinWith ['/'] (visit [] p).reverse := rfl

theorem visit_nil (done : List (List Char)) : visit done [] = done := rfl

theorem visit_segment (h : '/' ∉ d) (done : List (List Char)) : visit done d = walk done d := by
  rw [visit, splitAt_of_not_mem h]
  rfl

theorem visit_append (done : List (List Char)) (p q : List Char) :
    visit done (p ++ '/' :: q) = visit (visit done p) q := by
  rw [visit, splitAt_append, List.foldl_append, visit, visit]

/-- **A path below a directory is walked from where the directory leads.** -/
theorem visit_joinPath (done : List (List Char)) (base relative : List Char) :
    visit done (joinPath base relative) = visit (visit done base) relative := by
  rw [joinPath]
  split
  · next hbase => rw [List.isEmpty_iff.mp hbase, visit_nil]
  · split
    · next hrelative => rw [List.isEmpty_iff.mp hrelative, visit_nil]
    · exact visit_append done base relative

/-- `.` leads nowhere. -/
theorem visit_here (done : List (List Char)) (p : List Char) :
    visit done ("./".toList ++ p) = visit done p :=
  visit_append done ['.'] p

/-- `..` takes the last name back. -/
theorem visit_up (done : List (List Char)) (h : Path.IsName d) (hslash : '/' ∉ d) (p : List Char) :
    visit (visit done d) ("../".toList ++ p) = visit done p := by
  rw [visit_segment hslash, walk_name h]
  exact visit_append (d :: done) ['.', '.'] p

theorem forall_mem_walk {done : List (List Char)} {s : List Char}
    (h : ∀ d ∈ done, Path.IsName d ∧ '/' ∉ d) (hs : '/' ∉ s) :
    ∀ d ∈ walk done s, Path.IsName d ∧ '/' ∉ d := by
  rw [walk]
  split
  · exact h
  · next hidle =>
    simp only [Bool.or_eq_true, decide_eq_true_eq, not_or] at hidle
    split
    · exact fun d hd => h d (List.mem_of_mem_drop hd)
    · next hup => exact List.forall_mem_cons.mpr ⟨⟨⟨hidle.1, hidle.2, hup⟩, hs⟩, h⟩

theorem forall_mem_foldl_walk {segments done : List (List Char)} (hs : ∀ s ∈ segments, '/' ∉ s)
    (h : ∀ d ∈ done, Path.IsName d ∧ '/' ∉ d) :
    ∀ d ∈ segments.foldl walk done, Path.IsName d ∧ '/' ∉ d := by
  induction segments generalizing done with
  | nil => exact h
  | cons s segments ih =>
    obtain ⟨hs, hsegments⟩ := List.forall_mem_cons.mp hs
    exact ih hsegments (forall_mem_walk h hs)

/-- **Only names are kept.** -/
theorem forall_mem_visit (p : List Char) : ∀ d ∈ visit [] p, Path.IsName d ∧ '/' ∉ d :=
  forall_mem_foldl_walk (fun _ => sep_notMem_of_mem_splitAt) (List.forall_mem_nil _)

/-- Along names alone nothing is taken back. -/
theorem foldl_walk_names {ds : List (List Char)} (h : ∀ d ∈ ds, Path.IsName d)
    (done : List (List Char)) : ds.foldl walk done = ds.reverse ++ done := by
  induction ds generalizing done with
  | nil => rfl
  | cons d ds ih =>
    obtain ⟨hd, hds⟩ := List.forall_mem_cons.mp h
    rw [List.foldl_cons, walk_name hd, ih hds]
    simp

/-! ## Normal paths -/

/-- The empty path, or one whose segments are all names. -/
def IsNormal (p : List Char) : Prop := p = [] ∨ ∀ s ∈ splitAt '/' p, Path.IsName s

instance (p : List Char) : Decidable (IsNormal p) := inferInstanceAs (Decidable (_ ∨ _))

theorem isNormal_normalize (p : List Char) : IsNormal (normalize p) := by
  have hnames : ∀ d ∈ (visit [] p).reverse, Path.IsName d ∧ '/' ∉ d := fun d hd =>
    forall_mem_visit p d (List.mem_reverse.mp hd)
  rw [normalize_eq]
  by_cases hne : (visit [] p).reverse = []
  · exact .inl (by rw [hne]; rfl)
  · right
    rw [splitAt_joinWith hne fun d hd => (hnames d hd).2]
    exact fun d hd => (hnames d hd).1

theorem normalize_eq_self (h : IsNormal p) : normalize p = p := by
  rcases h with rfl | hnames
  · rfl
  · rw [normalize_eq, visit, foldl_walk_names hnames, List.append_nil, List.reverse_reverse,
      joinWith_splitAt]

/-- **What is done with paths as texts is what is meant for their segments.** A path ends in
another one if its last segments are those of the other; `normalize` makes a path normal and leaves
a normal one alone; and in front of a specifier, `./` stays in the directory that it is seen from
and `../` leaves it. -/
theorem paths_by_segments (p tail base specifier : List Char) :
    (endsWithSegments p tail = true ↔ tail ≠ [] ∧ splitAt '/' tail <:+ splitAt '/' p) ∧
    (IsNormal (normalize p) ∧ normalize (normalize p) = normalize p ∧
      (normalize p = p ↔ IsNormal p)) ∧
    normalize (joinPath base ("./".toList ++ specifier)) = normalize (joinPath base specifier) ∧
    ∀ d, Path.IsName d → '/' ∉ d →
      normalize (joinPath (joinPath base d) ("../".toList ++ specifier)) =
        normalize (joinPath base specifier) := by
  refine ⟨?_, ⟨isNormal_normalize p, ?_, ?_⟩, ?_, ?_⟩
  · rw [endsWithSegments_iff, endsIn_iff_suffix]
  · exact normalize_eq_self (isNormal_normalize p)
  · exact ⟨fun h => h ▸ isNormal_normalize p, normalize_eq_self⟩
  · rw [normalize_eq, normalize_eq, visit_joinPath, visit_joinPath, visit_here]
  · intro d hname hslash
    rw [normalize_eq, normalize_eq, visit_joinPath, visit_joinPath, visit_joinPath,
      visit_up _ hname hslash]

/-- A specifier that leads up twice, with a slash too many in it. -/
theorem paths_by_segments_up : (Path.IsName "lib".toList ∧ '/' ∉ "lib".toList) ∧
    normalize (joinPath (joinPath "web/src".toList "lib".toList)
      ("../".toList ++ "../shared//b".toList)) =
        normalize (joinPath "web/src".toList "../shared//b".toList) := by
  have hname : Path.IsName "lib".toList ∧ '/' ∉ "lib".toList := by decide +kernel
  obtain ⟨-, -, -, hup⟩ := paths_by_segments [] [] "web/src".toList "../shared//b".toList
  exact ⟨hname, hup _ hname.1 hname.2⟩

example : normalize "web/src/lib/../../shared//b/.".toList = "web/shared/b".toList := by
  decide +kernel

example : endsWithSegments "x/a/b".toList "a/b".toList = true ∧
    endsWithSegments "x/ya/b".toList "a/b".toList = false := by
  decide +kernel

end CodeNav.Imports

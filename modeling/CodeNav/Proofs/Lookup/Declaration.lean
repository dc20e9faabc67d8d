import CodeNav.Lookup.Precise

/-!
# References with their declaration and without it

An index answers with its first entry about a position (`find?_eq_some_iff`). The definitions of
that entry are put in front of its references one after the other, each unless it is in the list
**as far as that has grown**; or else they are taken out of the references.

Everything follows from how often a location is listed when all are in (`count_withDeclaration`):
as often as among the references, and **a definition once at least**. What is put in front are
definitions, so taking them out of the long list leaves what taking them out of the references
leaves (`withoutDeclaration_eq`).
-/

namespace CodeNav

/-! ## The entry that answers -/

/-- On an earlier line, or on the same line and not behind. -/
def Position.NotAfter (p q : Position) : Prop :=
  p.line < q.line ∨ p.line = q.line ∧ p.character ≤ q.character

instance (p q : Position) : Decidable (p.NotAfter q) := inferInstanceAs (Decidable (_ ∨ _))

/-- Positions are compared by lines, and on one line by characters. -/
theorem Position.le_eq_true_iff {p q : Position} : p.le q = true ↔ p.NotAfter q := by
  simp only [le, compare, NotAfter, decide_eq_true_eq, ne_eq, Ordering.then_eq_gt,
    Nat.compare_eq_gt, Nat.compare_eq_eq]
  omega

namespace PreciseEntry

/-- An entry is about a position of a document: the file is the document's, the repository is the
document's or left open, and the position lies in the range, its ends included. -/
structure IsAbout (e : PreciseEntry) (document : Document) (position : Position) : Prop where
  path : e.path = document.path
  repo : e.repo = none ∨ e.repo = some document.repo
  start : e.range.start.NotAfter position
  stop : position.NotAfter e.range.stop

variable {e : PreciseEntry} {document : Document} {position : Position}

/-- An entry is asked at its ends as well. -/
theorem covers_eq_true_iff : e.covers document position = true ↔ e.IsAbout document position := by
  have hrepo : e.repo.all (· = document.repo) = true ↔
      e.repo = none ∨ e.repo = some document.repo := by
    cases e.repo <;> simp
  simp only [covers, Range.contains, Bool.and_eq_true, decide_eq_true_eq, hrepo,
    Position.le_eq_true_iff]
  exact ⟨fun ⟨⟨hpath, hrepo⟩, hstart, hstop⟩ => ⟨hpath, hrepo, hstart, hstop⟩,
    fun h => ⟨⟨h.path, h.repo⟩, h.start, h.stop⟩⟩

instance : Decidable (e.IsAbout document position) := decidable_of_iff _ covers_eq_true_iff

end PreciseEntry

namespace PreciseIndex

/-- The first entry of an index, in its order, that is about a position. -/
def IsFirst (index : PreciseIndex) (document : Document) (position : Position)
    (e : PreciseEntry) : Prop :=
  ∃ before after, index.entries = before ++ e :: after ∧ e.IsAbout document position ∧
    ∀ e' ∈ before, ¬ e'.IsAbout document position

variable {index : PreciseIndex} {document : Document} {position : Position} {e : PreciseEntry}

/-- The first entry that covers a position answers, though others may cover it more closely. -/
theorem find?_eq_some_iff :
    index.find? document position = some e ↔ index.IsFirst document position e := by
  simp only [find?, IsFirst, List.find?_eq_some_iff_append, Bool.not_eq_true',
    ← Bool.not_eq_true, PreciseEntry.covers_eq_true_iff]
  constructor
  · rintro ⟨habout, before, after, heq, hbefore⟩
    exact ⟨before, after, heq, habout, hbefore⟩
  · rintro ⟨before, after, heq, habout, hbefore⟩
    exact ⟨habout, before, after, heq, hbefore⟩

/-- No entry answers where none covers the position. -/
theorem find?_eq_none_iff : index.find? document position = none ↔
    ∀ e ∈ index.entries, ¬ e.IsAbout document position := by
  simp only [find?, List.find?_eq_none, PreciseEntry.covers_eq_true_iff]

end PreciseIndex

/-! ## Definitions in front -/

namespace PreciseEntry

/-- Put a location in front unless it is in the list. -/
def putFront (found : List Location) (l : Location) : List Location :=
  if found.contains l then found else l :: found

theorem withDeclaration_eq (e : PreciseEntry) :
    e.withDeclaration = e.definitions.foldl putFront e.references := rfl

/-- A definition that is among the locations is not put there again. -/
theorem putFront_cases (found : List Location) (d : Location) :
    d ∈ found ∧ putFront found d = found ∨ d ∉ found ∧ putFront found d = d :: found := by
  by_cases hd : d ∈ found
  · exact .inl ⟨hd, by simp [putFront, hd]⟩
  · exact .inr ⟨hd, by simp [putFront, hd]⟩

/-- The location is in the list at least once then, and all others are as often as before. -/
theorem count_putFront (found : List Location) (d l : Location) :
    (putFront found d).count l = if l = d then max 1 (found.count l) else found.count l := by
  rcases putFront_cases found d with ⟨hd, heq⟩ | ⟨hd, heq⟩
  · have hpos : 0 < found.count d := List.count_pos_iff.mpr hd
    rw [heq]
    split
    · next hl => rw [hl, Nat.max_eq_right hpos]
    · rfl
  · have hzero : found.count d = 0 := List.count_eq_zero.mpr hd
    rw [heq, List.count_cons]
    by_cases hl : l = d
    · simp [hl, hzero]
    · simp [hl, Ne.symm hl]

/-- **Every definition is there once at least**, and all else as often as before. -/
theorem count_foldl_putFront (ds found : List Location) (l : Location) :
    (ds.foldl putFront found).count l =
      if l ∈ ds then max 1 (found.count l) else found.count l := by
  induction ds generalizing found with
  | nil => simp
  | cons d ds ih =>
    have hmax : max 1 (max 1 (found.count l)) = max 1 (found.count l) :=
      Nat.max_eq_right (Nat.le_max_left 1 _)
    rw [List.foldl_cons, ih, count_putFront]
    by_cases hd : l = d
    · rw [if_pos hd, if_pos (List.mem_cons.mpr (.inl hd)), hmax, ite_self]
    · simp [hd]

/-- The references stay behind the definitions, as they are and in their order. -/
theorem suffix_foldl_putFront (ds found : List Location) : found <:+ ds.foldl putFront found := by
  induction ds generalizing found with
  | nil => exact List.suffix_refl found
  | cons d ds ih =>
    have hstep : found <:+ putFront found d := by
      rcases putFront_cases found d with ⟨-, heq⟩ | ⟨-, heq⟩
      · exact ⟨[], heq.symm⟩
      · exact ⟨[d], heq.symm⟩
    exact hstep.trans (ih (putFront found d))

/-- What is put in front is dropped by a filter that drops all of it. -/
theorem filter_foldl_putFront {keep : Location → Bool} {ds : List Location}
    (h : ∀ d ∈ ds, keep d = false) (found : List Location) :
    (ds.foldl putFront found).filter keep = found.filter keep := by
  induction ds generalizing found with
  | nil => rfl
  | cons d ds ih =>
    obtain ⟨hd, hds⟩ := List.forall_mem_cons.mp h
    rw [List.foldl_cons, ih hds]
    rcases putFront_cases found d with ⟨-, heq⟩ | ⟨-, heq⟩
    · rw [heq]
    · rw [heq, List.filter_cons_of_neg (by simp [hd])]

variable (e : PreciseEntry)

/-- **A definition is listed once at least, and all else as among the references.** -/
theorem count_withDeclaration (l : Location) : e.withDeclaration.count l =
    if l ∈ e.definitions then max 1 (e.references.count l) else e.references.count l :=
  count_foldl_putFront e.definitions e.references l

/-- **Taking the definitions out of either list leaves the same.** -/
theorem withoutDeclaration_eq :
    e.withoutDeclaration = e.withDeclaration.filter (· ∉ e.definitions) := by
  rw [withDeclaration_eq, filter_foldl_putFront (by simp), withoutDeclaration]
  simp

/-- What the lists with all definitions and without any have to do with an entry and with each
other. -/
structure Agrees (e : PreciseEntry) (full bare : List Location) : Prop where
  /-- every definition is in -/
  mem : ∀ d ∈ e.definitions, d ∈ full
  /-- a definition is listed as often as among the references, and once at least -/
  count_definition : ∀ d ∈ e.definitions, full.count d = max 1 (e.references.count d)
  /-- all else is listed as often as among the references -/
  count_other : ∀ l, l ∉ e.definitions → full.count l = e.references.count l
  /-- the references come last, in their order -/
  suffix : e.references <:+ full
  /-- no definition is left -/
  notMem : ∀ d ∈ e.definitions, d ∉ bare
  /-- what is left are the locations of the long list that are no definitions, in its order -/
  bare_eq : bare = full.filter (· ∉ e.definitions)

/-- **With and without the declaration an entry tells the same of all else.** -/
theorem agrees : e.Agrees e.withDeclaration e.withoutDeclaration where
  mem d hd := by
    have hcount := e.count_withDeclaration d
    rw [if_pos hd] at hcount
    exact List.count_pos_iff.mp (hcount ▸ Nat.lt_of_lt_of_le Nat.one_pos (Nat.le_max_left 1 _))
  count_definition d hd := (e.count_withDeclaration d).trans (if_pos hd)
  count_other l hl := (e.count_withDeclaration l).trans (if_neg hl)
  suffix := suffix_foldl_putFront e.definitions e.references
  notMem d hd := by
    rw [withoutDeclaration_eq, List.mem_filter]
    simp [hd]
  bare_eq := e.withoutDeclaration_eq

end PreciseEntry

/-! ## Every index -/

namespace PreciseIndex

/-- The two answers are those of the same entry. -/
theorem references_of_isFirst {index : PreciseIndex} {document : Document} {position : Position}
    {e : PreciseEntry} (h : index.IsFirst document position e) (declaration : Bool) :
    index.references document position declaration =
      if declaration then e.withDeclaration else e.withoutDeclaration := by
  rw [references, find?_eq_some_iff.mpr h]

/-- **References with their declaration and without it agree**, whatever is listed twice or in
both places; where no entry is about the position, both are empty. -/
theorem references_agree (index : PreciseIndex) (document : Document) (position : Position) :
    (∀ e, index.IsFirst document position e →
      e.Agrees (index.references document position true)
        (index.references document position false)) ∧
    ((∀ e ∈ index.entries, ¬ e.IsAbout document position) →
      index.references document position true = [] ∧
        index.references document position false = []) := by
  constructor
  · intro e h
    rw [references_of_isFirst h, references_of_isFirst h]
    exact e.agrees
  · intro h
    have hnone := find?_eq_none_iff.mpr h
    simp only [references, hnone, and_self]

end PreciseIndex

/-! An entry that lists a definition twice and has another one among its references, with an
entry of another file in front of it and an overlapping one behind. -/

namespace ListedTwice

/-- A line of the file `a.go`. -/
def onLine (line : Nat) : Location := ⟨"git://r?v#a.go", ⟨line, 0⟩, ⟨line, 4⟩⟩

/-- An entry about the third line of a file. -/
def about (path : String) (definitions references : List Location) : PreciseEntry :=
  { path, range := ⟨⟨3, 4⟩, ⟨3, 9⟩⟩, definitions, references }

/-- The entry that answers. -/
def first : PreciseEntry :=
  about "a.go" [onLine 1, onLine 2, onLine 1] [onLine 2, onLine 5, onLine 2]

/-- The index. -/
def index : PreciseIndex :=
  ⟨[about "b.go" [onLine 7] [], first, about "a.go" [onLine 8] [onLine 9]]⟩

/-- The document that is asked about. -/
def document : Document := .new "r" "v" "a.go" "go" ""

/-- The entry answers at the end of its range; a line below, nothing does. -/
theorem listed_once_at_least :
    (index.IsFirst document ⟨3, 9⟩ first ∧
      first.Agrees (index.references document ⟨3, 9⟩ true)
        (index.references document ⟨3, 9⟩ false)) ∧
    (∀ e ∈ index.entries, ¬ e.IsAbout document ⟨4, 0⟩) ∧
      index.references document ⟨4, 0⟩ true = [] ∧
        index.references document ⟨4, 0⟩ false = [] := by
  have hfirst : index.IsFirst document ⟨3, 9⟩ first := ⟨[_], [_], rfl, by decide, by decide⟩
  have hnone : ∀ e ∈ index.entries, ¬ e.IsAbout document ⟨4, 0⟩ := by decide
  obtain ⟨hagrees, -⟩ := PreciseIndex.references_agree index document ⟨3, 9⟩
  obtain ⟨-, hempty⟩ := PreciseIndex.references_agree index document ⟨4, 0⟩
  exact ⟨⟨hfirst, hagrees first hfirst⟩, hnone, hempty hnone⟩

example : index.references document ⟨3, 9⟩ true = [onLine 1, onLine 2, onLine 5, onLine 2] ∧
    index.references document ⟨3, 9⟩ false = [onLine 5] := by decide

end ListedTwice

end CodeNav

import CodeNav.Proofs.Imports.Paths
import CodeNav.Proofs.Pattern.Taken

/-!
# Relative imports of a Python file

The dots of a relative import count directories up from the querying file, and the words behind
them name a module below the directory reached. **They are resolved as written**
(`python_keeps_relative`), at every depth:

* A line `from ..a.b import c` is read as its dots and its words (`matchAt?_relativeImport`): each
  part of the pattern takes a text up to the first character of the next one.
* The directories above a path are the paths without their last segments, and the module is
  joined to the one that is reached (`mem_pythonRelative`).
* The files of the module, of its package and in its package fit it (`pythonFits_of_isOf`), unless
  it is the empty path. That is the path of the root: a file there **imports nothing with dots
  alone** (`python_root_unresolved`).
-/

namespace CodeNav

namespace Imports

open Text Regex

/-- The word that opens an import of parts of a module. -/
def fromWord : List Char := "from".toList

/-- Dots, the words of a module and what is imported from it. -/
def relativeImport (dots : Nat) (words : List (List Char)) (names : List Char) : List Char :=
  fromWord ++ ([' '] ++ (List.replicate dots '.' ++ (joinWith ['.'] words ++
    ([' '] ++ importWord)))) ++ ' ' :: names

/-- What the pattern reads behind the first gap: the dots, the words, and the word of an import
behind another gap. -/
def moduleRow : List Regex :=
  .group 1 (.rounds 0 none true (.set (.only '.'))) ::
    .group 2 (.rounds 0 none true (.set dotted)) :: blanks 1 ::
      (letters importWord ++ [.look (.wordBoundary false)])

/-- How the pattern of relative imports is read: a line from its start, with one group for the dots
and one for the words. -/
theorem pythonFrom_regex : pythonFrom.regex =
    seqs (.look .startOfLine :: blanks 0 :: (letters fromWord ++ blanks 1 :: moduleRow)) := by
  decide +kernel

theorem forall_head?_append {P : Char → Prop} {t z : List Char} (ht : ∀ c ∈ t.head?, P c)
    (hz : t = [] → ∀ c ∈ z.head?, P c) : ∀ c ∈ (t ++ z).head?, P c := by
  cases t with
  | nil => exact hz rfl
  | cons c t => exact ht

theorem forall_head?_cons {P : Char → Prop} {c : Char} {z : List Char} (h : P c) :
    ∀ d ∈ (c :: z).head?, P d := by
  rintro _ ⟨⟩
  exact h

/-- A blank is taken for a gap in front of anything else. -/
theorem takes_gap {fuel : Nat} (hfuel : 1 ≤ fuel) {y : List Char}
    (hy : ∀ c ∈ y.head?, isBlank c = false) : Takes fuel (blanks 1) [' '] y noSpans :=
  Takes.oneOrMore (by decide) (List.all_eq_true.mp (by decide)) hy hfuel

/-- Words of a dotted name. -/
def AreWords (words : List (List Char)) : Prop := ∀ w ∈ words, w ≠ [] ∧ ∀ c ∈ w, isWord c = true

section Relative

variable {words : List (List Char)} (hwords : AreWords words)

include hwords

/-- Words begin with a word character, so the dots in front of them end there. -/
theorem isWord_of_mem_head? : ∀ c ∈ (joinWith ['.'] words).head?, isWord c = true := by
  cases words with
  | nil => nofun
  | cons w ws =>
    obtain ⟨⟨hne, hw⟩, -⟩ := List.forall_mem_cons.mp hwords
    obtain ⟨c, w, rfl⟩ := List.exists_cons_of_ne_nil hne
    cases ws with
    | nil => exact fun d hd => hw d (List.mem_of_head? hd)
    | cons v vs =>
      rintro _ ⟨⟩
      exact hw c List.mem_cons_self

/-- Words and the dots between them are read as one name. -/
theorem dotted_of_mem : ∀ c ∈ joinWith ['.'] words, dotted.mem c = true := by
  intro c hc
  rcases mem_joinWith hc with rfl | ⟨w, hw, hc⟩
  · decide
  · exact mem_dotted.mpr (.inl ((hwords w hw).2 c hc))

variable {dots fuel : Nat} {y : List Char}

/-- The dots end where the words begin, and without words at the gap. -/
theorem takes_dots (hfuel : dots ≤ fuel) :
    Takes fuel (.rounds 0 none true (.set (.only '.'))) (List.replicate dots '.')
      (joinWith ['.'] words ++ ' ' :: y) noSpans := by
  refine Takes.run (fun c hc => ?_) ?_ (by rwa [List.length_replicate])
  · rw [List.eq_of_mem_replicate hc]
    decide
  · refine forall_head?_append (fun c hc => ?_) fun _ => forall_head?_cons (by decide)
    refine Bool.eq_false_iff.mpr fun hdot => ?_
    obtain rfl : c = '.' := by simpa [CharSet.mem] using hdot
    exact absurd (isWord_of_mem_head? hwords _ hc) (by decide)

/-- The words end at the gap. -/
theorem takes_words (hfuel : (joinWith ['.'] words).length ≤ fuel) :
    Takes fuel (.rounds 0 none true (.set dotted)) (joinWith ['.'] words) (' ' :: y) noSpans :=
  Takes.run (dotted_of_mem hwords) (forall_head?_cons (by decide)) hfuel

/-- Each part of a module is taken up to the next one, which begins with another character. -/
theorem takes_module (names : List Char)
    (hfuel : (relativeImport dots words names).length ≤ fuel) :
    Takes fuel (seqs moduleRow)
      (List.replicate dots '.' ++ (joinWith ['.'] words ++ ([' '] ++ importWord))) (' ' :: names)
      fun pos => [(2, pos + dots, pos + dots + (joinWith ['.'] words).length),
        (1, pos, pos + dots)] := by
  simp only [relativeImport, List.length_append, List.length_cons, List.length_nil,
    List.length_replicate] at hfuel
  have himport : ∀ c ∈ (importWord ++ ' ' :: names).head?, isBlank c = false := by
    rintro _ ⟨⟩
    decide
  have hdots : Takes fuel (.rounds 0 none true (.set (.only '.'))) (List.replicate dots '.')
      (joinWith ['.'] words ++ ([' '] ++ importWord) ++ ' ' :: names) noSpans := by
    rw [List.append_assoc]
    exact takes_dots hwords (by omega)
  have hword : Takes fuel (seqs (letters importWord ++ [.look (.wordBoundary false)]))
      importWord (' ' :: names) noSpans :=
    Takes.word (c := 't') (by decide +kernel) (by decide) (forall_head?_cons (by decide))
  have hwords : Takes fuel (.rounds 0 none true (.set dotted)) (joinWith ['.'] words)
      ([' '] ++ importWord ++ ' ' :: names) noSpans := takes_words hwords (by omega)
  have htakes := Takes.cons (Takes.group 1 hdots)
    (Takes.cons (Takes.group 2 hwords) (Takes.cons (takes_gap (by omega) himport) hword))
  simp only [List.length_replicate] at htakes
  exact htakes

/-- **The dots are counted, and the words behind them are read.** -/
theorem matchAt?_relativeImport (hdots : 0 < dots) (names : List Char) :
    ∃ m, pythonFrom.matchAt? (relativeImport dots words names).length
        (Cursor.start (relativeImport dots words names)) = some m ∧
      groupText (relativeImport dots words names) m 1 = List.replicate dots '.' ∧
      groupText (relativeImport dots words names) m 2 = joinWith ['.'] words := by
  have hmodule := takes_module hwords names (Nat.le_refl (relativeImport dots words names).length)
  have hlength : 1 ≤ (relativeImport dots words names).length := by
    simp only [relativeImport, List.length_append, List.length_cons]
    omega
  have hfirst : ∀ c ∈ (List.replicate dots '.').head?, isBlank c = false := by
    rw [List.head?_replicate, if_neg (Nat.ne_of_gt hdots)]
    rintro _ ⟨⟩
    decide
  have hne : List.replicate dots '.' ≠ [] := by simp [Nat.ne_of_gt hdots]
  generalize hs : relativeImport dots words names = s at *
  have hlead : Takes s.length (blanks 0) [] (fromWord ++ ([' '] ++ (List.replicate dots '.' ++
      (joinWith ['.'] words ++ ([' '] ++ importWord)))) ++ ' ' :: names) noSpans := by
    refine Takes.run (List.forall_mem_nil _) ?_ (Nat.zero_le _)
    rintro _ ⟨⟩
    decide
  have hgap : Takes s.length (blanks 1) [' '] (List.replicate dots '.' ++
      (joinWith ['.'] words ++ ([' '] ++ importWord)) ++ ' ' :: names) noSpans := by
    refine takes_gap hlength ?_
    rw [List.append_assoc]
    exact forall_head?_append hfirst fun h => absurd h hne
  have hmatch : pythonFrom.matchAt? s.length (Cursor.start s) = some _ :=
    Pattern.matchAt?_of_look pythonFrom_regex rfl
      (Takes.cons hlead (Takes.letters _ (Takes.cons hgap hmodule))) hs.symm
  have hslice : ∀ front x y : List Char, s = front ++ (x ++ y) →
      slice s front.length (front.length + x.length) = x := by
    intro front x y h
    simpa using @slice_of_drop s front x y 0 h
  have hdotspan := hslice (fromWord ++ [' ']) (List.replicate dots '.')
    (joinWith ['.'] words ++ ([' '] ++ (importWord ++ ' ' :: names)))
    (by rw [← hs, relativeImport]; simp only [List.append_assoc])
  have hnamespan := hslice (fromWord ++ [' '] ++ List.replicate dots '.') (joinWith ['.'] words)
    ([' '] ++ (importWord ++ ' ' :: names))
    (by rw [← hs, relativeImport]; simp only [List.append_assoc])
  simp only [List.length_append, List.length_singleton, List.length_replicate]
    at hdotspan hnamespan
  refine ⟨_, hmatch, ?_, ?_⟩
  · simpa [groupText, Pattern.text?, Found.group?, noSpans, Cursor.start] using hdotspan
  · simpa [groupText, Pattern.text?, Found.group?, noSpans, Cursor.start] using hnamespan

end Relative

/-! ## What the module names -/

/-- The directory of a path without its last `n` segments. -/
def above (n : Nat) (p : List Char) : List Char :=
  joinWith ['/'] ((folders p).take ((folders p).length - n))

/-- The module of a relative import, as a path. -/
def relativeModule (p : List Char) (dots : Nat) (words : List (List Char)) : List Char :=
  joinPath (above (dots - 1) p) (joinWith ['/'] words)

/-- Below a directory other than the root there is no empty path. -/
theorem joinPath_ne_nil {base : List Char} (h : base ≠ []) (relative : List Char) :
    joinPath base relative ≠ [] := by
  rw [joinPath, if_neg (by simpa using h)]
  split
  · exact h
  · exact List.append_ne_nil_of_left_ne_nil h _

/-- Going up from the directory of a file leaves out its last folders. -/
theorem ancestor_dirname (n : Nat) (p : List Char) : ancestor n (dirname p) = above n p := by
  rw [dirname_eq, ancestor_joinWith n fun d hd => slash_notMem_of_mem_folders hd, above]

/-- The dots between words separate folders; words have none of their own. -/
theorem dotsToSlashes_joinWith {words : List (List Char)} (hwords : AreWords words) :
    dotsToSlashes (joinWith ['.'] words) = joinWith ['/'] words := by
  have hword : ∀ w ∈ words, dotsToSlashes w = w := by
    intro w hw
    refine (List.map_congr_left fun c hc => if_neg ?_).trans (List.map_id' w)
    rintro rfl
    exact absurd ((hwords w hw).2 _ hc) (by decide)
  induction words with
  | nil => rfl
  | cons w ws ih =>
    obtain ⟨hw, hws⟩ := List.forall_mem_cons.mp hword
    have ih := ih (fun v hv => hwords v (List.mem_cons_of_mem _ hv)) hws
    cases ws with
    | nil => simpa [joinWith] using hw
    | cons v vs =>
      simp only [joinWith, List.intercalate_cons_cons, dotsToSlashes, List.map_append] at ih hw ⊢
      rw [hw, ih]
      rfl

section Module

variable {words : List (List Char)} (hwords : AreWords words) {dots : Nat} (hdots : 0 < dots)
  (p names : List Char)

include hwords hdots

/-- A match of the line is read as its module. -/
theorem pythonRelative_of_matchAt? {m : Found}
    (h : pythonFrom.matchAt? (relativeImport dots words names).length
      (Cursor.start (relativeImport dots words names)) = some m) :
    groupText (relativeImport dots words names) m 1 = List.replicate dots '.' ∧
      groupText (relativeImport dots words names) m 2 = joinWith ['.'] words := by
  obtain ⟨m', hmatch, hread⟩ := matchAt?_relativeImport hwords hdots names
  obtain rfl : m = m' := Option.some.inj (h.symm.trans hmatch)
  exact hread

/-- **The module is resolved as it is written**: as many directories up as there are dots behind the
first, and then down the words. -/
theorem mem_pythonRelative : relativeModule p dots words ∈
    pythonRelative ⟨p, relativeImport dots words names⟩ := by
  obtain ⟨m, hmatch, hup, hname⟩ := matchAt?_relativeImport hwords hdots names
  have hfind : pythonFrom.find? (relativeImport dots words names) = some m :=
    Pattern.findFrom?_eq_some_iff.mpr ⟨0, hmatch, nofun⟩
  refine List.mem_filterMap.mpr ⟨m, Pattern.mem_findAll_of_find? hfind, ?_⟩
  simp only [hup, hname, List.length_replicate, if_neg (Nat.ne_of_gt hdots), ancestor_dirname,
    dotsToSlashes_joinWith hwords, relativeModule]

end Module

/-- A path that ends in a name has that name in its last segment. -/
theorem basename_ne_nil {d name : List Char} (hne : name ≠ []) (h : '/' ∉ name) :
    basename (d ++ name) ≠ [] := by
  rw [basename_append d h]
  simp [hne]

/-- The last word of a module is the last segment of its path. -/
theorem exists_last {words : List (List Char)} (hwords : AreWords words) (hne : words ≠ [])
    (p : List Char) (dots : Nat) :
    ∃ d w, relativeModule p dots words = d ++ w ∧ w ≠ [] ∧ '/' ∉ w := by
  rcases List.eq_nil_or_concat words with rfl | ⟨front, w, rfl⟩
  · exact absurd rfl hne
  · rw [List.concat_eq_append] at hwords ⊢
    obtain ⟨hw, hwordchars⟩ := hwords w (by simp)
    have hslash : '/' ∉ w := fun h => absurd (hwordchars _ h) (by decide)
    obtain ⟨d, hd⟩ : ∃ d, joinWith ['/'] (front ++ [w]) = d ++ w := by
      by_cases hfront : front = []
      · exact ⟨[], by simp [hfront, joinWith]⟩
      · exact ⟨_, joinWith_concat hfront w⟩
    rw [relativeModule, hd, joinPath]
    split
    · exact ⟨d, w, rfl, hw, hslash⟩
    · rw [if_neg (by simp [hw])]
      exact ⟨above (dots - 1) p ++ '/' :: d, w, by simp, hw, hslash⟩

/-- A file of a module, its package file or a file in its package. -/
def IsOf (file module : List Char) (words : List (List Char)) : Prop :=
  words ≠ [] ∧ (file = module ++ ".py".toList ∨ file = module ++ "/__init__.py".toList) ∨
    dirname file = module

/-- A file fits a module if it is the module, its package file, or a file in its package; the empty
module fits none. -/
theorem pythonFits_iff {file module : List Char} : pythonFits file module = true ↔
    module ≠ [] ∧ (EndsIn (stripExtension file) module ∨
      EndsIn (stripExtension file) (module ++ "/__init__".toList) ∨
      EndsIn (dirname file) module) := by
  have hlonger : module ≠ [] → module ++ "/__init__".toList ≠ [] := fun h =>
    List.append_ne_nil_of_left_ne_nil h _
  simp only [pythonFits, Bool.and_eq_true, Bool.or_eq_true, endsWithSegments_iff,
    Bool.not_eq_true', List.isEmpty_eq_false_iff]
  tauto

/-- **The files of a module fit it**, if it has a path at all. -/
theorem pythonFits_of_isOf {words : List (List Char)} (hwords : AreWords words)
    {p file : List Char} {dots : Nat} (hne : relativeModule p dots words ≠ [])
    (h : IsOf file (relativeModule p dots words) words) :
    pythonFits file (relativeModule p dots words) = true := by
  refine pythonFits_iff.mpr ⟨hne, ?_⟩
  rcases h with ⟨hword, rfl | rfl⟩ | hdir
  · obtain ⟨d, w, hmodule, hw, hslash⟩ := exists_last hwords hword p dots
    have hname : basename (relativeModule p dots words) ≠ [] := by
      rw [hmodule]
      exact basename_ne_nil hw hslash
    have hext : ".py".toList = '.' :: "py".toList := by decide
    exact .inl (.inl (by rw [hext, stripExtension_append (by decide) (by decide) hname]))
  · have hname : basename (relativeModule p dots words ++ "/__init__".toList) ≠ [] := by
      have hinit : "/__init__".toList = ['/'] ++ "__init__".toList := by decide
      rw [hinit, ← List.append_assoc]
      exact basename_ne_nil (by decide) (by decide)
    have hext : "/__init__.py".toList = "/__init__".toList ++ '.' :: "py".toList := by decide
    refine .inr (.inl (.inl ?_))
    rw [hext, ← List.append_assoc, stripExtension_append (by decide) (by decide) hname]
  · exact .inr (.inr (.inl hdir))

/-! ## No other import -/

/-- How the pattern of plain imports is read: it opens with the word of an import, so a line with
`from` is none. -/
theorem pythonImport_regex : pythonImport.regex =
    seqs (.look .startOfLine :: blanks 0 :: (letters importWord ++
      [blanks 1, .group 1 (seqs [.rounds 1 none true (.set dotted), .rounds 0 none true
        (seqs [blanks 0, .set (.only ','), blanks 0, .rounds 1 none true (.set dotted)])])])) := by
  decide +kernel

section Line

variable {words : List (List Char)} (hwords : AreWords words) {dots : Nat} (hdots : 0 < dots)
  (p : List Char) {names : List Char} (hnames : '\n' ∉ names)

include hwords hnames

/-- The statement is one line, so patterns that begin at the start of a line can match at its start
only. -/
theorem newline_notMem_relativeImport : '\n' ∉ relativeImport dots words names := by
  have hword : '\n' ∉ joinWith ['.'] words := fun h => absurd (dotted_of_mem hwords _ h) (by decide)
  have hdot : '\n' ∉ List.replicate dots '.' := fun h =>
    absurd (List.eq_of_mem_replicate h) (by decide)
  have hfrom : '\n' ∉ fromWord := by decide +kernel
  have himport : '\n' ∉ importWord := by decide +kernel
  simp [relativeImport, hword, hdot, hfrom, himport, hnames]

/-- The line imports no module as a whole. -/
theorem pythonPlain_relativeImport : pythonPlain (relativeImport dots words names) = [] := by
  rw [pythonPlain, List.flatMap_eq_nil_iff]
  intro m hm
  have hmatch := Pattern.matchAt?_start_of_mem_findAll pythonImport_regex
    (newline_notMem_relativeImport hwords hnames) hm
  obtain ⟨there, caps, hpasses, -⟩ := Pattern.exists_passes_of_matchAt? hmatch
  simp only [pythonImport_regex, Cursor.start, passes_look, reads_blanks.passes, passes_letters]
    at hpasses
  obtain ⟨-, lead, _, hcontent, hlead, y, rfl, -⟩ := hpasses
  -- the line begins with neither a blank nor the word of an import
  have hfrom : fromWord.head? = some 'f' := by decide +kernel
  have himport : importWord.head? = some 'i' := by decide +kernel
  have hhead : (relativeImport dots words names).head? = some 'f' := by
    rw [relativeImport, List.append_assoc, List.head?_append, hfrom, Option.some_or]
  rw [hcontent] at hhead
  cases lead with
  | nil =>
    rw [List.nil_append, List.head?_append, himport] at hhead
    cases hhead
  | cons c lead =>
    obtain rfl : c = 'f' := Option.some.inj hhead
    exact absurd (hlead 'f' List.mem_cons_self) (by decide)

include hdots

/-- Nothing else is read from the line, so files of other modules are dropped. -/
theorem eq_of_mem_pythonRelative :
    ∀ module ∈ pythonRelative ⟨p, relativeImport dots words names⟩,
      module = relativeModule p dots words := by
  intro module hmodule
  obtain ⟨m, hm, hread⟩ := List.mem_filterMap.mp hmodule
  obtain ⟨hup, hname⟩ := pythonRelative_of_matchAt? hwords hdots names
    (Pattern.matchAt?_start_of_mem_findAll pythonFrom_regex
      (newline_notMem_relativeImport hwords hnames) hm)
  simp only [hup, hname, List.length_replicate, if_neg (Nat.ne_of_gt hdots), ancestor_dirname,
    dotsToSlashes_joinWith hwords] at hread
  exact (Option.some.inj hread).symm

end Line

/-! ## What the imports keep -/

/-- **A relative import is resolved against the directory of its file**, except for the root of the
repository itself: what it names below a directory is kept, and from the root alone it names
nothing. -/
theorem python_keeps_relative {ctx : Context} {hits : List Hit} {dots : Nat}
    {words : List (List Char)} {names : List Char} (hdots : 0 < dots) (hwords : AreWords words)
    (hcontent : ctx.content = relativeImport dots words names) :
    (words ≠ [] ∨ above (dots - 1) ctx.path ≠ [] → ∀ h ∈ hits,
      IsOf h.file.toList (relativeModule ctx.path dots words) words → h ∈ python.keep ctx hits) ∧
    (words = [] → above (dots - 1) ctx.path = [] → '\n' ∉ names →
      ∀ h ∈ python.keep ctx hits, h.file.toList = ctx.path) := by
  obtain ⟨path, content⟩ := ctx
  obtain rfl : content = _ := hcontent
  constructor
  · intro hsome h hmem hfile
    have hne : relativeModule path dots words ≠ [] := by
      rcases hsome with hwordne | hbase
      · obtain ⟨d, w, hmodule, hw, -⟩ := exists_last hwords hwordne path dots
        rw [hmodule]
        exact List.append_ne_nil_of_right_ne_nil d hw
      · exact joinPath_ne_nil hbase _
    refine Rule.mem_keep_iff.mpr ⟨hmem, Bool.or_eq_true_iff.mpr (.inr ?_)⟩
    exact List.any_eq_true.mpr ⟨_, List.mem_append_right _ (mem_pythonRelative hwords hdots path
      names), pythonFits_of_isOf hwords hne hfile⟩
  · rintro rfl hroot hnames h hmem
    have hkept := (Rule.mem_keep_iff.mp hmem).2
    rcases Bool.or_eq_true_iff.mp hkept with hown | hfits
    · exact of_decide_eq_true hown
    · rw [pythonPlain_relativeImport hwords hnames, List.nil_append] at hfits
      obtain ⟨module, hmodule, hfits⟩ := List.any_eq_true.mp hfits
      have heq := eq_of_mem_pythonRelative hwords hdots path hnames module hmodule
      rw [relativeModule, hroot] at heq
      exact absurd heq (pythonFits_iff.mp hfits).1

theorem python_keeps_relative_two_up :
    hitIn "app/models/user.py" ∈ python.keep ⟨"app/views/index.py".toList,
      relativeImport 2 ["models".toList, "user".toList] "User".toList⟩
        [hitIn "models/user.py", hitIn "app/models/user.py"] := by
  have hwords : AreWords ["models".toList, "user".toList] := by
    unfold AreWords
    refine List.forall_mem_cons.mpr ⟨⟨by decide, List.all_eq_true.mp (by decide)⟩, ?_⟩
    exact List.forall_mem_singleton.mpr ⟨by decide, List.all_eq_true.mp (by decide)⟩
  have hfile : IsOf "app/models/user.py".toList (relativeModule "app/views/index.py".toList 2
      ["models".toList, "user".toList]) ["models".toList, "user".toList] :=
    .inl ⟨by decide, .inl (by decide +kernel)⟩
  exact (python_keeps_relative (by decide) hwords rfl).1 (.inl (by decide)) _ (by simp) hfile

/-- Beside a file at the root of the repository, `from . import util` keeps nothing. -/
theorem python_root_unresolved :
    ¬ ∀ (ctx : Context) (hits : List Hit) (dots : Nat) (words : List (List Char))
      (names : List Char), 0 < dots → AreWords words → dots - 1 ≤ (folders ctx.path).length →
        ctx.content = relativeImport dots words names → ∀ h ∈ hits,
          IsOf h.file.toList (relativeModule ctx.path dots words) words →
            h ∈ python.keep ctx hits := by
  intro hall
  have hkept := hall ⟨"main.py".toList, relativeImport 1 [] "util".toList⟩ [hitIn "util.py"] 1 []
    "util".toList (by decide) nofun (by decide) rfl (hitIn "util.py") (by simp)
    (.inr (by decide +kernel))
  exact absurd hkept (by decide +kernel)

end Imports

end CodeNav

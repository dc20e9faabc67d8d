import CodeNav.Proofs.Text.Pieces
import CodeNav.Workspace.Basic

/-!
# Which paths stay inside the root

A lookup names a file by a path. `Workspace.relativePath` turns it into a path from the
root, and the document is read from where the root and that path lead together. The
rewriting turns backslashes into slashes and drops `./` in front **after** it has looked
whether the path is absolute, so a path that is not absolute may become so:

* a path that opens with a separator behind any number of `.` segments, as `\etc` or
  `.//etc` do, is handed on as an **absolute path**, and what is read is that path and
  nothing below the root;
* **every other path that is accepted stays inside**, and the checkout's own guard, which
  looks at components, agrees.

`Workspace.relativePath_contained_iff` says so for all workspaces and paths.
-/

namespace CodeNav

namespace Path

/-! ## Steps -/

/-- The components of a path without its lead. -/
def steps (p : List Char) : List Component := (Text.splitAt '/' p).filterMap ofSegment

/-- A slash in the middle of a path does not lead back to the root. -/
theorem ofSegment_ne_root (s : List Char) : ofSegment s ≠ some .root := by
  unfold ofSegment
  split
  · simp
  · split <;> simp

/-- Only two dots lead up: a name may begin with them. -/
theorem ofSegment_eq_up_iff (s : List Char) : ofSegment s = some .up ↔ s = ['.', '.'] := by
  unfold ofSegment
  split
  case isTrue h =>
    have hs : s = [] ∨ s = ['.'] := by simpa using h
    rcases hs with rfl | rfl <;> simp
  case isFalse h => split <;> simp_all

theorem root_notMem_steps (p : List Char) : Component.root ∉ steps p := by
  intro h
  obtain ⟨s, -, hs⟩ := List.mem_filterMap.mp h
  exact ofSegment_ne_root s hs

/-- A path leads up exactly if two dots stand between its slashes. -/
theorem up_mem_steps_iff (p : List Char) :
    Component.up ∈ steps p ↔ ['.', '.'] ∈ Text.splitAt '/' p := by
  simp [steps, List.mem_filterMap, ofSegment_eq_up_iff]

/-- A path is its lead followed by its steps; the lead is no step up. -/
theorem exists_lead (p : List Char) :
    ∃ lead, components p = lead ++ steps p ∧ Component.up ∉ lead ∧
      (Component.root ∈ lead ↔ isAbsolute p) := by
  refine ⟨if isAbsolute p then [.root]
    else if (Text.splitAt '/' p).head? = some ['.'] then [.here] else [], rfl, ?_, ?_⟩
  · split
    · simp
    · split <;> simp
  · by_cases h : isAbsolute p
    · simp [h]
    · by_cases h' : (Text.splitAt '/' p).head? = some ['.'] <;> simp [h, h']

/-- The lead is no step up, so the same holds of all components. -/
theorem up_mem_components_iff (p : List Char) :
    Component.up ∈ components p ↔ ['.', '.'] ∈ Text.splitAt '/' p := by
  obtain ⟨lead, h, hup, -⟩ := exists_lead p
  rw [h, List.mem_append, ← up_mem_steps_iff]
  simp [hup]

/-- Only a path that opens with a slash has the root in it. -/
theorem root_mem_components_iff (p : List Char) :
    Component.root ∈ components p ↔ isAbsolute p := by
  obtain ⟨lead, h, -, hroot⟩ := exists_lead p
  rw [h, List.mem_append, ← hroot]
  simp [root_notMem_steps]

/-- The guard of a checkout asks for a path that is not absolute and never leads up. -/
theorem staysBelow_iff (p : List Char) :
    staysBelow p ↔ isAbsolute p = false ∧ Component.up ∉ components p := by
  have hroot := root_mem_components_iff p
  rw [staysBelow, List.all_eq_true]
  constructor
  · intro h
    refine ⟨?_, fun hup => by simpa using h _ hup⟩
    rw [← Bool.not_eq_true, ← hroot]
    exact fun hr => by simpa using h _ hr
  · rintro ⟨habs, hup⟩ c hc
    cases c with
    | root => simp [hroot.mp hc] at habs
    | here => rfl
    | up => exact absurd hc hup
    | name s => rfl

/-! ## Where a path leads -/

/-- Follow one component from a place. -/
def walk (names : List (List Char)) : Component → List (List Char)
  | .up => names.dropLast
  | .name s => names ++ [s]
  | _ => names

/-- Who never goes up stays below the place it started from. -/
theorem foldl_walk_of_no_up (cs : List Component) (hup : Component.up ∉ cs)
    (names : List (List Char)) : names <+: cs.foldl walk names := by
  induction cs generalizing names with
  | nil => exact List.prefix_refl names
  | cons c cs ih =>
    rw [List.mem_cons, not_or] at hup
    refine List.IsPrefix.trans ?_ (ih hup.2 (walk names c))
    cases c with
    | up => exact absurd rfl hup.1
    | name s => exact List.prefix_append names [s]
    | root => exact List.prefix_refl names
    | here => exact List.prefix_refl names

/-- The lead of a path moves nowhere. -/
theorem resolve_eq_foldl (p : List Char) : resolve p = (steps p).foldl walk [] := by
  have hwalk : resolve p = (components p).foldl walk [] := by
    unfold resolve
    congr 1
  rw [hwalk]
  unfold components
  simp only [List.foldl_append]
  congr 1
  split
  · rfl
  · split <;> rfl

/-- The steps of a path and of one below it are taken one after the other. -/
theorem steps_append (a b : List Char) : steps (a ++ '/' :: b) = steps a ++ steps b := by
  rw [steps, Text.splitAt_append, List.filterMap_append]
  rfl

/-- A path that is not absolute is followed from where the base leads. -/
theorem steps_join (base p : List Char) (hp : isAbsolute p = false) :
    steps (join base p) = steps base ++ steps p := by
  unfold join
  rw [hp, Bool.false_or]
  split
  case isTrue h =>
    rw [List.isEmpty_iff.mp h]
    rfl
  case isFalse h =>
    split
    case isTrue hlast =>
      -- the base ends in the slash that the other case puts in
      obtain ⟨b, rfl⟩ := List.getLast?_eq_some_iff.mp hlast
      have hnil : steps [] = [] := rfl
      rw [List.append_assoc, List.singleton_append, steps_append, steps_append, hnil,
        List.append_nil]
    case isFalse hlast => exact steps_append base p

/-- **A path without steps up leads to a place below its base**, unless it is absolute and replaces
the base. -/
theorem resolve_join (base p : List Char) (hp : isAbsolute p = false)
    (hup : Component.up ∉ components p) : resolve base <+: resolve (join base p) := by
  rw [resolve_eq_foldl, resolve_eq_foldl, steps_join base p hp, List.foldl_append]
  apply foldl_walk_of_no_up
  rw [up_mem_steps_iff, ← up_mem_components_iff]
  exact hup

/-- `p` names a place inside `base`: it is not absolute, it never climbs, and the names
that lead to it begin with those of `base`. -/
structure Inside (base p : List Char) : Prop where
  relative : isAbsolute p = false
  no_climb : Component.up ∉ components p
  below : resolve base <+: resolve (join base p)

/-- For a path that never climbs, being inside is being relative. -/
theorem inside_iff {base p : List Char} (hup : Component.up ∉ components p) :
    Inside base p ↔ isAbsolute p = false :=
  ⟨fun h => h.relative, fun h => ⟨h, hup, resolve_join base p h hup⟩⟩

/-! ## Paths that lead out -/

/-- What separates the segments of a path that a lookup names. -/
def isSeparator (c : Char) : Bool := c = '/' || c = '\\'

/-- Whether a path opens with a separator, behind any number of `.` segments. -/
def leadsOut : List Char → Bool
  | [] => false
  | [c] => isSeparator c
  | c :: d :: rest => isSeparator c || (c = '.' && isSeparator d && leadsOut rest)

end Path

namespace Workspace

open CodeNav.Path

/-- Backslashes become slashes, so either separates. -/
theorem slashed_eq_slash_iff (c : Char) :
    (if c = '\\' then '/' else c) = '/' ↔ isSeparator c := by
  by_cases hc : c = '\\' <;> simp [isSeparator, hc]

/-- No other character becomes a dot. -/
theorem slashed_eq_dot_iff (c : Char) : (if c = '\\' then '/' else c) = '.' ↔ c = '.' := by
  by_cases hc : c = '\\' <;> simp [hc]

/-- Only `./` in front is dropped. -/
theorem dropDots_of_ne {s : List Char} (h : ∀ rest, s ≠ '.' :: '/' :: rest) :
    dropDots s = s := by
  fun_cases dropDots s with
  | case1 rest => exact absurd rfl (h rest)
  | case2 => rfl

/-- **The two rewritings make a path absolute exactly when it leads out.** -/
theorem isAbsolute_dropDots_slashed (s : List Char) :
    isAbsolute (dropDots (slashed s)) = leadsOut s := by
  fun_induction leadsOut s with
  | case1 => rfl
  | case2 c => by_cases hc : c = '\\' <;> simp [slashed, dropDots, isAbsolute, isSeparator, hc]
  | case3 c d rest ih =>
    by_cases hdot : c = '.' ∧ isSeparator d
    · -- a `.` segment goes, and what follows decides
      obtain ⟨rfl, hd⟩ := hdot
      have hs : slashed ('.' :: d :: rest) = '.' :: '/' :: slashed rest := by
        simp [slashed, (slashed_eq_slash_iff d).mpr hd]
      rw [hs, dropDots, ih, hd]
      simp [isSeparator]
    · -- nothing goes, and the first character decides
      have hs : dropDots (slashed (c :: d :: rest)) = slashed (c :: d :: rest) := by
        apply dropDots_of_ne
        intro r hr
        simp only [slashed, List.map_cons, List.cons.injEq] at hr
        exact hdot ⟨(slashed_eq_dot_iff c).mp hr.1, (slashed_eq_slash_iff d).mp hr.2.1⟩
      have hfirst : isAbsolute (slashed (c :: d :: rest)) = isSeparator c := by
        by_cases hc : c = '\\' <;> simp [slashed, isAbsolute, isSeparator, hc]
      rw [hs, hfirst]
      by_cases hc : c = '.' <;> simp_all

/-- What it takes for a named path to be accepted, and what comes out. -/
theorem relativePath_eq_ok_iff (w : Workspace) (file p : String) :
    w.relativePath file = .ok p ↔
      ∃ s, w.underRoot? file = some s ∧ p.toList = dropDots (slashed s) ∧
        p.toList ≠ [] ∧ ['.', '.'] ∉ Text.splitAt '/' p.toList := by
  unfold relativePath
  cases w.underRoot? file with
  | none => simp
  | some s =>
    simp only [Option.some.injEq, exists_eq_left']
    split
    case isTrue h =>
      simp only [Bool.or_eq_true, List.isEmpty_iff, List.contains_eq_mem,
        decide_eq_true_eq] at h
      simp only [reduceCtorEq, false_iff]
      rintro ⟨hp, hne, hup⟩
      rw [hp] at hne hup
      exact h.elim hne hup
    case isFalse h =>
      simp only [Bool.or_eq_true, List.isEmpty_iff, List.contains_eq_mem,
        decide_eq_true_eq, not_or] at h
      constructor
      · rintro ⟨rfl⟩
        simpa using h
      · rintro ⟨hp, -, -⟩
        rw [← hp, String.ofList_toList]

/-! ## Containment -/

/-- Whether a named path leads out: what is left of it from the root on opens with a
separator behind any number of `.` segments. -/
def leadsOut (w : Workspace) (file : String) : Bool := (w.underRoot? file).any Path.leadsOut

/-- A path from the root is contained: it names a place inside the root, and the guard of
the checkout follows it to that place. -/
def Contained (w : Workspace) (p : String) : Prop :=
  Inside w.config.root.toList p.toList ∧
    w.checkout.resolvePath? p = some (join w.config.root.toList p.toList)

/-- A document without a text of its own depends on one file only, the one that the root
and the path lead to. -/
theorem document_congr (w : Workspace) (p : String) (language : Option String)
    {tree tree' : FileTree}
    (h : tree.readText (join w.config.root.toList p.toList) =
      tree'.readText (join w.config.root.toList p.toList)) :
    w.document tree p none language = w.document tree' p none language := by
  unfold document
  simp only [h]

/-- A path that leads out is handed on as an absolute one, and no other path is. -/
theorem isAbsolute_of_relativePath {w : Workspace} {file p : String}
    (h : w.relativePath file = .ok p) : isAbsolute p.toList = w.leadsOut file := by
  obtain ⟨s, hs, hp, -, -⟩ := (w.relativePath_eq_ok_iff file p).mp h
  rw [hp, isAbsolute_dropDots_slashed, leadsOut, hs, Option.any_some]

/-- No path that is handed on climbs. -/
theorem up_notMem_of_relativePath {w : Workspace} {file p : String}
    (h : w.relativePath file = .ok p) : Component.up ∉ components p.toList := by
  obtain ⟨s, -, -, -, hup⟩ := (w.relativePath_eq_ok_iff file p).mp h
  rwa [up_mem_components_iff]

/-- The two guards agree: the checkout follows a path that never climbs exactly when it
is inside the root. -/
theorem contained_iff {w : Workspace} {p : String} (hup : Component.up ∉ components p.toList) :
    w.Contained p ↔ isAbsolute p.toList = false := by
  rw [Contained, inside_iff hup]
  constructor
  · exact fun h => h.1
  · intro habs
    have hbelow : staysBelow p.toList := (staysBelow_iff p.toList).mpr ⟨habs, hup⟩
    exact ⟨habs, by rw [Checkout.resolvePath?, if_pos hbelow]; rfl⟩

/-- **Containment.** A path that is accepted never climbs, and the document of a lookup
depends on no file but the one that the root and the path lead to. That file is inside the
root, and the guard of the checkout follows the path to it, **exactly when the named path
does not lead out**. One that leads out is read wherever it points, and the guard of the
checkout refuses it. -/
theorem relativePath_contained_iff (w : Workspace) (file p : String)
    (h : w.relativePath file = .ok p) :
    Component.up ∉ components p.toList ∧
      (∀ (tree tree' : FileTree) (language : Option String),
        tree.readText (join w.config.root.toList p.toList) =
          tree'.readText (join w.config.root.toList p.toList) →
        w.document tree p none language = w.document tree' p none language) ∧
      (w.Contained p ↔ w.leadsOut file = false) ∧
      (w.leadsOut file = true →
        join w.config.root.toList p.toList = p.toList ∧ w.checkout.resolvePath? p = none) := by
  have hup : Component.up ∉ components p.toList := up_notMem_of_relativePath h
  have habs : isAbsolute p.toList = w.leadsOut file := isAbsolute_of_relativePath h
  refine ⟨hup, fun tree tree' language => w.document_congr p language, ?_, ?_⟩
  · rw [contained_iff hup, habs]
  · intro hout
    have hroot : isAbsolute p.toList = true := habs.trans hout
    refine ⟨by simp [join, hroot], ?_⟩
    have hbelow : ¬ staysBelow p.toList := by simp [staysBelow_iff, hroot]
    rw [Checkout.resolvePath?, if_neg hbelow]

/-- A workspace at a root, with nothing else set. -/
def bare (root : String) : Workspace where
  config :=
    { root, repo := "r", revision := "v", searchTimeoutSecs := 1, maxMatches := 1,
      preciseIndex := none, settings := {} }
  registry := .ofProfiles []
  index := none

theorem contained_src :
    (bare "/r").relativePath ".\\./src\\..a" = .ok "src/..a" ∧
      (bare "/r").Contained "src/..a" := by
  have h : (bare "/r").relativePath ".\\./src\\..a" = .ok "src/..a" := by rfl
  exact ⟨h, (relativePath_contained_iff _ _ _ h).2.2.1.mpr (by rfl)⟩

/-- Two spellings that lead out of the root `/r`, one named as a relative path and one as an
absolute path below the root: both are handed on as `/etc`. -/
theorem not_contained_etc :
    (bare "/r").relativePath ".\\\\etc" = .ok "/etc" ∧
      (bare "/r").relativePath "/r/\\etc" = .ok "/etc" ∧
      ¬ (bare "/r").Contained "/etc" := by
  refine ⟨by rfl, by rfl, ?_⟩
  rintro ⟨hin, -⟩
  exact absurd hin.relative (by decide)

end Workspace

end CodeNav

import CodeNav.Proofs.Hover.Wrap
import Mathlib.Algebra.Ring.Parity
import Mathlib.Data.List.Chain

/-!
# Fences in documentation

Lines that begin with a fence open and close blocks **in turn** (`roles`), so a fence more turns
everything behind it inside out, and only an even number of them leaves it as it is
(`isOpen_eq_self_iff`).

Wrapping puts two fences around a run. Behind them all is as before, unless the cut lays bare a
fence that stood indented in the run. Between them it is the other way round: what stood outside of
a block is code now, as it should be, but **the lines of a run inside one of the documentation's
own blocks are put out of it**. There are no other ways to harm a block: documentation keeps its
own fences exactly if all its runs stand outside of its blocks and an even number of fences is laid
bare in each (`fences_survive_iff`).
-/

namespace CodeNav.Hover

open Text

/-! ## Reading fences -/

/-- A line that opens or closes a block. -/
def isFence (l : List Char) : Bool := fence.isPrefixOf l

/-- What a line is among blocks. -/
inductive Role where
  /-- a fence that opens a block -/
  | opening
  /-- a fence that closes a block -/
  | closing
  /-- a line in a block -/
  | code
  /-- a line outside of blocks -/
  | prose
  deriving DecidableEq, Repr

/-- What a line is inside a block or outside of one. -/
def Role.of (inside : Bool) (l : List Char) : Role :=
  match isFence l, inside with
  | true, false => opening
  | true, true => closing
  | false, true => code
  | false, false => prose

/-- A line that is no fence is what its surroundings are. -/
theorem Role.of_unfenced {l : List Char} (h : isFence l = false) (inside : Bool) :
    Role.of inside l = if inside then .code else .prose := by
  cases inside <;> simp [Role.of, h]

/-- Outside of a block no line is code. -/
theorem Role.of_false_ne_code (l : List Char) : Role.of false l ≠ .code := by
  cases h : isFence l <;> simp [Role.of, h]

/-- Whether a line is no fence. -/
def Role.isText : Role → Bool
  | opening | closing => false
  | code | prose => true

/-- What each of some lines is. -/
def roles : (inside : Bool) → List (List Char) → List Role
  | _, [] => []
  | inside, l :: ls => .of inside l :: roles (inside ^^ isFence l) ls

/-- Whether a block is open behind some lines. -/
def isOpen (inside : Bool) (ls : List (List Char)) : Bool :=
  ls.foldl (fun inside l => inside ^^ isFence l) inside

theorem isOpen_cons (inside : Bool) (l : List Char) (ls : List (List Char)) :
    isOpen inside (l :: ls) = isOpen (inside ^^ isFence l) ls := rfl

/-- What is behind some lines only depends on whether a block is open there. -/
theorem isOpen_append (inside : Bool) (ls ms : List (List Char)) :
    isOpen inside (ls ++ ms) = isOpen (isOpen inside ls) ms := List.foldl_append

@[simp] theorem length_roles (inside : Bool) (ls : List (List Char)) :
    (roles inside ls).length = ls.length := by
  induction ls generalizing inside with
  | nil => rfl
  | cons l ls ih => rw [roles, List.length_cons, ih, List.length_cons]

/-- So lines may be told part by part. -/
theorem roles_append (inside : Bool) (ls ms : List (List Char)) :
    roles inside (ls ++ ms) = roles inside ls ++ roles (isOpen inside ls) ms := by
  induction ls generalizing inside with
  | nil => rfl
  | cons l ls ih => rw [List.cons_append, roles, ih, roles, isOpen_cons, List.cons_append]

/-- Inside and outside change places everywhere, or nowhere. -/
theorem isOpen_not (inside : Bool) (ls : List (List Char)) :
    isOpen (!inside) ls = !isOpen inside ls := by
  induction ls generalizing inside with
  | nil => rfl
  | cons l ls ih => rw [isOpen_cons, isOpen_cons, Bool.not_xor, ih]

/-- **An even number of fences leaves what is behind them as it is.** -/
theorem isOpen_eq_self_iff {inside : Bool} {ls : List (List Char)} :
    isOpen inside ls = inside ↔ Even (ls.countP isFence) := by
  induction ls with
  | nil => simp [isOpen]
  | cons l ls ih =>
    rw [isOpen_cons]
    cases hl : isFence l with
    | false => rw [Bool.xor_false, ih, List.countP_cons_of_neg (by simp [hl])]
    | true =>
      rw [Bool.xor_true, isOpen_not, List.countP_cons_of_pos hl, Nat.even_add_one, ← ih]
      cases inside <;> cases isOpen _ ls <;> decide

/-- **Fences open and close blocks in turn**; the last one opens a block if one is open in the
end. -/
theorem fences_in_turn (ls : List (List Char)) : ∃ n, (roles false ls).filter (!·.isText) =
    (List.replicate n [Role.opening, .closing]).flatten ++
      if isOpen false ls then [.opening] else [] := by
  induction ls using List.reverseRecOn with
  | nil => exact ⟨0, rfl⟩
  | append_singleton ls l ih =>
    obtain ⟨n, hn⟩ := ih
    rw [roles_append, isOpen_append, List.filter_append, hn]
    cases hl : isFence l with
    | false =>
      refine ⟨n, ?_⟩
      cases isOpen false ls <;> simp [roles, isOpen, Role.of, Role.isText, hl]
    | true =>
      cases isOpen false ls with
      | false => exact ⟨n, by simp [roles, isOpen, Role.of, Role.isText, hl]⟩
      | true =>
        refine ⟨n + 1, ?_⟩
        simp [roles, isOpen, Role.of, Role.isText, hl, List.replicate_succ']

/-- Lines without fences are all alike. -/
theorem roles_of_unfenced {ls : List (List Char)} (h : ∀ l ∈ ls, isFence l = false)
    (inside : Bool) : roles inside ls = ls.map (Role.of inside) ∧ isOpen inside ls = inside := by
  induction ls with
  | nil => exact ⟨rfl, rfl⟩
  | cons l ls ih =>
    obtain ⟨hl, hls⟩ := List.forall_mem_cons.mp h
    rw [roles, isOpen_cons, hl, Bool.xor_false]
    exact ⟨congrArg _ (ih hls).1, (ih hls).2⟩

/-- A fence may have more behind it, a language for one, but nothing in front. -/
theorem isFence_iff {l : List Char} : isFence l = true ↔ fence <+: l :=
  List.isPrefixOf_iff_prefix

/-- What is left out at the end of a line is no part of a fence. -/
theorem isFence_dropReturn (l : List Char) : isFence (dropReturn l) = isFence l := by
  rw [dropReturn]
  split
  · next hlast =>
    rw [Bool.eq_iff_iff, isFence_iff, isFence_iff]
    constructor
    · intro h
      exact h.trans (List.dropLast_prefix l)
    · rintro ⟨t, rfl⟩
      rcases List.eq_nil_or_concat t with rfl | ⟨t, c, rfl⟩
      · cases hlast
      · rw [List.concat_eq_append, ← List.append_assoc, List.dropLast_concat]
        exact List.prefix_append fence t
  · rfl

/-- Line ends of the other kind change no block. -/
theorem roles_map_dropReturn (inside : Bool) (ls : List (List Char)) :
    roles inside (ls.map dropReturn) = roles inside ls ∧
      isOpen inside (ls.map dropReturn) = isOpen inside ls := by
  induction ls generalizing inside with
  | nil => exact ⟨rfl, rfl⟩
  | cons l ls ih =>
    have hrole : Role.of inside (dropReturn l) = .of inside l := by
      simp only [Role.of, isFence_dropReturn]
    rw [List.map_cons, roles, isOpen_cons, isFence_dropReturn, (ih _).1, (ih _).2, hrole]
    exact ⟨rfl, rfl⟩

/-! ## Lines that are shown -/

/-- What the lines are that are not put in. -/
def shownRoles (inside : Bool) (marks : List (Option (List Char))) : List Role :=
  ((roles inside (marks.map (·.getD fence))).zip marks).filterMap fun (role, mark) =>
    mark.map fun _ => role

/-- The fences that are put in count for what is behind them, though they are not shown. -/
theorem shownRoles_append (inside : Bool) (ms ns : List (Option (List Char))) :
    shownRoles inside (ms ++ ns) =
      shownRoles inside ms ++ shownRoles (isOpen inside (ms.map (·.getD fence))) ns := by
  have hlength : (roles inside (ms.map (·.getD fence))).length = ms.length := by simp
  rw [shownRoles, List.map_append, roles_append, List.zip_append hlength, List.filterMap_append]
  rfl

/-- A fence that is put in turns what is behind it inside out. -/
theorem shownRoles_cons_none (inside : Bool) (marks : List (Option (List Char))) :
    shownRoles inside (none :: marks) = shownRoles (!inside) marks := by
  cases inside <;> rfl

/-- Where nothing is put in, lines are what they were. -/
theorem shownRoles_map_some (inside : Bool) (ls : List (List Char)) :
    shownRoles inside (ls.map some) = roles inside ls := by
  induction ls generalizing inside with
  | nil => rfl
  | cons l ls ih =>
    have hcons : shownRoles inside (some l :: ls.map some) =
        .of inside l :: shownRoles (inside ^^ isFence l) (ls.map some) := rfl
    rw [List.map_cons, hcons, ih, roles]

/-- Lines that are put in have no role. -/
theorem length_shownRoles (inside : Bool) (marks : List (Option (List Char))) :
    (shownRoles inside marks).length = marks.reduceOption.length := by
  induction marks generalizing inside with
  | nil => rfl
  | cons mark marks ih =>
    have hcons := shownRoles_append inside [mark] marks
    rw [List.singleton_append] at hcons
    cases mark with
    | none => rw [hcons, List.reduceOption_cons_of_none, ← ih]; rfl
    | some l => rw [hcons, List.reduceOption_cons_of_some, List.length_cons, ← ih]; rfl

/-! ## Segments among fences -/

/-- A line that is indented or blank is no fence. -/
theorem isFence_eq_false {l : List Char} (h : isIndented l = true ∨ allBlank l = true) :
    isFence l = false := by
  apply Bool.eq_false_iff.mpr
  intro hfence
  obtain ⟨t, rfl⟩ := isFence_iff.mp hfence
  rcases h with h | h
  · rw [isIndented, Bool.and_eq_true] at h
    exact absurd h.1 (by simp [fence, List.isPrefixOf, List.replicate_succ])
  · exact absurd (List.all_eq_true.mp h _ (List.mem_append_left t List.mem_cons_self))
      (by decide)

/-- The lines of a run as they are shown. -/
def Run.shown (r : Run) : List (List Char) := r.body.map (dropBytes (commonIndent r.body))

/-- The blank lines behind a run as they are shown. -/
def Run.behind (r : Run) : List (List Char) := r.trailing.map fun _ => []

namespace Segment

theorem marked_run (r : Run) : (run r).marked =
    none :: r.shown.map some ++ [none] ++ r.behind.map some := by
  rw [marked, Run.shown, Run.behind, List.map_map, List.map_map]
  rfl

/-- A run is written between two fences, and its blank lines behind them. -/
theorem written_run (r : Run) : (run r).marked.map (·.getD fence) =
    fence :: r.shown ++ [fence] ++ r.behind := by
  simp [marked_run, Function.comp_def]

end Segment

/-- A run has no fence of its own: its lines are indented or blank. -/
theorem Run.unfenced (r : Run) : ∀ l ∈ (Segment.run r).source, isFence l = false := by
  intro l hl
  rcases List.mem_append.mp hl with hl | hl
  · exact isFence_eq_false (r.indented l hl)
  · exact isFence_eq_false (.inr (r.blank_trailing l hl))

/-- The blank lines behind a run are written empty. -/
theorem Run.unfenced_behind (r : Run) : ∀ l ∈ r.behind, isFence l = false := by
  intro l hl
  obtain ⟨-, -, rfl⟩ := List.mem_map.mp hl
  rfl

/-- **Between its fences a run is the other way round**, and behind them only the fences that the
cut lays bare make a difference. -/
theorem Run.shownRoles_marked (r : Run) (inside : Bool) :
    shownRoles inside (Segment.run r).marked =
        roles (!inside) r.shown ++ r.behind.map (Role.of (isOpen inside r.shown)) ∧
      isOpen inside ((Segment.run r).marked.map (·.getD fence)) = isOpen inside r.shown := by
  have hsome : (r.shown.map some).map (·.getD fence) = r.shown := by
    simp [Function.comp_def]
  obtain ⟨hroles, hopen⟩ := roles_of_unfenced r.unfenced_behind (isOpen inside r.shown)
  constructor
  · rw [Segment.marked_run, List.append_assoc, List.cons_append, List.singleton_append,
      shownRoles_cons_none, shownRoles_append, shownRoles_cons_none, shownRoles_map_some,
      shownRoles_map_some, hsome, isOpen_not, Bool.not_not, hroles]
  · have hfence (b : Bool) (ls : List (List Char)) : isOpen b (fence :: ls) = isOpen (!b) ls := by
      cases b <;> rfl
    rw [Segment.written_run, List.append_assoc, List.cons_append, List.singleton_append, hfence,
      isOpen_append, isOpen_not, hfence, Bool.not_not, hopen]

/-- What may stand behind a segment. A run goes on until a line with text that is not
indented. -/
def Segment.Meets : Segment → Segment → Prop
  | line _ _, _ => True
  | run _, line l _ => allBlank l = false
  | run _, run _ => False

/-- **A run takes in all it can**, so it is followed by a line that is neither indented nor blank.
-/
theorem isChain_segmentsFrom {block : List (List Char)} (h : Gathered block)
    (ls : List (List Char)) : (segmentsFrom block h ls).IsChain Segment.Meets := by
  induction ls generalizing block with
  | nil =>
    rw [segmentsFrom, Gathered.segments]
    split <;> simp
  | cons l ls ih =>
    rw [segmentsFrom]
    split
    · next hl => exact ih (h.concat hl)
    · next hl =>
      have hrest : (Segment.line l (Bool.eq_false_iff.mpr fun hi => hl (.inl hi)) ::
          segmentsFrom [] .nil ls).IsChain Segment.Meets :=
        (ih Gathered.nil).cons fun _ _ => trivial
      rw [Gathered.segments]
      split
      · exact hrest
      · next hne =>
        have htext : allBlank l = false := by
          apply Bool.eq_false_iff.mpr
          intro hblank
          exact hl (.inr ⟨hne, hblank⟩)
        apply hrest.cons
        rintro s ⟨⟩
        exact htext

/-! ## What survives -/

/-- A line is what it was, or it is outside of blocks and is wrapped if it is indented. -/
def Unharmed (l : List Char) (before after : Role) : Prop :=
  after = before ∨ before = .prose ∧ (isIndented l = true ∨ allBlank l = true)

/-- Lines are not harmed by what is put in between them. -/
def Spared (inside inside' : Bool) (ls : List (List Char)) (marks : List (Option (List Char))) :
    Prop :=
  ∀ x ∈ (ls.zip (roles inside ls)).zip (shownRoles inside' marks), Unharmed x.1.1 x.1.2 x.2

/-- Whether lines are harmed can be told part by part, if each part is shown line by line. -/
theorem spared_append_iff {inside inside' : Bool} {ls ls' : List (List Char)}
    {ms ms' : List (Option (List Char))} (hlength : ls.length = ms.reduceOption.length) :
    Spared inside inside' (ls ++ ls') (ms ++ ms') ↔
      Spared inside inside' ls ms ∧
        Spared (isOpen inside ls) (isOpen inside' (ms.map (·.getD fence))) ls' ms' := by
  have hroles : ls.length = (roles inside ls).length := (length_roles inside ls).symm
  have hshown : (ls.zip (roles inside ls)).length = (shownRoles inside' ms).length := by
    rw [List.length_zip, length_roles, Nat.min_self, length_shownRoles, hlength]
  rw [Spared, roles_append, shownRoles_append, List.zip_append hroles, List.zip_append hshown,
    List.forall_mem_append]
  rfl

theorem spared_singleton_iff {inside inside' : Bool} {l : List Char} :
    Spared inside inside' [l] [some l] ↔ Unharmed l (.of inside l) (.of inside' l) := by
  have hone : shownRoles inside' [some l] = [.of inside' l] := rfl
  rw [Spared, hone]
  exact List.forall_mem_singleton

/-- A line is not harmed if blocks are as they were; and only then if it is not indented and has
a text. -/
theorem unharmed_of_iff {inside inside' : Bool} {l : List Char} (hl : isIndented l = false)
    (htext : allBlank l = false) :
    Unharmed l (.of inside l) (.of inside' l) ↔ inside' = inside := by
  rw [Unharmed, hl, htext]
  cases hfence : isFence l <;> cases inside <;> cases inside' <;> simp [Role.of, hfence]

/-- A run outside of blocks is not harmed. -/
theorem Run.spared (r : Run) (inside' : Bool) :
    Spared false inside' (Segment.run r).source (Segment.run r).marked := by
  have hzip : (Segment.run r).source.zip (roles false (Segment.run r).source) =
      (Segment.run r).source.map fun l => (l, Role.of false l) := by
    rw [(roles_of_unfenced r.unfenced false).1, ← List.zip_map', List.map_id']
  intro x hx
  have hbefore := (List.of_mem_zip hx).1
  rw [hzip, List.mem_map] at hbefore
  obtain ⟨l, hl, hbefore⟩ := hbefore
  rw [← hbefore]
  have hprose : Role.of false l = .prose := Role.of_unfenced (r.unfenced l hl) false
  refine .inr ⟨hprose, ?_⟩
  rcases List.mem_append.mp hl with hbody | htrailing
  · exact r.indented l hbody
  · exact .inr (r.blank_trailing l htrailing)

/-- **A run in a block is put out of it**: its first line is. -/
theorem Run.not_spared (r : Run) :
    ¬ Spared true true (Segment.run r).source (Segment.run r).marked := by
  intro h
  obtain ⟨first, rest, hbody⟩ := List.exists_cons_of_ne_nil r.body_ne_nil
  have hfirst : isFence first = false :=
    r.unfenced first (List.mem_append_left _ (hbody ▸ List.mem_cons_self))
  have hshown : r.shown = dropBytes (commonIndent r.body) first ::
      rest.map (dropBytes (commonIndent r.body)) := by
    rw [Run.shown, hbody, List.map_cons]
  rw [Spared, (r.shownRoles_marked true).1, hshown, Segment.source, hbody, List.cons_append, roles,
    List.zip_cons_cons, roles, List.cons_append, List.zip_cons_cons, List.forall_mem_cons] at h
  have hcode : Role.of true first = .code := Role.of_unfenced hfirst true
  rcases h.1 with hkept | ⟨hprose, -⟩
  · exact Role.of_false_ne_code _ (hkept.trans hcode)
  · rw [hcode] at hprose
    cases hprose

/-- Segments that are not harmed, and behind which all is as it was. -/
def Survive (inside inside' : Bool) (ss : List Segment) : Prop :=
  Spared inside inside' (ss.flatMap Segment.source) (ss.flatMap Segment.marked) ∧
    isOpen inside' ((ss.flatMap Segment.marked).map (·.getD fence)) =
      isOpen inside (ss.flatMap Segment.source)

/-- A segment is harmed or not by itself, and passes on whether a block is open. -/
theorem survive_cons_iff {inside inside' : Bool} {s : Segment} {ss : List Segment} :
    Survive inside inside' (s :: ss) ↔
      Spared inside inside' s.source s.marked ∧
        Survive (isOpen inside s.source) (isOpen inside' (s.marked.map (·.getD fence))) ss := by
  rw [Survive, Survive, List.flatMap_cons, List.flatMap_cons, spared_append_iff s.shown.length_eq,
    List.map_append, isOpen_append, isOpen_append, and_assoc]

/-- **What is behind a run is turned inside out by an odd number of fences**, and a line with text
that is not indented comes next, if there is a next line at all. -/
theorem not_survive_of_run {r : Run} {ss : List Segment}
    (hchain : (.run r :: ss).IsChain Segment.Meets) : ¬ Survive false true ss := by
  cases ss with
  | nil =>
    rintro ⟨-, hends⟩
    cases hends
  | cons s ss =>
    have hmeets := (List.isChain_cons_cons.mp hchain).1
    cases s with
    | run r' => exact hmeets.elim
    | line l hl =>
      rw [survive_cons_iff]
      rintro ⟨hspared, -⟩
      exact absurd ((unharmed_of_iff hl hmeets).mp (spared_singleton_iff.mp hspared)) (by decide)

/-- Each run stands outside of blocks, and the cut lays bare an even number of fences in it. -/
def RunsApart (inside : Bool) (ss : List Segment) : Prop :=
  ∀ front r behind, ss = front ++ .run r :: behind →
    isOpen inside (front.flatMap Segment.source) = false ∧ Even (r.shown.countP isFence)

/-- Whether a run stands outside of blocks is decided by the lines in front of it. -/
theorem runsApart_cons_iff {inside : Bool} {s : Segment} {ss : List Segment} :
    RunsApart inside (s :: ss) ↔
      (∀ r, s = .run r → inside = false ∧ Even (r.shown.countP isFence)) ∧
        RunsApart (isOpen inside s.source) ss := by
  constructor
  · intro h
    constructor
    · intro r hs
      apply h [] r ss
      rw [hs, List.nil_append]
    · intro front r behind hss
      have hcons := h (s :: front) r behind (by rw [hss, List.cons_append])
      rwa [List.flatMap_cons, isOpen_append] at hcons
  · rintro ⟨hfirst, hrest⟩ front r behind hss
    cases front with
    | nil =>
      obtain ⟨hs, -⟩ := List.cons.inj hss
      exact hfirst r hs
    | cons t front =>
      obtain ⟨rfl, htail⟩ := List.cons.inj hss
      rw [List.flatMap_cons, isOpen_append]
      exact hrest front r behind htail

/-- **Blocks survive exactly if the runs are apart from them.** -/
theorem survive_iff {inside : Bool} {ss : List Segment} (hchain : ss.IsChain Segment.Meets) :
    Survive inside inside ss ↔ RunsApart inside ss := by
  induction ss generalizing inside with
  | nil =>
    refine iff_of_true ⟨nofun, rfl⟩ fun front r behind h => ?_
    cases front <;> cases h
  | cons s ss ih =>
    rw [survive_cons_iff, runsApart_cons_iff]
    cases s with
    | line l hl =>
      have hopen : isOpen inside ((Segment.line l hl).marked.map (·.getD fence)) =
          isOpen inside (Segment.line l hl).source := rfl
      rw [hopen, ih hchain.tail]
      refine and_congr_left fun _ => iff_of_true ?_ nofun
      exact spared_singleton_iff.mpr (.inl rfl)
    | run r =>
      rw [(r.shownRoles_marked inside).2, (roles_of_unfenced r.unfenced inside).2]
      cases inside with
      | true =>
        refine iff_of_false (fun h => r.not_spared h.1) fun h => ?_
        cases (h.1 r rfl).1
      | false =>
        by_cases heven : Even (r.shown.countP isFence)
        · rw [isOpen_eq_self_iff.mpr heven, ih hchain.tail]
          refine and_congr_left fun _ => iff_of_true (r.spared false) ?_
          rintro r' ⟨⟩
          exact ⟨rfl, heven⟩
        · have hodd : isOpen false r.shown = true :=
            eq_true_of_ne_false (mt isOpen_eq_self_iff.mp heven)
          rw [hodd]
          exact iff_of_false (fun h => not_survive_of_run hchain h.2) fun h =>
            heven (h.1 r rfl).2

/-! ## Documentation with blocks of its own -/

/-- The lines that are written for documentation; none for a fence that is put in. -/
def marks (doc : List Char) : List (Option (List Char)) := (segments doc).flatMap Segment.marked

/-- There is a line shown for each line. -/
theorem length_source (ss : List Segment) :
    (ss.flatMap Segment.source).length = (ss.flatMap Segment.marked).reduceOption.length := by
  induction ss with
  | nil => rfl
  | cons s ss ih =>
    rw [List.flatMap_cons, List.flatMap_cons, List.length_append, List.reduceOption_append,
      List.length_append, s.shown.length_eq, ih]

/-- The blocks of documentation survive its wrapping: its fences keep opening and closing blocks,
its lines stand inside and outside of them as before, but for what is wrapped outside of them, and
the last block is closed if it was. -/
structure FencesSurvive (doc : List Char) : Prop where
  unharmed : List.Forall₂ (fun x after => Unharmed x.1 x.2 after)
    ((lines doc).zip (roles false (lines doc))) (shownRoles false (marks doc))
  ends : isOpen false (lines (wrap doc)) = isOpen false (lines doc)

/-- Documentation survives if its segments do, from outside of any block. -/
theorem fencesSurvive_iff {doc : List Char} :
    FencesSurvive doc ↔ Survive false false (segments doc) := by
  have hends : isOpen false (lines (wrap doc)) =
      isOpen false ((marks doc).map (·.getD fence)) := by
    rw [lines, (roles_map_dropReturn false _).2, splitAt_wrap, marks]
  have hlength : ((lines doc).zip (roles false (lines doc))).length =
      (shownRoles false (marks doc)).length := by
    rw [List.length_zip, length_roles, Nat.min_self, length_shownRoles, marks, ← length_source,
      source_segments]
  rw [Survive, source_segments, ← marks, ← hends]
  constructor
  · rintro ⟨hunharmed, hend⟩
    exact ⟨fun x hx => (List.forall₂_iff_zip.mp hunharmed).2 hx, hend⟩
  · rintro ⟨hspared, hend⟩
    exact ⟨List.forall₂_iff_zip.mpr ⟨hlength, fun hx => hspared _ hx⟩, hend⟩

/-- **The blocks of documentation survive exactly if its runs are apart from them**: if no run
stands in a block, and the cut lays bare an even number of fences in each. -/
theorem fences_survive_iff (doc : List Char) :
    splitAt '\n' (wrap doc) = (marks doc).map (·.getD fence) ∧
      (FencesSurvive doc ↔ RunsApart false (segments doc)) :=
  ⟨splitAt_wrap doc, fencesSurvive_iff.trans (survive_iff (isChain_segmentsFrom _ _))⟩

/-- An example in a block of its own, with an indented line. -/
def ownBlock : List Char := "Example:\n\n```\nif x:\n    run()\n```".toList

/-- The indented line is put out of the block, and the block's last fence opens another one. -/
theorem own_code_put_out :
    isOpen false (lines ownBlock) = false ∧
      wrap ownBlock = "Example:\n\n```\nif x:\n```\nrun()\n```\n```".toList ∧
      (lines ownBlock)[4]? = some "    run()".toList ∧
      (roles false (lines ownBlock))[4]? = some .code ∧
      (shownRoles false (marks ownBlock))[4]? = some .prose ∧ ¬ FencesSurvive ownBlock := by
  refine ⟨by decide +kernel, by decide +kernel, by decide +kernel, by decide +kernel,
    by decide +kernel, fun h => ?_⟩
  have hmem : (("    run()".toList, Role.code), Role.prose) ∈
      ((lines ownBlock).zip (roles false (lines ownBlock))).zip
        (shownRoles false (marks ownBlock)) := by decide +kernel
  rcases (List.forall₂_iff_zip.mp h.unharmed).2 hmem with hkept | ⟨hprose, -⟩
  · cases hkept
  · cases hprose

end CodeNav.Hover

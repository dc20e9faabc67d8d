import CodeNav.Proofs.Docstring.Dedent
import CodeNav.Proofs.Hover.Fences
import CodeNav.Proofs.Language.Builtin

/-!
# What a hover holds

A hover is the signature in a block of its own and, below a rule, the wrapped documentation
(`splitAt_contents`). There is one exactly for the lines that a signature is left of: all but those
with a fence, and those of nothing but blanks and open ends (`signature?_eq_none_iff`).

The signature is a piece of a line without a fence, so **its block has one line and is closed by
the fence behind it**. Documentation without fences is written as blocks that are closed one by one
(`fenced_segments`), and what is put together from such parts is read part by part
(`Fenced.append`).
-/

namespace CodeNav.Hover

open Text

/-! ## Signatures -/

/-- What a signature does not end in besides blanks. -/
def openEnds : List Char := "\x7b(:;,=".toList

/-- Blanks and what opens a block are cut off the end of a signature. -/
theorem isOpenEnd_iff {c : Char} : isOpenEnd c = true ↔ isBlank c = true ∨ c ∈ openEnds := by
  have hends : openEnds = ['\x7b', '(', ':', ';', ',', '='] := rfl
  rw [or_comm, hends]
  simp only [isOpenEnd, Bool.or_eq_true, decide_eq_true_iff, List.mem_cons, List.not_mem_nil,
    or_false, or_assoc]

/-- What is left of a line without the blanks in front and the open ends behind. -/
structure IsSignature (line s : List Char) : Prop where
  ne_nil : s ≠ []
  cut : ∃ before behind, line = before ++ s ++ behind ∧ (∀ c ∈ before, isBlank c = true) ∧
    ∀ c ∈ behind, isBlank c = true ∨ c ∈ openEnds
  text_first : ∀ c ∈ s.head?, isBlank c = false
  text_last : ∀ c ∈ s.getLast?, isBlank c = false ∧ c ∉ openEnds

/-- A fence in the middle of a line counts as well. -/
theorem occurs_fence_iff {s : List Char} : occurs fence s = true ↔ fence <:+: s :=
  occurs_iff (by decide)

/-- Blanks behind a line are open ends too. -/
theorem dropTail_trim (line : List Char) :
    dropTail isOpenEnd (trim line) = (trimStart line).rdropWhile isOpenEnd := by
  have hline : trimStart line =
      (trimStart line).rdropWhile isBlank ++ (trimStart line).rtakeWhile isBlank :=
    List.rdropWhile_append_rtakeWhile.symm
  have hblank : ∀ c ∈ ((trimStart line).rtakeWhile isBlank).reverse, isOpenEnd c = true := by
    intro c hc
    apply isOpenEnd_iff.mpr
    exact .inl (List.mem_rtakeWhile_imp (List.mem_reverse.mp hc))
  conv_rhs => rw [hline]
  rw [List.rdropWhile, List.reverse_append, List.dropWhile_append_of_pos hblank]
  rfl

/-- A line with a fence is not shown, since it would close the block that it is shown in. -/
theorem signature?_of_fence {line : List Char} (h : fence <:+: line) : signature? line = none := by
  rw [signature?, if_pos (occurs_fence_iff.mpr h)]

/-- Other lines are shown without what is cut off, if anything is left. -/
theorem signature?_of_not_fence {line : List Char} (h : ¬ fence <:+: line) :
    signature? line = if (trimStart line).rdropWhile isOpenEnd = [] then none
      else some ((trimStart line).rdropWhile isOpenEnd) := by
  rw [signature?, if_neg (mt occurs_fence_iff.mp h), dropTail_trim]
  simp only [List.isEmpty_iff]

/-- **A line has a signature unless there is a fence in it**, or nothing but blanks and open
ends. -/
theorem signature?_eq_none_iff {line : List Char} :
    signature? line = none ↔ fence <:+: line ∨ ∀ c ∈ line, isBlank c = true ∨ c ∈ openEnds := by
  by_cases hfence : fence <:+: line
  · exact iff_of_true (signature?_of_fence hfence) (.inl hfence)
  · have hline : line = line.takeWhile isBlank ++ trimStart line :=
      List.takeWhile_append_dropWhile.symm
    have hfront : ∀ c ∈ line.takeWhile isBlank, isBlank c = true ∨ c ∈ openEnds := by
      intro c hc
      exact .inl (List.mem_takeWhile_imp hc)
    have hends : (trimStart line).rdropWhile isOpenEnd = [] ↔
        ∀ c ∈ line, isBlank c = true ∨ c ∈ openEnds := by
      rw [List.rdropWhile_eq_nil_iff]
      conv_rhs => rw [hline, List.forall_mem_append]
      simp only [isOpenEnd_iff, and_iff_right hfront]
    rw [signature?_of_not_fence hfence, or_iff_right hfence, ← hends]
    simp

/-- What is shown of a line is a part of it with no fence. -/
theorem signature?_eq_some {line s : List Char} (h : signature? line = some s) :
    IsSignature line s ∧ ¬ fence <:+: s := by
  by_cases hfence : fence <:+: line
  · rw [signature?_of_fence hfence] at h
    cases h
  · rw [signature?_of_not_fence hfence] at h
    split at h
    · cases h
    · next hne =>
      obtain rfl := Option.some.inj h
      have hcut : line = line.takeWhile isBlank ++ (trimStart line).rdropWhile isOpenEnd ++
          (trimStart line).rtakeWhile isOpenEnd := by
        rw [List.append_assoc, List.rdropWhile_append_rtakeWhile]
        exact List.takeWhile_append_dropWhile.symm
      have hpiece : (trimStart line).rdropWhile isOpenEnd <:+: line := ⟨_, _, hcut.symm⟩
      refine ⟨⟨hne, ⟨_, _, hcut, ?_, ?_⟩, ?_, ?_⟩, fun h => hfence (h.trans hpiece)⟩
      · intro c hc
        exact List.mem_takeWhile_imp hc
      · intro c hc
        exact isOpenEnd_iff.mp (List.mem_rtakeWhile_imp hc)
      · intro c hc
        obtain ⟨rest, hrest⟩ := List.rdropWhile_prefix isOpenEnd (trimStart line)
        apply Docstring.head?_trimStart line c
        rw [← hrest, List.head?_append, Option.mem_def.mp hc]
        rfl
      · intro c hc
        obtain ⟨hne, rfl⟩ := List.mem_getLast?_eq_getLast hc
        have hlast := List.rdropWhile_last_not isOpenEnd (trimStart line) hne
        rw [isOpenEnd_iff, not_or, Bool.not_eq_true] at hlast
        exact hlast

/-! ## Lines among blocks -/

/-- Lines and what they are. -/
def reading (inside : Bool) (ls : List (List Char)) : List (Role × List Char) :=
  (roles inside ls).zip ls

/-- What is shown can be read part by part, if it is known whether a block is open between. -/
theorem reading_append (inside : Bool) (ls ms : List (List Char)) :
    reading inside (ls ++ ms) = reading inside ls ++ reading (isOpen inside ls) ms := by
  rw [reading, roles_append, List.zip_append (length_roles inside ls)]
  rfl

theorem reading_cons (inside : Bool) (l : List Char) (ls : List (List Char)) :
    reading inside (l :: ls) = (.of inside l, l) :: reading (inside ^^ isFence l) ls := rfl

/-- Lines without fences are all in a block, or all outside of one. -/
theorem reading_of_unfenced {ls : List (List Char)} (h : ∀ l ∈ ls, isFence l = false)
    (inside : Bool) :
    reading inside ls = ls.map fun l => (if inside then .code else .prose, l) := by
  induction ls with
  | nil => rfl
  | cons l ls ih =>
    obtain ⟨hl, hls⟩ := List.forall_mem_cons.mp h
    rw [reading_cons, Role.of_unfenced hl, hl, Bool.xor_false, ih hls, List.map_cons]

/-- A line of documentation in its place: an end of it, in a block exactly if it is indented. -/
def Placed (l : List Char) (x : Role × List Char) : Prop :=
  x.2 <:+ l ∧ (allBlank l = false → (x.1 = .code ↔ "    ".toList <+: l ∨ ['\t'] <+: l))

/-- Lines of documentation among blocks that are all closed, by nothing but fences. -/
structure Fenced (source written : List (List Char)) : Prop where
  closed : isOpen false written = false
  bare : ∀ x ∈ reading false written, x.1.isText = false → x.2 = fence
  placed : List.Forall₂ Placed source ((reading false written).filter (·.1.isText))

namespace Fenced

/-- Where there is nothing, nothing is put in. -/
theorem nil : Fenced [] [] := ⟨rfl, nofun, .nil⟩

/-- **What is behind closed blocks is read as if it stood alone.** -/
theorem append {source source' written written' : List (List Char)} (h : Fenced source written)
    (h' : Fenced source' written') : Fenced (source ++ source') (written ++ written') where
  closed := by rw [isOpen_append, h.closed, h'.closed]
  bare := by
    rw [reading_append, h.closed, List.forall_mem_append]
    exact ⟨h.bare, h'.bare⟩
  placed := by
    rw [reading_append, h.closed, List.filter_append]
    exact List.rel_append h.placed h'.placed

end Fenced

/-- Four spaces or a tab make a line indented. -/
theorem isIndented_iff {l : List Char} (h : allBlank l = false) :
    isIndented l = true ↔ "    ".toList <+: l ∨ ['\t'] <+: l := by
  have htab : l.head? = some '\t' ↔ ['\t'] <+: l := by
    cases l with
    | nil => exact iff_of_false nofun (by simp)
    | cons c l => simp [eq_comm]
  rw [isIndented, h, Bool.not_false, Bool.and_true, Bool.or_eq_true, List.isPrefixOf_iff_prefix,
    decide_eq_true_iff, htab]

/-- A line that is not indented stands outside of blocks. -/
theorem fenced_line {l : List Char} (h : isIndented l = false) (hfence : isFence l = false) :
    Fenced [l] [l] := by
  have hunfenced : ∀ m ∈ [l], isFence m = false := List.forall_mem_singleton.mpr hfence
  have hreading : reading false [l] = [(.prose, l)] := reading_of_unfenced hunfenced false
  refine ⟨(roles_of_unfenced hunfenced false).2, ?_, ?_⟩
  · rw [hreading, List.forall_mem_singleton]
    nofun
  · rw [hreading]
    refine .cons ⟨List.suffix_refl l, fun htext => ?_⟩ .nil
    rw [← isIndented_iff htext, h]
    exact iff_of_false nofun nofun

/-- A run without a fence in it is a block, and what is behind it is blank. -/
theorem Run.reading_written {r : Run} (h : ∀ l ∈ r.shown, isFence l = false) :
    reading false ((Segment.run r).marked.map (·.getD fence)) =
      (.opening, fence) :: r.shown.map (fun l => (.code, l)) ++ (.closing, fence) ::
        r.behind.map (fun l => (.prose, l)) := by
  have hfence : isFence fence = true := by decide
  obtain ⟨-, hopen⟩ := roles_of_unfenced h true
  rw [Segment.written_run, List.append_assoc, List.cons_append, reading_cons, hfence,
    Bool.false_xor, reading_append, hopen, List.singleton_append, reading_cons, hfence,
    Bool.true_xor, Bool.not_true, reading_of_unfenced h, reading_of_unfenced r.unfenced_behind]
  rfl

/-- A run without fences stands in a block of its own. -/
theorem fenced_run {r : Run} (h : ∀ l ∈ r.shown, isFence l = false) :
    Fenced (Segment.run r).source ((Segment.run r).marked.map (·.getD fence)) := by
  have hreading := Run.reading_written h
  refine ⟨?_, ?_, ?_⟩
  · rw [(r.shownRoles_marked false).2]
    exact (roles_of_unfenced h false).2
  · rw [hreading]
    intro x hx htext
    simp only [List.mem_append, List.mem_cons, List.mem_map] at hx
    rcases hx with (rfl | ⟨l, -, rfl⟩) | rfl | ⟨l, -, rfl⟩
    · rfl
    · cases htext
    · rfl
    · cases htext
  · have hfilter : (reading false ((Segment.run r).marked.map (·.getD fence))).filter
        (·.1.isText) = r.shown.map (fun l => (.code, l)) ++ r.behind.map (fun l => (.prose, l)) := by
      rw [hreading]
      simp [List.filter_append, List.filter_map, Function.comp_def, Role.isText]
    rw [hfilter, Run.shown, Run.behind, List.map_map, List.map_map]
    refine List.rel_append ?_ ?_
    · rw [List.forall₂_map_right_iff, List.forall₂_same]
      intro l hl
      refine ⟨dropBytes_suffix _ l, fun htext => iff_of_true rfl ?_⟩
      apply (isIndented_iff htext).mp
      exact (r.indented l hl).resolve_right (Bool.eq_false_iff.mp htext)
    · rw [List.forall₂_map_right_iff, List.forall₂_same]
      intro l hl
      refine ⟨List.nil_suffix, fun htext => ?_⟩
      rw [r.blank_trailing l hl] at htext
      cases htext

/-- A part of a text without fences has none. -/
theorem unfenced_of_isInfix {l m : List Char} (h : ¬ fence <:+: m) (hl : l <:+: m) :
    isFence l = false := by
  apply Bool.eq_false_iff.mpr
  intro hfence
  exact h ((isFence_iff.mp hfence).isInfix.trans hl)

/-- **Segments without fences are written as blocks that are closed one by one.** -/
theorem fenced_segments {ss : List Segment} (h : ∀ s ∈ ss, ∀ l ∈ s.source, ¬ fence <:+: l) :
    Fenced (ss.flatMap Segment.source) ((ss.flatMap Segment.marked).map (·.getD fence)) := by
  induction ss with
  | nil => exact .nil
  | cons s ss ih =>
    obtain ⟨hs, hss⟩ := List.forall_mem_cons.mp h
    rw [List.flatMap_cons, List.flatMap_cons, List.map_append]
    refine Fenced.append ?_ (ih hss)
    cases s with
    | line l hl =>
      have hl' : ¬ fence <:+: l := hs l List.mem_cons_self
      exact fenced_line hl (unfenced_of_isInfix hl' List.infix_rfl)
    | run r =>
      apply fenced_run
      intro l' hl'
      obtain ⟨l, hl, rfl⟩ := List.mem_map.mp hl'
      exact unfenced_of_isInfix (hs l (List.mem_append_left _ hl))
        (dropBytes_suffix _ l).isInfix

/-- **Documentation without fences is wrapped into blocks of its runs**, with every block closed. -/
theorem fenced_wrap {doc : List Char} (h : ¬ fence <:+: doc) :
    Fenced (lines doc) (splitAt '\n' (wrap doc)) := by
  rw [splitAt_wrap, ← source_segments]
  apply fenced_segments
  intro s hs l hl hfence
  apply h
  apply hfence.trans
  apply isInfix_of_mem_lines
  rw [← source_segments]
  exact List.mem_flatMap.mpr ⟨s, hs, hl⟩

/-! ## The contents of a hover -/

/-- What is found in a file about the definition on a line. -/
def documentation? (p : Profile) (content : String) (n : Nat) : Option (List Char) :=
  (Docstring.find? p.comments p.ignore content n).map (·.toList)

/-- The text of a hover. -/
def contents (id signature : List Char) (doc? : Option (List Char)) : List Char :=
  fence ++ id ++ '\n' :: signature ++ '\n' :: fence ++
    doc?.elim [] fun doc => divider ++ wrap doc

/-- A hover is shown exactly if the defining line is there and has a signature. -/
theorem build?_eq_bind (content : String) (definition : Hit) (p : Profile) :
    build? content definition p =
      ((lines content.toList)[definition.range.start.line]?.bind signature?).map fun s =>
        ⟨String.ofList (contents p.id.toList s
          (documentation? p content definition.range.start.line)), some definition.range⟩ := by
  rw [build?, documentation?]
  cases (lines content.toList)[definition.range.start.line]? with
  | none => rfl
  | some line =>
    cases hs : signature? line with
    | none => simp [hs]
    | some s =>
      cases Docstring.find? p.comments p.ignore content definition.range.start.line <;>
        simp [hs, contents]

/-- **A hover is its signature in a block and, below a rule, the wrapped documentation.** -/
theorem splitAt_contents {id s : List Char} (hid : '\n' ∉ id) (hs : '\n' ∉ s)
    (doc? : Option (List Char)) : splitAt '\n' (contents id s doc?) =
      [fence ++ id, s, fence] ++
        doc?.elim [] fun doc => [[], "---".toList, []] ++ splitAt '\n' (wrap doc) := by
  have hfence : '\n' ∉ fence := by decide
  have hhead : '\n' ∉ fence ++ id := by
    rw [List.mem_append]
    rintro (h | h)
    · exact hfence h
    · exact hid h
  have hcontents (rest : List Char) :
      splitAt '\n' (fence ++ id ++ '\n' :: s ++ '\n' :: fence ++ rest) =
        [fence ++ id, s] ++ splitAt '\n' (fence ++ rest) := by
    rw [List.append_assoc, List.append_assoc, List.cons_append, splitAt_line hhead,
      List.cons_append, splitAt_line hs]
    rfl
  rw [contents, hcontents]
  cases doc? with
  | none => rfl
  | some doc =>
    have hdivider : divider ++ wrap doc =
        '\n' :: ([] ++ '\n' :: ("---".toList ++ '\n' :: ([] ++ '\n' :: wrap doc))) := rfl
    have hrule : '\n' ∉ "---".toList := by decide
    rw [Option.elim_some, hdivider, splitAt_line hfence, splitAt_line List.not_mem_nil,
      splitAt_line hrule, splitAt_line List.not_mem_nil]
    rfl

/-- A hover that shows the signature of a line and documentation. -/
structure WellFenced (id line : List Char) (doc? : Option (List Char)) (ls : List (List Char)) :
    Prop where
  paired : ∃ n, (roles false ls).filter (!·.isText) =
    (List.replicate n [Role.opening, .closing]).flatten
  bare : ∀ x ∈ (reading false ls).tail, x.1.isText = false → x.2 = fence
  signature : ∃ s, IsSignature line s ∧
    (reading false ls).take 3 = [(.opening, fence ++ id), (.code, s), (.closing, fence)]
  undocumented : doc? = none → ls.length = 3
  documented : ∀ doc ∈ doc?,
    ((reading false ls).drop 3).take 3 = [(.prose, []), (.prose, "---".toList), (.prose, [])] ∧
      List.Forall₂ Placed (lines doc) (((reading false ls).drop 6).filter (·.1.isText))

/-- A signature without a fence in it is a block. -/
theorem reading_signature (id : List Char) {s : List Char} (hs : isFence s = false)
    (rest : List (List Char)) :
    reading false ([fence ++ id, s, fence] ++ rest) =
        [(.opening, fence ++ id), (.code, s), (.closing, fence)] ++ reading false rest ∧
      isOpen false ([fence ++ id, s, fence] ++ rest) = isOpen false rest := by
  have hhead : isFence (fence ++ id) = true := isFence_iff.mpr (List.prefix_append fence id)
  have hfence : isFence fence = true := by decide
  have hopen : isOpen false [fence ++ id, s, fence] = false := by
    simp [isOpen, hhead, hs, hfence]
  rw [reading_append, isOpen_append, hopen]
  simp [reading, roles, Role.of, hhead, hs, hfence]

/-- The rule and the empty lines around it are no fences, and wrapped documentation is closed. -/
theorem fenced_below {doc : List Char} (h : ¬ fence <:+: doc) :
    Fenced ([[], "---".toList, []] ++ lines doc)
        ([[], "---".toList, []] ++ splitAt '\n' (wrap doc)) ∧
      reading false ([[], "---".toList, []] ++ splitAt '\n' (wrap doc)) =
        [(.prose, []), (.prose, "---".toList), (.prose, [])] ++
          reading false (splitAt '\n' (wrap doc)) := by
  have hempty : Fenced [[]] [[]] := fenced_line (by decide) (by decide)
  have hrule : Fenced ["---".toList] ["---".toList] := fenced_line (by decide) (by decide)
  have hdivider : Fenced [[], "---".toList, []] [[], "---".toList, []] :=
    hempty.append (hrule.append hempty)
  refine ⟨hdivider.append (fenced_wrap h), ?_⟩
  rw [reading_append, hdivider.closed]
  rfl

/-- **What is shown has one block for the signature and none that stays open.** -/
theorem wellFenced_contents {id line s : List Char} {doc? : Option (List Char)}
    (hid : '\n' ∉ id) (hline : '\n' ∉ line) (hs : signature? line = some s)
    (hdoc : ∀ doc ∈ doc?, ¬ fence <:+: doc) :
    WellFenced id line doc? (splitAt '\n' (contents id s doc?)) := by
  obtain ⟨hsignature, hfence⟩ := signature?_eq_some hs
  have hs : '\n' ∉ s := by
    obtain ⟨before, behind, rfl, -, -⟩ := hsignature.cut
    exact fun h => hline (List.mem_append_left _ (List.mem_append_right _ h))
  have hunfenced : isFence s = false := unfenced_of_isInfix hfence List.infix_rfl
  rw [splitAt_contents hid hs]
  generalize hbelow : (doc?.elim [] fun doc =>
    [[], "---".toList, []] ++ splitAt '\n' (wrap doc)) = below
  obtain ⟨source, hfenced⟩ : ∃ source, Fenced source below := by
    subst hbelow
    cases doc? with
    | none => exact ⟨[], .nil⟩
    | some doc => exact ⟨_, (fenced_below (hdoc doc rfl)).1⟩
  obtain ⟨hreading, hopen⟩ := reading_signature id hunfenced below
  refine ⟨?_, ?_, ⟨s, hsignature, ?_⟩, ?_, ?_⟩
  · obtain ⟨n, hn⟩ := fences_in_turn ([fence ++ id, s, fence] ++ below)
    rw [hopen, hfenced.closed, if_neg Bool.false_ne_true, List.append_nil] at hn
    exact ⟨n, hn⟩
  · rw [hreading]
    intro x hx htext
    rcases List.mem_cons.mp hx with rfl | hx
    · cases htext
    · rcases List.mem_cons.mp hx with rfl | hx
      · rfl
      · exact hfenced.bare x hx htext
  · rw [hreading]
    rfl
  · rintro rfl
    subst hbelow
    rfl
  · rintro doc rfl
    subst hbelow
    have hfence := hdoc doc rfl
    rw [hreading, Option.elim_some, (fenced_below hfence).2]
    exact ⟨rfl, (fenced_wrap hfence).placed⟩

/-- **A hover is well fenced if its documentation has no fences of its own**, and there is a hover
exactly if there is a line with a signature. -/
theorem hover_well_fenced {p : Profile} (hp : p ∈ Builtin.profiles) (content : String)
    (definition : Hit) :
    (build? content definition p = none ↔
      ∀ line ∈ (lines content.toList)[definition.range.start.line]?,
        fence <:+: line ∨ ∀ c ∈ line, isBlank c = true ∨ c ∈ openEnds) ∧
    ∀ payload, build? content definition p = some payload →
      (∀ doc ∈ documentation? p content definition.range.start.line, ¬ fence <:+: doc) →
      ∃ line, (lines content.toList)[definition.range.start.line]? = some line ∧
        WellFenced p.id.toList line (documentation? p content definition.range.start.line)
          (splitAt '\n' payload.contents.toList) := by
  rw [build?_eq_bind]
  constructor
  · rw [Option.map_eq_none_iff, Option.bind_eq_none_iff]
    apply forall₂_congr
    intro line hline
    exact signature?_eq_none_iff
  · intro payload h hdoc
    obtain ⟨s, hbind, rfl⟩ := Option.map_eq_some_iff.mp h
    obtain ⟨line, hline, hs⟩ := Option.bind_eq_some_iff.mp hbind
    refine ⟨line, hline, ?_⟩
    have hnewline : '\n' ∉ line := newline_notMem_of_mem_lines (List.mem_of_getElem? hline)
    rw [String.toList_ofList]
    exact wellFenced_contents (Builtin.newline_notMem_id hp) hnewline hs hdoc

/-- A function with an example in its documentation. -/
def totals : String :=
  "def total(xs):\n    \"\"\"Adds up.\n\n        total([1])\n    \"\"\"\n    return sum(xs)\n"

/-- The name of the function. -/
def total : Hit where
  repository := "sums"
  revision := "HEAD"
  file := "sums.py"
  range := ⟨⟨0, 4⟩, ⟨0, 9⟩⟩

/-- What is shown over `total`. -/
def totalShown : String :=
  "```python\ndef total(xs)\n```\n\n---\n\nAdds up.\n\n```\ntotal([1])\n```"

/-- What is found about `total`. -/
def totalDoc : List Char := "Adds up.\n\n    total([1])".toList

/-- The example is shown in a block of its own. -/
theorem total_well_fenced : ∃ p ∈ Builtin.profiles, p.id = "python" ∧
    build? totals total p = some ⟨totalShown, some total.range⟩ ∧
    WellFenced "python".toList "def total(xs):".toList (some totalDoc)
      (splitAt '\n' totalShown.toList) := by
  have hpython : ∃ t ∈ Builtin.texts, t.id = "python" ∧ t.read?.any fun p =>
      p.id = "python" ∧ build? totals total p = some ⟨totalShown, some total.range⟩ ∧
        documentation? p totals total.range.start.line = some totalDoc := by
    decide +kernel
  obtain ⟨p, hp, hq⟩ := Builtin.exists_profile hpython
  obtain ⟨hid, hbuild, hdoc⟩ := of_decide_eq_true hq
  have hunfenced : ∀ doc ∈ documentation? p totals total.range.start.line, ¬ fence <:+: doc := by
    rw [hdoc]
    rintro _ ⟨⟩
    decide
  obtain ⟨line, hline, hwell⟩ := (hover_well_fenced hp totals total).2 _ hbuild hunfenced
  have hfirst : (lines totals.toList)[total.range.start.line]? = some "def total(xs):".toList := by
    decide +kernel
  rw [hfirst] at hline
  obtain rfl := Option.some.inj hline
  rw [hid, hdoc] at hwell
  exact ⟨p, hp, hid, hbuild, hwell⟩

end CodeNav.Hover

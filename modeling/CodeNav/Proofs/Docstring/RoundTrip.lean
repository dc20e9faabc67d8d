import CodeNav.Proofs.Docstring.Dedent
import CodeNav.Proofs.Language.Slashes

/-!
# Comments are read as they were written

Documentation is written above a definition as a run of `//` comments or as a block
(`Form.write`). **Whatever its lines are, and whatever stands around it, it is found again as it
was** (`comment_round_trip`), if nothing runs into it: a comment on the line before for a run,
the two characters that open a block for a block.
-/

namespace CodeNav.Docstring

open Text Slashes

/-! ## Documentation as it is written -/

/-- Lines that can be the documentation of a definition. -/
structure DocLines (ls : List (List Char)) : Prop where
  ne_nil : ls ≠ []
  one_line : ∀ l ∈ ls, '\n' ∉ l
  no_blank_end : ∀ l ∈ ls, ∀ c ∈ l.getLast?, isBlank c = false
  text_first : ∀ l ∈ ls.head?, allBlank l = false
  text_last : ∀ l ∈ ls.getLast?, allBlank l = false
  flush : ∀ l ∈ ls.head?, ∀ c ∈ l.head?, isBlank c = false

/-- The two ways to write a comment with slashes above a definition. -/
inductive Form where
  | run
  | block

/-- The lines of a comment. -/
def Form.write (indent : List Char) (ls : List (List Char)) : Form → List (List Char)
  | run => ls.map (indent ++ "// ".toList ++ ·)
  | block => (indent ++ "/**".toList) :: ls.map (indent ++ " * ".toList ++ ·) ++
      [indent ++ " */".toList]

/-- Nothing runs into a comment: no other comment from the lines before it, and no block from its
own lines. -/
def Form.Fits (before ls : List (List Char)) : Form → Prop
  | run => ∀ line ∈ before.getLast?, ¬ "//".toList <+: trimStart line
  | block => ∀ l ∈ ls, ¬ "/*".toList <:+: l

/-- The core of documentation is all of it. -/
def DocLines.core {ls : List (List Char)} (h : DocLines ls) {before after : List (List Char)}
    (hbefore : ∀ line ∈ before, allBlank line = true)
    (hafter : ∀ line ∈ after, allBlank line = true) : Core (before ++ ls ++ after) where
  before := before
  kept := ls
  after := after
  body_eq := rfl
  kept_ne_nil := h.ne_nil
  blank_before := hbefore
  blank_after := hafter
  text_first := h.text_first
  text_last := h.text_last

theorem DocLines.finish?_eq {ls : List (List Char)} (h : DocLines ls)
    {before after : List (List Char)} (hbefore : ∀ line ∈ before, allBlank line = true)
    (hafter : ∀ line ∈ after, allBlank line = true) :
    finish? (before ++ ls ++ after) = some (unlines ls) := by
  refine finish?_eq_some_iff.mpr ⟨h.core hbefore hafter, ?_⟩
  have hshown : ls.map trimEnd = ls := by
    rw [List.map_congr_left fun l hl => trimEnd_eq_self (h.no_blank_end l hl), List.map_id']
  rw [Core.shown]
  exact congrArg unlines hshown.symm

/-! ## Above a definition -/

/-- The lines to look at above a definition are those above what is passed over. -/
theorem candidates_above (front : List (List Char)) {skipped : List (List Char)}
    (back : List (List Char)) {ignore : Option Pattern}
    (hskipped : ∀ line ∈ skipped, ignore.any (·.isMatch line) = true)
    (hlast : ∀ line ∈ front.getLast?, ignore.any (·.isMatch line) = false) :
    candidates (front ++ skipped ++ back) (front ++ skipped).length ignore .above =
      front.zipIdx.reverse := by
  have hpassed : ∀ l ∈ (skipped.zipIdx front.length).reverse,
      ignore.any (·.isMatch l.1) = true := by
    intro l hl
    exact hskipped _ (List.fst_mem_of_mem_zipIdx (List.mem_reverse.mp hl))
  have htake : (front ++ skipped ++ back).zipIdx.take (front ++ skipped).length =
      front.zipIdx ++ skipped.zipIdx front.length := by
    rw [List.zipIdx_append, List.take_left' (by simp), List.zipIdx_append, Nat.zero_add]
  rw [candidates_eq, away, htake, List.reverse_append, List.dropWhile_append_of_pos hpassed]
  induction front using List.reverseRecOn with
  | nil => rfl
  | append_singleton front line _ =>
    rw [List.zipIdx_append, List.zipIdx_singleton, List.reverse_append, List.reverse_singleton,
      List.singleton_append]
    refine List.dropWhile_cons_of_neg (Bool.eq_false_iff.mp (hlast line ?_))
    rw [List.getLast?_concat, Option.mem_some_iff]

/-- The nearest line above is the last one. -/
theorem getLast?_of_nearest {front : List (List Char)} {l : NumberedLine}
    (h : l ∈ front.zipIdx.reverse.head?) : front.getLast? = some l.1 := by
  rw [List.head?_reverse, Option.mem_def] at h
  rw [← List.zipIdx_map_fst 0 front, List.getLast?_map, h, Option.map_some]

section MapWhile

variable {α β γ : Type} {f : α → Option β}

theorem mapWhile_map_append {w : γ → α} {g : γ → β} {l : List γ}
    (h : ∀ c ∈ l, f (w c) = some (g c)) (l' : List α) :
    mapWhile f (l.map w ++ l') = l.map g ++ mapWhile f l' := by
  induction l with
  | nil => rfl
  | cons c l ih =>
    obtain ⟨hc, hl⟩ := List.forall_mem_cons.mp h
    rw [List.map_cons, List.cons_append, mapWhile, hc, ih hl]
    rfl

theorem mapWhile_eq_nil {l : List α} (h : ∀ a ∈ l.head?, f a = none) : mapWhile f l = [] := by
  cases l with
  | nil => rfl
  | cons a l => rw [mapWhile, h a rfl]

end MapWhile

/-- A block is known by the lines that close and open it, and by no line between that opens one. -/
theorem extentAbove?_eq {block : BlockStyle} {line opener : List Char} {i j : Nat}
    {middle rest : List NumberedLine} {closed opened : Found}
    (hclosed : (block.closing.findAll line).getLast? = some closed)
    (hsame : block.opening.find? (line.take closed.start) = none)
    (hmiddle : ∀ l ∈ middle, block.opening.find? l.1 = none)
    (hopened : block.opening.find? opener = some opened) :
    extentAbove? block ((line, i) :: (middle ++ (opener, j) :: rest)) =
      some ⟨j, opened.stop, i, closed.start⟩ := by
  have hearlier : firstSome (fun l : NumberedLine =>
      (block.opening.find? l.1).map fun m => (l.2, m.stop)) (middle ++ (opener, j) :: rest) =
        some (j, opened.stop) := by
    refine firstSome_eq_some_iff.mpr ⟨middle, (opener, j), rest, rfl, fun l hl => ?_, ?_⟩
    · rw [hmiddle l hl, Option.map_none]
    · rw [hopened, Option.map_some]
  simp only [extentAbove?, hclosed, hsame, hearlier, Option.bind_eq_bind, Option.bind_some,
    Option.map_none, Option.none_or]
  rfl

theorem isInfix_of_notMem {c : Char} {t front s : List Char} (hc : c ∉ front)
    (h : c :: t <:+: front ++ s) : c :: t <:+: s := by
  obtain ⟨a, b, heq⟩ := h
  rw [List.append_assoc, List.append_eq_append_iff] at heq
  rcases heq with ⟨more, hfront, hs⟩ | ⟨more, rfl, hs⟩
  · cases more with
    | nil =>
      rw [List.nil_append] at hs
      exact hs ▸ (List.prefix_append _ _).isInfix
    | cons d more =>
      rw [List.cons_append, List.cons_append, List.cons.injEq] at hs
      exact absurd (hfront ▸ hs.1 ▸ List.mem_append_right a List.mem_cons_self) hc
  · exact ⟨more, b, by rw [hs, List.append_assoc]⟩

section Forms

variable {line : LineStyle} {block : BlockStyle} (h : IsSlashes line block)
  {indent : List Char} (hindent : ∀ c ∈ indent, isBlank c = true)
  {before ls : List (List Char)} (hls : DocLines ls)

include h hindent

/-- A run of comments is read up to the line before it. -/
theorem lineRun?_written (hls : DocLines ls) (hfits : Form.run.Fits before ls) :
    lineRun? line .above (before ++ Form.run.write indent ls).zipIdx.reverse =
      some (unlines ls) := by
  have hnear : (before ++ Form.run.write indent ls).zipIdx.reverse =
      (ls.zipIdx before.length).reverse.map (Prod.map (indent ++ "// ".toList ++ ·) id) ++
        before.zipIdx.reverse := by
    rw [List.zipIdx_append, List.reverse_append, Nat.zero_add, Form.write, List.zipIdx_map,
      List.map_reverse]
  have hbodies : mapWhile (fun l : NumberedLine => line.leadingBody? l.1)
      (before ++ Form.run.write indent ls).zipIdx.reverse = ls.reverse := by
    have hbody : ∀ l ∈ (ls.zipIdx before.length).reverse,
        line.leadingBody? (indent ++ "// ".toList ++ l.1) = some l.1 := by
      intro l hl
      have hmem := List.fst_mem_of_mem_zipIdx (List.mem_reverse.mp hl)
      exact leadingBody?_comment h hindent (hls.one_line l.1 hmem)
    have hend : ∀ l ∈ before.zipIdx.reverse.head?, line.leadingBody? l.1 = none :=
      fun l hl => leadingBody?_eq_none h (hfits l.1 (getLast?_of_nearest hl))
    have hrun := mapWhile_map_append (f := fun l : NumberedLine => line.leadingBody? l.1)
      (w := Prod.map (indent ++ "// ".toList ++ ·) id) hbody before.zipIdx.reverse
    rw [hnear, hrun, mapWhile_eq_nil hend, List.append_nil, List.map_reverse, List.zipIdx_map_fst]
  have hfinish : finish? ([] ++ ls ++ []) = some (unlines ls) := hls.finish?_eq nofun nofun
  rw [List.nil_append, List.append_nil] at hfinish
  have hne : ls.reverse.isEmpty = false := by simpa using hls.ne_nil
  simp only [lineRun?, hbodies, hne, if_pos, List.reverse_reverse, hfinish]
  rfl

/-- The last line of a block is no line comment. -/
theorem lineRun?_block (before ls : List (List Char)) :
    lineRun? line .above (before ++ Form.block.write indent ls).zipIdx.reverse = none := by
  have hend : ∀ l ∈ (before ++ Form.block.write indent ls).zipIdx.reverse.head?,
      line.leadingBody? l.1 = none := by
    intro l hl
    have hlast := getLast?_of_nearest hl
    rw [Form.write, ← List.append_assoc, List.getLast?_concat] at hlast
    refine leadingBody?_eq_none h ?_
    rw [← Option.some.inj hlast, trimStart, List.dropWhile_append_of_pos hindent]
    decide
  simp only [lineRun?, mapWhile_eq_nil hend]
  rfl

/-- Where a block lies that is written below some lines. -/
def writtenExtent (indent : List Char) (before ls : List (List Char)) : Extent :=
  ⟨before.length, indent.length + 3, before.length + ls.length + 1, indent.length + 1⟩

/-- The lines between the first and the last one are those of the documentation. -/
theorem map_bare_written (before ls : List (List Char)) :
    ((ls.map (indent ++ " * ".toList ++ ·)).zipIdx (before.length + 1)).map (fun l =>
      block.bare ((writtenExtent indent before ls).part l.1 l.2)) = ls := by
  have hpart : ∀ l ∈ (ls.map (indent ++ " * ".toList ++ ·)).zipIdx (before.length + 1),
      block.bare ((writtenExtent indent before ls).part l.1 l.2) = block.bare l.1 := by
    intro l hl
    obtain ⟨hle, hlt, -⟩ := List.mem_zipIdx hl
    rw [List.length_map] at hlt
    rw [Extent.part_between]
    · exact Nat.ne_of_gt hle
    · simp only [writtenExtent]
      omega
  have hbare : ∀ l ∈ ls, block.bare (indent ++ " * ".toList ++ l) = l :=
    fun l _ => bare_decorated h hindent l
  calc ((ls.map (indent ++ " * ".toList ++ ·)).zipIdx (before.length + 1)).map (fun l =>
        block.bare ((writtenExtent indent before ls).part l.1 l.2))
    _ = (((ls.map (indent ++ " * ".toList ++ ·)).zipIdx (before.length + 1)).map (·.1)).map
          block.bare := by
        rw [List.map_congr_left hpart, List.map_map]
        rfl
    _ = ls := by
        rw [List.zipIdx_map_fst, List.map_map]
        exact (List.map_congr_left hbare).trans (List.map_id' ls)

/-- **What a written block holds are the lines of the documentation**, between blank ones. -/
theorem contents_written (before ls after : List (List Char)) :
    (writtenExtent indent before ls).contents block
      (before ++ Form.block.write indent ls ++ after) = [[]] ++ ls ++ [indent ++ [' ']] := by
  have hne : (writtenExtent indent before ls).first ≠ (writtenExtent indent before ls).last := by
    simp only [writtenExtent]
    omega
  have hlast : (writtenExtent indent before ls).last + 1 =
      before.length + (Form.block.write indent ls).length := by
    simp only [writtenExtent, Form.write, List.length_append, List.length_cons, List.length_map,
      List.length_nil]
    omega
  have hopener : (writtenExtent indent before ls).part (indent ++ "/**".toList) before.length =
      [] := by
    refine (Extent.part_first hne).trans (List.drop_eq_nil_of_le ?_)
    simp [writtenExtent]
  have hcloser : (writtenExtent indent before ls).part (indent ++ " */".toList)
      (before.length + ls.length + 1) = indent ++ [' '] := by
    have hline : indent ++ " */".toList = (indent ++ [' ']) ++ "*/".toList := by simp
    refine (Extent.part_last hne).trans ?_
    rw [hline]
    exact List.take_left' (by simp [writtenExtent])
  have hnil : block.bare [] = [] := bare_blank h (List.forall_mem_nil _)
  rw [contents_append rfl hlast, Form.write, List.cons_append, List.zipIdx_cons, List.zipIdx_append,
    List.zipIdx_singleton, List.map_cons, List.map_append, map_bare_written h hindent,
    List.length_map, List.map_singleton, hopener, Nat.add_right_comm, hcloser, hnil,
    bare_blank h (blank_space hindent)]
  rfl

/-- The search finds a written block where it lies. -/
theorem extent?_written (hfits : Form.block.Fits before ls) :
    extent? block .above (before ++ Form.block.write indent ls).zipIdx.reverse =
      some (writtenExtent indent before ls) := by
  have hnear : (before ++ Form.block.write indent ls).zipIdx.reverse =
      (indent ++ " */".toList, before.length + ls.length + 1) ::
        (((ls.map (indent ++ " * ".toList ++ ·)).zipIdx (before.length + 1)).reverse ++
          (indent ++ "/**".toList, before.length) :: before.zipIdx.reverse) := by
    rw [Form.write, List.cons_append, List.zipIdx_append, Nat.zero_add, List.zipIdx_cons,
      List.zipIdx_append, List.zipIdx_singleton, List.length_map, Nat.add_right_comm]
    simp
  obtain ⟨closed, hclosed, hstart⟩ := closing_findAll_getLast? h hindent
  have hsame : block.opening.find? ((indent ++ " */".toList).take closed.start) = none := by
    have hline : indent ++ " */".toList = (indent ++ [' ']) ++ "*/".toList := by simp
    have hlength : closed.start = (indent ++ [' ']).length := by simp [hstart]
    refine opening_find?_eq_none h fun hopen => ?_
    rw [hline, hlength, List.take_left] at hopen
    have hslash : '/' ∈ indent ++ [' '] := hopen.subset (by decide)
    exact absurd (blank_space hindent _ hslash) (by decide)
  have hmiddle : ∀ l ∈ ((ls.map (indent ++ " * ".toList ++ ·)).zipIdx (before.length + 1)).reverse,
      block.opening.find? l.1 = none := by
    intro l hl
    have hmem := List.fst_mem_of_mem_zipIdx (List.mem_reverse.mp hl)
    obtain ⟨text, htext, heq⟩ := List.mem_map.mp hmem
    have hslash : '/' ∉ indent ++ " * ".toList := by
      intro hmem
      rcases List.mem_append.mp hmem with hmem | hmem
      · exact absurd (hindent _ hmem) (by decide)
      · exact absurd hmem (by decide)
    refine opening_find?_eq_none h fun hopen => hfits text htext ?_
    rw [← heq] at hopen
    exact isInfix_of_notMem hslash hopen
  rw [hnear, extent?, extentAbove?_eq hclosed hsame hmiddle (opening_find?_opened h hindent)]
  rw [hstart]
  rfl

/-- A written block is read. -/
theorem block?_written (hls : DocLines ls) (hfits : Form.block.Fits before ls)
    (after : List (List Char)) :
    block? block .above (before ++ Form.block.write indent ls ++ after)
      (before ++ Form.block.write indent ls).zipIdx.reverse = some (unlines ls) := by
  have hcontents := contents_written h hindent before ls after
  have hafter : ∀ line ∈ [indent ++ [' ']], allBlank line = true := by
    rw [List.forall_mem_singleton]
    exact List.all_eq_true.mpr (blank_space hindent)
  have hbefore : ∀ line ∈ ([[]] : List (List Char)), allBlank line = true := by
    rw [List.forall_mem_singleton]
    rfl
  obtain ⟨c, hc, hkept⟩ : ∃ c : Core ((writtenExtent indent before ls).contents block
      (before ++ Form.block.write indent ls ++ after)), c.before = [[]] ∧ c.kept = ls := by
    rw [hcontents]
    exact ⟨hls.core hbefore hafter, rfl, rfl⟩
  have hmargin : (writtenExtent indent before ls).indent
      (before ++ Form.block.write indent ls ++ after)
      ((writtenExtent indent before ls).segments block
        (before ++ Form.block.write indent ls ++ after)) = 0 := by
    have hne : c.before ≠ [] := by simp [hc]
    have hfirst : ls.head? = some c.first :=
      (congrArg List.head? hkept).symm.trans (List.head?_eq_some_head c.kept_ne_nil)
    rw [indent_eq_margin c, Extent.margin, if_neg hne]
    exact leadingBlanks_eq_zero (hls.flush _ hfirst)
  have hstrip : ([[]] ++ ls ++ [indent ++ [' ']]).map (stripIndent 0) =
      [[]] ++ ls ++ [indent ++ [' ']] := by
    refine (List.map_congr_left fun line _ => ?_).trans (List.map_id' _)
    rw [stripIndent, Nat.zero_min, List.drop_zero]
  simp only [block?, extent?_written h hindent hfits, Option.bind_eq_bind, Option.bind_some]
  rw [map_segments, hmargin, hcontents, hstrip]
  exact hls.finish?_eq hbefore hafter

omit h in
/-- The last line of a comment begins with a slash or with a star. -/
theorem lead_of_last_written (hls : DocLines ls) (form : Form) :
    ∃ line, (form.write indent ls).getLast? = some line ∧
      ∀ c ∈ (trimStart line).head?, c = '/' ∨ c = '*' := by
  cases form with
  | run =>
    obtain ⟨l, hl⟩ := Option.isSome_iff_exists.mp (List.getLast?_isSome.mpr hls.ne_nil)
    refine ⟨indent ++ "// ".toList ++ l, ?_, ?_⟩
    · rw [Form.write, List.getLast?_map, hl, Option.map_some]
    · rw [List.append_assoc, trimStart, List.dropWhile_append_of_pos hindent]
      rintro c ⟨⟩
      exact .inl rfl
  | block =>
    refine ⟨indent ++ " */".toList, ?_, ?_⟩
    · rw [Form.write, List.getLast?_concat]
    · rw [trimStart, List.dropWhile_append_of_pos hindent]
      rintro c ⟨⟩
      exact .inr rfl

/-- **Each form is read as it was written**, above whatever is passed over. -/
theorem nearby?_written {form : Form} (hls : DocLines ls) (hfits : form.Fits before ls)
    {skipped after : List (List Char)} {ignore : Option Pattern}
    (hskipped : ∀ line ∈ skipped, ignore.any (·.isMatch line) = true)
    (hkept : ∀ line, (∀ c ∈ (trimStart line).head?, c = '/' ∨ c = '*') →
      ignore.any (·.isMatch line) = false) :
    nearby? ⟨some line, some block, .above⟩
      (before ++ form.write indent ls ++ skipped ++ after)
      (before ++ form.write indent ls ++ skipped).length ignore = some (unlines ls) := by
  obtain ⟨last, hlast, hlead⟩ := lead_of_last_written hindent hls form
  have hend : ∀ l ∈ (before ++ form.write indent ls).getLast?,
      ignore.any (·.isMatch l) = false := by
    intro l hl
    rw [List.getLast?_append, hlast] at hl
    cases hl
    exact hkept last hlead
  have hnear := candidates_above (before ++ form.write indent ls) after hskipped hend
  simp only [nearby?, hnear, Option.bind_some]
  cases form with
  | run => rw [lineRun?_written h hindent hls hfits, Option.some_or]
  | block =>
    rw [lineRun?_block h hindent, Option.none_or, List.append_assoc]
    exact block?_written h hindent hls hfits (skipped ++ after)

end Forms

/-- **Documentation is found as it was written.** -/
theorem comment_round_trip {p : Profile} (hp : p ∈ Builtin.profiles)
    (hstyle : Builtin.slashes.read? = some p.comments.head?) {ls : List (List Char)}
    (hls : DocLines ls) {indent : List Char} (hindent : ∀ c ∈ indent, isBlank c = true)
    {form : Form} {before : List (List Char)} (hfits : form.Fits before ls)
    {skipped : List (List Char)} (hskipped : ∀ line ∈ skipped, p.ignore.any (·.isMatch line) = true)
    {definition : List Char} (hdefinition : ∀ style ∈ p.comments, inline? style definition = none)
    {after : List (List Char)} {text : String}
    (htext : lines text.toList =
      before ++ form.write indent ls ++ skipped ++ definition :: after) :
    find? p.comments p.ignore text (before ++ form.write indent ls ++ skipped).length =
      some (String.ofList (unlines ls)) := by
  obtain ⟨line, block, later, hcomments, hslashes⟩ := exists_isSlashes hstyle
  have hreaches : Reaches p.comments p.ignore (lines text.toList)
      (before ++ form.write indent ls ++ skipped).length ⟨some line, some block, .above⟩ := by
    refine ⟨⟨definition, ?_, hdefinition⟩, [], later, hcomments, nofun⟩
    rw [htext, List.getElem?_append_right (Nat.le_refl _), Nat.sub_self, List.getElem?_cons_zero]
  refine hreaches.find?_eq ?_
  rw [htext]
  refine nearby?_written hslashes hindent hls hfits hskipped fun line hline => ?_
  refine Bool.eq_false_iff.mpr fun hignored => ?_
  obtain ⟨c, hc, hslash, hstar⟩ := lead_of_ignored hp hignored
  rcases hline c hc with rfl | rfl
  · exact hslash rfl
  · exact hstar rfl

/-- Three lines of documentation, the second one empty and the third one indented. -/
def docLines : List (List Char) := ["Runs it.".toList, [], "  * twice".toList]

theorem docLines_ok : DocLines docLines where
  ne_nil := by decide
  one_line := by decide
  no_blank_end := by
    have hends : docLines.all fun l => l.getLast?.all (!isBlank ·) := by decide
    simpa [Option.all_eq_true] using hends
  text_first := by decide
  text_last := by decide
  flush := by
    rintro l ⟨⟩ c ⟨⟩
    decide

/-- A file in which they are written as a block above an annotated definition. -/
def documented : String :=
  "class A \x7b\n\t/**\n\t * Runs it.\n\t * \n\t *   * twice\n\t */\n\t@Override\n\tvoid run();"

theorem block_round_trip : ∃ p ∈ Builtin.profiles, p.id = "java" ∧ DocLines docLines ∧
    lines documented.toList = ["class A \x7b".toList] ++ Form.block.write ['\t'] docLines ++
      ["\t@Override".toList] ++ ["\tvoid run();".toList] ∧
    find? p.comments p.ignore documented 7 = some "Runs it.\n\n  * twice" := by
  have hjava : ∃ t ∈ Builtin.texts, t.id = "java" ∧ t.read?.any fun p =>
      p.id = "java" ∧ Builtin.slashes.read? = some p.comments.head? ∧
        p.ignore.any (·.isMatch "\t@Override".toList) ∧
        ∀ style ∈ p.comments, inline? style "\tvoid run();".toList = none := by
    decide +kernel
  obtain ⟨p, hp, hq⟩ := Builtin.exists_profile hjava
  obtain ⟨hid, hstyle, hignored, hinline⟩ := of_decide_eq_true hq
  have htext : lines documented.toList = ["class A \x7b".toList] ++
      Form.block.write ['\t'] docLines ++ ["\t@Override".toList] ++
        ["\tvoid run();".toList] := by
    decide
  have hfits : Form.block.Fits ["class A \x7b".toList] docLines := by
    unfold Form.Fits
    decide
  have htab : ∀ c ∈ ['\t'], isBlank c = true := List.forall_mem_singleton.mpr (by decide)
  exact ⟨p, hp, hid, docLines_ok, htext, comment_round_trip hp hstyle docLines_ok htab
    hfits (by simpa using hignored) hinline htext⟩

end CodeNav.Docstring

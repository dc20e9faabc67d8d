import CodeNav.Proofs.Imports.Paths

/-!
# The imports of a Java file

The blanks of an import pattern run across line ends, so a match can begin on one line and end on
another, and the search goes on behind it. **No line is missed that way** (`java_keeps_imported`):

* A match is a statement that ends at the end of a line (`exists_statement_of_matchAt?`), and where
  a line is a statement there is a match (`isSome_matchAt?_of_statement`).
* So some match covers the beginning of the line, whether or not it begins there, and it holds the
  whole line. With the line it holds the word that ends in a semicolon (`mem_words`).
* A statement has one such word, which is what it imports (`words_text`). So the match that covers
  the line is read as the import on the line.
-/

namespace CodeNav

namespace Imports

open Text Regex

/-- The text of an import statement, from its indentation to the blanks behind it. -/
structure JavaStatement where
  lead : List Char
  gap : List Char
  modifier : List Char
  name : List Char
  star : List Char
  space : List Char
  mark : List Char
  trail : List Char
  lead_blank : ∀ c ∈ lead, isBlank c = true
  gap_blank : gap ≠ [] ∧ ∀ c ∈ gap, isBlank c = true
  modifier_static : modifier = [] ∨
    ∃ g, modifier = "static".toList ++ g ∧ g ≠ [] ∧ ∀ c ∈ g, isBlank c = true
  name_dotted : IsDotted name
  star_wildcard : star = [] ∨ star = ".*".toList
  space_blank : ∀ c ∈ space, isBlank c = true
  mark_semicolon : mark = [] ∨ mark = [';']
  trail_blank : ∀ c ∈ trail, isBlank c = true

namespace JavaStatement

/-- The statement as it is written. -/
def text (s : JavaStatement) : List Char :=
  s.lead ++ (importWord ++ (s.gap ++ (s.modifier ++
    (s.name ++ (s.star ++ (s.space ++ (s.mark ++ s.trail)))))))

/-- What it imports. -/
def imported (s : JavaStatement) : JavaImport := ⟨dotsToSlashes s.name, s.star ≠ []⟩

end JavaStatement

theorem javaImport_regex : javaImport.regex =
    seqs (.look .startOfLine :: blanks 0 :: (letters importWord ++
      blanks 1 :: .rounds 0 (some 1) true (seqs (letters "static".toList ++ [blanks 1])) ::
      .group 1 (.rounds 1 none false (.set dotted)) ::
      .rounds 0 (some 1) true (.group 2 (seqs (letters ".*".toList))) ::
      blanks 0 :: .rounds 0 (some 1) true (seqs (letters [';'])) :: blanks 0 ::
      [.look .endOfLine])) := by
  decide +kernel

theorem reads_static : Reads (seqs (letters "static".toList ++ [blanks 1])) fun x =>
    ∃ g, x = "static".toList ++ g ∧ g ≠ [] ∧ ∀ c ∈ g, isBlank c = true :=
  @reads_letters_append [blanks 1] _ reads_gap _

/-- The import that a match is read as. -/
def javaRead (content : List Char) (m : Found) : JavaImport :=
  ⟨dotsToSlashes (groupText content m 1), (m.group? 2).isSome⟩

/-- **A match is a statement**, up to the end of a line. -/
theorem exists_statement_of_matchAt? {content rest : List Char} {before : Option Char}
    {pos fuel : Nat} {m : Found} (h : javaImport.matchAt? fuel ⟨before, pos, rest⟩ = some m)
    (hdrop : content.drop pos = rest) :
    ∃ (s : JavaStatement) (y : List Char), rest = s.text ++ y ∧ (∀ c ∈ y.head?, c = '\n') ∧
      m.stop = pos + s.text.length ∧ javaRead content m = s.imported := by
  obtain ⟨there, caps, hpasses, rfl⟩ := Pattern.exists_passes_of_matchAt? h
  simp only [javaImport_regex, passes_look, reads_blanks.passes, reads_gap.passes, passes_letters,
    (reads_static.optional _).passes, (reads_dotted _).passes_group,
    (reads_letters _).passes_optional_group, ((reads_letters _).optional _).passes,
    Look.endOfLine_holds_iff] at hpasses
  obtain ⟨-, lead, _, rfl, hlead, _, rfl, gap, _, rfl, hgap, modifier, _, rfl, hmodifier, name, _,
    rfl, hname, star, _, spans, rfl, hstar, space, _, rfl, hspace, mark, _, rfl, hmark, trail, y,
    rfl, htrail, hend, rfl, rfl⟩ := hpasses
  let s : JavaStatement := ⟨lead, gap, modifier, name, star, space, mark, trail, hlead, hgap,
    hmodifier, hname, hstar.imp And.left And.left, hspace, hmark, htrail⟩
  refine ⟨s, y, by simp [s, JavaStatement.text], hend, ?_, ?_⟩
  · simp only [s, JavaStatement.text, List.length_append]
    omega
  · -- the first group is the name, and the second takes part if there is a star
    have hbehind : content.drop pos = lead ++ (importWord ++ (gap ++ modifier)) ++
        (name ++ (star ++ (space ++ (mark ++ (trail ++ y))))) := by simpa using hdrop
    have hplace : pos + (lead ++ (importWord ++ (gap ++ modifier))).length =
        pos + lead.length + importWord.length + gap.length + modifier.length := by
      simp only [List.length_append]
      omega
    have hslice := slice_of_drop hbehind
    rw [hplace] at hslice
    rcases hstar with ⟨rfl, rfl⟩ | ⟨rfl, rfl⟩ <;>
      simp [javaRead, groupText, Pattern.text?, Found.group?, JavaStatement.imported, s, hslice]

/-- Where a line begins with a statement, and a line ends with it, there is a match. -/
theorem isSome_matchAt?_of_statement {before : Option Char} {pos fuel : Nat} (s : JavaStatement)
    {y : List Char} (hbefore : ∀ c ∈ before, c = '\n') (hy : ∀ c ∈ y.head?, c = '\n')
    (hfuel : (s.text ++ y).length ≤ fuel) :
    (javaImport.matchAt? fuel ⟨before, pos, s.text ++ y⟩).isSome := by
  have hadvances : javaImport.regex.advances = true := by
    rw [javaImport_regex]
    rfl
  have hpasses :
      ∃ there caps, javaImport.regex.Passes ⟨before, pos, s.text ++ y⟩ [] there caps := by
    simp only [javaImport_regex, passes_look, reads_blanks.passes, reads_gap.passes,
      passes_letters, (reads_static.optional _).passes, (reads_dotted _).passes_group,
      (reads_letters _).passes_optional_group, ((reads_letters _).optional _).passes,
      Look.startOfLine_holds_iff, Look.endOfLine_holds_iff, JavaStatement.text, List.append_assoc]
    obtain ⟨spans, hspans⟩ : ∃ spans, s.star = [] ∧ spans = [] ∨ s.star = ".*".toList ∧
        spans = [(2, pos + s.lead.length + importWord.length + s.gap.length + s.modifier.length +
          s.name.length, pos + s.lead.length + importWord.length + s.gap.length +
            s.modifier.length + s.name.length + s.star.length)] :=
      s.star_wildcard.elim (fun h => ⟨_, .inl ⟨h, rfl⟩⟩) fun h => ⟨_, .inr ⟨h, rfl⟩⟩
    exact ⟨_, _, hbefore, s.lead, _, rfl, s.lead_blank, _, rfl, s.gap, _, rfl, s.gap_blank,
      s.modifier, _, rfl, s.modifier_static, s.name, _, rfl, s.name_dotted, s.star, _, spans, rfl,
      hspans, s.space, _, rfl, s.space_blank, s.mark, _, rfl, s.mark_semicolon, s.trail, y, rfl,
      s.trail_blank, hy, rfl, rfl⟩
  obtain ⟨there, caps, hpasses⟩ := hpasses
  exact Pattern.isSome_matchAt? hadvances hfuel hpasses

/-! ## The words of a statement -/

namespace JavaStatement

variable (s : JavaStatement)

/-- What is imported, as it is written. -/
def target : List Char := s.name ++ s.star

theorem target_ne_nil : s.target ≠ [] := by
  simp [target, s.name_dotted.ne_nil]

theorem unbroken_target : Unbroken s.target := by
  rw [target, unbroken_append]
  refine ⟨fun c hc => isBlank_eq_false_of_dotted (s.name_dotted.dotted c hc), ?_⟩
  rcases s.star_wildcard with hstar | hstar <;> rw [hstar] <;> decide

theorem semicolon_notMem_target : ';' ∉ s.target := by
  have hname : ';' ∉ s.name := fun h => absurd (s.name_dotted.dotted _ h) (by decide +kernel)
  rw [target, List.mem_append, not_or]
  refine ⟨hname, ?_⟩
  rcases s.star_wildcard with hstar | hstar <;> rw [hstar] <;> decide

/-- Behind its keywords, a statement has at most two words: what is imported and the semicolon. -/
theorem words_closing : ∀ w ∈ words (s.target ++ (s.space ++ (s.mark ++ s.trail))), ';' ∈ w →
    w = [';'] ∨ w = s.target ++ [';'] := by
  have htrail : words s.trail = [] := by
    rw [← List.append_nil s.trail, words_blanks_append s.trail_blank]
    rfl
  have hmark : words ([';'] ++ s.trail) = [[';']] := by
    rw [words_append (by decide) (by decide) fun c hc => s.trail_blank c (List.mem_of_head? hc),
      htrail]
  rcases s.mark_semicolon with hnone | hsome
  · have hblank : ∀ c ∈ s.space ++ s.trail, isBlank c = true :=
      List.forall_mem_append.mpr ⟨s.space_blank, s.trail_blank⟩
    have hrest : words (s.space ++ s.trail) = [] := by
      rw [words_blanks_append s.space_blank, htrail]
    rw [hnone, List.nil_append, words_append s.target_ne_nil s.unbroken_target
      fun c hc => hblank c (List.mem_of_head? hc), hrest, List.forall_mem_singleton]
    exact fun h => absurd h s.semicolon_notMem_target
  · rw [hsome]
    by_cases hspace : s.space = []
    · rw [hspace, List.nil_append, ← List.append_assoc, words_append (by simp)
        (unbroken_append.mpr ⟨s.unbroken_target, by decide⟩)
        fun c hc => s.trail_blank c (List.mem_of_head? hc), htrail, List.forall_mem_singleton]
      exact fun _ => .inr rfl
    · rw [words_append_gap s.target_ne_nil s.unbroken_target hspace s.space_blank, hmark]
      rw [List.forall_mem_cons, List.forall_mem_singleton]
      exact ⟨fun h => absurd h s.semicolon_notMem_target, fun _ => .inl rfl⟩

/-- **A word of a statement with a semicolon is the semicolon, or what is imported and the
semicolon.** -/
theorem words_text : ∀ w ∈ words s.text, ';' ∈ w → w = [';'] ∨ w = s.target ++ [';'] := by
  have hclosing := s.words_closing
  rw [target, List.append_assoc] at hclosing
  rw [text, words_blanks_append s.lead_blank,
    words_append_gap (by decide) (by decide) s.gap_blank.1 s.gap_blank.2, List.forall_mem_cons]
  refine ⟨fun h => absurd h (by decide), ?_⟩
  rcases s.modifier_static with hnone | ⟨g, hsome, hne, hblank⟩
  · rwa [hnone, List.nil_append]
  · rw [hsome, List.append_assoc, words_append_gap (by decide) (by decide) hne hblank,
      List.forall_mem_cons]
    exact ⟨fun h => absurd h (by decide), hclosing⟩

/-- A name and a star are told apart. -/
theorem eq_of_target_eq {s s' : JavaStatement} (h : s.target = s'.target) :
    s.imported = s'.imported := by
  have hnostar : ∀ s : JavaStatement, '*' ∉ s.name := fun s h =>
    absurd (s.name_dotted.dotted _ h) (by decide +kernel)
  have hname : s.name = s'.name ∧ s.star = s'.star := by
    rw [target, target] at h
    rcases s.star_wildcard with hstar | hstar <;> rcases s'.star_wildcard with hstar' | hstar'
    · rw [hstar, hstar', List.append_nil, List.append_nil] at h
      exact ⟨h, hstar.trans hstar'.symm⟩
    · rw [hstar, hstar', List.append_nil] at h
      exact absurd (h ▸ List.mem_append_right _ (by decide)) (hnostar s)
    · rw [hstar, hstar', List.append_nil] at h
      exact absurd (h ▸ List.mem_append_right _ (by decide)) (hnostar s')
    · rw [hstar, hstar', List.append_left_inj] at h
      exact ⟨h, hstar.trans hstar'.symm⟩
  rw [imported, imported, hname.1, hname.2]

end JavaStatement

/-! ## A line that is a statement -/

/-- A statement with its semicolon right behind what it imports. -/
structure JavaStatement.IsClosed (s : JavaStatement) : Prop where
  space_nil : s.space = []
  mark : s.mark = [';']

/-- Behind the keywords of a statement there is a blank. -/
theorem JavaStatement.exists_blank (s : JavaStatement) :
    ∃ u c, s.gap ++ s.modifier = u ++ [c] ∧ isBlank c = true := by
  obtain ⟨hgap, hgapblank⟩ := s.gap_blank
  rcases s.modifier_static with hnone | ⟨g, hsome, hne, hblank⟩
  · refine ⟨s.gap.dropLast, s.gap.getLast hgap, ?_, hgapblank _ (List.getLast_mem hgap)⟩
    rw [hnone, List.append_nil, List.dropLast_concat_getLast]
  · refine ⟨s.gap ++ "static".toList ++ g.dropLast, g.getLast hne, ?_,
      hblank _ (List.getLast_mem hne)⟩
    rw [hsome, List.append_assoc _ g.dropLast, List.dropLast_concat_getLast, List.append_assoc]

/-- **What a closed statement imports is a word**, with the semicolon, of every text that it stands
in before the end of a line. -/
theorem JavaStatement.mem_words {s : JavaStatement} (h : s.IsClosed) {front back : List Char}
    (hback : ∀ c ∈ back.head?, c = '\n') :
    s.target ++ [';'] ∈ words (front ++ (s.text ++ back)) := by
  obtain ⟨u, c, hblank, hc⟩ := s.exists_blank
  have hgap : ∀ z, s.gap ++ (s.modifier ++ z) = u ++ c :: z := by
    intro z
    rw [← List.append_assoc, hblank, List.append_assoc]
    rfl
  have htext : front ++ (s.text ++ back) =
      (front ++ (s.lead ++ (importWord ++ u))) ++
        c :: (s.target ++ [';'] ++ (s.trail ++ back)) := by
    simp only [List.append_assoc, hgap, text, h.space_nil, h.mark, target, List.nil_append,
      List.cons_append]
  have hend : ∀ d ∈ (s.trail ++ back).head?, isBlank d = true := by
    intro d hd
    cases htrail : s.trail with
    | nil =>
      rw [htrail] at hd
      rw [hback d hd]
      decide
    | cons e trail =>
      rw [htrail] at hd
      obtain rfl : e = d := Option.some.inj hd
      exact s.trail_blank e (htrail ▸ List.mem_cons_self)
  rw [htext]
  exact mem_words_of_blank hc (by simp) (unbroken_append.mpr ⟨s.unbroken_target, by decide⟩) hend

/-- **Every line that is a closed statement is honoured**, whatever stands on the other lines. -/
theorem mem_javaImports_of_line {content : List Char} {s : JavaStatement} (h : s.IsClosed)
    (hline : s.text ∈ splitAt '\n' content) : s.imported ∈ javaImports content := by
  obtain ⟨front, back, rfl, hfront, hback⟩ := exists_of_mem_splitAt hline
  have hline := sep_notMem_of_mem_splitAt hline
  rw [List.append_assoc]
  have hplace : (Cursor.start (front ++ (s.text ++ back))).advance front.length =
      ⟨front.getLast?, front.length, s.text ++ back⟩ := by
    rw [Cursor.advance_start (by simp), List.take_left, List.drop_left]
  have htakes : javaImport.regex.takesSome = true := by
    rw [javaImport_regex]
    rfl
  -- the place where the line begins is covered by some match
  obtain ⟨m, hm, j, hj, hmatch, hcover⟩ := Pattern.exists_covering_findAll htakes
    (s := front ++ (s.text ++ back)) (k := front.length) (by simp)
    (by rw [hplace]; exact isSome_matchAt?_of_statement s hfront hback (by simp))
  rw [Cursor.advance_start (by simp; omega)] at hmatch
  obtain ⟨s', y, hrest, hy, hstop, hread⟩ := exists_statement_of_matchAt? hmatch rfl
  rw [List.drop_append_of_le_length hj] at hrest
  -- it ends at the end of a line, so it holds the whole line, and the word in it
  have hword : s.target ++ [';'] ∈ words s'.text := by
    rw [← List.append_assoc] at hrest
    rcases List.append_eq_append_iff.mp hrest with ⟨more, htext, hmore⟩ | ⟨missing, htext, hmissing⟩
    · rw [htext, List.append_assoc]
      refine JavaStatement.mem_words h fun c hc => hback c ?_
      rw [hmore, List.head?_append, Option.mem_def.mp hc]
      rfl
    · cases missing with
      | nil =>
        rw [List.append_nil] at htext
        rw [← htext, ← List.append_nil s.text]
        exact JavaStatement.mem_words h nofun
      | cons c missing =>
        -- a match that ends within the line would end before a line feed in it
        obtain rfl : c = '\n' := hy c (by rw [hmissing]; rfl)
        rcases List.append_eq_append_iff.mp htext with ⟨_, -, htext⟩ | ⟨_, hfront, -⟩
        · exact absurd (htext ▸ List.mem_append_right _ List.mem_cons_self) hline
        · have hlength := congrArg List.length hfront
          simp only [List.length_drop, List.length_append] at hlength
          omega
  rcases s'.words_text _ hword (by simp) with hmark | htarget
  · exact absurd hmark (by simp [s.target_ne_nil])
  · rw [javaImports, JavaStatement.eq_of_target_eq (List.append_cancel_right htarget), ← hread]
    exact List.mem_append_left _ (List.mem_map_of_mem hm)

/-! ## What the imports keep -/

/-- The mark of a member of a class. -/
def staticMark (static : Bool) : List Char := if static then "static ".toList else []

/-- The mark of all that a package holds. -/
def starMark (wildcard : Bool) : List Char := if wildcard then ".*".toList else []

/-- An import as it is written: `import a.b.C;`, `import static a.b.C.m;` or `import a.b.*;`. -/
def javaLine (static : Bool) (name : List Char) (wildcard : Bool) : List Char :=
  importWord ++ [' '] ++ staticMark static ++ name ++ starMark wildcard ++ [';']

/-- The import on a line of its own. -/
def javaStatement (lead trail name : List Char) (static wildcard : Bool)
    (hlead : ∀ c ∈ lead, isBlank c = true) (htrail : ∀ c ∈ trail, isBlank c = true)
    (hname : IsDotted name) : JavaStatement where
  lead := lead
  gap := [' ']
  modifier := staticMark static
  name := name
  star := starMark wildcard
  space := []
  mark := [';']
  trail := trail
  lead_blank := hlead
  gap_blank := ⟨by decide, List.all_eq_true.mp (by decide)⟩
  modifier_static := by
    cases static with
    | false => exact .inl rfl
    | true => exact .inr ⟨[' '], by decide, by decide, List.all_eq_true.mp (by decide)⟩
  name_dotted := hname
  star_wildcard := by
    cases wildcard with
    | false => exact .inl rfl
    | true => exact .inr rfl
  space_blank := nofun
  mark_semicolon := .inr rfl
  trail_blank := htrail

theorem text_javaStatement {lead trail name : List Char} {static wildcard : Bool}
    (hlead : ∀ c ∈ lead, isBlank c = true) (htrail : ∀ c ∈ trail, isBlank c = true)
    (hname : IsDotted name) :
    (javaStatement lead trail name static wildcard hlead htrail hname).text =
      lead ++ javaLine static name wildcard ++ trail := by
  simp only [javaLine, JavaStatement.text, javaStatement, List.append_assoc, List.nil_append]

theorem mem_javaImports {content line name : List Char} {static wildcard : Bool}
    (hline : line ∈ splitAt '\n' content) (htrim : trim line = javaLine static name wildcard)
    (hname : IsDotted name) : ⟨dotsToSlashes name, wildcard⟩ ∈ javaImports content := by
  obtain ⟨lead, trail, hends, hlead, htrail⟩ := exists_of_trim line
  rw [htrim, ← text_javaStatement hlead htrail hname] at hends
  have himported : (javaStatement lead trail name static wildcard hlead htrail hname).imported =
      ⟨dotsToSlashes name, wildcard⟩ := by
    cases wildcard with
    | false => rfl
    | true => rfl
  rw [← himported]
  exact mem_javaImports_of_line ⟨rfl, rfl⟩ (hends ▸ hline)

/-- **Every import line is honoured.** Whatever stands on the other lines of a file, a line that
imports a name keeps the files whose path ends in that name, and a line that imports all of a
package keeps those whose directory does. -/
theorem java_keeps_imported {ctx : Context} {hits : List Hit} {h : Hit} {line name : List Char}
    {static wildcard : Bool} (hline : line ∈ splitAt '\n' ctx.content)
    (htrim : trim line = javaLine static name wildcard) (hname : IsDotted name) (hmem : h ∈ hits)
    (hends : EndsIn (if wildcard then dirname h.file.toList else stripExtension h.file.toList)
      (dotsToSlashes name)) : h ∈ java.keep ctx hits := by
  have hne : dotsToSlashes name ≠ [] := by simp [dotsToSlashes, hname.ne_nil]
  have hfits : JavaImport.fits ⟨dotsToSlashes name, wildcard⟩ h.file.toList = true := by
    have hsegments := endsWithSegments_iff.mpr ⟨hne, hends⟩
    cases wildcard with
    | false => exact Bool.or_eq_true_iff.mpr (.inl hsegments)
    | true => exact hsegments
  refine Rule.mem_keep_iff.mpr ⟨hmem, Bool.or_eq_true_iff.mpr (.inr ?_)⟩
  exact List.any_eq_true.mpr ⟨_, mem_javaImports hline htrim hname, hfits⟩

/-- A file with an unfinished import in front of the others, and a comment between them. -/
def javaFile : Context where
  path := "app/Main.java".toList
  content := "package app;\n\nimport\nimport a.b.C;\n// import a.b.D;\n  import a.c.*;\r\n".toList

theorem java_keeps_imported_of_file :
    hitIn "src/a/b/C.java" ∈ java.keep javaFile [hitIn "src/x/C.java", hitIn "src/a/b/C.java"] ∧
      hitIn "a/c/E.java" ∈ java.keep javaFile [hitIn "a/c/E.java", hitIn "a/b/E.java"] := by
  constructor
  · exact @java_keeps_imported javaFile _ _ "import a.b.C;".toList "a.b.C".toList false false
      (by decide +kernel) (by decide +kernel) ⟨by decide, List.all_eq_true.mp (by decide +kernel)⟩
      (by decide) (by decide +kernel)
  · exact @java_keeps_imported javaFile _ _ "  import a.c.*;\r".toList "a.c".toList false true
      (by decide +kernel) (by decide +kernel) ⟨by decide, List.all_eq_true.mp (by decide +kernel)⟩
      (by decide) (by decide +kernel)

end Imports

end CodeNav

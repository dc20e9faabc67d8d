import CodeNav.Proofs.Docstring.Cut
import CodeNav.Proofs.Language.Builtin
import CodeNav.Proofs.Pattern.Taken

/-!
# Comments with slashes

What the patterns of the C style find in lines that are written in that style. A `//` behind the
indentation is a comment with the rest of the line as its body, but for one blank
(`leadingBody?_comment`), and nothing else behind the indentation is one (`leadingBody?_eq_none`).
A `/**` opens a block and a `*/` closes it where they stand alone, and the ` * ` in front of a
line is not part of the body (`bare_decorated`).

All of this is read off four expressions; that these are what the built-in style is read as is
checked once (`exists_isSlashes`). No built-in language passes over lines that begin with a slash
or a star (`lead_of_ignored`).
-/

namespace CodeNav.Slashes

open Text Regex

/-! ## The style -/

/-- Any number of blanks. -/
def blanks : Regex := .rounds 0 none true (.set .blank)

/-- An optional character of a set. -/
def maybe (s : CharSet) : Regex := .rounds 0 (some 1) true (.set s)

/-- The expression of a line that is a comment. -/
def comment : Regex :=
  .seq blanks <| .seq (.set (.only '/')) <| .seq (.set (.only '/')) <| .seq (maybe (.only '/')) <|
    .seq (maybe (.only '!')) <| .seq (maybe .blank) <|
      .group 1 (.rounds 0 none true (.set (.compl (.only '\n'))))

/-- The expression that opens a block. -/
def opening : Regex := .seq (.set (.only '/')) <| .seq (.set (.only '*')) <| maybe (.only '*')

/-- The expression that closes a block. -/
def closing : Regex := .seq (.set (.only '*')) (.set (.only '/'))

/-- The expression of the decoration in front of the lines of a block. -/
def decoration : Regex := .seq blanks <| .seq (.set (.only '*')) (maybe .blank)

/-- The two parts of the C style. -/
structure IsSlashes (line : LineStyle) (block : BlockStyle) : Prop where
  leading : line.leading.regex = .seq (.look .startOfText) comment
  opening : block.opening.regex = opening
  closing : block.closing.regex = closing
  noise : ∃ noise, block.noise = some noise ∧ noise.regex = .seq (.look .startOfText) decoration

/-- Whether a style is read as the C style. -/
def isSlashes (style : CommentStyle) : Bool :=
  style.placement = .above && style.line.any fun line => style.block.any fun block =>
    block.noise.any fun noise => line.leading.regex = .seq (.look .startOfText) comment &&
      block.opening.regex = opening && block.closing.regex = closing &&
        noise.regex = .seq (.look .startOfText) decoration

theorem slashes_read : Builtin.slashes.read?.any fun style => style.any isSlashes := by
  decide +kernel

/-- A language whose first style is the C style. -/
theorem exists_isSlashes {p : Profile} (h : Builtin.slashes.read? = some p.comments.head?) :
    ∃ line block later, p.comments = ⟨some line, some block, .above⟩ :: later ∧
      IsSlashes line block := by
  have hread := slashes_read
  rw [h, Option.any_some] at hread
  cases hcomments : p.comments with
  | nil =>
    rw [hcomments] at hread
    cases hread
  | cons style later =>
    obtain ⟨line?, block?, placement⟩ := style
    rw [hcomments, List.head?_cons, Option.any_some] at hread
    simp only [isSlashes, Bool.and_eq_true, Option.any_eq_true, decide_eq_true_eq] at hread
    obtain ⟨rfl, line, rfl, block, rfl, noise, hnoise, ⟨⟨hleading, hopening⟩, hclosing⟩, hdeco⟩ :=
      hread
    exact ⟨line, block, later, rfl, hleading, hopening, hclosing, noise, hnoise, hdeco⟩

/-! ## What is found in a line -/

theorem blank_space {indent : List Char} (hindent : ∀ c ∈ indent, isBlank c = true) :
    ∀ c ∈ indent ++ [' '], isBlank c = true := by
  intro c hc
  rcases List.mem_append.mp hc with hc | hc
  · exact hindent c hc
  · rw [List.mem_singleton.mp hc]
    decide

/-- The blanks in front of a line are taken up to its text. -/
theorem takes_indent {indent : List Char} (hindent : ∀ c ∈ indent, isBlank c = true) {c : Char}
    (hc : isBlank c = false) {rest : List Char} {fuel : Nat} (hfuel : indent.length ≤ fuel) :
    Takes fuel blanks indent (c :: rest) noSpans := by
  refine Takes.run hindent ?_ hfuel
  rintro d ⟨⟩
  exact hc

/-- The expression of a comment takes all of a line, and its group the body. -/
theorem takes_comment {indent l : List Char} (hindent : ∀ c ∈ indent, isBlank c = true)
    (hl : '\n' ∉ l) {fuel : Nat} (hfuel : indent.length + l.length ≤ fuel) :
    ∃ spans, Takes fuel comment (indent ++ "// ".toList ++ l) [] spans ∧
      spans 0 = [(1, indent.length + 3, indent.length + 3 + l.length)] := by
  have hbody : ∀ c ∈ l, (CharSet.compl (.only '\n')).mem c = true := by
    intro c hc
    have hne : c ≠ '\n' := fun heq => hl (heq ▸ hc)
    simpa [CharSet.mem] using hne
  have hskip : ∀ {s : CharSet} {y}, s.mem ' ' = false →
      Takes fuel (maybe s) [] (' ' :: y) noSpans := by
    intro s y hs
    refine Takes.skip ?_
    rintro c ⟨⟩
    exact hs
  have hline : indent ++ "// ".toList ++ l =
      indent ++ (['/'] ++ (['/'] ++ ([] ++ ([] ++ ([' '] ++ l))))) := by simp
  rw [hline]
  refine ⟨_, Takes.seq (takes_indent hindent ?_ ?_) (Takes.seq (Takes.set ?_)
    (Takes.seq (Takes.set ?_) (Takes.seq (hskip ?_) (Takes.seq (hskip ?_)
    (Takes.seq (Takes.optional (Takes.set ?_)) (Takes.group 1 (Takes.run hbody ?_ ?_))))))), ?_⟩
  · decide
  · omega
  · decide
  · decide
  · decide
  · decide
  · decide
  · intro c hc
    cases hc
  · omega
  · simp [noSpans, Nat.add_assoc]

section Line

variable {line : LineStyle} {block : BlockStyle} (h : IsSlashes line block)
  {indent : List Char} (hindent : ∀ c ∈ indent, isBlank c = true)

include h

/-- Without two slashes behind the indentation, a line is no comment. -/
theorem leadingBody?_eq_none {s : List Char} (hs : ¬ "//".toList <+: trimStart s) :
    line.leadingBody? s = none := by
  have hled : line.leading.regex.led = "//".toList := by rw [h.leading]; rfl
  rw [LineStyle.leadingBody?, LineStyle.bodyBy?, Option.map_eq_none_iff]
  refine Option.not_isSome_iff_eq_none.mp fun hmatch => hs ?_
  rw [← hled]
  refine Pattern.led_of_isMatch ?_ hmatch
  rw [hled]
  rintro c ⟨⟩
  decide

/-- A line without the two characters that open a block opens none. -/
theorem opening_find?_eq_none {s : List Char} (hs : ¬ "/*".toList <:+: s) :
    block.opening.find? s = none := by
  have hspelled : block.opening.regex.spelled = "/*".toList := by rw [h.opening]; rfl
  refine Option.eq_none_iff_forall_ne_some.mpr fun m hm => hs ?_
  rw [← hspelled]
  exact Pattern.infix_of_find? hm

/-- Without a star behind the blanks in front, there is no decoration to remove. -/
theorem bare_eq_self {s : List Char} (hs : ¬ "*".toList <+: trimStart s) : block.bare s = s := by
  obtain ⟨noise, hnoise, hregex⟩ := h.noise
  have hled : noise.regex.led = "*".toList := by rw [hregex]; rfl
  have hfind : noise.find? s = none := by
    refine Option.not_isSome_iff_eq_none.mp fun hmatch => hs ?_
    rw [← hled]
    refine Pattern.led_of_isMatch ?_ hmatch
    rw [hled]
    rintro c ⟨⟩
    decide
  simp only [BlockStyle.bare, hnoise, Pattern.dropFirst, hfind]

theorem bare_blank {s : List Char} (hs : ∀ c ∈ s, isBlank c = true) : block.bare s = s := by
  refine bare_eq_self h ?_
  rw [trimStart, List.dropWhile_eq_nil_iff.mpr hs]
  decide

include hindent

/-- **Behind two slashes and a blank stands the body of the comment.** -/
theorem leadingBody?_comment {l : List Char} (hl : '\n' ∉ l) :
    line.leadingBody? (indent ++ "// ".toList ++ l) = some l := by
  have hfuel : indent.length + l.length ≤ (indent ++ "// ".toList ++ l ++ []).length := by
    simp only [List.length_append]
    omega
  obtain ⟨spans, htakes, hspans⟩ := takes_comment hindent hl hfuel
  have hfind := Pattern.find?_of_takes h.leading htakes
  rw [List.append_nil] at hfind
  have hslice : slice (indent ++ "// ".toList ++ l) (indent.length + 3)
      (indent.length + 3 + l.length) = l := by
    have hfront : indent.length + 3 = (indent ++ "// ".toList).length := by simp
    rw [slice, Nat.add_sub_cancel_left, hfront, List.drop_left, List.take_length]
  have hgroup : Found.group? ⟨0, (indent ++ "// ".toList ++ l).length, spans 0⟩ 1 =
      some (indent.length + 3, indent.length + 3 + l.length) := by
    rw [Found.group?, hspans]
    simp
  rw [LineStyle.leadingBody?, LineStyle.bodyBy?, hfind, Option.map_some, Pattern.text?, hgroup]
  exact congrArg some hslice

/-- A slash and two stars open a block behind them. -/
theorem opening_find?_opened : block.opening.find? (indent ++ "/**".toList) =
    some ⟨indent.length, indent.length + 3, []⟩ := by
  have htakes : Takes (indent ++ "/**".toList ++ []).length block.opening.regex "/**".toList []
      (fun pos => noSpans (pos + 1 + 1) ++ noSpans (pos + 1) ++ noSpans pos) := by
    rw [h.opening]
    exact Takes.seq (Takes.set (by decide)) (Takes.seq (Takes.set (by decide))
      (Takes.optional (Takes.set (by decide))))
  have hspelled : block.opening.regex.spelled.head? = some '/' := by rw [h.opening]; rfl
  have hfront : '/' ∉ indent := fun hmem => absurd (hindent _ hmem) (by decide)
  have hfind := Pattern.find?_behind hspelled hfront htakes
  rwa [List.append_nil] at hfind

/-- The last line closes its block in front of the star. -/
theorem closing_findAll_getLast? : ∃ m,
    (block.closing.findAll (indent ++ " */".toList)).getLast? = some m ∧
      m.start = indent.length + 1 := by
  have hline : indent ++ " */".toList = (indent ++ [' ']) ++ '*' :: ['/'] := by simp
  have hspelled : block.closing.regex.spelled.head? = some '*' := by rw [h.closing]; rfl
  have hfront : '*' ∉ indent ++ [' '] :=
    fun hmem => absurd (blank_space hindent _ hmem) (by decide)
  have htakes : Takes ((indent ++ [' ']) ++ "*/".toList ++ []).length block.closing.regex
      "*/".toList [] (fun pos => noSpans (pos + 1) ++ noSpans pos) := by
    rw [h.closing]
    exact Takes.seq (Takes.set (by decide)) (Takes.set (by decide))
  have hfind := Pattern.mem_findAll_of_find? (Pattern.find?_behind hspelled hfront htakes)
  rw [List.append_nil] at hfind
  obtain ⟨m, hm⟩ : ∃ m, (block.closing.findAll (indent ++ " */".toList)).getLast? = some m := by
    rw [hline]
    exact Option.isSome_iff_exists.mp (List.getLast?_isSome.mpr (List.ne_nil_of_mem hfind))
  refine ⟨m, hm, ?_⟩
  rw [hline] at hm
  have hstart := Pattern.start_of_mem_findAll hspelled hfront (by decide) (List.mem_of_getLast? hm)
  rw [hstart, List.length_append, List.length_singleton]

/-- **Behind the star and a blank stands a line of the block.** -/
theorem bare_decorated (l : List Char) : block.bare (indent ++ " * ".toList ++ l) = l := by
  obtain ⟨noise, hnoise, hregex⟩ := h.noise
  have htakes : ∃ spans, Takes (indent ++ [' '] ++ (['*'] ++ [' ']) ++ l).length decoration
      (indent ++ [' '] ++ (['*'] ++ [' '])) l spans :=
    ⟨_, Takes.seq (takes_indent (blank_space hindent) (by decide) (by simp))
      (Takes.seq (Takes.set (by decide)) (Takes.optional (Takes.set (by decide))))⟩
  obtain ⟨spans, htakes⟩ := htakes
  have hfind := Pattern.find?_of_takes hregex htakes
  have hline : indent ++ " * ".toList ++ l = indent ++ [' '] ++ (['*'] ++ [' ']) ++ l := by simp
  rw [hline]
  simp only [BlockStyle.bare, hnoise, Pattern.dropFirst, hfind, List.take_zero, List.nil_append,
    List.drop_left]

end Line

/-! ## Lines that are passed over -/

theorem ignores_read : ∀ i ∈ (Builtin.texts.map (·.ignore)).eraseDups,
    (readOptional Pattern.parse? i).all fun ignore => ignore.all fun ignore =>
      ignore.regex.led.head?.any fun c => !isBlank c && c ≠ '/' && c ≠ '*' := by
  decide +kernel

/-- **A line that a built-in language passes over begins with neither a slash nor a star.** -/
theorem lead_of_ignored {p : Profile} (hp : p ∈ Builtin.profiles) {s : List Char}
    (hs : p.ignore.any (·.isMatch s) = true) :
    ∃ c, (trimStart s).head? = some c ∧ c ≠ '/' ∧ c ≠ '*' := by
  obtain ⟨ignore, hignore, hmatch⟩ := (Option.any_eq_true _ _).mp hs
  obtain ⟨t, ht, htext⟩ := Builtin.ignore_of_mem_profiles hp
  have hread := ignores_read t.ignore (List.mem_eraseDups.mpr (List.mem_map_of_mem ht))
  rw [htext, hignore, Option.all_some, Option.all_some, Option.any_eq_true] at hread
  obtain ⟨c, hc, hread⟩ := hread
  simp only [Bool.and_eq_true, Bool.not_eq_true', decide_eq_true_eq] at hread
  obtain ⟨⟨hblank, hslash⟩, hstar⟩ := hread
  have hled : ∀ d ∈ ignore.regex.led.head?, isBlank d = false := by
    intro d hd
    obtain rfl := Option.mem_unique hd hc
    exact hblank
  obtain ⟨rest, hrest⟩ := Pattern.led_of_isMatch hled hmatch
  refine ⟨c, ?_, hslash, hstar⟩
  rw [← hrest, List.head?_append, hc]
  rfl

end CodeNav.Slashes

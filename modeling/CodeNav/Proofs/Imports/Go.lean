import CodeNav.Proofs.Imports.Paths
import CodeNav.Proofs.Pattern.Taken

/-!
# The import block of a Go file

A block is read up to the first closing parenthesis, wherever that stands, and its entries line by
line. So **the entries in front of the first closing parenthesis are read**, in their order, and no
others (`map_findAll_block`): a parenthesis in a comment or in a path ends the block for the reader.

* An entry is read at the beginning of its line (`GoEntry.matchAt?`), and behind its path nothing
  is read until the next line begins (`matchAt?_within`).
* The block of a declaration is found if the blocks that are opened in front of it are closed there
  (`exists_block`): a match that begins earlier ends before the declaration does begin, since the
  words that open a block do not overlap (`opening_within`).
* What is read is honoured, and where the file imports nothing else, nothing else is
  (`go_keeps_readable`). `go_entry_lost` is a file with a comment that costs the next import.
-/

namespace CodeNav

namespace Imports

open Text Regex

/-! ## The text of a block -/

/-- An entry of a block, on a line of its own. -/
structure GoEntry where
  lead : List Char
  /-- the local name with the blanks behind it, if there is one -/
  name : List Char
  path : List Char
  /-- what stands behind the path, such as a comment -/
  tail : List Char
  lead_blank : ∀ c ∈ lead, isBlank c = true
  name_dotted : name = [] ∨
    ∃ a g, name = a ++ g ∧ IsDotted a ∧ g ≠ [] ∧ ∀ c ∈ g, isBlank c = true
  path_ne_nil : path ≠ []
  path_unquoted : '"' ∉ path
  tail_line : '\n' ∉ tail

namespace GoEntry

/-- The entry up to its closing quote. -/
def quoted (e : GoEntry) : List Char := e.lead ++ (e.name ++ '"' :: (e.path ++ ['"']))

/-- The line of the entry. -/
def line (e : GoEntry) : List Char := e.quoted ++ e.tail ++ ['\n']

/-- The entries whose closing quote stands in front of the first closing parenthesis. -/
def readable : List GoEntry → List GoEntry
  | [] => []
  | e :: es =>
    if ')' ∈ e.quoted then [] else if ')' ∈ e.tail then [e] else e :: readable es

/-- Where no entry holds a parenthesis, all are readable. -/
theorem readable_eq_self {es : List GoEntry} (h : ∀ e ∈ es, ')' ∉ e.line) : readable es = es := by
  induction es with
  | nil => rfl
  | cons e es ih =>
    obtain ⟨he, hes⟩ := List.forall_mem_cons.mp h
    simp only [line, List.append_assoc, List.mem_append, not_or] at he
    rw [readable, if_neg he.1, if_neg he.2.1, ih hes]

end GoEntry

/-- The text up to the first `c`. -/
def upTo (c : Char) (s : List Char) : List Char := s.takeWhile (· ≠ c)

section UpTo

variable {c : Char} {a b : List Char}

theorem upTo_append (h : c ∉ a) (b : List Char) : upTo c (a ++ b) = a ++ upTo c b := by
  refine List.takeWhile_append_of_pos fun d hd => ?_
  rw [decide_eq_true_eq]
  rintro rfl
  exact h hd

theorem upTo_append_cons (h : c ∉ a) (b : List Char) : upTo c (a ++ c :: b) = a := by
  rw [upTo_append h]
  simp [upTo]

theorem upTo_append_of_mem (h : c ∈ a) (b : List Char) : upTo c (a ++ b) = upTo c a := by
  obtain ⟨x, y, rfl, hx⟩ := List.eq_append_cons_of_mem h
  rw [List.append_assoc, List.cons_append, upTo_append_cons hx, upTo_append_cons hx]

/-- Behind a `c` nothing counts. -/
theorem upTo_append_cons_self (a b : List Char) : upTo c (a ++ c :: b) = upTo c a := by
  by_cases h : c ∈ a
  · exact upTo_append_of_mem h _
  · rw [upTo_append_cons h, ← List.append_nil a, upTo_append h, List.append_nil]
    exact (List.append_nil a).symm

theorem notMem_upTo (c : Char) (s : List Char) : c ∉ upTo c s := fun h => by
  simpa using List.mem_takeWhile_imp h

/-- A text that holds `c` goes on with it. -/
theorem exists_upTo (h : c ∈ a) : ∃ b, a = upTo c a ++ c :: b := by
  obtain ⟨x, y, rfl, hx⟩ := List.eq_append_cons_of_mem h
  exact ⟨y, by rw [upTo_append_cons hx]⟩

/-- What stands in front of the first `c`, and what stands behind it. -/
theorem eq_of_append_cons {u v : List Char} (ha : c ∉ a) (hb : c ∉ b)
    (h : a ++ c :: u = b ++ c :: v) : a = b ∧ u = v := by
  have hsame := congrArg (upTo c) h
  rw [upTo_append_cons ha, upTo_append_cons hb] at hsame
  subst hsame
  exact ⟨rfl, List.tail_eq_of_cons_eq (List.append_cancel_left h)⟩

end UpTo

/-! ## The entries that are read -/

/-- The characters of a path. -/
abbrev unquoted : CharSet := .compl (.union .empty (.only '"'))

theorem goEntry_regex : goEntry.regex = seqs (.look .startOfLine :: blanks 0 ::
    .rounds 0 (some 1) true (seqs [.rounds 1 none true (.set dotted), blanks 1]) ::
    (letters ['"'] ++ .group 1 (.rounds 1 none true (.set unquoted)) ::
      (letters ['"'] ++ []))) := by
  decide +kernel

theorem takesSome_goEntry : goEntry.regex.takesSome = true := by
  rw [goEntry_regex]
  rfl

theorem reads_unquoted : Reads (.rounds 1 none true (.set unquoted)) fun x => x ≠ [] ∧ '"' ∉ x := by
  refine (reads_run 1 true unquoted).congr fun x => ?_
  have hmem : (∀ c ∈ x, unquoted.mem c = true) ↔ '"' ∉ x := by
    constructor
    · exact fun h hquote => absurd (h _ hquote) (by decide)
    · intro h c hc
      have hne : c ≠ '"' := by
        rintro rfl
        exact h hc
      simp [CharSet.mem, hne]
  rw [hmem, Nat.succ_le_iff, List.length_pos_iff]

theorem reads_label :
    Reads (seqs [.rounds 1 none true (.set dotted), blanks 1]) fun x =>
      ∃ a g, x = a ++ g ∧ IsDotted a ∧ g ≠ [] ∧ ∀ c ∈ g, isBlank c = true :=
  @Reads.seqs _ [blanks 1] _ _ (reads_dotted true) reads_gap

/-- No quote stands in front of a path. -/
theorem quote_notMem {lead name : List Char} (hlead : ∀ c ∈ lead, isBlank c = true)
    (hname : name = [] ∨ ∃ a g, name = a ++ g ∧ IsDotted a ∧ g ≠ [] ∧ ∀ c ∈ g, isBlank c = true) :
    '"' ∉ lead ++ name := by
  rw [List.mem_append, not_or]
  refine ⟨fun h => absurd (hlead _ h) (by decide), ?_⟩
  rcases hname with rfl | ⟨a, g, rfl, ha, -, hg⟩
  · exact List.not_mem_nil
  · rw [List.mem_append, not_or]
    exact ⟨fun h => absurd (ha.dotted _ h) (by decide +kernel),
      fun h => absurd (hg _ h) (by decide)⟩

/-- **A match is a path between the first two quotes.** -/
theorem path_of_matchAt? {block rest : List Char} {before : Option Char} {pos fuel : Nat}
    {m : Found} (h : goEntry.matchAt? fuel ⟨before, pos, rest⟩ = some m)
    (hdrop : block.drop pos = rest) :
    ∃ front path y, rest = front ++ '"' :: (path ++ '"' :: y) ∧ '"' ∉ front ∧ '"' ∉ path ∧
      m.stop = pos + (front.length + path.length + 2) ∧ groupText block m 1 = path := by
  obtain ⟨there, caps, hpasses, rfl⟩ := Pattern.exists_passes_of_matchAt? h
  simp only [goEntry_regex, passes_look, reads_blanks.passes, (reads_label.optional _).passes,
    passes_letters, reads_unquoted.passes_group] at hpasses
  obtain ⟨-, lead, _, rfl, hlead, name, _, rfl, hname, _, rfl, path, _, rfl, hpath, y, rfl, rfl,
    rfl⟩ := hpasses
  refine ⟨lead ++ name, path, y, by simp, quote_notMem hlead hname, hpath.2, ?_, ?_⟩
  · simp only [List.length_append, List.length_singleton]
    omega
  · have hbehind : block.drop pos = (lead ++ (name ++ ['"'])) ++ (path ++ ('"' :: y)) := by
      simpa using hdrop
    have hplace : pos + (lead ++ (name ++ ['"'])).length =
        pos + lead.length + name.length + ['"'].length := by
      simp only [List.length_append]
      omega
    have hslice := slice_of_drop hbehind
    rw [hplace] at hslice
    simpa [groupText, Pattern.text?, Found.group?] using hslice

/-- Two quotes are needed for a match. -/
theorem matchAt?_eq_none_of_count {fuel : Nat} {here : Cursor} (h : here.rest.count '"' ≤ 1) :
    goEntry.matchAt? fuel here = none := by
  obtain ⟨before, pos, rest⟩ := here
  refine Option.eq_none_iff_forall_ne_some.mpr fun m hm => ?_
  obtain ⟨front, path, y, rfl, -⟩ :=
    @path_of_matchAt? (List.replicate pos ' ' ++ rest) rest before pos fuel m hm (by simp)
  simp only [List.count_append, List.count_cons_self] at h
  omega

/-- Behind a line feed only a match begins. -/
theorem matchAt?_eq_none_of_ne {fuel pos : Nat} {c : Char} {rest : List Char} (hc : c ≠ '\n') :
    goEntry.matchAt? fuel ⟨some c, pos, rest⟩ = none := by
  refine Pattern.matchAt?_eq_none_of_look goEntry_regex (Bool.eq_false_iff.mpr fun h => hc ?_)
  exact Look.startOfLine_holds_iff.mp h c rfl

theorem GoEntry.isSome_matchAt? (e : GoEntry) {before : Option Char} {pos fuel : Nat}
    {y : List Char} (hbefore : ∀ c ∈ before, c = '\n') (hfuel : (e.quoted ++ y).length ≤ fuel) :
    (goEntry.matchAt? fuel ⟨before, pos, e.quoted ++ y⟩).isSome := by
  have hadvances : goEntry.regex.advances = true := by
    rw [goEntry_regex]
    rfl
  have hpasses : ∃ there caps, goEntry.regex.Passes ⟨before, pos, e.quoted ++ y⟩ [] there caps := by
    simp only [goEntry_regex, passes_look, reads_blanks.passes, (reads_label.optional _).passes,
      passes_letters, reads_unquoted.passes_group, Look.startOfLine_holds_iff, GoEntry.quoted,
      List.append_assoc]
    exact ⟨_, _, hbefore, e.lead, _, rfl, e.lead_blank, e.name, _, rfl, e.name_dotted, _, rfl,
      e.path, _, by simp, ⟨e.path_ne_nil, e.path_unquoted⟩, y, rfl, rfl, rfl⟩
  obtain ⟨there, caps, hpasses⟩ := hpasses
  exact Pattern.isSome_matchAt? hadvances hfuel hpasses

/-- **At the beginning of its line an entry is read.** -/
theorem GoEntry.matchAt? (e : GoEntry) {block y : List Char} {before : Option Char}
    {pos fuel : Nat} (hbefore : ∀ c ∈ before, c = '\n') (hdrop : block.drop pos = e.quoted ++ y)
    (hfuel : block.length ≤ fuel) :
    ∃ m, goEntry.matchAt? fuel ⟨before, pos, block.drop pos⟩ = some m ∧
      m.stop = pos + e.quoted.length ∧ groupText block m 1 = e.path := by
  have hlength : (e.quoted ++ y).length ≤ fuel := by
    rw [← hdrop, List.length_drop]
    omega
  have hsome : (goEntry.matchAt? fuel ⟨before, pos, e.quoted ++ y⟩).isSome :=
    e.isSome_matchAt? hbefore hlength
  obtain ⟨m, hm⟩ := Option.isSome_iff_exists.mp hsome
  obtain ⟨front, path, z, hrest, hfront, hpath, hstop, hread⟩ := path_of_matchAt? hm hdrop
  have hquoted : e.quoted ++ y = (e.lead ++ e.name) ++ '"' :: (e.path ++ '"' :: y) := by
    simp [GoEntry.quoted]
  rw [hquoted] at hrest
  obtain ⟨rfl, hbehind⟩ := eq_of_append_cons (quote_notMem e.lead_blank e.name_dotted) hfront hrest
  obtain ⟨rfl, rfl⟩ := eq_of_append_cons e.path_unquoted hpath hbehind
  refine ⟨m, hdrop ▸ hm, ?_, hread⟩
  rw [hstop, GoEntry.quoted]
  simp only [List.length_append, List.length_cons, List.length_nil]
  omega

/-- Within a line, behind a character of it, no match begins. -/
theorem matchAt?_within {w z : List Char} (hw : '\n' ∉ w) {fuel pos : Nat} {c : Char}
    (hc : c ≠ '\n') {j : Nat} (hj : j ≤ w.length) :
    goEntry.matchAt? fuel ((⟨some c, pos, w ++ z⟩ : Cursor).advance j) = none := by
  rw [Cursor.advance_eq (by simp; omega), List.take_append_of_le_length hj]
  cases hlast : (w.take j).getLast? with
  | none => exact matchAt?_eq_none_of_ne hc
  | some d =>
    refine matchAt?_eq_none_of_ne ?_
    rintro rfl
    exact hw (List.take_subset j w (List.mem_of_getLast? hlast))

/-- Without two quotes nothing is read. -/
theorem findAllFrom_eq_nil_of_count {fuel : Nat} {here : Cursor} (h : here.rest.count '"' ≤ 1)
    (lastStop : Option Nat) (steps : Nat) : goEntry.findAllFrom fuel lastStop steps here = [] := by
  refine Pattern.findAllFrom_eq_nil (fun j => ?_) _ _
  obtain ⟨k, hk, hplace⟩ := here.exists_advance j
  rw [hplace]
  refine matchAt?_eq_none_of_count (Nat.le_trans ?_ h)
  rw [Cursor.advance_eq hk]
  exact (List.drop_sublist k _).count_le _

theorem GoEntry.count_quoted (e : GoEntry) (h : ')' ∈ e.quoted) :
    (upTo ')' e.quoted).count '"' ≤ 1 := by
  have hsplit : e.quoted = (e.lead ++ e.name ++ '"' :: e.path) ++ ['"'] := by simp [GoEntry.quoted]
  have hfront := quote_notMem e.lead_blank e.name_dotted
  have hmem : ')' ∈ e.lead ++ e.name ++ '"' :: e.path := by
    rw [hsplit, List.mem_append] at h
    exact h.resolve_right (by decide)
  rw [hsplit, upTo_append_of_mem hmem]
  refine Nat.le_trans ((List.takeWhile_sublist _).count_le _) ?_
  rw [List.count_append, List.count_cons_self, List.count_eq_zero_of_not_mem hfront,
    List.count_eq_zero_of_not_mem e.path_unquoted]

/-- Behind an entry stands its closing quote. -/
theorem GoEntry.advance_quoted (e : GoEntry) {before : Option Char} {pos : Nat} (y : List Char) :
    (⟨before, pos, e.quoted ++ y⟩ : Cursor).advance e.quoted.length =
      ⟨some '"', pos + e.quoted.length, y⟩ := by
  have hlast : e.quoted.getLast? = some '"' := by
    rw [GoEntry.quoted, ← List.append_assoc, ← List.cons_append, ← List.append_assoc,
      List.getLast?_concat]
  rw [Cursor.advance_eq (by simp), List.take_left, List.drop_left, hlast, Option.some_or]

/-- Nothing more is read on the last line. -/
theorem findAllFrom_last_line {w : List Char} (hw : '\n' ∉ w) {fuel pos : Nat} {c : Char}
    (hc : c ≠ '\n') (lastStop : Option Nat) (steps : Nat) :
    goEntry.findAllFrom fuel lastStop steps ⟨some c, pos, w⟩ = [] := by
  refine Pattern.findAllFrom_eq_nil (fun j => ?_) _ _
  obtain ⟨k, hk, hplace⟩ := Cursor.exists_advance ⟨some c, pos, w⟩ j
  have hnone : goEntry.matchAt? fuel ((⟨some c, pos, w ++ []⟩ : Cursor).advance k) = none :=
    matchAt?_within hw hc hk
  rw [List.append_nil] at hnone
  rw [hplace]
  exact hnone

/-- From within a line the search goes on to the next one. -/
theorem findAllFrom_next_line {w : List Char} (hw : '\n' ∉ w) {fuel pos : Nat} {c : Char}
    (hc : c ≠ '\n') (z : List Char) (lastStop : Option Nat) (steps : Nat) :
    goEntry.findAllFrom fuel lastStop steps ⟨some c, pos, w ++ '\n' :: z⟩ =
      goEntry.findAllFrom fuel lastStop steps ⟨some '\n', pos + (w ++ ['\n']).length, z⟩ := by
  have hline : w ++ '\n' :: z = (w ++ ['\n']) ++ z := by simp
  have hplace : (⟨some c, pos, w ++ '\n' :: z⟩ : Cursor).advance (w ++ ['\n']).length =
      ⟨some '\n', pos + (w ++ ['\n']).length, z⟩ := by
    rw [hline, Cursor.advance_eq (by simp), List.take_left, List.drop_left, List.getLast?_concat,
      Option.some_or]
  rw [← hplace]
  refine Pattern.findAllFrom_advance takesSome_goEntry (by simp) (fun j hj => ?_) _ _
  refine matchAt?_within hw hc (Nat.le_of_lt_succ ?_)
  rwa [List.length_append, List.length_singleton] at hj

/-- The path that a match is read as. -/
def goRead (block : List Char) (m : Found) : List Char := groupText block m 1

/-- Behind an entry and the end of its line begins what follows. -/
theorem GoEntry.drop_line (e : GoEntry) {block rest : List Char} {pos : Nat}
    (h : block.drop pos = e.quoted ++ (e.tail ++ '\n' :: rest)) :
    block.drop (pos + e.quoted.length + (e.tail ++ ['\n']).length) = rest := by
  have hline : e.quoted ++ (e.tail ++ '\n' :: rest) = e.quoted ++ (e.tail ++ ['\n'] ++ rest) := by
    simp
  rw [← List.drop_drop, ← List.drop_drop, h, hline, List.drop_left, List.drop_left]

/-- **From the beginning of a line on, the readable entries are read.** -/
theorem map_findAllFrom {block indent : List Char} {fuel : Nat} (hfuel : block.length ≤ fuel)
    (hindent : ∀ c ∈ indent, isBlank c = true) (es : List GoEntry) {before : Option Char}
    {pos steps : Nat} {lastStop : Option Nat} (hbefore : ∀ c ∈ before, c = '\n')
    (hdrop : block.drop pos = upTo ')' (es.flatMap GoEntry.line ++ indent))
    (hsteps : (block.drop pos).length < steps) :
    (goEntry.findAllFrom fuel lastStop steps ⟨before, pos, block.drop pos⟩).map (goRead block) =
      (GoEntry.readable es).map GoEntry.path := by
  induction es generalizing before pos steps lastStop with
  | nil =>
    have hquote : '"' ∉ block.drop pos := by
      rw [hdrop]
      exact fun h => absurd (hindent _ ((List.takeWhile_sublist _).subset h)) (by decide)
    rw [findAllFrom_eq_nil_of_count (by simp [List.count_eq_zero_of_not_mem hquote])]
    rfl
  | cons e es ih =>
    obtain ⟨steps, rfl⟩ := Nat.exists_eq_add_one_of_ne_zero (Nat.ne_zero_of_lt hsteps)
    have hlines : (e :: es).flatMap GoEntry.line ++ indent =
        e.quoted ++ (e.tail ++ '\n' :: (es.flatMap GoEntry.line ++ indent)) := by
      simp [GoEntry.line]
    rw [hlines] at hdrop
    rw [GoEntry.readable]
    by_cases hquoted : ')' ∈ e.quoted
    · -- the block ends before the entry does
      rw [upTo_append_of_mem hquoted] at hdrop
      rw [if_pos hquoted, findAllFrom_eq_nil_of_count]
      · rfl
      · rw [hdrop]
        exact e.count_quoted hquoted
    rw [if_neg hquoted]
    rw [upTo_append hquoted] at hdrop
    obtain ⟨m, hm, hstop, hread⟩ := e.matchAt? hbefore hdrop hfuel
    have hplace : (⟨before, pos, block.drop pos⟩ : Cursor).advance (m.stop - pos) =
        ⟨some '"', pos + e.quoted.length,
          upTo ')' (e.tail ++ '\n' :: (es.flatMap GoEntry.line ++ indent))⟩ := by
      rw [hstop, Nat.add_sub_cancel_left, hdrop, e.advance_quoted]
    rw [Pattern.findAllFrom_cons takesSome_goEntry hm, hplace, List.map_cons, goRead, hread]
    by_cases htail : ')' ∈ e.tail
    · -- the block ends on the line of the entry
      have hline : '\n' ∉ upTo ')' e.tail :=
        fun h => e.tail_line ((List.takeWhile_sublist _).subset h)
      rw [if_pos htail, upTo_append_of_mem htail, findAllFrom_last_line hline (by decide)]
      rfl
    · have hfeed : upTo ')' ('\n' :: (es.flatMap GoEntry.line ++ indent)) =
          '\n' :: upTo ')' (es.flatMap GoEntry.line ++ indent) := rfl
      rw [upTo_append htail, hfeed] at hdrop
      have hnext := e.drop_line hdrop
      have hshorter : (block.drop (pos + e.quoted.length + (e.tail ++ ['\n']).length)).length <
          steps := by
        rw [hdrop] at hsteps
        rw [hnext]
        simp only [List.length_append, List.length_cons] at hsteps
        omega
      rw [if_neg htail, upTo_append htail, hfeed, findAllFrom_next_line e.tail_line (by decide),
        ← hnext, ih (fun c hc => (Option.some.inj hc).symm) hnext hshorter]
      rfl

/-- **The readable entries of a block are read**, in their order. -/
theorem map_findAll_block {indent : List Char} (hindent : ∀ c ∈ indent, isBlank c = true)
    (es : List GoEntry) {block : List Char}
    (hblock : block = upTo ')' (es.flatMap GoEntry.line ++ indent)) :
    (goEntry.findAll block).map (goRead block) = (GoEntry.readable es).map GoEntry.path :=
  map_findAllFrom (Nat.le_refl _) hindent es nofun hblock (by simp; omega)

/-! ## The block that is found -/

/-- What opens a block. -/
def opening (gap : List Char) : List Char := importWord ++ (gap ++ ['('])

theorem goBlock_regex : goBlock.regex = seqs (.look (.wordBoundary false) ::
    (letters importWord ++ blanks 0 :: (letters ['('] ++
      [.group 1 (.rounds 0 none false (.set (.compl .empty))), .set (.only ')')]))) := by
  decide +kernel

theorem takesSome_goBlock : goBlock.regex.takesSome = true := by
  rw [goBlock_regex]
  rfl

section Block

variable {content gap w : List Char} {before : Option Char} {pos fuel : Nat} {m : Found}

theorem wordBoundary_holds_iff :
    (Look.wordBoundary false).holds ⟨before, pos, opening gap ++ w⟩ = true ↔
      ∀ c ∈ before, isWord c = false := by
  have hafter : (⟨before, pos, opening gap ++ w⟩ : Cursor).after = some 'i' := rfl
  have hword : isWord 'i' = true := by decide
  cases before with
  | none => simp [Look.holds, Look.wordAt, hafter, hword]
  | some c => simp [Look.holds, Look.wordAt, hafter, hword]

/-- **A block is read up to the first closing parenthesis.** -/
theorem matchAt?_goBlock (hbefore : ∀ c ∈ before, isWord c = false)
    (hgap : ∀ c ∈ gap, isBlank c = true) (hw : ')' ∈ w)
    (hdrop : content.drop pos = opening gap ++ w) (hfuel : content.length ≤ fuel) :
    ∃ m, goBlock.matchAt? fuel ⟨before, pos, content.drop pos⟩ = some m ∧
      m.stop = pos + (opening gap ++ (upTo ')' w ++ [')'])).length ∧
      groupText content m 1 = upTo ')' w := by
  obtain ⟨y, hy⟩ := exists_upTo hw
  have hrest : content.drop pos = opening gap ++ (upTo ')' w ++ [')']) ++ y := by
    rw [hdrop, List.append_assoc, List.append_assoc, List.singleton_append, ← hy]
  have hlength : (opening gap ++ (upTo ')' w ++ [')']) ++ y).length ≤ content.length := by
    rw [← hrest]
    exact (List.drop_sublist _ _).length_le
  simp only [opening, List.length_append] at hlength
  have hinner : Takes fuel (seqs [.group 1 (.rounds 0 none false (.set (.compl .empty))),
      .set (.only ')')]) (upTo ')' w ++ [')']) y fun pos => [(1, pos, pos + (upTo ')' w).length)] :=
    Takes.upTo 1 (fun _ _ => rfl) (notMem_upTo _ _) (by omega)
  have hblanks : Takes fuel (blanks 0) gap (['('] ++ (upTo ')' w ++ [')']) ++ y) noSpans :=
    Takes.run hgap (by rintro _ ⟨⟩; decide) (by omega)
  have htakes := Takes.letters importWord (Takes.cons hblanks (Takes.letters ['('] hinner))
  have hlook : (Look.wordBoundary false).holds ⟨before, pos, content.drop pos⟩ = true :=
    hdrop ▸ wordBoundary_holds_iff.mpr hbefore
  have hmatch := Pattern.matchAt?_of_look goBlock_regex hlook htakes
    (by rw [hrest, opening]; simp)
  refine ⟨_, hmatch, by simp [opening], ?_⟩
  have hslice : slice content (pos + (opening gap).length)
      (pos + (opening gap).length + (upTo ')' w).length) = upTo ')' w :=
    slice_of_drop (y := [')'] ++ y) (by rw [hrest]; simp)
  have hplace : pos + (opening gap).length = pos + importWord.length + gap.length + 1 := by
    simp only [opening, List.length_append, List.length_singleton]
    omega
  rw [hplace] at hslice
  simpa [groupText, Pattern.text?, Found.group?, noSpans] using hslice

/-- A match of a block begins where one is opened and closed. -/
theorem exists_opening (h : goBlock.matchAt? fuel ⟨before, pos, content⟩ = some m) :
    ∃ gap w, content = opening gap ++ w ∧ (∀ c ∈ gap, isBlank c = true) ∧ ')' ∈ w ∧
      ∀ c ∈ before, isWord c = false := by
  obtain ⟨there, caps, hpasses, -⟩ := Pattern.exists_passes_of_matchAt? h
  have hclose : [Regex.set (.only ')')] = letters [')'] ++ [] := rfl
  rw [goBlock_regex, passes_look, hclose] at hpasses
  simp only [passes_letters, reads_blanks.passes, (reads_run _ _ _).passes_group] at hpasses
  obtain ⟨hboundary, _, rfl, gap, _, rfl, hgap, _, rfl, x, _, rfl, -, y, rfl, -⟩ := hpasses
  have hopen : importWord ++ (gap ++ (['('] ++ (x ++ ([')'] ++ y)))) =
      opening gap ++ (x ++ ([')'] ++ y)) := by simp [opening]
  rw [hopen] at hboundary
  exact ⟨gap, _, hopen, hgap, by simp, wordBoundary_holds_iff.mp hboundary⟩

end Block

/-- The blocks that are opened in a text are closed there. -/
def ClosesBlocks (front : List Char) : Prop :=
  ∀ a gap z, front = a ++ (opening gap ++ z) → (∀ c ∈ gap, isBlank c = true) → ')' ∈ z

theorem closesBlocks_of_notMem {front : List Char} (h : '(' ∉ front) : ClosesBlocks front := by
  rintro a gap z rfl -
  exact absurd (by simp [opening]) h

/-- Within what opens a block no other block is opened. -/
theorem opening_within {gap w x : List Char} {y : List Char} (hgap : ∀ c ∈ gap, isBlank c = true)
    (hx : x ≠ []) (h : opening gap ++ w = x ++ 'i' :: y) : ∃ z, x = opening gap ++ z := by
  rcases List.append_eq_append_iff.mp h with ⟨z, hz, -⟩ | ⟨z, hopening, hrest⟩
  · exact ⟨z, hz⟩
  · obtain ⟨c, x, rfl⟩ := List.exists_cons_of_ne_nil hx
    cases z with
    | nil => exact ⟨[], by rw [hopening, List.append_nil, List.append_nil]⟩
    | cons d z =>
      -- the word has the letter at its beginning only
      obtain rfl : 'i' = d := (List.cons.inj hrest).1
      have hletters : opening gap = 'i' :: ("mport".toList ++ (gap ++ ['('])) := rfl
      rw [hletters, List.cons_append] at hopening
      have hmem : 'i' ∈ "mport".toList ++ (gap ++ ['(']) := by
        rw [(List.cons.inj hopening).2]
        exact List.mem_append_right _ List.mem_cons_self
      rcases List.mem_append.mp hmem with hword | hmem
      · exact absurd hword (by decide)
      · rcases List.mem_append.mp hmem with hblank | hparen
        · exact absurd (hgap _ hblank) (by decide)
        · exact absurd hparen (by decide)

section Declaration

variable {front gap w : List Char} (hbefore : ∀ c ∈ front.getLast?, isWord c = false)
  (hgap : ∀ c ∈ gap, isBlank c = true) (hw : ')' ∈ w)

/-- The place where a declaration begins. -/
theorem advance_declaration {content : List Char}
    (hcontent : content = front ++ (opening gap ++ w)) :
    (Cursor.start content).advance front.length =
      ⟨front.getLast?, front.length, content.drop front.length⟩ := by
  rw [Cursor.advance_start (by simp [hcontent]), hcontent, List.take_left]

include hbefore hgap hw

/-- **The block of a declaration is found**, if the blocks opened in front of it are closed
there. -/
theorem exists_block {content : List Char} (hcontent : content = front ++ (opening gap ++ w))
    (hfront : ClosesBlocks front) :
    ∃ m ∈ goBlock.findAll content, groupText content m 1 = upTo ')' w := by
  have hdrop : content.drop front.length = opening gap ++ w := by rw [hcontent, List.drop_left]
  obtain ⟨m, hm, -, hread⟩ := matchAt?_goBlock hbefore hgap hw hdrop (Nat.le_refl _)
  rw [← advance_declaration hcontent] at hm
  obtain ⟨m', hmem, j, hj, hmatch, hcovers⟩ := Pattern.exists_covering_findAll takesSome_goBlock
    (k := front.length) (by simp [hcontent]) (Option.isSome_of_eq_some hm)
  rcases Nat.lt_or_eq_of_le hj with hlt | rfl
  · -- a match that begins earlier ends in front of the declaration
    rw [Cursor.advance_start (by rw [hcontent, List.length_append]; omega)] at hmatch
    obtain ⟨gap', w', hrest, hgap', hw', hbefore'⟩ := exists_opening hmatch
    have hsplit : opening gap' ++ w' =
        front.drop j ++ 'i' :: ("mport".toList ++ (gap ++ ['(']) ++ w) := by
      rw [← hrest, hcontent, List.drop_append_of_le_length hj]
      rfl
    have hne : front.drop j ≠ [] := by
      rw [Ne, List.drop_eq_nil_iff]
      omega
    obtain ⟨z, hz⟩ := opening_within hgap' hne hsplit
    have hclosed : ')' ∈ z :=
      hfront (front.take j) gap' z (by rw [← hz, List.take_append_drop]) hgap'
    rw [hz, List.append_assoc] at hsplit
    have hbehind := List.append_cancel_left hsplit
    obtain ⟨m'', hm'', hstop, -⟩ := matchAt?_goBlock hbefore' hgap' hw' hrest (Nat.le_refl _)
    obtain rfl : m' = m'' := Option.some.inj (hmatch.symm.trans hm'')
    obtain ⟨y, hy⟩ := exists_upTo hclosed
    rw [hbehind, upTo_append_of_mem hclosed] at hstop
    have hlength := congrArg List.length hz
    have hlengthz := congrArg List.length hy
    simp only [List.length_drop, List.length_append, List.length_cons, List.length_nil]
      at hlength hlengthz hstop
    omega
  · obtain rfl : m = m' := Option.some.inj (hm.symm.trans hmatch)
    exact ⟨m, hmem, hread⟩

/-- Where the word is written once, there is no other block. -/
theorem eq_block {content : List Char} (hcontent : content = front ++ (opening gap ++ w))
    (honce : ∀ a b, content = a ++ (importWord ++ b) → a = front) :
    ∀ m ∈ goBlock.findAll content, groupText content m 1 = upTo ')' w := by
  intro m hm
  obtain ⟨k, hmatch⟩ := Pattern.matchAt?_of_mem_findAllFrom hm
  obtain ⟨j, hj, hplace⟩ := Cursor.exists_advance_start content k
  rw [hplace, Cursor.advance_start hj] at hmatch
  obtain ⟨gap', w', hrest, -⟩ := exists_opening hmatch
  have hfront : content.take j = front := by
    refine honce _ (gap' ++ ['('] ++ w') ?_
    rw [← List.append_assoc importWord]
    have hsame : importWord ++ (gap' ++ ['('] ++ w') = content.drop j := by
      rw [hrest, opening, List.append_assoc, List.append_assoc, List.append_assoc]
    rw [List.append_assoc, hsame, List.take_append_drop]
  obtain rfl : j = front.length := by
    rw [← hfront, List.length_take, Nat.min_eq_left hj]
  have hdrop : content.drop front.length = opening gap ++ w := by rw [hcontent, List.drop_left]
  obtain ⟨m', hm', -, hread⟩ := matchAt?_goBlock hbefore hgap hw hdrop (Nat.le_refl content.length)
  rw [hfront] at hmatch
  obtain rfl : m = m' := Option.some.inj (hmatch.symm.trans hm')
  exact hread

end Declaration

theorem goSingle_regex : goSingle.regex = seqs (.look .startOfLine :: blanks 0 ::
    (letters importWord ++ blanks 1 ::
      .rounds 0 (some 1) true (seqs [.rounds 1 none true (.set dotted), blanks 1]) ::
      (letters ['"'] ++ .group 1 (.rounds 1 none true (.set unquoted)) ::
        (letters ['"'] ++ [])))) := by
  decide +kernel

/-- Behind the blanks a block has a parenthesis where a single import has a name or a quote. -/
theorem block_ne_single {gap g name w y : List Char} (hgap : ∀ c ∈ gap, isBlank c = true)
    (hg : ∀ c ∈ g, isBlank c = true)
    (hname : name = [] ∨ ∃ a g, name = a ++ g ∧ IsDotted a ∧ g ≠ [] ∧ ∀ c ∈ g, isBlank c = true) :
    gap ++ '(' :: w ≠ g ++ (name ++ '"' :: y) := by
  intro h
  have hsame := congrArg (List.head? ∘ List.dropWhile isBlank) h
  simp only [Function.comp, List.dropWhile_append_of_pos hgap,
    List.dropWhile_append_of_pos hg] at hsame
  have hparen : (List.dropWhile isBlank ('(' :: w)).head? = some '(' := by
    rw [List.dropWhile_cons_of_neg (by decide), List.head?_cons]
  rw [hparen] at hsame
  rcases hname with rfl | ⟨a, g', rfl, ha, -⟩
  · rw [List.nil_append, List.dropWhile_cons_of_neg (by decide)] at hsame
    exact absurd (Option.some.inj hsame) (by decide)
  · obtain ⟨c, a, rfl⟩ := List.exists_cons_of_ne_nil ha.ne_nil
    have hc := ha.dotted c List.mem_cons_self
    rw [List.cons_append, List.cons_append,
      List.dropWhile_cons_of_neg (by simp [isBlank_eq_false_of_dotted hc])] at hsame
    obtain rfl : '(' = c := Option.some.inj hsame
    exact absurd hc (by decide)

/-- Where the word is written once, there is no single import. -/
theorem findAll_goSingle {content front gap w : List Char}
    (hcontent : content = front ++ (opening gap ++ w)) (hgap : ∀ c ∈ gap, isBlank c = true)
    (honce : ∀ a b, content = a ++ (importWord ++ b) → a = front) :
    goSingle.findAll content = [] := by
  refine Pattern.findAllFrom_eq_nil (fun k => ?_) _ _
  obtain ⟨j, hj, hplace⟩ := Cursor.exists_advance_start content k
  rw [hplace, Cursor.advance_start hj]
  refine Option.eq_none_iff_forall_ne_some.mpr fun m hm => ?_
  obtain ⟨there, caps, hpasses, -⟩ := Pattern.exists_passes_of_matchAt? hm
  simp only [goSingle_regex, passes_look, reads_blanks.passes, reads_gap.passes, passes_letters,
    (reads_label.optional _).passes] at hpasses
  obtain ⟨-, lead, _, hrest, -, _, rfl, g, _, rfl, ⟨-, hg⟩, name, _, rfl, hname, y, rfl, -⟩ :=
    hpasses
  have hsplit : content = (content.take j ++ lead) ++
      (importWord ++ (g ++ (name ++ (['"'] ++ y)))) := by
    rw [List.append_assoc, ← hrest, List.take_append_drop]
  have hfront := honce _ _ hsplit
  rw [hfront, hcontent, opening, List.append_assoc] at hsplit
  have hbehind := List.append_cancel_left (List.append_cancel_left hsplit)
  exact block_ne_single (w := w) (y := y) hgap hg hname (by simpa using hbehind)

/-! ## What the imports keep -/

/-- **The entries in front of the first closing parenthesis are honoured**, and the querying file's
own directory is. Where the file imports nothing else, nothing else is kept. -/
theorem go_keeps_readable {ctx : Context} {hits : List Hit} {front gap indent back : List Char}
    {es : List GoEntry} (hbefore : ∀ c ∈ front.getLast?, isWord c = false)
    (hgap : ∀ c ∈ gap, isBlank c = true) (hindent : ∀ c ∈ indent, isBlank c = true)
    (hfront : ClosesBlocks front) (hcontent : ctx.content =
      front ++ (opening gap ++ (es.flatMap GoEntry.line ++ (indent ++ ')' :: back)))) :
    (∀ h ∈ hits, dirname h.file.toList = dirname ctx.path → h ∈ go.keep ctx hits) ∧
      (∀ h ∈ hits, ∀ e ∈ GoEntry.readable es, EndsIn (dirname h.file.toList) e.path →
        h ∈ go.keep ctx hits) ∧
      ((∀ a b, ctx.content = a ++ (importWord ++ b) → a = front) → ∀ h ∈ go.keep ctx hits,
        dirname h.file.toList = dirname ctx.path ∨ ∃ e ∈ GoEntry.readable es,
          EndsIn (dirname h.file.toList) e.path ∨
            sameTail (dirname h.file.toList) e.path = true) := by
  obtain ⟨path, content⟩ := ctx
  obtain rfl : content = _ := hcontent
  generalize hw : es.flatMap GoEntry.line ++ (indent ++ ')' :: back) = w at *
  have hclosed : ')' ∈ w := by simp [← hw]
  have hblock : upTo ')' w = upTo ')' (es.flatMap GoEntry.line ++ indent) := by
    rw [← hw, ← List.append_assoc, upTo_append_cons_self]
  have hread := map_findAll_block hindent es hblock
  refine ⟨fun h hmem hown => ?_, fun h hmem e he hends => ?_, fun honce h hkept => ?_⟩
  · refine Rule.mem_keep_iff.mpr ⟨hmem, Bool.or_eq_true_iff.mpr (.inl ?_)⟩
    exact decide_eq_true hown
  · obtain ⟨m, hm, htext⟩ := exists_block hbefore hgap hclosed rfl hfront
    have hpath : e.path ∈ (goEntry.findAll (upTo ')' w)).map (goRead (upTo ')' w)) := by
      rw [hread]
      exact List.mem_map_of_mem he
    have himport : e.path ∈ goImports (front ++ (opening gap ++ w)) := by
      refine List.mem_append_right _ (List.mem_flatMap.mpr ⟨_, List.mem_map_of_mem hm, ?_⟩)
      rw [htext]
      exact hpath
    have hsegments := endsWithSegments_iff.mpr ⟨e.path_ne_nil, hends⟩
    refine Rule.mem_keep_iff.mpr ⟨hmem, Bool.or_eq_true_iff.mpr (.inr ?_)⟩
    exact List.any_eq_true.mpr ⟨e.path, himport, Bool.or_eq_true_iff.mpr (.inl hsegments)⟩
  · rcases Bool.or_eq_true_iff.mp (Rule.mem_keep_iff.mp hkept).2 with hown | hfits
    · exact .inl (of_decide_eq_true hown)
    · obtain ⟨package, himport, hfits⟩ := List.any_eq_true.mp hfits
      rw [goImports, findAll_goSingle rfl hgap honce] at himport
      obtain ⟨block, hblock, hentry⟩ := List.mem_flatMap.mp himport
      obtain ⟨m, hm, rfl⟩ := List.mem_map.mp hblock
      rw [eq_block hbefore hgap hclosed rfl honce m hm] at hentry
      obtain ⟨e, he, rfl⟩ := List.mem_map.mp (hread ▸ hentry)
      refine .inr ⟨e, he, (Bool.or_eq_true_iff.mp hfits).imp_left fun h => ?_⟩
      exact (endsWithSegments_iff.mp h).2

/-- The import of a package, on a line that is indented by a tab. -/
def lastEntry : GoEntry :=
  ⟨['\t'], [], "b/y".toList, [], List.all_eq_true.mp (by decide), .inl rfl, by decide, by decide,
    by decide⟩

/-- Two imports, with a comment behind the first one. -/
def twoEntries (comment : List Char) (h : '\n' ∉ comment) : List GoEntry :=
  [⟨['\n', '\t'], [], "a/x".toList, comment, List.all_eq_true.mp (by decide), .inl rfl, by decide,
    by decide, h⟩, lastEntry]

/-- A file that imports the entries. -/
def goFile (es : List GoEntry) : Context where
  path := "cmd/main.go".toList
  content := "package main\n\n".toList ++
    (opening [' '] ++ (es.flatMap GoEntry.line ++ ([] ++ ')' :: ['\n'])))

theorem go_keeps_readable_commented :
    hitIn "b/y/z.go" ∈ go.keep (goFile (twoEntries " // see b".toList (by decide)))
      [hitIn "c/y.go", hitIn "b/y/z.go"] := by
  have hread : lastEntry ∈ GoEntry.readable (twoEntries " // see b".toList (by decide)) := by
    rw [GoEntry.readable_eq_self (by decide +kernel)]
    exact List.mem_cons_of_mem _ List.mem_cons_self
  have hbefore : ∀ c ∈ "package main\n\n".toList.getLast?, isWord c = false := by
    rintro _ ⟨⟩
    decide
  have hgap : ∀ c ∈ [' '], isBlank c = true := List.all_eq_true.mp (by decide)
  refine (go_keeps_readable hbefore hgap (List.forall_mem_nil _)
    (closesBlocks_of_notMem (by decide)) rfl).2.1 _ (by simp) lastEntry hread (by decide +kernel)

/-- A parenthesis in a comment ends the block, and the imports behind it are lost. -/
theorem go_entry_lost :
    ¬ ∀ (es : List GoEntry) (hits : List Hit), ∀ h ∈ hits, ∀ e ∈ es,
      EndsIn (dirname h.file.toList) e.path → h ∈ go.keep (goFile es) hits := by
  intro hall
  have hkept := hall (twoEntries " // (see b)".toList (by decide)) [hitIn "b/y/z.go"] _
    List.mem_cons_self lastEntry (List.mem_cons_of_mem _ List.mem_cons_self) (by decide +kernel)
  exact absurd hkept (by decide +kernel)

end Imports

end CodeNav

import CodeNav.Token

/-!
# The run around a cursor

A token is cut out of its line by two scans from the cursor, one to each side. What they find
is a **maximal run** (`Token.Run`): all its characters are identifier characters, and the
characters on its two sides are none.

A character of the line is in at most one run (`Run.eq_of_holds`), and in one exactly if it is an
identifier character itself (`exists_run_holding`). **From every place in a run the two scans find
the run** (`Run.runAround_eq`).
-/

namespace CodeNav.Token

/-- A line cut into a run of characters that satisfy `p`, what stands before it, and what stands
behind it. The run cannot be made longer on either side. -/
structure Run (p : Char → Bool) (chars : List Char) where
  before : List Char
  inner : List Char
  after : List Char
  line_eq : chars = before ++ inner ++ after
  inner_ne_nil : inner ≠ []
  all_inner : ∀ c ∈ inner, p c = true
  stops_before : ∀ c ∈ before.getLast?, p c = false
  stops_after : ∀ c ∈ after.head?, p c = false

namespace Run

variable {p : Char → Bool} {chars : List Char}

/-- Where a run begins. -/
def start (r : Run p chars) : Nat := r.before.length

/-- Where a run ends. -/
def stop (r : Run p chars) : Nat := r.before.length + r.inner.length

section Ends

variable (r : Run p chars)

theorem take_start : chars.take r.start = r.before := by
  simp [r.line_eq, start]

theorem drop_start : chars.drop r.start = r.inner ++ r.after := by
  simp [r.line_eq, start]

theorem take_stop : chars.take r.stop = r.before ++ r.inner := by
  have hstop : r.stop = (r.before ++ r.inner).length := List.length_append.symm
  simp only [hstop, r.line_eq, List.take_left]

theorem drop_stop : chars.drop r.stop = r.after := by
  have hstop : r.stop = (r.before ++ r.inner).length := List.length_append.symm
  simp only [hstop, r.line_eq, List.drop_left]

theorem stop_le : r.stop ≤ chars.length := by
  have hlen := congrArg List.length r.line_eq
  simp only [List.length_append] at hlen
  simp only [stop]
  omega

theorem slice_eq : slice chars r.start r.stop = r.inner := by
  have hlen : r.stop - r.start = r.inner.length := by
    simp only [start, stop]
    omega
  rw [slice, r.drop_start, hlen, List.take_left]

/-- A copy of a run that begins before the run ends before it, since the character before the
run is in no run. -/
theorem add_length_le {j : Nat} (hj : j < r.start) (hcopy : r.inner <+: chars.drop j) :
    j + r.inner.length ≤ r.start := by
  rcases Nat.lt_or_ge r.start (j + r.inner.length) with hover | hle
  · obtain ⟨rest, hrest⟩ := hcopy
    obtain ⟨i, hi⟩ := Nat.exists_eq_add_of_lt hj
    have hin : i < r.inner.length := by omega
    have hcopied : (chars)[j + i]? = some r.inner[i] := by
      rw [← List.getElem?_drop, ← hrest, List.getElem?_append_left hin,
        List.getElem?_eq_getElem hin]
    have hlast : (chars)[j + i]? = r.before.getLast? := by
      have hlen : r.before.length - 1 = j + i := Nat.sub_eq_of_eq_add hi
      have hbefore : j + i < r.before.length := Nat.lt_of_lt_of_eq (Nat.lt_succ_self _) hi.symm
      have hget := congrArg (·[j + i]?) r.line_eq
      simp only [List.append_assoc, List.getElem?_append_left hbefore] at hget
      rw [hget, List.getLast?_eq_getElem?, hlen]
    have hstops := r.stops_before _ (hlast ▸ hcopied)
    rw [r.all_inner _ (List.getElem_mem hin)] at hstops
    cases hstops
  · exact hle

end Ends

end Run

variable {p : Char → Bool} {chars : List Char}

/-- The first character behind the characters taken from the front does not satisfy `p`. -/
theorem head?_dropWhile {s : List Char} : ∀ c ∈ (s.dropWhile p).head?, p c = false := by
  intro c hc
  have h := List.head?_dropWhile_not p s
  rw [Option.mem_def] at hc
  rw [hc] at h
  simpa using h

/-- The run around a character of a line that satisfies `p`. -/
def Run.around {x : Char} {left right : List Char} (hx : p x = true) :
    Run p (left ++ x :: right) where
  before := (left.reverse.dropWhile p).reverse
  inner := (left.reverse.takeWhile p).reverse ++ x :: right.takeWhile p
  after := right.dropWhile p
  line_eq := by
    simp only [List.append_assoc, List.cons_append, List.takeWhile_append_dropWhile]
    rw [← List.append_assoc, ← List.reverse_append, List.takeWhile_append_dropWhile,
      List.reverse_reverse]
  inner_ne_nil := by simp
  all_inner c hc := by
    simp only [List.mem_append, List.mem_reverse, List.mem_cons] at hc
    rcases hc with hc | rfl | hc
    · exact List.all_eq_true.mp List.all_takeWhile c hc
    · exact hx
    · exact List.all_eq_true.mp List.all_takeWhile c hc
  stops_before c hc := by
    rw [List.getLast?_reverse] at hc
    exact head?_dropWhile c hc
  stops_after := head?_dropWhile

section Holds

variable {i : Nat}

namespace Run

/-- A place is in a run. -/
def Holds (r : Run p chars) (i : Nat) : Prop := r.start ≤ i ∧ i < r.stop

/-- At a place in a run stands one of its characters. -/
theorem Holds.exists_char {r : Run p chars} (h : r.Holds i) :
    ∃ c, chars[i]? = some c ∧ p c = true := by
  obtain ⟨hstart, hstop⟩ := h
  have hin : i - r.start < r.inner.length := by
    simp only [start, stop] at hstart hstop ⊢
    omega
  refine ⟨r.inner[i - r.start], ?_, r.all_inner _ (List.getElem_mem hin)⟩
  rw [← List.getElem?_eq_getElem hin, ← Nat.add_sub_cancel' hstart, ← List.getElem?_drop,
    r.drop_start, Nat.add_sub_cancel_left]
  exact List.getElem?_append_left hin

/-- In front of a run stands no character of its kind, for it would belong to the run. -/
theorem not_before (r : Run p chars) {c : Char} (hi : i + 1 = r.start) (hc : chars[i]? = some c) :
    p c = false := by
  refine r.stops_before c ?_
  rw [Option.mem_def, ← r.take_start, List.getLast?_eq_getElem?, List.length_take]
  have hle : r.start ≤ chars.length := Nat.le_trans (Nat.le_add_right _ _) r.stop_le
  rw [Nat.min_eq_left hle, ← hi, Nat.add_sub_cancel, List.getElem?_take_of_lt (Nat.lt_succ_self i)]
  exact hc

/-- Nor does one stand behind it. -/
theorem not_after (r : Run p chars) {c : Char} (hc : chars[r.stop]? = some c) : p c = false := by
  refine r.stops_after c ?_
  rw [Option.mem_def, ← r.drop_stop, List.head?_drop]
  exact hc

/-- A run begins no later than another one that it shares a place with. -/
theorem start_le_start {r r' : Run p chars} (h : r.Holds i) (h' : r'.Holds i) :
    r.start ≤ r'.start := by
  refine Nat.le_of_not_lt fun hlt => ?_
  obtain ⟨j, hj⟩ := Nat.exists_eq_add_of_lt hlt
  -- the place before `r` is in `r'`
  have hholds : r'.Holds (r'.start + j) := by
    obtain ⟨hstart, -⟩ := h
    obtain ⟨-, hstop⟩ := h'
    refine ⟨Nat.le_add_right _ _, ?_⟩
    omega
  obtain ⟨c, hc, hp⟩ := hholds.exists_char
  rw [r.not_before hj.symm hc] at hp
  cases hp

/-- A run ends no earlier than another one that it shares a place with. -/
theorem stop_le_stop {r r' : Run p chars} (h : r.Holds i) (h' : r'.Holds i) : r'.stop ≤ r.stop := by
  refine Nat.le_of_not_lt fun hlt => ?_
  -- the place behind `r` is in `r'`
  have hholds : r'.Holds r.stop := by
    obtain ⟨-, hstop⟩ := h
    obtain ⟨hstart, -⟩ := h'
    exact ⟨Nat.le_trans hstart (Nat.le_of_lt hstop), hlt⟩
  obtain ⟨c, hc, hp⟩ := hholds.exists_char
  rw [r.not_after hc] at hp
  cases hp

/-- **At most one run holds a place.** -/
theorem eq_of_holds {r r' : Run p chars} (h : r.Holds i) (h' : r'.Holds i) : r = r' := by
  have hstart : r.start = r'.start :=
    Nat.le_antisymm (start_le_start h h') (start_le_start h' h)
  have hstop : r.stop = r'.stop := Nat.le_antisymm (stop_le_stop h' h) (stop_le_stop h h')
  have hbefore : r.before = r'.before := by rw [← take_start, ← take_start, hstart]
  have hinner : r.inner = r'.inner := by rw [← slice_eq, ← slice_eq, hstart, hstop]
  have hafter : r.after = r'.after := by rw [← drop_stop, ← drop_stop, hstop]
  cases r
  cases r'
  cases hbefore
  cases hinner
  cases hafter
  rfl

end Run

/-- What the scans see first is the character that they start from. -/
theorem runAround_eq_of_getElem? {x : Char} (hx : chars[i]? = some x) :
    runAround p chars i =
      (i + 1 - ((x :: (chars.take i).reverse).takeWhile p).length,
        i + ((x :: chars.drop (i + 1)).takeWhile p).length) := by
  obtain ⟨hin, rfl⟩ := List.getElem?_eq_some_iff.mp hx
  rw [runAround, List.take_succ_eq_append_getElem hin, List.reverse_concat,
    List.drop_eq_getElem_cons hin]

/-- A character that is in no run stops both scans at once. -/
theorem runAround_of_neg {x : Char} (hx : chars[i]? = some x) (hp : p x = false) :
    runAround p chars i = (i + 1, i) := by
  rw [runAround_eq_of_getElem? hx, List.takeWhile_cons_of_neg (by simp [hp]),
    List.takeWhile_cons_of_neg (by simp [hp])]
  rfl

/-- A character that satisfies `p` is in a run, which the two scans find. -/
theorem exists_run_holding {x : Char} (hx : chars[i]? = some x) (hp : p x = true) :
    ∃ r : Run p chars, r.Holds i ∧ runAround p chars i = (r.start, r.stop) := by
  have hrun := runAround_eq_of_getElem? (p := p) hx
  obtain ⟨left, right, rfl, rfl⟩ : ∃ left right, chars = left ++ x :: right ∧ i = left.length := by
    obtain ⟨hin, rfl⟩ := List.getElem?_eq_some_iff.mp hx
    refine ⟨chars.take i, chars.drop (i + 1), ?_, (List.length_take_of_le (Nat.le_of_lt hin)).symm⟩
    rw [← List.drop_eq_getElem_cons hin, List.take_append_drop]
  rw [List.take_left, List.drop_append, List.drop_of_length_le (Nat.le_succ _),
    Nat.add_sub_cancel_left, List.nil_append, List.drop_succ_cons, List.drop_zero,
    List.takeWhile_cons_of_pos hp, List.takeWhile_cons_of_pos hp] at hrun
  have hleft : (left.reverse.takeWhile p).length + (left.reverse.dropWhile p).length =
      left.length := by
    rw [← List.length_append, List.takeWhile_append_dropWhile, List.length_reverse]
  refine ⟨Run.around hp, ⟨?_, ?_⟩, hrun.trans ?_⟩ <;>
    simp only [Run.start, Run.stop, Run.around, List.length_append, List.length_reverse,
      List.length_cons, Prod.mk.injEq] <;> omega

/-- **From every place in a run, the two scans find the run.** -/
theorem Run.runAround_eq (r : Run p chars) (h : r.Holds i) :
    runAround p chars i = (r.start, r.stop) := by
  obtain ⟨x, hx, hp⟩ := h.exists_char
  obtain ⟨r', hholds, hrun⟩ := exists_run_holding hx hp
  rwa [Run.eq_of_holds h hholds]

/-- A run that holds a cursor has a character. -/
theorem Run.start_lt_stop (r : Run p chars) : r.start < r.stop := by
  have hpos := List.length_pos_iff.mpr r.inner_ne_nil
  simp only [start, stop]
  omega

end Holds

/-! ## The character a cursor reads -/

/-- A cursor reads the character it stands on, or the last one from the end of the line. -/
def Reads (chars : List Char) (character cursor : Nat) : Prop :=
  cursor < chars.length ∧
    (character = cursor ∨ character = chars.length ∧ character = cursor + 1)

/-- A cursor stands on a character, or behind the last one, which it reads then. -/
theorem cursorIn?_eq_some_iff {chars : List Char} {character cursor : Nat} :
    cursorIn? chars character = some cursor ↔ Reads chars character cursor := by
  rw [cursorIn?, Reads]
  split
  · rw [Option.some.injEq]
    omega
  · split
    · rw [Option.some.injEq]
      omega
    · refine iff_of_false nofun ?_
      omega

/-- The span under a cursor is the run that holds the character it reads. -/
theorem spanAt?_eq_some_iff {identifier : Pattern} {chars : List Char}
    {character start stop : Nat} :
    spanAt? identifier chars character = some (start, stop) ↔
      ∃ cursor, Reads chars character cursor ∧
        ∃ r : Run (fun c => identifier.isMatch [c]) chars,
          r.Holds cursor ∧ r.start = start ∧ r.stop = stop := by
  rw [spanAt?, Option.bind_eq_bind, Option.bind_eq_some_iff]
  refine exists_congr fun cursor => ?_
  rw [cursorIn?_eq_some_iff]
  refine and_congr_right fun hreads => ?_
  obtain ⟨x, hx⟩ : ∃ x, chars[cursor]? = some x := ⟨_, List.getElem?_eq_getElem hreads.1⟩
  generalize hidentifier : (fun c => identifier.isMatch [c]) = p
  constructor
  · intro h
    cases hp : p x with
    | false =>
      simp only [runAround_of_neg hx hp] at h
      rw [if_neg (by omega)] at h
      cases h
    | true =>
      obtain ⟨r, hholds, hrun⟩ := exists_run_holding hx hp
      simp only [hrun, if_pos r.start_lt_stop] at h
      cases h
      exact ⟨r, hholds, rfl, rfl⟩
  · rintro ⟨r, hholds, rfl, rfl⟩
    simp only [r.runAround_eq hholds, if_pos r.start_lt_stop]

/-! ## The token -/

/-- A token is found exactly if the cursor reads a character in a run; it is the text of the run,
with what its line says about comments. -/
theorem find?_eq_some_iff {text : String} {position : Position} {comments : List Pattern}
    {identifier : Pattern} {token : Token} :
    find? text position comments identifier = some token ↔
      ∃ chars, (Text.lines text.toList)[position.line]? = some chars ∧
        ∃ cursor, Reads chars position.character cursor ∧
          ∃ r : Run (fun c => identifier.isMatch [c]) chars, r.Holds cursor ∧
            token = ⟨String.ofList r.inner, isCommented comments chars r.start r.stop⟩ := by
  rw [find?, Option.bind_eq_bind, Option.bind_eq_some_iff]
  refine exists_congr fun chars => and_congr_right fun _ => ?_
  rw [Option.bind_eq_bind, Option.bind_eq_some_iff]
  constructor
  · rintro ⟨⟨start, stop⟩, hspan, htoken⟩
    obtain ⟨cursor, hreads, r, hholds, rfl, rfl⟩ := spanAt?_eq_some_iff.mp hspan
    cases htoken
    exact ⟨cursor, hreads, r, hholds, by rw [r.slice_eq]⟩
  · rintro ⟨cursor, hreads, r, hholds, rfl⟩
    refine ⟨(r.start, r.stop), spanAt?_eq_some_iff.mpr ⟨cursor, hreads, r, hholds, rfl, rfl⟩, ?_⟩
    rw [← r.slice_eq]
    rfl

/-- What a token that was found consists of. -/
theorem find?_eq_some {text : String} {position : Position} {comments : List Pattern}
    {identifier : Pattern} {token : Token}
    (h : find? text position comments identifier = some token) :
    ∃ chars, (Text.lines text.toList)[position.line]? = some chars ∧
      ∃ r : Run (fun c => identifier.isMatch [c]) chars,
        spanAt? identifier chars position.character = some (r.start, r.stop) ∧
        token.text.toList = r.inner := by
  obtain ⟨chars, hline, cursor, hreads, r, hholds, rfl⟩ := find?_eq_some_iff.mp h
  exact ⟨chars, hline, r, spanAt?_eq_some_iff.mpr ⟨cursor, hreads, r, hholds, rfl, rfl⟩,
    String.toList_ofList⟩

end CodeNav.Token

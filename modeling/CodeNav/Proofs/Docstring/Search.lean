import CodeNav.Docstring

/-!
# Where the search ends

The search for documentation asks the definition's own line first, and then style by style what
stands beside it: a run of line comments, or a block. It `Reaches` a style if nothing answered
before. **Whatever is found is an answer of one of these three kinds** (`find?_cases`), and an
answer of a style that is reached is what is found (`Reaches.find?_eq`).
-/

namespace CodeNav.Docstring

open Text

section FirstSome

variable {α β : Type} {f : α → Option β}

theorem firstSome_eq_none_iff {l : List α} : firstSome f l = none ↔ ∀ a ∈ l, f a = none := by
  induction l with
  | nil => simp [firstSome]
  | cons a l ih => rw [firstSome, Option.or_eq_none_iff, ih, List.forall_mem_cons]

/-- The first answer is that of an element which no answer comes before. -/
theorem firstSome_eq_some_iff {l : List α} {b : β} :
    firstSome f l = some b ↔
      ∃ earlier a later,
        l = earlier ++ a :: later ∧ (∀ x ∈ earlier, f x = none) ∧ f a = some b := by
  induction l with
  | nil => simp [firstSome]
  | cons a l ih =>
    rw [firstSome, Option.or_eq_some_iff, ih]
    constructor
    · rintro (ha | ⟨ha, earlier, a', later, rfl, hearlier, ha'⟩)
      · exact ⟨[], a, l, rfl, nofun, ha⟩
      · exact ⟨a :: earlier, a', later, rfl, List.forall_mem_cons.mpr ⟨ha, hearlier⟩, ha'⟩
    · rintro ⟨earlier, a', later, heq, hearlier, ha'⟩
      cases earlier with
      | nil =>
        cases heq
        exact .inl ha'
      | cons x earlier =>
        cases heq
        obtain ⟨hx, hearlier⟩ := List.forall_mem_cons.mp hearlier
        exact .inr ⟨hx, earlier, a', later, rfl, hearlier, ha'⟩

theorem exists_mem_of_firstSome {l : List α} {b : β} (h : firstSome f l = some b) :
    ∃ a ∈ l, f a = some b := by
  obtain ⟨earlier, a, later, rfl, -, ha⟩ := firstSome_eq_some_iff.mp h
  exact ⟨a, by simp, ha⟩

end FirstSome

/-- The search for the documentation of the definition on line `d` comes to a style: there is no
comment on the line itself, and no style before this one finds anything beside it. -/
structure Reaches (styles : List CommentStyle) (ignore : Option Pattern)
    (source : List (List Char)) (d : Nat) (style : CommentStyle) : Prop where
  not_inline : ∃ line, source[d]? = some line ∧ ∀ s ∈ styles, inline? s line = none
  not_earlier : ∃ earlier later, styles = earlier ++ style :: later ∧
    ∀ s ∈ earlier, nearby? s source d ignore = none

/-- The documentation of the definition on line `d` is that of a block, which lies over `e`: the
search comes to a style that has no run of line comments there but has this block. -/
structure FromBlock (styles : List CommentStyle) (ignore : Option Pattern)
    (source : List (List Char)) (d : Nat) (block : BlockStyle) (e : Extent) (doc : List Char) :
    Prop where
  reached : ∃ style, Reaches styles ignore source d style ∧ style.block = some block ∧
    style.line.bind (lineRun? · style.placement (candidates source d ignore style.placement)) =
      none ∧
    extent? block style.placement (candidates source d ignore style.placement) = some e
  finished : finish? ((e.segments block source).map fun (segment, _) =>
    stripIndent (e.indent source (e.segments block source)) segment) = some doc

section Find

variable {styles : List CommentStyle} {ignore : Option Pattern} {text : String} {d : Nat}

/-- What a style finds that the search comes to is the documentation. -/
theorem Reaches.find?_eq {style : CommentStyle}
    (h : Reaches styles ignore (lines text.toList) d style) {doc : List Char}
    (hdoc : nearby? style (lines text.toList) d ignore = some doc) :
    find? styles ignore text d = some (String.ofList doc) := by
  obtain ⟨line, hline, hinline⟩ := h.not_inline
  obtain ⟨earlier, later, hstyles, hearlier⟩ := h.not_earlier
  have hfound := firstSome_eq_some_iff.mpr ⟨earlier, style, later, hstyles, hearlier, hdoc⟩
  simp only [find?, hline, firstSome_eq_none_iff.mpr hinline, hfound, Option.bind_eq_bind,
    Option.bind_some, Option.none_or]
  rfl

/-- **Documentation is found on the definition's line, in a run beside it, or in a block there.** -/
theorem find?_cases {doc : String} (h : find? styles ignore text d = some doc) :
    (∃ line, (lines text.toList)[d]? = some line ∧
      ∃ style ∈ styles, inline? style line = some doc.toList) ∨
    (∃ style, Reaches styles ignore (lines text.toList) d style ∧
      style.line.bind (lineRun? · style.placement
        (candidates (lines text.toList) d ignore style.placement)) = some doc.toList) ∨
    ∃ block e, FromBlock styles ignore (lines text.toList) d block e doc.toList := by
  simp only [find?, Option.bind_eq_bind, Option.bind_eq_some_iff] at h
  obtain ⟨line, hline, found, hfound, heq⟩ := h
  cases heq
  rw [String.toList_ofList]
  rcases Option.or_eq_some_iff.mp hfound with hinline | ⟨hinline, hnearby⟩
  · obtain ⟨earlier, style, later, rfl, -, hfound⟩ := firstSome_eq_some_iff.mp hinline
    exact .inl ⟨line, hline, style, by simp, hfound⟩
  · obtain ⟨earlier, style, later, hstyles, hearlier, hfound⟩ := firstSome_eq_some_iff.mp hnearby
    have hreaches : Reaches styles ignore (lines text.toList) d style :=
      ⟨⟨line, hline, firstSome_eq_none_iff.mp hinline⟩, earlier, later, hstyles, hearlier⟩
    rcases Option.or_eq_some_iff.mp hfound with hrun | ⟨hrun, hblock⟩
    · exact .inr (.inl ⟨style, hreaches, hrun⟩)
    · obtain ⟨block, hmem, hblock⟩ := Option.bind_eq_some_iff.mp hblock
      simp only [block?, Option.bind_eq_bind, Option.bind_eq_some_iff] at hblock
      obtain ⟨e, he, hfinished⟩ := hblock
      exact .inr (.inr ⟨block, e, ⟨style, hreaches, hmem, hrun, he⟩, hfinished⟩)

theorem FromBlock.find?_eq {block : BlockStyle} {e : Extent} {doc : List Char}
    (h : FromBlock styles ignore (lines text.toList) d block e doc) :
    find? styles ignore text d = some (String.ofList doc) := by
  obtain ⟨style, hreaches, hblock, hrun, hextent⟩ := h.reached
  refine hreaches.find?_eq ?_
  rw [nearby?, hrun, hblock, Option.none_or, Option.bind_some, block?, hextent]
  exact h.finished

end Find

end CodeNav.Docstring

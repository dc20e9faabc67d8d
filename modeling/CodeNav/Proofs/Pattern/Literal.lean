import CodeNav.Proofs.Pattern.Places
import CodeNav.Proofs.Pattern.Plain

/-!
# Escaped texts

Whatever its characters mean in a pattern, an escaped text is read as those characters, each
for itself (`body?_escaped`), and what it reads as matches that text only (`ways_letters`).
Between two word boundaries it matches where the text stands **and both its ends have a word
character on exactly one side** (`matchAt?_bounded_isSome`).
-/

namespace CodeNav

namespace Regex

/-- The characters of a text, an expression for each. -/
def letters (s : List Char) : List Regex := s.map fun c => .set (.only c)

variable {β : Type} {fuel : Nat} {here : Cursor} {caps : Captures}
  {k : Cursor → Captures → Option β}

/-- The first of several expressions matches, and the others behind it. -/
theorem ways_seqs_cons (r : Regex) (rs : List Regex) :
    ways fuel (seqs (r :: rs)) here caps k =
      ways fuel r here caps fun here caps => ways fuel (seqs rs) here caps k := by
  cases rs <;> rfl

/-- The characters of a text match that text alone. -/
theorem ways_letters (s : List Char) (rs : List Regex) :
    ways fuel (seqs (letters s ++ rs)) here caps k =
      if s.isPrefixOf here.rest then ways fuel (seqs rs) (here.advance s.length) caps k
      else none := by
  obtain ⟨before, pos, rest⟩ := here
  induction s generalizing before pos rest with
  | nil => simp [letters]
  | cons c s ih =>
    have hletters : letters (c :: s) ++ rs = .set (.only c) :: (letters s ++ rs) := rfl
    rw [hletters, ways_seqs_cons]
    cases rest with
    | nil => rfl
    | cons d rest =>
      by_cases hcd : d = c
      · simp [ways, CharSet.mem, hcd, Cursor.past, ih]
      · simp [ways, CharSet.mem, hcd, List.isPrefixOf, Ne.symm hcd]

/-- A text between two word boundaries. -/
def bounded (s : List Char) : Regex :=
  seqs (.look (.wordBoundary false) :: (letters s ++ [.look (.wordBoundary false)]))

end Regex

namespace Pattern

open Regex

/-! ## Reading -/

theorem isPlain_of_not_isMeta {c : Char} (hc : isMeta c = false) : isPlain c ∧ c ≠ '.' := by
  simp [isMeta] at hc
  simp [isPlain, hc]

/-- A backslash takes the meaning of a character away. -/
theorem primitive?_escaped {c : Char} (hc : isMeta c = true) (rest : List Char) :
    primitive? {} ('\\' :: c :: rest) = some (.set (.only c), rest) := by
  simp only [isMeta, List.contains_iff_mem] at hc
  have hcases : c ∈ ['\\', '.', '+', '*', '?', '(', ')', '|', '[', ']', '\x7b', '\x7d', '^', '$',
    '#', '&', '-', '~'] := hc
  simp only [List.mem_cons, List.not_mem_nil, or_false] at hcases
  rcases hcases with rfl | rfl | rfl | rfl | rfl | rfl | rfl | rfl | rfl | rfl | rfl | rfl | rfl |
    rfl | rfl | rfl | rfl | rfl <;> rfl

section Body

variable (groups : Nat) (names : List (String × Nat)) (branch : List (Option Regex))
  (branches : List Regex)

/-- A backslash and what it escapes are one piece. -/
theorem body?_backslash {c : Char} {rest rest' : List Char} {r : Regex}
    (h : primitive? {} ('\\' :: c :: rest) = some (r, rest')) (fuel : Nat) :
    body? (fuel + 1) ⟨'\\' :: c :: rest, {}, groups, names⟩ branch branches =
      body? fuel ⟨rest', {}, groups, names⟩ (some r :: branch) branches := by
  have hspace : Reader.dropSpace {} ('\\' :: c :: rest) = '\\' :: c :: rest := rfl
  rw [body?, hspace]
  simp [h]

/-- **An escaped text is read as its characters**, each for itself. -/
theorem body?_escaped (s rest : List Char) (fuel : Nat) :
    body? (fuel + s.length) ⟨escapeChars s ++ rest, {}, groups, names⟩ branch branches =
      body? fuel ⟨rest, {}, groups, names⟩ ((letters s).reverse.map some ++ branch) branches := by
  induction s generalizing branch with
  | nil => rfl
  | cons c s ih =>
    have hletters : (letters (c :: s)).reverse.map some ++ branch =
        (letters s).reverse.map some ++ (some (.set (.only c)) :: branch) := by
      simp [letters]
    rw [hletters, ← ih, List.length_cons, ← Nat.add_assoc]
    cases hc : isMeta c with
    | true =>
      have hescape : escapeChars (c :: s) ++ rest = '\\' :: c :: (escapeChars s ++ rest) := by
        simp [escapeChars, hc]
      rw [hescape, body?_backslash _ _ _ _ (primitive?_escaped hc _)]
    | false =>
      obtain ⟨hplain, hdot⟩ := isPlain_of_not_isMeta hc
      have hescape : escapeChars (c :: s) ++ rest = c :: (escapeChars s ++ rest) := by
        simp [escapeChars, hc]
      rw [hescape, body?_plain_cons hplain, glyph, if_neg hdot]

end Body

@[simp] theorem escapeChars_nil : escapeChars [] = [] := rfl

theorem escapeChars_cons (c : Char) (s : List Char) :
    escapeChars (c :: s) = (if isMeta c then ['\\', c] else [c]) ++ escapeChars s := rfl

theorem length_le_length_escapeChars (s : List Char) : s.length ≤ (escapeChars s).length := by
  induction s with
  | nil => exact Nat.le_refl _
  | cons c s ih =>
    rw [escapeChars_cons, List.length_append, List.length_cons]
    split <;> simp only [List.length_cons, List.length_nil] <;> omega

/-- An escaped text with a backslash behind it does not begin with a brace. -/
theorem head?_escapeChars_append (s rest : List Char) :
    (escapeChars s ++ '\\' :: rest).head? ≠ some '\x7b' := by
  cases s with
  | nil => simp
  | cons c s =>
    rw [escapeChars_cons]
    split
    · simp
    · next hc =>
      have hbrace : isMeta '\x7b' = true := by decide
      simp only [List.cons_append, List.nil_append, List.head?_cons, ne_eq, Option.some.injEq]
      rintro rfl
      exact hc hbrace

/-- A boundary stands before a text that does not begin with a brace. -/
theorem primitive?_boundary {rest : List Char} (h : rest.head? ≠ some '\x7b') :
    primitive? {} ('\\' :: 'b' :: rest) = some (.look (.wordBoundary false), rest) := by
  have hname : namedBoundary? false rest = some none := by
    rw [namedBoundary?.eq_def]
    split
    · simp at h
    · rfl
  have hescape : escape? {} ('b' :: rest) = some (.look (.wordBoundary false), rest) := by
    simp [escape?, perlClass?, isEscapable, isMeta, hname]
  simp [primitive?, hescape]

/-- The pattern of a text between two word boundaries. -/
def between (t : String) : Pattern := ⟨"\\b" ++ escape t ++ "\\b", bounded t.toList, []⟩

/-- **An escaped text between two word boundaries is read as that.** -/
theorem parse?_between (t : String) : parse? (between t).source = some (between t) := by
  have hlist : ("\\b" ++ escape t ++ "\\b").toList =
      '\\' :: 'b' :: (escapeChars t.toList ++ ['\\', 'b']) := by
    simp [escape]
  obtain ⟨extra, hextra⟩ := Nat.exists_eq_add_of_le (length_le_length_escapeChars t.toList)
  have hfuel : ('\\' :: 'b' :: (escapeChars t.toList ++ ['\\', 'b'])).length + 1 =
      (extra + 2 + 1 + 1 + t.toList.length) + 1 := by
    simp only [List.length_cons, List.length_append, List.length_nil]
    omega
  have hhead := head?_escapeChars_append t.toList ['b']
  -- one call for the first boundary, one for each character, one for the second boundary
  rw [parse?, between]
  simp only [hlist, hfuel, body?_backslash _ _ _ _ (primitive?_boundary hhead), body?_escaped]
  rw [body?_backslash _ _ _ _ (primitive?_boundary (by simp))]
  simp [body?, Reader.dropSpace, alts, bounded, letters]

/-- The pattern of a text that is all there is. -/
def whole (t : String) : Pattern :=
  ⟨"^" ++ escape t ++ "$", .seqs (.look .startOfText :: (letters t.toList ++ [.look .endOfText])),
    []⟩

/-- **An escaped text between anchors is read as that**, whatever its characters are. -/
theorem parse?_whole (t : String) : parse? (whole t).source = some (whole t) := by
  have hlist : ("^" ++ escape t ++ "$").toList = '^' :: (escapeChars t.toList ++ ['$']) := by
    simp [escape]
  obtain ⟨extra, hextra⟩ := Nat.exists_eq_add_of_le (length_le_length_escapeChars t.toList)
  have hfuel : ('^' :: (escapeChars t.toList ++ ['$'])).length + 1 =
      (extra + 2 + t.toList.length) + 1 := by
    simp only [List.length_cons, List.length_append, List.length_nil]
    omega
  have hcaret : ∀ fuel rest, body? (fuel + 1) ⟨'^' :: rest, {}, 0, []⟩ [] [] =
      body? fuel ⟨rest, {}, 0, []⟩ [some (.look .startOfText)] [] := fun _ _ => rfl
  have hend : ∀ branch, body? (extra + 2) ⟨['$'], {}, 0, []⟩ branch [] =
      some (.seqs (((some (.look .endOfText)) :: branch).reverse.filterMap id),
        ⟨[], {}, 0, []⟩) := fun _ => rfl
  rw [parse?, whole]
  simp only [hlist, hfuel, hcaret, body?_escaped, hend]
  simp [letters, List.filterMap_map]

/-! ## Matching -/

/-- Whether there is a word character on exactly one side of a place of a text. -/
def isEdge (s : List Char) (n : Nat) : Bool :=
  Look.wordAt false (s.take n).getLast? != Look.wordAt false (s.drop n).head?

section Bounded

variable {p : Pattern} {s : List Char} (hp : p.regex = bounded s)

include hp

theorem matchAt?_bounded (fuel : Nat) (here : Cursor) :
    p.matchAt? fuel here =
      if (Look.wordBoundary false).holds here && s.isPrefixOf here.rest &&
        (Look.wordBoundary false).holds (here.advance s.length) then
        some ⟨here.pos, (here.advance s.length).pos, []⟩
      else none := by
  rw [matchAt?, hp, bounded, ways_seqs_cons, ways]
  cases (Look.wordBoundary false).holds here with
  | false => rfl
  | true =>
    rw [if_pos rfl, ways_letters]
    cases s.isPrefixOf here.rest with
    | false => rfl
    | true => rfl

theorem hasWidth_bounded : p.HasWidth s.length := by
  intro fuel here m h
  rw [matchAt?_bounded hp] at h
  split at h
  · next hhere =>
    cases h
    simp only [Bool.and_eq_true, List.isPrefixOf_iff_prefix] at hhere
    rw [Cursor.advance_eq hhere.1.2.length_le]
    exact ⟨rfl, rfl⟩
  · cases h

/-- **A bounded text matches where it stands between two edges.** -/
theorem matchAt?_bounded_isSome {line : List Char} {n : Nat} (hn : n ≤ line.length) (fuel : Nat) :
    (p.matchAt? fuel ((Cursor.start line).advance n)).isSome ↔
      s <+: line.drop n ∧ isEdge line n ∧ isEdge line (n + s.length) := by
  have hedge : ∀ {i}, i ≤ line.length →
      (Look.wordBoundary false).holds ((Cursor.start line).advance i) = isEdge line i := by
    intro i hi
    rw [Cursor.advance_start hi]
    rfl
  have hrest : ((Cursor.start line).advance n).rest = line.drop n := by
    rw [Cursor.advance_start hn]
  rw [matchAt?_bounded hp, Cursor.advance_advance, hedge hn, hrest]
  by_cases hs : s <+: line.drop n
  · have hend : n + s.length ≤ line.length := by
      have := hs.length_le
      rw [List.length_drop] at this
      omega
    rw [hedge hend, List.isPrefixOf_iff_prefix.mpr hs]
    cases isEdge line n <;> cases isEdge line (n + s.length) <;> simp [hs]
  · rw [Bool.eq_false_iff.mpr (mt List.isPrefixOf_iff_prefix.mp hs)]
    simp [hs]

end Bounded

end Pattern

end CodeNav

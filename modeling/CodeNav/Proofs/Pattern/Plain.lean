import CodeNav.Pattern.Parser
import CodeNav.Proofs.Pattern.Places

/-!
# Texts without operators

A text in which no character acts on its neighbours reads as one expression for each of
its characters, and **between anchors it matches itself**. The dot may stand in such a
text: it matches any character of a line, and so itself.
-/

namespace CodeNav.Pattern

/-- Characters that stand for themselves, and the dot. -/
def isPlain (c : Char) : Bool := !"\\+*?()|[\x7b^$".toList.contains c

/-- What a plain character reads as. -/
def glyph (c : Char) : Regex := if c = '.' then .set (.compl (.only '\n')) else .set (.only c)

/-- The expression of a plain text between anchors. -/
def anchored (s : List Char) : Regex :=
  .seqs (.look .startOfText :: (s.map glyph ++ [.look .endOfText]))

/-! ## Reading -/

theorem isPlain_iff {c : Char} : isPlain c ↔
    c ≠ '\\' ∧ c ≠ '+' ∧ c ≠ '*' ∧ c ≠ '?' ∧ c ≠ '(' ∧ c ≠ ')' ∧ c ≠ '|' ∧
    c ≠ '[' ∧ c ≠ '\x7b' ∧ c ≠ '^' ∧ c ≠ '$' := by
  simp [isPlain]

theorem primitive?_plain {c : Char} (hc : isPlain c) (rest : List Char) :
    primitive? {} (c :: rest) = some (glyph c, rest) := by
  obtain ⟨hslash, -, -, -, -, -, -, hbracket, -, hcaret, hdollar⟩ := isPlain_iff.mp hc
  by_cases hdot : c = '.'
  · subst hdot
    rfl
  · rw [primitive?, glyph, if_neg hdot]
    · rfl
    all_goals assumption

theorem body?_plain_cons {c : Char} (hc : isPlain c) (fuel : Nat) (rest : List Char)
    (groups : Nat) (names : List (String × Nat)) (branch : List (Option Regex))
    (branches : List Regex) :
    body? (fuel + 1) ⟨c :: rest, {}, groups, names⟩ branch branches =
      body? fuel ⟨rest, {}, groups, names⟩ (some (glyph c) :: branch) branches := by
  obtain ⟨-, hplus, hstar, hask, hopen, hclose, hbar, -, hbrace, -, -⟩ := isPlain_iff.mp hc
  have hspace : Reader.dropSpace {} (c :: rest) = c :: rest := rfl
  rw [body?, hspace]
  split
  · next h => cases h
  · next h => cases h; contradiction
  · next h => cases h; contradiction
  · next h => cases h; contradiction
  · next h =>
    cases h
    simp only [hplus, hstar, hask, hbrace, primitive?_plain hc]
    rfl

/-- A plain text goes to the alternative that is being read, a piece for each character. -/
theorem body?_plain {s : List Char} (hs : ∀ c ∈ s, isPlain c) (fuel : Nat) (rest : List Char)
    (groups : Nat) (names : List (String × Nat)) (branch : List (Option Regex))
    (branches : List Regex) :
    body? (fuel + s.length) ⟨s ++ rest, {}, groups, names⟩ branch branches =
      body? fuel ⟨rest, {}, groups, names⟩ ((s.map (some ∘ glyph)).reverse ++ branch) branches := by
  induction s generalizing branch with
  | nil => rfl
  | cons c s ih =>
    obtain ⟨hc, hs⟩ := List.forall_mem_cons.mp hs
    rw [List.length_cons, ← Nat.add_assoc, List.cons_append, body?_plain_cons hc, ih hs]
    simp

/-- **A plain text between anchors is read as it stands.** -/
theorem parse?_plain {name : String} (h : ∀ c ∈ name.toList, isPlain c) :
    parse? ("^" ++ name ++ "$") = some ⟨"^" ++ name ++ "$", anchored name.toList, []⟩ := by
  have hlist : ("^" ++ name ++ "$").toList = '^' :: (name.toList ++ ['$']) := by simp
  have hfuel : ('^' :: (name.toList ++ ['$'])).length + 1 = (2 + name.toList.length) + 1 := by
    simp
    omega
  have hcaret : ∀ fuel rest, body? (fuel + 1) ⟨'^' :: rest, {}, 0, []⟩ [] [] =
      body? fuel ⟨rest, {}, 0, []⟩ [some (.look .startOfText)] [] := fun _ _ => rfl
  have hend : ∀ branch, body? 2 ⟨['$'], {}, 0, []⟩ branch [] =
      some (.seqs (((some (.look .endOfText)) :: branch).reverse.filterMap id),
        ⟨[], {}, 0, []⟩) := fun _ => rfl
  -- one call for `^`, one for each character, one for `$`, one for the end
  rw [parse?]
  simp only [hlist, hfuel, hcaret, body?_plain h, hend]
  simp [anchored, List.filterMap_map]

/-! ## Matching -/

theorem glyph_self {c : Char} : ∃ set, glyph c = .set set ∧ set.mem c = true := by
  rw [glyph]
  split
  · next h => exact ⟨_, rfl, by rw [h]; decide⟩
  · exact ⟨_, rfl, by simp [CharSet.mem]⟩

/-- A plain text is matched by its own pieces, up to the end. -/
theorem ways_glyphs {β : Type} (fuel : Nat) (s : List Char) (before : Option Char) (pos : Nat)
    (caps : Captures) (k : Cursor → Captures → Option β) :
    ∃ last, Regex.ways fuel (.seqs (s.map glyph ++ [.look .endOfText])) ⟨before, pos, s⟩ caps k =
      k ⟨last, pos + s.length, []⟩ caps := by
  induction s generalizing before pos with
  | nil => exact ⟨before, rfl⟩
  | cons c s ih =>
    obtain ⟨set, hset, hmem⟩ := glyph_self (c := c)
    obtain ⟨last, hlast⟩ := ih (some c) (pos + 1)
    refine ⟨last, ?_⟩
    have hseq : Regex.seqs ((c :: s).map glyph ++ [.look .endOfText]) =
        .seq (.set set) (.seqs (s.map glyph ++ [.look .endOfText])) := by
      cases s <;> simp [Regex.seqs, hset]
    rw [hseq]
    simp only [Regex.ways, hmem, if_true, Cursor.past, hlast, List.length_cons, Nat.add_assoc,
      Nat.add_comm 1]

/-- **A plain text between anchors matches itself.** -/
theorem isMatch_plain {p : Pattern} {s : List Char} (hp : p.regex = anchored s) :
    p.isMatch s = true := by
  have hseq : anchored s =
      .seq (.look .startOfText) (.seqs (s.map glyph ++ [.look .endOfText])) := by
    cases s <;> rfl
  obtain ⟨last, hlast⟩ := ways_glyphs s.length s none 0 []
    (fun there caps => some (⟨0, there.pos, caps⟩ : Found))
  refine isMatch_iff.mpr ⟨0, Nat.zero_le _, ⟨0, 0 + s.length, []⟩, ?_⟩
  rw [matchAt?, hp, hseq]
  exact hlast

end CodeNav.Pattern

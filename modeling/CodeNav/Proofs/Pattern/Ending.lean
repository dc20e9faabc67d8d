import CodeNav.Proofs.Pattern.Literal

/-!
# Texts that end in one of some words

`Regex.ending` is the expression for a dot and one of some words at the end of a text. It
matches **the texts that end so, and no others** (`isMatch_ending_iff`); which of the words is
tried first does not matter for that (`isSome_ways_alts`).
-/

namespace CodeNav

namespace Regex

/-- A dot and one of some words, at the end of a text. -/
def ending (words : List String) : Regex :=
  seqs [.set (.only '.'), .group 1 (alts (words.map fun w => literal w.toList)), .look .endOfText]

variable {β : Type} {fuel : Nat} {here : Cursor} {caps : Captures}
  {k : Cursor → Captures → Option β}

/-- One of several choices matches if the choice of them does. -/
theorem isSome_ways_alts {rs : List Regex} (h : rs ≠ []) :
    (ways fuel (alts rs) here caps k).isSome ↔ ∃ r ∈ rs, (ways fuel r here caps k).isSome := by
  induction rs with
  | nil => exact absurd rfl h
  | cons r rs ih =>
    cases rs with
    | nil => simp [alts]
    | cons r' rs =>
      have hchoice : ways fuel (alts (r :: r' :: rs)) here caps k =
          orElse (ways fuel r here caps k) fun _ => ways fuel (alts (r' :: rs)) here caps k := rfl
      have ih := ih (List.cons_ne_nil _ _)
      rw [hchoice]
      cases hr : ways fuel r here caps k with
      | none => simpa [orElse, hr] using ih
      | some b => simp [orElse, hr]

/-- A word matches up to the end of a text if it is the rest of it. -/
theorem isSome_ways_literal (hk : ∀ there caps, (k there caps).isSome ↔ there.rest = [])
    (s : List Char) : (ways fuel (literal s) here caps k).isSome ↔ here.rest = s := by
  have hways := @ways_letters β fuel here caps k s []
  rw [List.append_nil] at hways
  rw [show literal s = seqs (letters s) from rfl, hways]
  split
  · next h =>
    obtain ⟨t, ht⟩ := List.isPrefixOf_iff_prefix.mp h
    have hrest : (here.advance s.length).rest = t := by
      rw [Cursor.advance_eq (by simp [← ht]), ← ht]
      simp
    refine (hk (here.advance s.length) caps).trans ?_
    simp [← ht, hrest]
  · next h =>
    refine ⟨nofun, ?_⟩
    rintro rfl
    exact absurd (List.isPrefixOf_iff_prefix.mpr (List.prefix_refl _)) h

end Regex

namespace Pattern

open Regex

variable {p : Pattern} {words : List String} (hp : p.regex = ending words) (hne : words ≠ [])

include hp hne

theorem matchAt?_ending_isSome (fuel : Nat) (here : Cursor) :
    (p.matchAt? fuel here).isSome ↔ ∃ w ∈ words, here.rest = '.' :: w.toList := by
  obtain ⟨before, pos, rest⟩ := here
  rw [matchAt?, hp, ending, ways_seqs_cons, ways]
  cases rest with
  | nil => simp
  | cons c rest =>
    by_cases hc : c = '.'
    · subst hc
      have hend : ∀ (here : Cursor) (caps : Captures) (found : Cursor → Captures → Found),
          (ways fuel (seqs [.look .endOfText]) here caps fun there caps =>
            some (found there caps)).isSome ↔ here.rest = [] := by
        intro here caps found
        cases h : here.rest <;> simp [seqs, ways, Look.holds, Cursor.after, h]
      have hwords : words.map (fun w => literal w.toList) ≠ [] := by simpa using hne
      have hdot : (CharSet.only '.').mem '.' = true := by simp [CharSet.mem]
      simp only [hdot, if_true]
      rw [ways_seqs_cons, ways, isSome_ways_alts hwords]
      simp only [List.mem_map, exists_exists_and_eq_and,
        isSome_ways_literal fun there caps => hend there _ _, List.cons.injEq, true_and]
      rfl
    · simp [CharSet.mem, hc]

/-- **The pattern of some extensions keeps the texts that end in a dot and one of them.** -/
theorem isMatch_ending_iff {s : List Char} :
    p.isMatch s = true ↔ ∃ w ∈ words, '.' :: w.toList <:+ s := by
  rw [isMatch_iff]
  simp only [← Option.isSome_iff_exists, matchAt?_ending_isSome hp hne]
  constructor
  · rintro ⟨n, hn, w, hw, hrest⟩
    rw [Cursor.advance_start hn] at hrest
    exact ⟨w, hw, hrest ▸ List.drop_suffix n s⟩
  · rintro ⟨w, hw, hsuffix⟩
    refine ⟨s.length - ('.' :: w.toList).length, Nat.sub_le _ _, w, hw, ?_⟩
    rw [Cursor.advance_start (Nat.sub_le _ _)]
    exact (List.suffix_iff_eq_drop.mp hsuffix).symm

end Pattern

end CodeNav

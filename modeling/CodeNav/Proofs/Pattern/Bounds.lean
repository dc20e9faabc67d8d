import CodeNav.Proofs.Pattern.Captures

/-!
# Where matches lie

A search only ever goes forward, and not past the end of its text. So **a match stops where it
starts or behind, and not behind the end** (`Pattern.find?_within`), and cuts of the text at its
two ends are never out of range.

A pattern that begins with the start of the text is found at the start or nowhere
(`Pattern.matchAt?_of_isAnchored`), so what is left after dropping its match is one piece of the
text and not two (`Pattern.dropFirst_suffix`).
-/

namespace CodeNav

namespace Regex

variable {β : Type}

/-- **What holds of a place and past every character holds wherever a search goes on.** -/
theorem keeps_ways_of_past {P : Cursor → Prop}
    (hpast : ∀ {here : Cursor} {c rest}, P here → here.rest = c :: rest → P (here.past c rest))
    (fuel : Nat) (r : Regex) : Keeps (fun here _ => P here) (ways fuel r : Search β) := by
  induction r with
  | empty => exact fun here caps _ _ hP hb => ⟨here, caps, hP, hb⟩
  | set s =>
    intro here caps k b hP hb
    rw [ways] at hb
    split at hb
    · cases hb
    · next c rest hrest =>
      split at hb
      · exact ⟨_, caps, hpast hP hrest, hb⟩
      · cases hb
  | look l =>
    intro here caps k b hP hb
    rw [ways] at hb
    split at hb
    · exact ⟨here, caps, hP, hb⟩
    · cases hb
  | seq a b iha ihb =>
    intro here caps k x hP hx
    obtain ⟨there, caps', hP', hx'⟩ := iha here caps _ x hP hx
    exact ihb there caps' k x hP' hx'
  | alt a b iha ihb =>
    intro here caps k x hP hx
    rcases orElse_eq_some hx with hx | hx
    · exact iha here caps k x hP hx
    · exact ihb here caps k x hP hx
  | group i a ih =>
    intro here caps k x hP hx
    obtain ⟨there, caps', hP', hx'⟩ := ih here caps _ x hP hx
    exact ⟨there, _, hP', hx'⟩
  | rounds least most greedy a ih => exact ih.repeated least most greedy fuel

/-- The expression begins with the start of the text. -/
def isAnchored : Regex → Bool
  | look .startOfText => true
  | seq a _ => a.isAnchored
  | _ => false

/-- Away from the start of the text there is no way to match. -/
theorem ways_eq_none_of_isAnchored {r : Regex} (h : r.isAnchored = true) {fuel : Nat}
    {here : Cursor} (hbefore : here.before.isSome) (caps : Captures)
    (k : Cursor → Captures → Option β) : ways fuel r here caps k = none := by
  induction r generalizing k with
  | look l =>
    cases l with
    | startOfText =>
      obtain ⟨c, hc⟩ := Option.isSome_iff_exists.mp hbefore
      simp [ways, Look.holds, hc]
    | _ => cases h
  | seq a b iha _ => exact iha h _
  | _ => cases h

end Regex

/-- A match inside a text. -/
structure Found.Within (m : Found) (s : List Char) : Prop where
  start_le : m.start ≤ m.stop
  stop_le : m.stop ≤ s.length

namespace Pattern

variable {p : Pattern} {s : List Char} {m : Found}

/-- A match begins at the place where it is tried, and ends there or further on. -/
theorem bounds_of_matchAt? {fuel : Nat} {here : Cursor} (h : p.matchAt? fuel here = some m) :
    m.start = here.pos ∧ here.pos ≤ m.stop ∧ m.stop ≤ here.pos + here.rest.length := by
  -- what is carried along: the way made and the way left are together as long as at the start
  let P : Cursor → Prop := fun there => here.pos ≤ there.pos ∧
    there.pos + there.rest.length = here.pos + here.rest.length
  have hpast : ∀ {there : Cursor} {c rest}, P there → there.rest = c :: rest →
      P (there.past c rest) := by
    rintro there c rest ⟨hle, hsum⟩ hrest
    rw [hrest, List.length_cons] at hsum
    simp only [P, Cursor.past]
    omega
  obtain ⟨there, caps, ⟨hle, hsum⟩, hm⟩ := Regex.keeps_ways_of_past hpast fuel p.regex here []
    _ m ⟨Nat.le_refl _, rfl⟩ h
  obtain rfl : (⟨here.pos, there.pos, caps⟩ : Found) = m := Option.some.inj hm
  refine ⟨rfl, hle, ?_⟩
  dsimp only
  omega

/-- A match at some place of a text lies inside it. -/
theorem within_of_matchAt? {fuel k : Nat}
    (h : p.matchAt? fuel ((Cursor.start s).advance k) = some m) : m.Within s := by
  obtain ⟨j, hj, heq⟩ := Cursor.exists_advance_start s k
  rw [heq, Cursor.advance_start hj] at h
  obtain ⟨hstart, hle, hstop⟩ := bounds_of_matchAt? h
  simp only [List.length_drop] at hstart hle hstop
  exact ⟨by omega, by omega⟩

/-- **What is found lies inside the text.** -/
theorem find?_within (h : p.find? s = some m) : m.Within s := by
  obtain ⟨k, hmatch, -⟩ := findFrom?_eq_some_iff.mp h
  exact within_of_matchAt? hmatch

theorem within_of_mem_findAll (h : m ∈ p.findAll s) : m.Within s := by
  obtain ⟨k, hmatch⟩ := matchAt?_of_mem_findAllFrom h
  exact within_of_matchAt? hmatch

/-- A pattern that begins with the start of the text matches there or nowhere. -/
theorem matchAt?_of_isAnchored (hp : p.regex.isAnchored = true) (h : p.find? s = some m) :
    p.matchAt? s.length (.start s) = some m := by
  obtain ⟨k, hmatch, -⟩ := findFrom?_eq_some_iff.mp h
  obtain ⟨j, hj, heq⟩ := Cursor.exists_advance_start s k
  rw [heq] at hmatch
  cases j with
  | zero => exact hmatch
  | succ j =>
    have hbefore : (s.take (j + 1)).getLast?.isSome := by
      rw [List.getLast?_isSome, ne_eq, List.take_eq_nil_iff, ← List.length_eq_zero_iff]
      omega
    rw [Cursor.advance_start hj, matchAt?, Regex.ways_eq_none_of_isAnchored hp hbefore] at hmatch
    cases hmatch

theorem start_of_isAnchored (hp : p.regex.isAnchored = true) (h : p.find? s = some m) :
    m.start = 0 :=
  (bounds_of_matchAt? (matchAt?_of_isAnchored hp h)).1

/-- **Without the match of such a pattern, one piece of the text is left.** -/
theorem dropFirst_suffix (hp : p.regex.isAnchored = true) (s : List Char) :
    p.dropFirst s <:+ s := by
  rw [dropFirst]
  cases h : p.find? s with
  | none => exact List.suffix_refl s
  | some m =>
    simp only [start_of_isAnchored hp h, List.take_zero, List.nil_append]
    exact List.drop_suffix m.stop s

end Pattern

end CodeNav

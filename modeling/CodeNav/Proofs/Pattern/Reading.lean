import CodeNav.Proofs.Pattern.Captures

/-!
# Reading a pattern stretch by stretch

A pattern that is put together from texts is read along the seams, if each text is read by
itself: `ReadsAs s rs rest` says that the reader comes from `s ++ rest` to `rest` with the
expressions `rs`. The only thing that looks past a seam is a repetition, which a question mark
behind it turns round.

* `IsPiece` — the text is read as **one expression whatever follows**, so it may be repeated.
* `IsStretch` — it is read as some expressions unless a question mark follows. Stretches go one
  after the other (`IsStretch.append`), and one of several in brackets is a piece
  (`isPiece_alternatives`).
* `parse?_around` — with a stretch before it and one behind it, a group for an escaped text
  reads, and **it is the only numbered group**.
-/

namespace CodeNav.Pattern

open Regex

/-- The reader comes from `s ++ rest` to `rest`, with some expressions more. -/
def ReadsAs (s : List Char) (rs : List Regex) (rest : List Char) : Prop :=
  ∀ fuel groups names branch branches, (s ++ rest).length < fuel →
    ∃ fuel', rest.length < fuel' ∧
      body? fuel ⟨s ++ rest, {}, groups, names⟩ branch branches =
        body? fuel' ⟨rest, {}, groups, names⟩ ((rs.map some).reverse ++ branch) branches

variable {s s' rest : List Char} {rs rs' : List Regex} {r : Regex}

theorem ReadsAs.append (h : ReadsAs s rs (s' ++ rest)) (h' : ReadsAs s' rs' rest) :
    ReadsAs (s ++ s') (rs ++ rs') rest := by
  intro fuel groups names branch branches hfuel
  rw [List.append_assoc] at hfuel ⊢
  obtain ⟨fuel', hfuel', heq⟩ := h fuel groups names branch branches hfuel
  obtain ⟨fuel'', hfuel'', heq'⟩ := h' fuel' groups names _ branches hfuel'
  refine ⟨fuel'', hfuel'', ?_⟩
  rw [heq, heq']
  simp

/-- One step of the reader takes the text. -/
theorem readsAs_of_step (hs : s ≠ [])
    (hstep : ∀ fuel groups names branch branches, (s ++ rest).length ≤ fuel →
      body? (fuel + 1) ⟨s ++ rest, {}, groups, names⟩ branch branches =
        body? fuel ⟨rest, {}, groups, names⟩ (some r :: branch) branches) : ReadsAs s [r] rest := by
  intro fuel groups names branch branches hfuel
  have hpos : 0 < s.length := List.length_pos_iff.mpr hs
  have hlength : (s ++ rest).length = s.length + rest.length := List.length_append
  obtain ⟨fuel, rfl⟩ : ∃ n, fuel = n + 1 := Nat.exists_eq_add_one_of_ne_zero (by omega)
  exact ⟨fuel, by omega, hstep fuel groups names branch branches (by omega)⟩

/-- **An escaped text is read as its characters.** -/
theorem readsAs_escaped (t rest : List Char) : ReadsAs (escapeChars t) (letters t) rest := by
  intro fuel groups names branch branches hfuel
  have hle := length_le_length_escapeChars t
  rw [List.length_append] at hfuel
  obtain ⟨extra, rfl⟩ := Nat.exists_eq_add_of_le' (show t.length ≤ fuel by omega)
  refine ⟨extra, by omega, ?_⟩
  rw [body?_escaped, List.map_reverse]

/-! ## Pieces -/

/-- The text is read as one expression without numbered groups, whatever follows. -/
def IsPiece (s : List Char) : Prop := ∃ r : Regex, r.isGroupless = true ∧ ∀ rest, ReadsAs s [r] rest

/-- What the reader takes as one character, class or assertion is a piece. -/
theorem isPiece_of_primitive {c : Char} (hc : c ∉ ['(', ')', '|', '?', '*', '+', '\x7b'])
    (hr : r.isGroupless = true)
    (h : ∀ rest, primitive? {} (c :: (s ++ rest)) = some (r, rest)) : IsPiece (c :: s) := by
  simp only [List.mem_cons, List.not_mem_nil, or_false, not_or] at hc
  obtain ⟨hopen, hclose, hbar, hask, hstar, hplus, hbrace⟩ := hc
  refine ⟨r, hr, fun rest => readsAs_of_step (List.cons_ne_nil c s) ?_⟩
  intro fuel groups names branch branches _
  have hspace : Reader.dropSpace {} (c :: (s ++ rest)) = c :: (s ++ rest) := rfl
  rw [List.cons_append, body?, hspace]
  split
  · next heq => cases heq
  · next heq => cases heq; contradiction
  · next heq => cases heq; contradiction
  · next heq => cases heq; contradiction
  · next heq =>
    cases heq
    simp only [hplus, hstar, hask, hbrace, h]
    rfl

theorem isPiece_plain {c : Char} (hc : isPlain c) : IsPiece [c] := by
  refine isPiece_of_primitive (r := glyph c) ?_ ?_ fun rest => primitive?_plain hc rest
  · have := isPlain_iff.mp hc
    simp [this]
  · rw [glyph]
    split <;> rfl

theorem isPiece_escaped {c : Char} (hc : isMeta c = true) : IsPiece ['\\', c] :=
  isPiece_of_primitive (by decide) rfl fun rest => primitive?_escaped hc rest

theorem isPiece_blank : IsPiece ['\\', 's'] :=
  isPiece_of_primitive (r := .set .blank) (by decide) rfl fun _ => rfl

theorem isPiece_caret : IsPiece ['^'] :=
  isPiece_of_primitive (r := .look .startOfText) (by decide) rfl fun _ => rfl

theorem isPiece_dollar : IsPiece ['$'] :=
  isPiece_of_primitive (r := .look .endOfText) (by decide) rfl fun _ => rfl

/-! ## Stretches -/

/-- The text is read as expressions without numbered groups, unless a question mark follows. -/
def IsStretch (s : List Char) : Prop :=
  ∃ rs : List Regex, (∀ r ∈ rs, r.isGroupless = true) ∧
    ∀ rest : List Char, rest.head? ≠ some '?' → ReadsAs s rs rest

theorem IsPiece.isStretch (h : IsPiece s) : IsStretch s := by
  obtain ⟨r, hr, hreads⟩ := h
  exact ⟨[r], List.forall_mem_singleton.mpr hr, fun rest _ => hreads rest⟩

theorem isStretch_nil : IsStretch [] :=
  ⟨[], List.forall_mem_nil _, fun _ _ fuel _ _ _ _ hfuel => ⟨fuel, hfuel, rfl⟩⟩

theorem IsStretch.append (h : IsStretch s) (h' : IsStretch s') (hhead : s'.head? ≠ some '?') :
    IsStretch (s ++ s') := by
  obtain ⟨rs, hrs, hreads⟩ := h
  obtain ⟨rs', hrs', hreads'⟩ := h'
  refine ⟨rs ++ rs', List.forall_mem_append.mpr ⟨hrs, hrs'⟩, fun rest hrest => ?_⟩
  refine (hreads (s' ++ rest) ?_).append (hreads' rest hrest)
  cases s' with
  | nil => exact hrest
  | cons c s' => exact hhead

/-- A word is a stretch. -/
theorem isStretch_plain (h : s.all isPlain = true) : IsStretch s := by
  induction s with
  | nil => exact isStretch_nil
  | cons c s ih =>
    obtain ⟨hc, hs⟩ := Bool.and_eq_true_iff.mp h
    refine (isPiece_plain hc).isStretch.append (ih hs) ?_
    cases s with
    | nil => nofun
    | cons d s =>
      have hd := isPlain_iff.mp (List.all_eq_true.mp hs d List.mem_cons_self)
      simp [hd]

/-- The marks of repetitions. -/
def marks : List Char := ['?', '*', '+']

/-- The least and the most rounds that a mark stands for. -/
def roundsOf : Char → Nat × Option Nat
  | '*' => (0, none)
  | '+' => (1, none)
  | _ => (0, some 1)

/-- A mark without a question mark behind it prefers more rounds. -/
theorem repetition?_mark {c : Char} (hc : c ∈ marks) (hrest : rest.head? ≠ some '?') :
    repetition? {} (c :: rest) = some ((roundsOf c).1, (roundsOf c).2, true, rest) := by
  have hprefer : preference {} rest = (true, rest) := by
    rw [preference]
    split
    · next heq =>
      have heq : rest = '?' :: _ := heq
      simp [heq] at hrest
    · rfl
  simp only [marks, List.mem_cons, List.not_mem_nil, or_false] at hc
  rcases hc with rfl | rfl | rfl <;> simp [repetition?, roundsOf, hprefer]

/-- **A piece may be repeated.** -/
theorem IsPiece.repeated (h : IsPiece s) {c : Char} (hc : c ∈ marks) : IsStretch (s ++ [c]) := by
  obtain ⟨r, hr, hreads⟩ := h
  refine ⟨[.rounds (roundsOf c).1 (roundsOf c).2 true r], List.forall_mem_singleton.mpr hr, ?_⟩
  intro rest hrest fuel groups names branch branches hfuel
  rw [List.append_assoc] at hfuel ⊢
  obtain ⟨fuel', hfuel', heq⟩ := hreads (c :: rest) fuel groups names branch branches hfuel
  obtain ⟨fuel', rfl⟩ : ∃ n, fuel' = n + 1 := Nat.exists_eq_add_one_of_ne_zero (by omega)
  refine ⟨fuel', by simpa using hfuel', heq.trans ?_⟩
  have hspace : Reader.dropSpace {} (c :: rest) = c :: rest := rfl
  have hrepetition := repetition?_mark hc hrest
  simp only [marks, List.mem_cons, List.not_mem_nil, or_false] at hc
  rcases hc with rfl | rfl | rfl <;> simp [body?, hspace, hrepetition]

/-! ## Brackets -/

/-- What stands before a closing bracket is one more alternative. -/
theorem body?_close {fuel groups : Nat} {names : List (String × Nat)} {branches : List Regex}
    (h : ReadsAs s rs (')' :: rest)) (hfuel : (s ++ ')' :: rest).length < fuel) :
    body? fuel ⟨s ++ ')' :: rest, {}, groups, names⟩ [] branches =
      some (alts (branches ++ [seqs rs]), ⟨')' :: rest, {}, groups, names⟩) := by
  obtain ⟨fuel', hfuel', heq⟩ := h fuel groups names [] branches hfuel
  obtain ⟨fuel', rfl⟩ : ∃ n, fuel' = n + 1 := Nat.exists_eq_add_one_of_ne_zero (by omega)
  have hspace : Reader.dropSpace {} (')' :: rest) = ')' :: rest := rfl
  rw [heq, body?, hspace]
  simp [List.filterMap_map]

/-- What stands before a bar is an alternative, too. -/
theorem body?_bar {fuel groups : Nat} {names : List (String × Nat)} {branches : List Regex}
    (h : ReadsAs s rs ('|' :: rest)) (hfuel : (s ++ '|' :: rest).length < fuel) :
    ∃ fuel', rest.length < fuel' ∧
      body? fuel ⟨s ++ '|' :: rest, {}, groups, names⟩ [] branches =
        body? fuel' ⟨rest, {}, groups, names⟩ [] (branches ++ [seqs rs]) := by
  obtain ⟨fuel', hfuel', heq⟩ := h fuel groups names [] branches hfuel
  obtain ⟨fuel', rfl⟩ : ∃ n, fuel' = n + 1 := Nat.exists_eq_add_one_of_ne_zero (by omega)
  have hspace : Reader.dropSpace {} ('|' :: rest) = '|' :: rest := rfl
  refine ⟨fuel', by simpa using hfuel', ?_⟩
  rw [heq, body?, hspace]
  simp [List.filterMap_map]

theorem isGroupless_alts {rs : List Regex} (h : ∀ r ∈ rs, r.isGroupless = true) :
    (alts rs).isGroupless = true := by
  induction rs with
  | nil => rfl
  | cons r rs ih =>
    obtain ⟨hr, hrs⟩ := List.forall_mem_cons.mp h
    cases rs with
    | nil => exact hr
    | cons r' rs => exact Bool.and_eq_true_iff.mpr ⟨hr, ih hrs⟩

theorem isGroupless_seqs {rs : List Regex} (h : ∀ r ∈ rs, r.isGroupless = true) :
    (seqs rs).isGroupless = true := by
  induction rs with
  | nil => rfl
  | cons r rs ih =>
    obtain ⟨hr, hrs⟩ := List.forall_mem_cons.mp h
    cases rs with
    | nil => exact hr
    | cons r' rs => exact Bool.and_eq_true_iff.mpr ⟨hr, ih hrs⟩

/-- Stretches with bars between them are read as alternatives. -/
theorem exists_body?_alternatives {ss : List (List Char)} (hne : ss ≠ [])
    (h : ∀ s ∈ ss, IsStretch s) :
    ∃ rs : List Regex, (∀ r ∈ rs, r.isGroupless = true) ∧
      ∀ fuel rest groups names branches, (['|'].intercalate ss ++ ')' :: rest).length < fuel →
        body? fuel ⟨['|'].intercalate ss ++ ')' :: rest, {}, groups, names⟩ [] branches =
          some (alts (branches ++ rs), ⟨')' :: rest, {}, groups, names⟩) := by
  induction ss with
  | nil => exact absurd rfl hne
  | cons s ss ih =>
    obtain ⟨⟨rs, hrs, hreads⟩, hss⟩ := List.forall_mem_cons.mp h
    cases ss with
    | nil =>
      refine ⟨[seqs rs], List.forall_mem_singleton.mpr (isGroupless_seqs hrs), ?_⟩
      intro fuel rest groups names branches hfuel
      rw [List.intercalate_singleton] at hfuel ⊢
      exact body?_close (hreads _ (by simp)) hfuel
    | cons s' ss =>
      obtain ⟨rs', hrs', hbody⟩ := ih (List.cons_ne_nil s' ss) hss
      refine ⟨seqs rs :: rs', List.forall_mem_cons.mpr ⟨isGroupless_seqs hrs, hrs'⟩, ?_⟩
      intro fuel rest groups names branches hfuel
      have hlist : ['|'].intercalate (s :: s' :: ss) ++ ')' :: rest =
          s ++ '|' :: (['|'].intercalate (s' :: ss) ++ ')' :: rest) := by
        simp [List.intercalate_cons_cons]
      rw [hlist] at hfuel ⊢
      obtain ⟨fuel', hfuel', heq⟩ := body?_bar (hreads _ (by simp)) hfuel
      rw [heq, hbody fuel' rest groups names _ hfuel', List.append_assoc, List.singleton_append]

/-- **One of several stretches, in brackets, is a piece.** -/
theorem isPiece_alternatives {ss : List (List Char)} (hne : ss ≠ []) (h : ∀ s ∈ ss, IsStretch s) :
    IsPiece (['(', '?', ':'] ++ ['|'].intercalate ss ++ [')']) := by
  obtain ⟨rs, hrs, hbody⟩ := exists_body?_alternatives hne h
  refine ⟨alts rs, isGroupless_alts hrs, fun rest => readsAs_of_step (by simp) ?_⟩
  intro fuel groups names branch branches hfuel
  have hlist : ['(', '?', ':'] ++ ['|'].intercalate ss ++ [')'] ++ rest =
      '(' :: '?' :: ':' :: (['|'].intercalate ss ++ ')' :: rest) := by
    simp
  have hinner := hbody fuel rest groups names [] (by rw [hlist] at hfuel; simp at hfuel ⊢; omega)
  have hspace : ∀ s, Reader.dropSpace {} s = s := fun _ => rfl
  have hopening : ∀ rest, opening? {} ('?' :: ':' :: rest) = some (.plain {}, rest) := fun _ => rfl
  rw [hlist, body?, hspace]
  simp only [hopening, hinner, List.nil_append]

/-! ## A group with a name -/

theorem opening?_name (rest : List Char) :
    opening? {} ('?' :: 'P' :: '<' :: 'n' :: 'a' :: 'm' :: 'e' :: '>' :: rest) =
      some (.capture (some "name"), rest) := by
  have hname : groupName? ('n' :: 'a' :: 'm' :: 'e' :: '>' :: rest) = some ("name", rest) := by
    have hchars : isGroupNameChar true 'n' = true ∧
        ['a', 'm', 'e'].all (isGroupNameChar false) = true := by
      decide
    simpa [groupName?] using hchars
  rw [opening?, hname]
  rfl

/-- The first group that is opened, for an escaped text. -/
theorem body?_name (t rest : List Char) (branch : List (Option Regex)) (branches : List Regex)
    {fuel : Nat} (hfuel : ("(?P<name>".toList ++ escapeChars t ++ ')' :: rest).length < fuel) :
    ∃ fuel', rest.length < fuel' ∧
      body? fuel ⟨"(?P<name>".toList ++ escapeChars t ++ ')' :: rest, {}, 0, []⟩ branch branches =
        body? fuel' ⟨rest, {}, 1, [("name", 1)]⟩ (some (.group 1 (seqs (letters t))) :: branch)
          branches := by
  have hlist : "(?P<name>".toList ++ escapeChars t ++ ')' :: rest =
      '(' :: '?' :: 'P' :: '<' :: 'n' :: 'a' :: 'm' :: 'e' :: '>' ::
        (escapeChars t ++ ')' :: rest) := by
    simp
  rw [hlist] at hfuel ⊢
  simp only [List.length_cons, List.length_append] at hfuel
  obtain ⟨fuel, rfl⟩ : ∃ n, fuel = n + 1 := Nat.exists_eq_add_one_of_ne_zero (by omega)
  have hinner : body? fuel ⟨escapeChars t ++ ')' :: rest, {}, 1, [("name", 1)]⟩ [] [] = _ :=
    body?_close (readsAs_escaped t (')' :: rest)) (by simp; omega)
  have hspace : ∀ s, Reader.dropSpace {} s = s := fun _ => rfl
  have hopen : ∀ s rest, (⟨s, {}, 0, []⟩ : Reader).openGroup? (some "name") rest =
      some ⟨rest, {}, 1, [("name", 1)]⟩ := fun _ _ => rfl
  refine ⟨fuel, by omega, ?_⟩
  rw [body?, hspace]
  simp only [opening?_name, hopen, hinner]
  rfl

/-- The text of a pattern with a group for a text in it. -/
def around (front t back : String) : String := front ++ ("(?P<name>" ++ escape t ++ ")") ++ back

theorem parse?_around_of_readsAs {front back : String} {fs bs : List Regex}
    (hfront : ∀ rest, rest.head? ≠ some '?' → ReadsAs front.toList fs rest)
    (hback : ReadsAs back.toList bs []) (t : String) :
    parse? (around front t back) =
      some ⟨around front t back, seqs (fs ++ .group 1 (seqs (letters t.toList)) :: bs),
        [("name", 1)]⟩ := by
  let named : List Char := "(?P<name>".toList ++ escapeChars t.toList ++ ')' :: back.toList
  have hlist : (around front t back).toList = front.toList ++ named := by
    simp [around, escape, named]
  have hhead : named.head? ≠ some '?' := by simp [named]
  -- the reader goes over the front, the group and what stands behind it
  obtain ⟨fuel, hfuel, hread⟩ := hfront named hhead _ 0 [] [] [] (Nat.lt_succ_self _)
  obtain ⟨fuel', hfuel', hname⟩ := body?_name t.toList back.toList ((fs.map some).reverse ++ []) []
    hfuel
  obtain ⟨fuel'', hfuel'', hend⟩ := hback fuel' 1 [("name", 1)]
    (some (.group 1 (seqs (letters t.toList))) :: ((fs.map some).reverse ++ [])) []
    (by simpa using hfuel')
  obtain ⟨last, rfl⟩ : ∃ n, fuel'' = n + 1 := Nat.exists_eq_add_one_of_ne_zero (by omega)
  have hbody : body? ((front.toList ++ named).length + 1) ⟨front.toList ++ named, {}, 0, []⟩ [] [] =
      some (seqs (fs ++ .group 1 (seqs (letters t.toList)) :: bs),
        ⟨[], {}, 1, [("name", 1)]⟩) := by
    rw [List.append_nil] at hend
    rw [hread, hname, hend]
    simp [body?, Reader.dropSpace, alts, List.filterMap_map]
  rw [parse?]
  simp only [hlist, hbody]

/-- **A group for an escaped text, between two stretches, reads, and it is the only numbered
group.** -/
theorem parse?_around {front back : String} (hfront : IsStretch front.toList)
    (hback : IsStretch back.toList) (t : String) :
    ∃ p, parse? (around front t back) = some p ∧ p.groupNumber? "name" = some 1 ∧
      p.regex.Spells 1 t.toList := by
  obtain ⟨fs, hfs, hreads⟩ := hfront
  obtain ⟨bs, hbs, hreads'⟩ := hback
  refine ⟨_, parse?_around_of_readsAs hreads (hreads' [] nofun) t, rfl, spells_seqs ?_⟩
  refine List.forall_mem_append.mpr ⟨?_, List.forall_mem_cons.mpr ⟨spells_group_letters, ?_⟩⟩
  · exact fun r hr => spells_of_isGroupless (hfs r hr)
  · exact fun r hr => spells_of_isGroupless (hbs r hr)

end CodeNav.Pattern

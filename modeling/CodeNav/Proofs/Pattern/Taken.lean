import CodeNav.Proofs.Pattern.Bounds

/-!
# The way that is taken

A search prefers more rounds to fewer, and so, between the ways that would all do, one is taken.
An expression `Takes` a text in front of another one if the search for it **goes past just that
text whenever what follows can go on from there**. Expressions in a row take their texts in a row
(`Takes.seq`), an optional character is taken where it stands and passed over where it does not,
and any number of characters of a set is taken up to the first that is not in it (`Takes.run`). A
reluctant repetition goes the other way: it **ends as soon as what follows can go on**
(`Takes.upTo`).

In the other direction, a pattern that begins behind the indentation of a line with some fixed
characters (`Regex.led`) matches **only lines with these characters there**
(`Pattern.led_of_isMatch`).
-/

namespace CodeNav

namespace Regex

/-- In front of `y`, the search goes past `x`, adding spans that depend on the place. -/
structure Takes (fuel : Nat) (r : Regex) (x y : List Char) (spans : Nat → Captures) : Prop where
  way : ∀ {β : Type} (here : Cursor) (caps : Captures) (k : Cursor → Captures → Option β) (b : β),
    here.rest = x ++ y → k (here.advance x.length) (spans here.pos ++ caps) = some b →
      ways fuel r here caps k = some b

/-- No spans. -/
def noSpans : Nat → Captures := fun _ => []

section Takes

variable {fuel : Nat} {x y z : List Char} {s : CharSet} {c : Char}

theorem Takes.seq {a r : Regex} {spans spans' : Nat → Captures}
    (ha : Takes fuel a x (y ++ z) spans) (hr : Takes fuel r y z spans') :
    Takes fuel (.seq a r) (x ++ y) z fun pos => spans' (pos + x.length) ++ spans pos := by
  refine ⟨fun here caps k b hrest hk => ?_⟩
  have hplace : here.advance x.length = ⟨(here.rest.take x.length).getLast?.or here.before,
      here.pos + x.length, here.rest.drop x.length⟩ := Cursor.advance_eq (by simp [hrest])
  rw [List.append_assoc] at hrest
  rw [ways]
  refine ha.way here caps _ b hrest (hr.way _ _ _ b ?_ ?_)
  · rw [hplace, hrest, List.drop_left]
  · rw [Cursor.advance_advance, ← List.length_append, hplace]
    rwa [List.append_assoc] at hk

theorem Takes.group {r : Regex} {spans : Nat → Captures} (i : Nat)
    (h : Takes fuel r x y spans) :
    Takes fuel (.group i r) x y fun pos => (i, pos, pos + x.length) :: spans pos := by
  refine ⟨fun here caps k b hrest hk => ?_⟩
  rw [ways]
  refine h.way here caps _ b hrest ?_
  rwa [Cursor.advance_eq (by simp [hrest])] at hk ⊢

section Set

variable {β : Type} {caps : Captures} {k : Cursor → Captures → Option β}

theorem ways_set_cons (hc : s.mem c = true) {before : Option Char} {pos : Nat} {rest : List Char} :
    ways fuel (.set s) ⟨before, pos, c :: rest⟩ caps k = k ⟨some c, pos + 1, rest⟩ caps := by
  rw [ways]
  exact if_pos hc

theorem ways_set_eq_none {here : Cursor} (h : ∀ c ∈ here.rest.head?, s.mem c = false) :
    ways fuel (.set s) here caps k = none := by
  rw [ways]
  cases hrest : here.rest with
  | nil => rfl
  | cons c rest =>
    rw [hrest] at h
    exact if_neg (Bool.eq_false_iff.mp (h c rfl))

/-- Rounds over a set go on to the first character that is not in it. -/
theorem further_set (hx : ∀ c ∈ x, s.mem c = true) (hy : ∀ c ∈ y.head?, s.mem c = false)
    {rounds : Nat} (hrounds : x.length ≤ rounds) {before : Option Char} {pos : Nat} {b : β}
    (hk : k ((⟨before, pos, x ++ y⟩ : Cursor).advance x.length) caps = some b) :
    further true (ways fuel (.set s)) rounds ⟨before, pos, x ++ y⟩ caps k = some b := by
  induction x generalizing before pos rounds with
  | nil =>
    cases rounds with
    | zero => exact hk
    | succ rounds =>
      rw [further, prefer, if_pos rfl, ways_set_eq_none hy, orElse]
      exact hk
  | cons c x ih =>
    obtain ⟨hc, hx⟩ := List.forall_mem_cons.mp hx
    cases rounds with
    | zero => cases hrounds
    | succ rounds =>
      have hgone := ih hx (Nat.le_of_succ_le_succ hrounds) hk
      rw [List.cons_append, further, prefer, if_pos rfl, ways_set_cons hc,
        if_neg (Nat.succ_ne_self pos), hgone, orElse]

theorem oneOrMore_set (hne : x ≠ []) (hx : ∀ c ∈ x, s.mem c = true)
    (hy : ∀ c ∈ y.head?, s.mem c = false) (hfuel : x.length ≤ fuel) {before : Option Char}
    {pos : Nat} {b : β}
    (hk : k ((⟨before, pos, x ++ y⟩ : Cursor).advance x.length) caps = some b) :
    oneOrMore true (ways fuel (.set s)) fuel ⟨before, pos, x ++ y⟩ caps k = some b := by
  obtain ⟨c, x, rfl⟩ := List.exists_cons_of_ne_nil hne
  obtain ⟨hc, hx⟩ := List.forall_mem_cons.mp hx
  have hgone : further true (ways fuel (.set s)) fuel ⟨some c, pos + 1, x ++ y⟩ caps k = some b :=
    further_set hx hy (Nat.le_of_succ_le hfuel) hk
  rw [oneOrMore, List.cons_append, ways_set_cons hc, if_neg (Nat.succ_ne_self pos), hgone]

theorem anyNumber_set (hx : ∀ c ∈ x, s.mem c = true) (hy : ∀ c ∈ y.head?, s.mem c = false)
    (hfuel : x.length ≤ fuel) {before : Option Char} {pos : Nat} {b : β}
    (hk : k ((⟨before, pos, x ++ y⟩ : Cursor).advance x.length) caps = some b) :
    anyNumber true (ways fuel (.set s)) fuel ⟨before, pos, x ++ y⟩ caps k = some b := by
  rw [anyNumber, prefer, if_pos rfl]
  cases x with
  | nil =>
    rw [oneOrMore, ways_set_eq_none hy, orElse]
    exact hk
  | cons c x => rw [oneOrMore_set (List.cons_ne_nil c x) hx hy hfuel hk, orElse]

section Reluctant

variable {before : Option Char} {pos : Nat} {b : β}

/-- Reluctant rounds over a set go on as long as what follows cannot. -/
theorem further_set_reluctant (hx : ∀ c ∈ x, s.mem c = true) {rounds : Nat}
    (hrounds : x.length ≤ rounds)
    (hno : ∀ n < x.length, k ((⟨before, pos, x ++ y⟩ : Cursor).advance n) caps = none)
    (hk : k ((⟨before, pos, x ++ y⟩ : Cursor).advance x.length) caps = some b) :
    further false (ways fuel (.set s)) rounds ⟨before, pos, x ++ y⟩ caps k = some b := by
  induction x generalizing before pos rounds with
  | nil =>
    have hk : k ⟨before, pos, y⟩ caps = some b := by simpa using hk
    cases rounds with
    | zero => exact hk
    | succ rounds => rw [further, prefer, if_neg Bool.false_ne_true, List.nil_append, hk, orElse]
  | cons c x ih =>
    obtain ⟨hc, hx⟩ := List.forall_mem_cons.mp hx
    cases rounds with
    | zero => cases hrounds
    | succ rounds =>
      have hhere : k ⟨before, pos, c :: (x ++ y)⟩ caps = none := by
        simpa using hno 0 (Nat.succ_pos _)
      have hgone := ih hx (Nat.le_of_succ_le_succ hrounds)
        (fun n hn => hno (n + 1) (Nat.succ_lt_succ hn)) hk
      rw [List.cons_append, further, prefer, if_neg Bool.false_ne_true, hhere, orElse,
        ways_set_cons hc, if_neg (Nat.succ_ne_self pos), hgone]

theorem anyNumber_set_reluctant (hx : ∀ c ∈ x, s.mem c = true) (hfuel : x.length ≤ fuel)
    (hno : ∀ n < x.length, k ((⟨before, pos, x ++ y⟩ : Cursor).advance n) caps = none)
    (hk : k ((⟨before, pos, x ++ y⟩ : Cursor).advance x.length) caps = some b) :
    anyNumber false (ways fuel (.set s)) fuel ⟨before, pos, x ++ y⟩ caps k = some b := by
  rw [anyNumber, prefer, if_neg Bool.false_ne_true]
  cases x with
  | nil =>
    have hk : k ⟨before, pos, y⟩ caps = some b := by simpa using hk
    rw [List.nil_append, hk, orElse]
  | cons c x =>
    obtain ⟨hc, hx⟩ := List.forall_mem_cons.mp hx
    have hhere : k ⟨before, pos, c :: (x ++ y)⟩ caps = none := by
      simpa using hno 0 (Nat.succ_pos _)
    have hgone : further false (ways fuel (.set s)) fuel ⟨some c, pos + 1, x ++ y⟩ caps k =
        some b :=
      further_set_reluctant hx (Nat.le_of_succ_le hfuel)
        (fun n hn => hno (n + 1) (Nat.succ_lt_succ hn)) hk
    rw [List.cons_append, hhere, orElse, oneOrMore, ways_set_cons hc,
      if_neg (Nat.succ_ne_self pos), hgone]

end Reluctant

end Set

theorem Takes.set (hc : s.mem c = true) : Takes fuel (.set s) [c] y noSpans := by
  refine ⟨fun here caps k b hrest hk => ?_⟩
  obtain ⟨before, pos, rest⟩ := here
  obtain rfl : rest = c :: y := hrest
  rw [ways_set_cons hc]
  exact hk

/-- **Any number of characters of a set are taken up to the first that is not in it.** -/
theorem Takes.run (hx : ∀ c ∈ x, s.mem c = true) (hy : ∀ c ∈ y.head?, s.mem c = false)
    (hfuel : x.length ≤ fuel) : Takes fuel (.rounds 0 none true (.set s)) x y noSpans := by
  refine ⟨fun here caps k b hrest hk => ?_⟩
  obtain ⟨before, pos, rest⟩ := here
  obtain rfl : rest = x ++ y := hrest
  exact anyNumber_set hx hy hfuel hk

/-- The same for one character at least, if there is one. -/
theorem Takes.oneOrMore (hne : x ≠ []) (hx : ∀ c ∈ x, s.mem c = true)
    (hy : ∀ c ∈ y.head?, s.mem c = false) (hfuel : x.length ≤ fuel) :
    Takes fuel (.rounds 1 none true (.set s)) x y noSpans := by
  refine ⟨fun here caps k b hrest hk => ?_⟩
  obtain ⟨before, pos, rest⟩ := here
  obtain rfl : rest = x ++ y := hrest
  exact oneOrMore_set hne hx hy hfuel hk

/-- **A reluctant group ends at the first character that can follow it.** -/
theorem Takes.upTo (i : Nat) (hx : ∀ d ∈ x, s.mem d = true) (hc : c ∉ x)
    (hfuel : x.length ≤ fuel) :
    Takes fuel (seqs [.group i (.rounds 0 none false (.set s)), .set (.only c)]) (x ++ [c]) y
      fun pos => [(i, pos, pos + x.length)] := by
  refine ⟨fun {β} here caps k b hrest hk => ?_⟩
  obtain ⟨before, pos, rest⟩ := here
  obtain rfl : rest = x ++ c :: y := by simpa using hrest
  have hplace (n : Nat) (hn : n ≤ x.length) :
      (⟨before, pos, x ++ c :: y⟩ : Cursor).advance n =
        ⟨(x.take n).getLast?.or before, pos + n, x.drop n ++ c :: y⟩ := by
    rw [Cursor.advance_eq (by simp; omega), List.take_append_of_le_length hn,
      List.drop_append_of_le_length hn]
  rw [ways_seqs_cons, ways]
  have hrounds (k' : Cursor → Captures → Option β) (here : Cursor) :
      ways fuel (.rounds 0 none false (.set s)) here caps k' =
        anyNumber false (ways fuel (.set s)) fuel here caps k' := rfl
  rw [hrounds]
  refine anyNumber_set_reluctant hx hfuel (fun n hn => ?_) ?_
  · -- inside of the text stands another character
    refine ways_set_eq_none fun d hd => ?_
    rw [hplace n (Nat.le_of_lt hn), List.drop_eq_getElem_cons hn] at hd
    obtain rfl : x[n] = d := Option.some.inj hd
    refine Bool.eq_false_iff.mpr fun hmem => hc ?_
    rw [CharSet.mem, decide_eq_true_eq] at hmem
    exact hmem ▸ List.getElem_mem hn
  · have hstop := hplace x.length (Nat.le_refl _)
    have hmem : (CharSet.only c).mem c = true := by simp [CharSet.mem]
    rw [List.drop_length, List.nil_append] at hstop
    rw [hstop, seqs, ways_set_cons hmem]
    rw [List.length_append, List.length_singleton, ← Cursor.advance_advance, hstop,
      Cursor.advance_cons, Cursor.advance_zero] at hk
    exact hk

/-- In a row, the texts are taken in a row. -/
theorem Takes.cons {a : Regex} {rs : List Regex} {spans spans' : Nat → Captures}
    (ha : Takes fuel a x (y ++ z) spans) (hr : Takes fuel (seqs rs) y z spans') :
    Takes fuel (seqs (a :: rs)) (x ++ y) z fun pos => spans' (pos + x.length) ++ spans pos := by
  refine ⟨fun here caps k b hrest hk => ?_⟩
  rw [ways_seqs_cons]
  exact (Takes.seq ha hr).way here caps k b hrest hk

/-- Spelled characters take themselves. -/
theorem Takes.letters (t : List Char) {rs : List Regex} {spans : Nat → Captures}
    (hr : Takes fuel (seqs rs) y z spans) :
    Takes fuel (seqs (letters t ++ rs)) (t ++ y) z fun pos => spans (pos + t.length) := by
  refine ⟨fun here caps k b hrest hk => ?_⟩
  rw [List.append_assoc] at hrest
  have hplace : here.advance t.length = ⟨(here.rest.take t.length).getLast?.or here.before,
      here.pos + t.length, here.rest.drop t.length⟩ := Cursor.advance_eq (by simp [hrest])
  rw [ways_letters, if_pos (List.isPrefixOf_iff_prefix.mpr (hrest ▸ List.prefix_append _ _))]
  refine hr.way _ caps k b ?_ ?_
  · rw [hplace, hrest, List.drop_left]
  · rw [Cursor.advance_advance, ← List.length_append, hplace]
    exact hk

/-- A spelled word, and its end. -/
theorem Takes.word {t : List Char} (hc : t.getLast? = some c) (ht : Text.isWord c = true)
    (hy : ∀ c ∈ y.head?, Text.isWord c = false) :
    Takes fuel (seqs (Regex.letters t ++ [.look (.wordBoundary false)])) t y noSpans := by
  refine ⟨fun here caps k b hrest hk => ?_⟩
  rw [ways_letters, if_pos (List.isPrefixOf_iff_prefix.mpr (hrest ▸ List.prefix_append _ _)),
    ways_seqs_cons, ways, if_pos]
  · exact hk
  · have hword : Look.wordAt false (some c) = true := by
      rw [Look.wordAt, if_neg Bool.false_ne_true, ht]
    have hother : Look.wordAt false y.head? = false := by
      cases hhead : y.head? with
      | none => rfl
      | some d => rw [Look.wordAt, if_neg Bool.false_ne_true, hy d hhead]
    rw [Cursor.advance_eq (by simp [hrest]), hrest, List.take_left, List.drop_left, hc,
      Look.holds, Cursor.after]
    simp only [Option.some_or, hword, hother]
    rfl

/-- An optional expression is taken where it can be. -/
theorem Takes.optional {r : Regex} {spans : Nat → Captures} (h : Takes fuel r x y spans) :
    Takes fuel (.rounds 0 (some 1) true r) x y spans := by
  refine ⟨fun here caps k b hrest hk => ?_⟩
  have htaken := h.way here caps k b hrest hk
  have hround : ways fuel (.rounds 0 (some 1) true r) here caps k =
      orElse (ways fuel r here caps k) fun _ => k here caps := rfl
  rw [hround, htaken, orElse]

/-- An optional character is passed over where it does not stand. -/
theorem Takes.skip (hy : ∀ c ∈ y.head?, s.mem c = false) :
    Takes fuel (.rounds 0 (some 1) true (.set s)) [] y noSpans := by
  refine ⟨fun here caps k b hrest hk => ?_⟩
  have hround : ways fuel (.rounds 0 (some 1) true (.set s)) here caps k =
      orElse (ways fuel (.set s) here caps k) fun _ => k here caps := rfl
  rw [List.nil_append] at hrest
  rw [hround, ways_set_eq_none (hrest ▸ hy), orElse]
  rwa [List.length_nil, Cursor.advance_zero] at hk

end Takes

/-! ## What a line begins with -/

/-- The characters that every match begins with, as far as they are spelled out in front. -/
def spelled : Regex → List Char
  | set (.only c) => [c]
  | seq (set (.only c)) r => c :: r.spelled
  | _ => []

/-- The characters that every match has behind the indentation, if the expression begins with
one. -/
def led : Regex → List Char
  | seq (look .startOfText) (seq (rounds 0 none true (set .blank)) r) => r.spelled
  | _ => []

theorem isPrefix_spelled {β : Type} {fuel : Nat} {r : Regex} {here : Cursor} {caps : Captures}
    {k : Cursor → Captures → Option β} {b : β} (hb : ways fuel r here caps k = some b) :
    r.spelled <+: here.rest := by
  have hchar : ∀ {c : Char} {k : Cursor → Captures → Option β} {here : Cursor},
      ways fuel (.set (.only c)) here caps k = some b →
        ∃ rest, here.rest = c :: rest ∧ k (here.past c rest) caps = some b := by
    intro c k here h
    rw [ways] at h
    split at h
    · cases h
    · next d rest hrest =>
      split at h
      · next hmem =>
        obtain rfl : d = c := by simpa [CharSet.mem] using hmem
        exact ⟨rest, hrest, h⟩
      · cases h
  fun_induction spelled r generalizing here k with
  | case1 c =>
    obtain ⟨rest, hrest, -⟩ := hchar hb
    exact hrest ▸ ⟨rest, rfl⟩
  | case2 c r ih =>
    rw [ways] at hb
    obtain ⟨rest, hrest, hk⟩ := hchar hb
    have hspelled : r.spelled <+: (here.past c rest).rest := ih hk
    rw [hrest, List.cons_prefix_cons]
    exact ⟨rfl, hspelled⟩
  | case3 => exact List.nil_prefix

theorem exists_of_led {r : Regex} (h : r.led ≠ []) :
    ∃ body, r = .seq (.look .startOfText) (.seq (.rounds 0 none true (.set .blank)) body) ∧
      body.spelled = r.led := by
  rw [led.eq_def] at h ⊢
  split at h
  · next body => exact ⟨body, rfl, rfl⟩
  · exact absurd rfl h

/-- Rounds over blanks stay in the blanks in front of a text. -/
theorem keeps_blanks {β : Type} (s : List Char) (fuel : Nat) :
    Keeps (fun here _ => ∃ front, s = front ++ here.rest ∧ ∀ c ∈ front, Text.isBlank c = true)
      (ways fuel (.rounds 0 none true (.set .blank)) : Search β) := by
  have hround : Keeps (fun here _ => ∃ front, s = front ++ here.rest ∧
      ∀ c ∈ front, Text.isBlank c = true) (ways fuel (.set .blank) : Search β) := by
    intro here caps k b hfront hb
    obtain ⟨front, hs, hblank⟩ := hfront
    rw [ways] at hb
    split at hb
    · cases hb
    · next c rest hrest =>
      split at hb
      · next hc =>
        refine ⟨_, caps, ⟨front ++ [c], ?_, ?_⟩, hb⟩
        · rw [hs, hrest, List.append_assoc]
          rfl
        · simpa [or_imp, forall_and] using ⟨hblank, hc⟩
      · cases hb
  exact hround.repeated 0 none true fuel

end Regex

namespace Pattern

open Regex

variable {p : Pattern} {x y : List Char} {spans : Nat → Captures}

/-- Where an expression takes a text, its pattern matches that text. -/
theorem matchAt?_of_takes {fuel : Nat} (h : Takes fuel p.regex x y spans) {here : Cursor}
    (hrest : here.rest = x ++ y) :
    p.matchAt? fuel here = some ⟨here.pos, here.pos + x.length, spans here.pos⟩ := by
  refine h.way here [] _ _ hrest ?_
  rw [Cursor.advance_eq (by simp [hrest]), List.append_nil]

/-- Behind an assertion that holds, a pattern matches what the others take. -/
theorem matchAt?_of_look {l : Look} {rs : List Regex} (hp : p.regex = seqs (.look l :: rs))
    {fuel : Nat} {here : Cursor} (hl : l.holds here = true) (h : Takes fuel (seqs rs) x y spans)
    (hrest : here.rest = x ++ y) :
    p.matchAt? fuel here = some ⟨here.pos, here.pos + x.length, spans here.pos⟩ := by
  rw [matchAt?, hp, ways_seqs_cons, ways, if_pos hl]
  refine h.way here [] _ _ hrest ?_
  rw [Cursor.advance_eq (by simp [hrest]), List.append_nil]

/-- Where the assertion in front does not hold there is no match. -/
theorem matchAt?_eq_none_of_look {l : Look} {rs : List Regex}
    (hp : p.regex = seqs (.look l :: rs)) {fuel : Nat} {here : Cursor}
    (hl : l.holds here = false) : p.matchAt? fuel here = none := by
  rw [matchAt?, hp, ways_seqs_cons, ways, if_neg (Bool.eq_false_iff.mp hl)]

/-- In a text of one line, a pattern for the start of a line matches at the start only. -/
theorem matchAt?_start_of_mem_findAll {rs : List Regex} {s : List Char} {m : Found}
    (hp : p.regex = seqs (.look .startOfLine :: rs)) (hs : '\n' ∉ s) (h : m ∈ p.findAll s) :
    p.matchAt? s.length (.start s) = some m := by
  obtain ⟨k, hmatch⟩ := matchAt?_of_mem_findAllFrom h
  obtain ⟨j, hj, heq⟩ := Cursor.exists_advance_start s k
  rw [heq] at hmatch
  have hline : Look.startOfLine.holds ((Cursor.start s).advance j) = true := by
    refine Bool.of_not_eq_false fun hl => ?_
    rw [matchAt?_eq_none_of_look hp hl] at hmatch
    cases hmatch
  rw [Cursor.advance_start hj, Look.startOfLine_holds_iff] at hline
  have hnil : s.take j = [] := by
    refine List.getLast?_eq_none_iff.mp (Option.eq_none_iff_forall_ne_some.mpr fun c hc => hs ?_)
    exact hline c hc ▸ List.take_subset j s (List.mem_of_getLast? hc)
  obtain rfl : j = 0 := by
    have := congrArg List.length hnil
    rw [List.length_take, List.length_nil] at this
    omega
  rwa [Cursor.advance_zero] at hmatch

/-- At the start of a text the assertion of the start is passed. -/
theorem matchAt?_start {r : Regex} (hp : p.regex = .seq (.look .startOfText) r) (fuel : Nat)
    (s : List Char) : p.matchAt? fuel (.start s) =
      ways fuel r (.start s) [] fun there caps => some ⟨0, there.pos, caps⟩ := by
  rw [matchAt?, hp]
  rfl

/-- A pattern for the start of a text finds what is taken there. -/
theorem find?_of_takes {r : Regex} (hp : p.regex = .seq (.look .startOfText) r)
    (h : Takes (x ++ y).length r x y spans) :
    p.find? (x ++ y) = some ⟨0, x.length, spans 0⟩ := by
  refine findFrom?_eq_some_iff.mpr ⟨0, ?_, nofun⟩
  rw [Cursor.advance_zero, matchAt?_start hp]
  refine h.way _ [] _ _ rfl ?_
  rw [Cursor.advance_start (by simp), List.append_nil]
  rfl

/-- **Behind the indentation of a line that matches stand the characters that the pattern
begins with.** -/
theorem led_of_isMatch (hled : ∀ c ∈ p.regex.led.head?, Text.isBlank c = false) {s : List Char}
    (h : p.isMatch s = true) : p.regex.led <+: Text.trimStart s := by
  by_cases hnil : p.regex.led = []
  · rw [hnil]
    exact List.nil_prefix
  · obtain ⟨body, hregex, hspelled⟩ := exists_of_led hnil
    obtain ⟨m, hm⟩ := Option.isSome_iff_exists.mp h
    have hanchored : p.regex.isAnchored = true := by rw [hregex]; rfl
    have hmatch := matchAt?_of_isAnchored hanchored hm
    rw [matchAt?_start hregex, ways] at hmatch
    -- the search goes past blanks, and then into the body
    have hstart : ∃ front, s = front ++ (Cursor.start s).rest ∧
        ∀ c ∈ front, Text.isBlank c = true :=
      ⟨[], rfl, fun c hc => absurd hc List.not_mem_nil⟩
    obtain ⟨there, caps, ⟨front, hs, hblank⟩, hbody⟩ :=
      keeps_blanks s s.length _ _ _ m hstart hmatch
    obtain ⟨rest, hrest⟩ := isPrefix_spelled hbody
    rw [hspelled] at hrest
    have htext : Text.trimStart s = there.rest := by
      obtain ⟨c, more, hcons⟩ := List.exists_cons_of_ne_nil hnil
      have hc : Text.isBlank c = false := hled c (by rw [hcons]; rfl)
      rw [hs, Text.trimStart, List.dropWhile_append_of_pos hblank, ← hrest, hcons,
        List.cons_append, List.dropWhile_cons_of_neg (Bool.eq_false_iff.mp hc)]
    rw [htext, ← hrest]
    exact List.prefix_append _ _

/-! ## Where a spelled text stands -/

section Spelled

variable {m : Found} {s : List Char}

theorem infix_of_find? (h : p.find? s = some m) : p.regex.spelled <:+: s := by
  obtain ⟨k, hmatch, -⟩ := findFrom?_eq_some_iff.mp h
  obtain ⟨j, hj, heq⟩ := Cursor.exists_advance_start s k
  have hspelled := isPrefix_spelled hmatch
  rw [heq, Cursor.advance_start hj] at hspelled
  exact hspelled.isInfix.trans (List.drop_suffix j s).isInfix

variable {c : Char} {front rest : List Char}

/-- A match starts at its first character. -/
theorem getElem?_of_matchAt? (hc : p.regex.spelled.head? = some c) {fuel j : Nat}
    (hj : j ≤ s.length) (h : p.matchAt? fuel ((Cursor.start s).advance j) = some m) :
    s[j]? = some c ∧ m.start = j := by
  have hstart := (bounds_of_matchAt? h).1
  have hspelled := isPrefix_spelled h
  rw [Cursor.advance_start hj] at hstart hspelled
  obtain ⟨more, hmore⟩ : p.regex.spelled <+: s.drop j := hspelled
  refine ⟨?_, hstart⟩
  rw [← List.head?_drop, ← hmore, List.head?_append, hc]
  rfl

/-- If its first character stands in one place only, that is where a match is. -/
theorem start_of_mem_findAll (hc : p.regex.spelled.head? = some c) (hfront : c ∉ front)
    (hrest : c ∉ rest) (h : m ∈ p.findAll (front ++ c :: rest)) : m.start = front.length := by
  obtain ⟨k, hmatch⟩ := matchAt?_of_mem_findAllFrom h
  obtain ⟨j, hj, heq⟩ := Cursor.exists_advance_start (front ++ c :: rest) k
  rw [heq] at hmatch
  obtain ⟨hget, hstart⟩ := getElem?_of_matchAt? hc hj hmatch
  rw [hstart]
  rcases Nat.lt_trichotomy j front.length with hlt | rfl | hgt
  · rw [List.getElem?_append_left hlt] at hget
    exact absurd (List.mem_of_getElem? hget) hfront
  · rfl
  · obtain ⟨i, rfl⟩ := Nat.exists_eq_add_of_lt hgt
    rw [List.getElem?_append_right (by omega), Nat.add_assoc, Nat.add_sub_cancel_left,
      List.getElem?_cons_succ] at hget
    exact absurd (List.mem_of_getElem? hget) hrest

/-- What is found first is found. -/
theorem mem_findAll_of_find? (h : p.find? s = some m) : m ∈ p.findAll s := by
  have hfirst : p.findFrom? s.length (.start s) = some m := h
  have hnever : (m.start = m.stop && (none : Option Nat) = some m.stop : Bool) = false := by simp
  rw [findAll, findAllFrom]
  simp only [hfirst, hnever]
  exact List.mem_cons_self

/-- What is taken behind a text without its first character is found there. -/
theorem find?_behind (hc : p.regex.spelled.head? = some c) (hfront : c ∉ front)
    (h : Takes (front ++ x ++ y).length p.regex x y spans) :
    p.find? (front ++ x ++ y) =
      some ⟨front.length, front.length + x.length, spans front.length⟩ := by
  have hlength : front.length ≤ (front ++ x ++ y).length := by simp
  refine findFrom?_eq_some_iff.mpr ⟨front.length, ?_, fun j hj => ?_⟩
  · rw [Cursor.advance_start hlength]
    exact matchAt?_of_takes h (by rw [List.append_assoc, List.drop_left])
  · refine Option.eq_none_iff_forall_ne_some.mpr fun m hm => hfront ?_
    have hget := (getElem?_of_matchAt? hc (Nat.le_trans (Nat.le_of_lt hj) hlength) hm).1
    rw [List.append_assoc, List.getElem?_append_left hj] at hget
    exact List.mem_of_getElem? hget

end Spelled

end Pattern

end CodeNav

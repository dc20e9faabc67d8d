import CodeNav.Checkout.Repository
import CodeNav.Proofs.Pattern.Passage

/-!
# The ranges of hits

The stretches of a match are counted in bytes and the ranges of hits in characters. A byte offset at
the boundary of two characters is the number of characters in front of it
(`Utf8.charsBefore?_eq_some_iff`); one inside a character is taken for the end of the line. So

* **every range lies on the line of its match**, and between two boundaries it holds exactly the
  text that matched (`LineMatch.shows`);
* a range runs backwards exactly if it begins inside a character and ends at a boundary before the
  end of the line (`LineMatch.Shown.le_iff`). `backwards_hit` is such a match.

The name on a declaring line is a group of a pattern, which spans a part of the line
(`Declaration.name?_within`), so its range never runs backwards. The messages of the search tool and
the hits made from them are put together in `hits_ranged`.
-/

namespace CodeNav

namespace Utf8

/-- Bytes are counted character by character. -/
theorem size_append (a b : List Char) : size (a ++ b) = size a + size b := by
  induction a with
  | nil => exact (Nat.zero_add _).symm
  | cons c a ih => rw [List.cons_append, size, size, ih, Nat.add_assoc]

/-- Every character has a byte at least. -/
theorem eq_nil_of_size_eq_zero {s : List Char} (h : size s = 0) : s = [] := by
  cases s with
  | nil => rfl
  | cons c s =>
    have := c.utf8Size_pos
    rw [size] at h
    omega

/-- **An offset is counted if a text ends there.** -/
theorem charsBefore?_eq_some_iff {n k : Nat} {s : List Char} :
    charsBefore? n s = some k ↔ ∃ x y, s = x ++ y ∧ size x = n ∧ x.length = k := by
  fun_induction charsBefore? n s generalizing k with
  | case1 s =>
    constructor
    · rintro ⟨⟩
      exact ⟨[], s, rfl, rfl, rfl⟩
    · rintro ⟨x, y, rfl, hx, rfl⟩
      rw [eq_nil_of_size_eq_zero hx, List.length_nil]
  | case2 n =>
    refine iff_of_false nofun ?_
    rintro ⟨x, y, hxy, hx, -⟩
    rw [(List.append_eq_nil_iff.mp hxy.symm).1] at hx
    cases hx
  | case3 n c s hsize ih =>
    rw [Option.map_eq_some_iff]
    constructor
    · rintro ⟨j, hj, rfl⟩
      obtain ⟨x, y, rfl, hx, rfl⟩ := ih.mp hj
      exact ⟨c :: x, y, rfl, by rw [size, hx]; omega, rfl⟩
    · rintro ⟨x, y, hxy, hx, rfl⟩
      cases x with
      | nil => cases hx
      | cons d x =>
        obtain ⟨rfl, rfl⟩ := List.cons.inj hxy
        rw [size] at hx
        exact ⟨x.length, ih.mpr ⟨x, y, rfl, by omega, rfl⟩, rfl⟩
  | case4 n c s hsize =>
    refine iff_of_false nofun ?_
    rintro ⟨x, y, hxy, hx, -⟩
    cases x with
    | nil => cases hx
    | cons d x =>
      obtain ⟨rfl, rfl⟩ := List.cons.inj hxy
      rw [size] at hx
      omega

/-- The boundaries of characters, as byte offsets. -/
def IsBoundary (n : Nat) (s : List Char) : Prop := ∃ x y, s = x ++ y ∧ size x = n

/-- An offset in bytes stands for a number of characters exactly if it is between two of them. -/
theorem isBoundary_iff {n : Nat} {s : List Char} :
    IsBoundary n s ↔ ∃ k, charsBefore? n s = some k := by
  simp only [charsBefore?_eq_some_iff, IsBoundary]
  exact ⟨fun ⟨x, y, hs, hx⟩ => ⟨x.length, x, y, hs, hx, rfl⟩,
    fun ⟨_, x, y, hs, hx, _⟩ => ⟨x, y, hs, hx⟩⟩

instance (n : Nat) (s : List Char) : Decidable (IsBoundary n s) :=
  decidable_of_iff _ (Option.isSome_iff_exists.trans isBoundary_iff.symm)

/-- Of two texts at the front of another one, that with fewer bytes is at the front of the other. -/
theorem exists_between {s x y x' y' : List Char} (h : s = x ++ y) (h' : s = x' ++ y')
    (hle : size x ≤ size x') : ∃ z, x' = x ++ z ∧ y = z ++ y' := by
  rcases List.append_eq_append_iff.mp (h.symm.trans h') with ⟨z, hx, hy⟩ | ⟨z, hx, hy⟩
  · exact ⟨z, hx, hy⟩
  · have hz : z = [] := by
      rw [hx, size_append] at hle
      exact eq_nil_of_size_eq_zero (by omega)
    subst hz
    exact ⟨[], by simpa using hx.symm, by simpa using hy.symm⟩

end Utf8

namespace LineMatch

/-! ## Stretches in characters -/

/-- What becomes of a stretch of bytes of a line. -/
structure Shown (line : List Char) (start stop : Nat) (first last : Nat) : Prop where
  le_length : last ≤ line.length
  /-- it runs backwards only from within a character to a boundary in front of the end -/
  le_iff : first ≤ last ↔ Utf8.IsBoundary start line ∨ ¬ Utf8.IsBoundary stop line ∨
    stop = Utf8.size line
  /-- between two boundaries it is the text between them -/
  exact : ∀ x y z, line = x ++ (y ++ z) → Utf8.size x = start → Utf8.size (x ++ y) = stop →
    first = x.length ∧ last = (x ++ y).length ∧ slice line first last = y

variable {m : LineMatch}

/-- Between characters, bytes are turned into characters. -/
theorem charsTo_of_boundary {x y : List Char} (h : m.line = x ++ y) :
    m.charsTo (Utf8.size x) = x.length := by
  rw [charsTo, Utf8.charsBefore?_eq_some_iff.mpr ⟨x, y, h, rfl, rfl⟩, Option.getD_some]

/-- An offset inside a character is taken for the end of the line. -/
theorem charsTo_of_not_boundary {n : Nat} (h : ¬ Utf8.IsBoundary n m.line) :
    m.charsTo n = m.line.length := by
  have hnone : Utf8.charsBefore? n m.line = none :=
    Option.eq_none_iff_forall_ne_some.mpr fun k hk => h (Utf8.isBoundary_iff.mpr ⟨k, hk⟩)
  rw [charsTo, hnone, Option.getD_none]

/-- No range goes on over the end of its line. -/
theorem charsTo_le (n : Nat) : m.charsTo n ≤ m.line.length := by
  by_cases h : Utf8.IsBoundary n m.line
  · obtain ⟨x, y, hxy, rfl⟩ := h
    rw [charsTo_of_boundary hxy, hxy, List.length_append]
    exact Nat.le_add_right _ _
  · exact Nat.le_of_eq (charsTo_of_not_boundary h)

/-- **A stretch of a line is shown on it.** -/
theorem shows {start stop : Nat} (hle : start ≤ stop) (hstop : stop ≤ Utf8.size m.line) :
    Shown m.line start stop (m.charsTo start) (m.charsTo stop) where
  le_length := charsTo_le stop
  le_iff := by
    by_cases hb : Utf8.IsBoundary stop m.line
    · obtain ⟨x', y', hstop', rfl⟩ := hb
      rw [charsTo_of_boundary hstop']
      by_cases ha : Utf8.IsBoundary start m.line
      · obtain ⟨x, y, hstart, rfl⟩ := ha
        obtain ⟨z, rfl, -⟩ := Utf8.exists_between hstart hstop' hle
        rw [charsTo_of_boundary hstart]
        exact iff_of_true (by simp) (.inl ⟨x, y, hstart, rfl⟩)
      · have hb : Utf8.IsBoundary (Utf8.size x') m.line := ⟨x', y', hstop', rfl⟩
        have hend : m.line.length ≤ x'.length ↔ Utf8.size x' = Utf8.size m.line := by
          cases y' with
          | nil => simp [hstop']
          | cons c y' =>
            have hc := c.utf8Size_pos
            simp only [hstop', List.length_append, List.length_cons, Utf8.size_append, Utf8.size]
            exact iff_of_false (by omega) (by omega)
        rw [charsTo_of_not_boundary ha, hend]
        simp [ha, hb]
    · exact iff_of_true (by rw [charsTo_of_not_boundary hb]; exact charsTo_le start)
        (.inr (.inl hb))
  exact x y z hline hx hy := by
    subst hx hy
    rw [charsTo_of_boundary hline, charsTo_of_boundary (x := x ++ y) (y := z) (by simp [hline])]
    refine ⟨rfl, rfl, ?_⟩
    rw [slice, hline, List.drop_left, List.length_append, Nat.add_sub_cancel_left, List.take_left]

end LineMatch

/-! ## Names on declaring lines -/

/-- **The name is a part of the line.** -/
theorem Declaration.name?_within {patterns : List Pattern} {line : List Char} {start stop : Nat}
    (h : name? patterns line = some (start, stop)) : start ≤ stop ∧ stop ≤ line.length := by
  obtain ⟨p, -, hname⟩ := List.exists_of_findSome?_eq_some h
  obtain ⟨found, hfind, hname⟩ := Option.bind_eq_some_iff.mp hname
  obtain ⟨i, -, hgroup⟩ := Option.bind_eq_some_iff.mp hname
  exact Pattern.group?_within hfind hgroup

/-! ## Messages -/

/-- What a message about a match says. -/
structure Message where
  path : List Char
  text : List Char
  /-- the number of the line, from one -/
  number : Nat
  submatches : List (Nat × Nat)
  deriving DecidableEq, Repr

namespace Message

open Json

/-- The line without its ending. -/
def line (g : Message) : List Char := Text.dropTail LineMatch.isLineEnd g.text

/-- The message in a body. -/
def ofBody? (v : Value) : Option Message :=
  match v.fields? ["path", "lines", "line_number", "submatches"] with
  | some [some path, some lines, some number, spans] => do
    return ⟨← LineMatch.text? path, ← LineMatch.text? lines, ← number.nat?,
      ← LineMatch.spans? spans⟩
  | _ => none

/-- The message that a line of output is. -/
def read? (output : List Char) : Option Message := do
  ofBody? (← LineMatch.body? (← Value.parse? output))

/-- The match that a message is about. -/
def found (g : Message) : LineMatch := .make g.path g.text g.number g.submatches

/-- The message as a whole says more than what the checkout reads of it. -/
theorem found_of_ofBody? (v : Value) : LineMatch.ofBody? v = (ofBody? v).map found := by
  rw [LineMatch.ofBody?, ofBody?]
  generalize v.fields? ["path", "lines", "line_number", "submatches"] = fields
  -- all shapes but one are no message
  rcases fields with _ | _ | ⟨_ | path, _ | ⟨_ | lines, _ | ⟨_ | number, _ | ⟨spans, _ | _⟩⟩⟩⟩
  all_goals try rfl
  dsimp only
  cases LineMatch.text? path <;> cases LineMatch.text? lines <;> cases number.nat? <;>
    cases LineMatch.spans? spans <;> rfl

/-- So each message that is read as a match is one of a line, with its spans in bytes. -/
theorem found_of_read? (output : List Char) :
    LineMatch.read? output = (read? output).map found := by
  rw [LineMatch.read?, read?]
  cases Value.parse? output with
  | none => rfl
  | some v =>
    cases hbody : LineMatch.body? v with
    | none => simp [hbody]
    | some body => simpa [hbody] using found_of_ofBody? body

/-- Where the hits of a message are. -/
structure Ranged (g : Message) (kind : MatchKind) (r : Range) : Prop where
  on_line : r.start.line = g.number - 1 ∧ r.stop.line = g.number - 1
  within : r.stop.character ≤ g.line.length
  symbol : kind = .symbol → r.start.character ≤ r.stop.character
  text : kind = .file → ∃ start stop, (start, stop) ∈ g.submatches ∧ start ≤ stop ∧
    LineMatch.Shown g.line start stop r.start.character r.stop.character

end Message

namespace Checkout

variable {c : Checkout} {q : LocalQuery} {fileLocal : Bool}

/-- **A hit in the text of a file is ranged by a span of the message.** -/
theorem ranged_of_textHits {g : Message} {h : Hit} (hmem : h ∈ c.textHits g.found) :
    g.Ranged .file h.range := by
  obtain ⟨⟨start, stop⟩, hspan, rfl⟩ := List.mem_map.mp hmem
  obtain ⟨hmem, hvalid⟩ := List.mem_filter.mp hspan
  simp only [Bool.and_eq_true, decide_eq_true_eq] at hvalid
  have hshown := LineMatch.shows (m := g.found) hvalid.1 hvalid.2
  exact ⟨⟨rfl, rfl⟩, hshown.le_length, nofun, fun _ => ⟨start, stop, hmem, hvalid.1, hshown⟩⟩

/-- **A hit of a symbol is ranged by its name.** -/
theorem ranged_of_symbolHit? {g : Message} {patterns : List Pattern} {h : Hit}
    (hhit : c.symbolHit? patterns fileLocal g.found = some h) : g.Ranged .symbol h.range := by
  obtain ⟨⟨start, stop⟩, hname, hhit⟩ := Option.bind_eq_some_iff.mp hhit
  obtain ⟨hle, hstop⟩ := Declaration.name?_within hname
  dsimp only at hhit
  split at hhit
  · cases hhit
  · cases hhit
    exact ⟨⟨rfl, rfl⟩, hstop, fun _ => hle, nofun⟩

/-- **Every hit lies on the line that its message is about**, and shows a stretch of it. -/
theorem hits_ranged {outputs : List (List Char)} {hs : List Hit}
    (h : c.hits q (outputs.filterMap LineMatch.read?) fileLocal = .ok hs) :
    ∀ hit ∈ hs, ∃ output ∈ outputs, ∃ g, Message.read? output = some g ∧
      g.Ranged q.kind hit.range := by
  have hmessage : ∀ m ∈ outputs.filterMap LineMatch.read?, ∃ output ∈ outputs, ∃ g,
      Message.read? output = some g ∧ g.found = m := by
    intro m hm
    obtain ⟨output, hmem, hread⟩ := List.mem_filterMap.mp hm
    rw [Message.found_of_read?, Option.map_eq_some_iff] at hread
    obtain ⟨g, hg, hfound⟩ := hread
    exact ⟨output, hmem, g, hg, hfound⟩
  intro hit hhit
  rw [Checkout.hits] at h
  cases hkind : q.kind with
  | file =>
    rw [hkind] at h
    cases h
    obtain ⟨m, hm, hhit⟩ := List.mem_flatMap.mp hhit
    obtain ⟨output, hmem, g, hg, rfl⟩ := hmessage m (List.mem_filter.mp hm).1
    exact ⟨output, hmem, g, hg, ranged_of_textHits hhit⟩
  | symbol =>
    rw [hkind] at h
    dsimp only at h
    split at h
    · cases h
    · cases h
      obtain ⟨m, hm, hhit⟩ := List.mem_filterMap.mp hhit
      obtain ⟨output, hmem, g, hg, rfl⟩ := hmessage m (List.mem_filter.mp hm).1
      exact ⟨output, hmem, g, hg, ranged_of_symbolHit? hhit⟩

/-- A message about a line with one stretch of it. -/
def outputOf (start stop : String) : List Char :=
  ("\x7b\"type\":\"match\",\"data\":\x7b\"path\":\x7b\"text\":\"./a.go\"\x7d,\"lines\":\x7b\"text\":" ++
    "\"é x\\n\"\x7d,\"line_number\":3,\"submatches\":[\x7b\"start\":" ++ start ++ ",\"end\":" ++ stop ++
    "\x7d]\x7d\x7d").toList

/-- A search for a text in all files of a checkout. -/
def forText : LocalQuery := ⟨"x", .file, true, [], none, []⟩

/-- A checkout. -/
def ofNothing : Checkout := ⟨"r", "v", [], 10000, 2000⟩

/-- The match that such a message is about. -/
def accented (start stop : Nat) : LineMatch := ⟨"a.go".toList, 2, "é x".toList, [(start, stop)]⟩

/-- With the offsets of a message the rest of it is fixed. -/
theorem hits_of_outputOf {start stop : String} {first last : Nat}
    (h : LineMatch.read? (outputOf start stop) = some (accented first last)) :
    ∃ hit, ofNothing.hits forText ([outputOf start stop].filterMap LineMatch.read?) false =
      .ok [hit] ∧ hit.range = (accented first last).range ((accented first last).charsTo first)
        ((accented first last).charsTo last) := by
  rw [List.filterMap_cons_some h, List.filterMap_nil]
  exact ⟨_, rfl, rfl⟩

theorem hits_ranged_of_accent :
    ∃ hit, ofNothing.hits forText ([outputOf "0" "2"].filterMap LineMatch.read?) false =
      .ok [hit] ∧ hit.range = ⟨⟨2, 0⟩, ⟨2, 1⟩⟩ ∧
        ∃ g, Message.read? (outputOf "0" "2") = some g ∧ g.Ranged .file hit.range := by
  have hread : LineMatch.read? (outputOf "0" "2") = some (accented 0 2) := by decide +kernel
  obtain ⟨hit, hhits, hrange⟩ := hits_of_outputOf hread
  obtain ⟨output, hmem, g, hg, hranged⟩ := hits_ranged hhits hit (List.mem_singleton_self hit)
  rw [List.mem_singleton.mp hmem] at hg
  exact ⟨hit, hhits, hrange, g, hg, hranged⟩

/-- A stretch that begins inside a character and ends behind it. -/
theorem backwards_hit :
    ¬ ∀ (c : Checkout) (q : LocalQuery) (outputs : List (List Char)) (fileLocal : Bool)
      (hs : List Hit), c.hits q (outputs.filterMap LineMatch.read?) fileLocal = .ok hs →
        ∀ hit ∈ hs, hit.range.start.character ≤ hit.range.stop.character := by
  intro hall
  have hread : LineMatch.read? (outputOf "1" "2") = some (accented 1 2) := by decide +kernel
  obtain ⟨hit, hhits, hrange⟩ := hits_of_outputOf hread
  have hle := hall _ _ _ _ _ hhits hit (List.mem_singleton_self hit)
  rw [hrange] at hle
  exact absurd hle (by decide +kernel)

end Checkout

end CodeNav

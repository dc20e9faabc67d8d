import CodeNav.Proofs.Token.Run
import Mathlib.Algebra.Ring.Parity
import Mathlib.Order.Bounds.Basic

/-!
# What the token under a cursor is

The token is the maximal run of identifier characters that holds the character the cursor reads
(`find?_eq_some_iff`), so it does not depend on which of its characters that is. Whether it is
commented out is a question about its line and its two ends (`Commented`, `isCommented_iff`).

Together that says **what the token is without a word about scans** (`found_by_reference`).
-/

namespace CodeNav.Token

/-! ## Comments -/

/-- A comment begins at `i`, before `start`: the leftmost match of a pattern. -/
def Opens (patterns : List Pattern) (chars : List Char) (start i : Nat) : Prop :=
  i < start ∧ ∃ p ∈ patterns, ∃ m, p.find? chars = some m ∧ m.start = i

/-- The stretch from `start` to `stop` is commented out: a comment begins before it, and it is no
call, no member access, and not between two quotes of one kind behind the beginning of the first
comment. -/
def Commented (patterns : List Pattern) (chars : List Char) (start stop : Nat) : Prop :=
  ∃ opening, IsLeast {i | Opens patterns chars start i} opening ∧
    chars[stop]? ≠ some '(' ∧ chars[start - 1]? ≠ some '.' ∧
    ∀ q ∈ quotes, ¬ (Odd ((slice chars opening start).count q) ∧ ∃ i ≥ stop, chars[i]? = some q)

theorem commentStart?_eq_some_iff {patterns : List Pattern} {chars : List Char}
    {start opening : Nat} :
    commentStart? patterns chars start = some opening ↔
      IsLeast {i | Opens patterns chars start i} opening := by
  have hmem (i : Nat) : i ∈ ((patterns.filterMap fun p => (p.find? chars).map (·.start)).filter
      (· < start)) ↔ Opens patterns chars start i := by
    simp only [Opens, List.mem_filter, List.mem_filterMap, Option.map_eq_some_iff,
      decide_eq_true_eq]
    exact and_comm
  rw [commentStart?, List.min?_eq_some_iff, hmem]
  refine and_congr_right fun _ => forall_congr' fun i => ?_
  rw [hmem]
  rfl

theorem isQuoted_eq_true_iff {chars : List Char} {opening start stop : Nat} :
    isQuoted chars opening start stop = true ↔
      ∃ q ∈ quotes, Odd ((slice chars opening start).count q) ∧ ∃ i ≥ stop, chars[i]? = some q := by
  rw [isQuoted, List.any_eq_true]
  refine exists_congr fun q => and_congr_right fun _ => ?_
  rw [Bool.and_eq_true, decide_eq_true_eq, ← Nat.odd_iff, List.contains_iff_mem,
    List.mem_iff_getElem?]
  refine and_congr_right fun _ => ⟨?_, ?_⟩
  · rintro ⟨i, hi⟩
    rw [List.getElem?_drop] at hi
    exact ⟨stop + i, Nat.le_add_right _ _, hi⟩
  · rintro ⟨i, hi, hq⟩
    obtain ⟨j, rfl⟩ := Nat.exists_eq_add_of_le hi
    exact ⟨j, by rw [List.getElem?_drop, hq]⟩

theorem isCommented_iff {patterns : List Pattern} {chars : List Char} {start stop : Nat} :
    isCommented patterns chars start stop = true ↔ Commented patterns chars start stop := by
  rw [isCommented, Commented]
  cases hopening : commentStart? patterns chars start with
  | none =>
    refine iff_of_false nofun ?_
    rintro ⟨opening, hleast, -⟩
    rw [commentStart?_eq_some_iff.mpr hleast] at hopening
    cases hopening
  | some opening =>
    have hleast := commentStart?_eq_some_iff.mp hopening
    -- a comment begins before the stretch, so there is a character before it
    have hpos : 0 < start := Nat.zero_lt_of_lt hleast.1.1
    have hquoted : isQuoted chars opening start stop = false ↔
        ∀ q ∈ quotes,
          ¬ (Odd ((slice chars opening start).count q) ∧ ∃ i ≥ stop, chars[i]? = some q) := by
      rw [Bool.eq_false_iff, ne_eq, isQuoted_eq_true_iff]
      simp only [not_exists, not_and]
    constructor
    · intro h
      refine ⟨opening, hleast, ?_⟩
      simpa [hpos, List.head?_drop, hquoted, and_assoc] using h
    · rintro ⟨opening', hleast', h⟩
      obtain rfl := hleast.unique hleast'
      simpa [hpos, List.head?_drop, hquoted, and_assoc] using h

/-! ## The token -/

/-- **The token under a cursor is the run of identifier characters that holds the character the
cursor reads.** There is a token exactly if that character is an identifier character. The run is
the only one that holds it, its text is the token, and its place in the line decides whether the
token is commented out; every cursor on the run, and one behind it at the end of the line, finds
the same. -/
theorem found_by_reference (text : String) (position : Position) (comments : List Pattern)
    (identifier : Pattern) :
    ((find? text position comments identifier).isSome ↔
      ∃ chars, (Text.lines text.toList)[position.line]? = some chars ∧
        ∃ cursor, Reads chars position.character cursor ∧
          ∃ c, chars[cursor]? = some c ∧ identifier.isMatch [c] = true) ∧
    ∀ token, find? text position comments identifier = some token →
      ∃ chars, (Text.lines text.toList)[position.line]? = some chars ∧
        ∃ cursor, Reads chars position.character cursor ∧
          ∃ r : Run (fun c => identifier.isMatch [c]) chars,
            r.Holds cursor ∧ (∀ r' : Run _ chars, r'.Holds cursor → r' = r) ∧
            token.text = String.ofList r.inner ∧
            (token.isComment = true ↔ Commented comments chars r.start r.stop) ∧
            ∀ character, r.Holds character ∨ character = r.stop ∧ r.stop = chars.length →
              find? text ⟨position.line, character⟩ comments identifier = some token := by
  constructor
  · rw [Option.isSome_iff_exists]
    constructor
    · rintro ⟨token, htoken⟩
      obtain ⟨chars, hline, cursor, hreads, r, hholds, -⟩ := find?_eq_some_iff.mp htoken
      exact ⟨chars, hline, cursor, hreads, hholds.exists_char⟩
    · rintro ⟨chars, hline, cursor, hreads, c, hc, hp⟩
      obtain ⟨r, hholds, -⟩ := exists_run_holding (p := fun c => identifier.isMatch [c]) hc hp
      exact ⟨_, find?_eq_some_iff.mpr ⟨chars, hline, cursor, hreads, r, hholds, rfl⟩⟩
  · intro token htoken
    obtain ⟨chars, hline, cursor, hreads, r, hholds, rfl⟩ := find?_eq_some_iff.mp htoken
    refine ⟨chars, hline, cursor, hreads, r, hholds, fun r' h' => Run.eq_of_holds h' hholds, rfl,
      isCommented_iff, fun character hcharacter => ?_⟩
    -- the character that the other cursor reads is in the run too
    obtain ⟨cursor', hreads', hholds'⟩ :
        ∃ cursor', Reads chars character cursor' ∧ r.Holds cursor' := by
      have hle := r.stop_le
      rcases hcharacter with hin | ⟨rfl, hend⟩
      · exact ⟨character, ⟨Nat.lt_of_lt_of_le hin.2 hle, .inl rfl⟩, hin⟩
      · have hlt := r.start_lt_stop
        refine ⟨r.stop - 1, ⟨?_, .inr ⟨hend, ?_⟩⟩, ?_, ?_⟩ <;> omega
    exact find?_eq_some_iff.mpr ⟨chars, hline, cursor', hreads', r, hholds', rfl⟩

/-- A comment below a line of code. -/
def remark : String := "x = 1\r\n# see helper"

/-- From the end of the line the last word of the comment is found, as from its first letter. -/
theorem remark_by_reference :
    ∃ identifier comment, Pattern.parse? "[A-Za-z0-9_]" = some identifier ∧
      Pattern.parse? "#\\s?(.*)" = some comment ∧
      find? remark ⟨1, 12⟩ [comment] identifier = some ⟨"helper", true⟩ ∧
      Commented [comment] "# see helper".toList 6 12 ∧
      find? remark ⟨1, 6⟩ [comment] identifier = some ⟨"helper", true⟩ := by
  have hread : (Pattern.parse? "[A-Za-z0-9_]").any fun identifier =>
      (Pattern.parse? "#\\s?(.*)").any fun comment =>
        find? remark ⟨1, 12⟩ [comment] identifier = some ⟨"helper", true⟩ ∧
          spanAt? identifier "# see helper".toList 12 = some (6, 12) := by
    decide +kernel
  obtain ⟨identifier, hidentifier, hread⟩ := (Option.any_eq_true _ _).mp hread
  obtain ⟨comment, hcomment, hread⟩ := (Option.any_eq_true _ _).mp hread
  obtain ⟨hfind, hspan⟩ := of_decide_eq_true hread
  obtain ⟨chars, hline, cursor, hreads, r, hholds, hunique, -, hcommented, hsame⟩ :=
    (found_by_reference remark ⟨1, 12⟩ [comment] identifier).2 _ hfind
  obtain rfl : "# see helper".toList = chars := Option.some.inj hline
  obtain ⟨cursor', hreads', r', hholds', hstart, hstop⟩ := spanAt?_eq_some_iff.mp hspan
  obtain rfl : cursor' = cursor := by
    simp only [Reads] at hreads hreads'
    omega
  obtain rfl := hunique r' hholds'
  refine ⟨identifier, comment, hidentifier, hcomment, hfind, ?_, hsame 6 (.inl ?_)⟩
  · rw [← hstart, ← hstop]
    exact hcommented.mp rfl
  · rw [Run.Holds, hstart, hstop]
    decide

end CodeNav.Token

import CodeNav.Proofs.Language.Builtin
import CodeNav.Proofs.Pattern.Literal
import CodeNav.Proofs.Token.Run
import CodeNav.Query.Basic

/-!
# References and the token under the cursor

A token is a maximal run of the identifier characters **of its language**. The query for its
references looks for its text between two **word boundaries**, which are the same for all
languages. The two notions differ:

* an identifier may begin or end with a character that is no word character, as `valid?` does;
* a token may stand next to a letter beyond ASCII, which is a word character but no identifier
  character.

`occurrence_found_iff` says when the query finds the token where it stands: **exactly if at both
ends one of the two is a word character and not the other**, the outermost character of the token
or a letter beyond ASCII next to it. So `valid?` is not found in `valid? x`
(`question_mark_missed`).
-/

namespace CodeNav

open Text

/-- A word character beyond ASCII. -/
def isForeign (c : Char) : Bool := isWord c && !(c.toNat < 128)

/-- At an end of a token, one of the two is a word character and not the other: the outermost
character of the token, or a letter beyond ASCII next to it. -/
def ToldApart (own neighbour : Option Char) : Prop :=
  own.any isWord ≠ neighbour.any isForeign

instance (own neighbour : Option Char) : Decidable (ToldApart own neighbour) :=
  inferInstanceAs (Decidable (_ ≠ _))

theorem wordAt_eq_any (c : Option Char) : Look.wordAt false c = c.any isWord := by
  cases c <;> rfl

/-- Where no identifier character stands, only letters beyond ASCII are word characters. -/
theorem any_isWord_eq {profile : Profile} (hprofile : profile ∈ Builtin.profiles)
    {c : Option Char} (hc : ∀ x ∈ c, profile.identifier.isMatch [x] = false) :
    c.any isWord = c.any isForeign := by
  cases c with
  | none => rfl
  | some x =>
    have hx := hc x rfl
    simp only [Option.any_some, isForeign]
    cases hword : isWord x with
    | false => rfl
    | true =>
      by_cases hlt : x.toNat < 128
      · rw [Builtin.isMatch_identifier hprofile hlt hword] at hx
        cases hx
      · simp [hlt]

section Run

variable {profile : Profile} (hprofile : profile ∈ Builtin.profiles) {line : List Char}
  (r : Token.Run (fun c => profile.identifier.isMatch [c]) line)

include hprofile

theorem isEdge_start_iff :
    Pattern.isEdge line r.start = true ↔ ToldApart r.inner.head? r.before.getLast? := by
  have hhead : (r.inner ++ r.after).head? = r.inner.head? := by
    rw [List.head?_append]
    exact Option.or_of_isSome (List.isSome_head?.mpr r.inner_ne_nil)
  rw [Pattern.isEdge, r.take_start, r.drop_start, hhead, wordAt_eq_any, wordAt_eq_any,
    any_isWord_eq hprofile r.stops_before, bne_iff_ne]
  exact ne_comm

theorem isEdge_stop_iff :
    Pattern.isEdge line r.stop = true ↔ ToldApart r.inner.getLast? r.after.head? := by
  have hlast : (r.before ++ r.inner).getLast? = r.inner.getLast? := by
    rw [List.getLast?_append]
    exact Option.or_of_isSome (List.getLast?_isSome.mpr r.inner_ne_nil)
  rw [Pattern.isEdge, r.take_stop, r.drop_stop, hlast, wordAt_eq_any, wordAt_eq_any,
    any_isWord_eq hprofile r.stops_after, bne_iff_ne]
  rfl

/-- **A token is found between boundaries exactly if it is told apart at both ends.** No earlier
match is in the way, because none reaches over the character before the token. -/
theorem mem_findAll_token_iff {p : Pattern} (hp : p.regex = .bounded r.inner) :
    (∃ m ∈ p.findAll line, m.start = r.start ∧ m.stop = r.stop) ↔
      ToldApart r.inner.head? r.before.getLast? ∧ ToldApart r.inner.getLast? r.after.head? := by
  have hle : r.start ≤ line.length := Nat.le_trans (Nat.le_add_right _ _) r.stop_le
  have hwidth := Pattern.hasWidth_bounded hp
  have hclear : ∀ j < r.start,
      (p.matchAt? line.length ((Cursor.start line).advance j)).isSome →
        j + r.inner.length ≤ r.start := by
    intro j hj hsome
    rw [Pattern.matchAt?_bounded_isSome hp (by omega)] at hsome
    exact r.add_length_le hj hsome.1
  have hfound := Pattern.mem_findAll_iff (List.length_pos_iff.mpr r.inner_ne_nil) hwidth hle hclear
  rw [Pattern.matchAt?_bounded_isSome hp hle, r.drop_start] at hfound
  rw [← isEdge_start_iff hprofile, ← isEdge_stop_iff hprofile]
  constructor
  · rintro ⟨m, hm, hstart, -⟩
    exact (hfound.mp ⟨m, hm, hstart⟩).2
  · intro hedges
    obtain ⟨m, hm, hstart⟩ := hfound.mpr ⟨List.prefix_append _ _, hedges⟩
    refine ⟨m, hm, hstart, ?_⟩
    obtain ⟨k, hk⟩ := Pattern.matchAt?_of_mem_findAllFrom hm
    obtain ⟨hs, ht⟩ := hwidth _ _ _ hk
    rw [ht, ← hs, hstart]
    rfl

end Run

namespace Query

/-- **References find the token under the cursor exactly if it is told apart at both ends.** The
token stands between `before` and `after` on its line; the query's pattern reads, and one of its
matches on the line covers the token. -/
theorem occurrence_found_iff {profile : Profile} (hprofile : profile ∈ Builtin.profiles)
    {text : String} {position : Position} {token : Token}
    (htoken : Token.find? text position profile.linePatterns profile.identifier = some token)
    (input : QueryInput) (hinput : input.token = token.text) :
    ∃ before after,
      (Text.lines text.toList)[position.line]? = some (before ++ token.text.toList ++ after) ∧
      Token.spanAt? profile.identifier (before ++ token.text.toList ++ after) position.character =
        some (before.length, before.length + token.text.toList.length) ∧
      ∃ p, (build .references input).terms.head? = some p.source ∧
        Pattern.parse? p.source = some p ∧
        ((∃ m ∈ p.findAll (before ++ token.text.toList ++ after), m.start = before.length ∧
            m.stop = before.length + token.text.toList.length) ↔
          ToldApart token.text.toList.head? before.getLast? ∧
            ToldApart token.text.toList.getLast? after.head?) := by
  obtain ⟨line, hline, r, hspan, hinner⟩ := Token.find?_eq_some htoken
  rw [hinner]
  refine ⟨r.before, r.after, r.line_eq ▸ hline, ?_, Pattern.between token.text, ?_,
    Pattern.parse?_between _, ?_⟩
  · rw [← r.line_eq]
    exact hspan
  · rw [build, patternTerms, hinput]
    rfl
  · rw [← r.line_eq]
    exact mem_findAll_token_iff hprofile r (congrArg Regex.bounded hinner)

/-- References to a token of some file. -/
def referencesTo (token : String) : QueryInput where
  token
  repo := "r"
  revision := "v"
  path := "file"
  extensions := []

/-- A name before a bracket is told apart on both sides. -/
theorem called_name_found :
    ∃ profile ∈ Builtin.profiles,
      Token.find? "serve()" ⟨0, 2⟩ profile.linePatterns profile.identifier =
        some ⟨"serve", false⟩ ∧
      ∃ p, (build .references (referencesTo "serve")).terms.head? = some p.source ∧
        Pattern.parse? p.source = some p ∧
        ∃ m ∈ p.findAll "serve()".toList, m.start = 0 ∧ m.stop = 5 := by
  have hgo : ∃ t ∈ Builtin.texts, t.id = "go" ∧ t.read?.any fun profile =>
      Token.find? "serve()" ⟨0, 2⟩ profile.linePatterns profile.identifier =
          some ⟨"serve", false⟩ ∧
        Token.spanAt? profile.identifier "serve()".toList 2 = some (0, 5) := by
    decide +kernel
  obtain ⟨profile, hprofile, hq⟩ := Builtin.exists_profile hgo
  obtain ⟨hfind, hspan⟩ := of_decide_eq_true hq
  obtain ⟨before, after, hline, hspan', p, hsource, hparse, hfound⟩ :=
    occurrence_found_iff hprofile hfind (referencesTo "serve") rfl
  have hwhole : before ++ "serve".toList ++ after = "serve()".toList :=
    (Option.some.inj hline).symm
  rw [hwhole] at hspan' hfound
  rw [hspan] at hspan'
  have hlength : before.length = 0 := (congrArg Prod.fst (Option.some.inj hspan')).symm
  obtain rfl := List.length_eq_zero_iff.mp hlength
  obtain rfl : after = ['(', ')'] := by simpa using hwhole
  exact ⟨profile, hprofile, hfind, p, hsource, hparse, hfound.mpr ⟨by decide, by decide⟩⟩

/-- The text `valid?` is one token in some languages, but its query matches it only before a
word character: not before a blank. -/
theorem question_mark_missed :
    ∃ profile ∈ Builtin.profiles,
      Token.find? "valid? x" ⟨0, 2⟩ profile.linePatterns profile.identifier =
        some ⟨"valid?", false⟩ ∧
      Token.spanAt? profile.identifier "valid? x".toList 2 = some (0, 6) ∧
      ∃ p, (build .references (referencesTo "valid?")).terms.head? = some p.source ∧
        Pattern.parse? p.source = some p ∧ p.findAll "valid? x".toList = [] := by
  have htoken : ∃ t ∈ Builtin.texts, t.id = "ruby" ∧ t.read?.any fun profile =>
      Token.find? "valid? x" ⟨0, 2⟩ profile.linePatterns profile.identifier =
          some ⟨"valid?", false⟩ ∧
        Token.spanAt? profile.identifier "valid? x".toList 2 = some (0, 6) := by
    decide +kernel
  obtain ⟨profile, hprofile, hq⟩ := Builtin.exists_profile htoken
  obtain ⟨hfind, hspan⟩ := of_decide_eq_true hq
  have hnone : (Pattern.between "valid?").findAll "valid? x".toList = [] := by decide +kernel
  exact ⟨profile, hprofile, hfind, hspan, _, rfl, Pattern.parse?_between _, hnone⟩

end Query

end CodeNav

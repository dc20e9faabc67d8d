import CodeNav.Checkout.Tool
import Mathlib.Data.List.Basic

/-!
# The matches of a run of the search tool

A run prints lines, and how it ends counts only if the last of them is needed. **The matches are
those of the lines that tell of one, in their order, up to the limit** (`result_eq`), and what
decides is whether a line follows when the limit is reached (`Followed`):

* If one does, nothing behind it is looked at, whatever it is (`gather_of_followed`): not the other
  lines, not how the run ends, and not even whether it ends.
* Else all lines are read (`gather_of_not_followed`), and the run has to end well.

A line that tells of no match is of no account as long as the limit is not reached
(`followed_insert`). `result_collects` puts these together.
-/

namespace CodeNav

namespace ToolReply

/-- The matches that some lines tell of. -/
def told (texts : List (List Char)) : List LineMatch := texts.filterMap LineMatch.read?

/-- Some line follows when `limit` matches are there. -/
def Followed (limit : Nat) (texts : List (List Char)) : Prop :=
  ∃ front line rest, texts = front ++ line :: rest ∧ limit ≤ (told front).length

/-- Lines that are these texts. -/
def Spell (lines : List (List UInt8)) (texts : List (List Char)) : Prop :=
  lines.map Utf8.decode = texts.map Except.ok

/-- The run ends by itself, with a code that stands for a search that was made. -/
def EndsWell (r : ToolReply) : Prop := r.signal = none ∧ (r.exit = 0 ∨ r.exit = 1)

/-- What is wrong with a run that does not end well. -/
def ending (r : ToolReply) : ToolFault :=
  match r.signal with
  | some signal => .killed signal
  | none => .exited r.exit

section Texts

variable {limit : Nat} {t : List Char} {texts front rest junk : List (List Char)}

theorem told_append (a b : List (List Char)) : told (a ++ b) = told a ++ told b :=
  List.filterMap_append

theorem followed_zero : Followed 0 (t :: texts) := ⟨[], t, texts, rfl, Nat.zero_le _⟩

/-- **What is read in front counts towards the limit.** -/
theorem followed_append (h : (told front).length < limit) :
    Followed limit (front ++ rest) ↔ Followed (limit - (told front).length) rest := by
  constructor
  · rintro ⟨a, line, z, heq, hlimit⟩
    rcases List.append_eq_append_iff.mp heq with ⟨b, rfl, hrest⟩ | ⟨b, hfront, -⟩
    · refine ⟨b, line, z, hrest, ?_⟩
      rw [told_append, List.length_append] at hlimit
      omega
    · -- the limit would be reached in front
      rw [hfront, told_append, List.length_append] at h
      omega
  · rintro ⟨a, line, z, rfl, hlimit⟩
    refine ⟨front ++ a, line, z, by simp, ?_⟩
    rw [told_append, List.length_append]
    omega

/-- **Lines that tell of no match are of no account**, as long as the limit is not reached. -/
theorem followed_insert (h : (told front).length < limit) (hjunk : told junk = []) :
    Followed limit (front ++ (junk ++ rest)) ↔ Followed limit (front ++ rest) := by
  have hmore : (told junk).length < limit - (told front).length := by
    rw [hjunk, List.length_nil]
    omega
  rw [followed_append h, followed_append h, followed_append hmore, hjunk, List.length_nil,
    Nat.sub_zero]

end Texts

/-! ## Reading lines -/

section Gather

variable {limit : Nat} {lines more : List (List UInt8)} {texts front : List (List Char)}
  {line : List Char}

theorem Spell.cons {bytes : List UInt8} {t : List Char} (h : Spell (bytes :: lines) (t :: texts)) :
    Utf8.decode bytes = .ok t ∧ Spell lines texts :=
  List.cons.inj h

theorem Spell.exists_cons {t : List Char} (h : Spell lines (t :: texts)) :
    ∃ bytes lines', lines = bytes :: lines' ∧ Utf8.decode bytes = .ok t ∧ Spell lines' texts := by
  cases lines with
  | nil => cases h
  | cons bytes lines => exact ⟨bytes, lines, rfl, h.cons.1, h.cons.2⟩

theorem Spell.exists_append {all texts' : List (List Char)} (h : Spell lines all)
    (hall : all = texts ++ texts') : ∃ ls more, lines = ls ++ more ∧ Spell ls texts := by
  rw [hall, Spell, List.map_append] at h
  obtain ⟨ls, more, rfl, hls, -⟩ := List.map_eq_append_iff.mp h
  exact ⟨ls, more, rfl, hls⟩

/-- **When the limit is reached and a line follows, the rest does not matter.** -/
theorem gather_of_followed (h : Spell lines (front ++ [line]))
    (hlimit : limit ≤ (told front).length) (more : List (List UInt8)) :
    gather limit (lines ++ more) = .limited ((told front).take limit) := by
  induction front generalizing limit lines with
  | nil =>
    obtain ⟨bytes, lines, rfl, hdecode, -⟩ := h.exists_cons
    obtain rfl : limit = 0 := Nat.le_zero.mp hlimit
    simp only [List.cons_append, gather, hdecode, List.take_zero]
  | cons t front ih =>
    obtain ⟨bytes, lines, rfl, hdecode, h⟩ := h.exists_cons
    cases limit with
    | zero => simp only [List.cons_append, gather, hdecode, List.take_zero]
    | succ limit =>
      cases hread : LineMatch.read? t with
      | none =>
        have hsame : told (t :: front) = told front := List.filterMap_cons_none hread
        rw [hsame] at hlimit ⊢
        simp only [List.cons_append, gather, hdecode, hread]
        exact ih h hlimit
      | some m =>
        have hmore : told (t :: front) = m :: told front := List.filterMap_cons_some hread
        rw [hmore] at hlimit ⊢
        simp only [List.cons_append, gather, hdecode, hread,
          ih h (Nat.le_of_succ_le_succ hlimit), Gathered.cons, List.take_succ_cons]

/-- Else all lines are read. -/
theorem gather_of_not_followed (h : Spell lines texts) (hlimit : ¬ Followed limit texts) :
    gather limit lines = .all ((told texts).take limit) := by
  induction texts generalizing limit lines with
  | nil =>
    obtain rfl : lines = [] := List.map_eq_nil_iff.mp h
    cases limit <;> rfl
  | cons t texts ih =>
    obtain ⟨bytes, lines, rfl, hdecode, h⟩ := h.exists_cons
    cases limit with
    | zero => exact absurd followed_zero hlimit
    | succ limit =>
      cases hread : LineMatch.read? t with
      | none =>
        have hsame : told (t :: texts) = told texts := List.filterMap_cons_none hread
        have hnone : told [t] = [] := List.filterMap_cons_none hread
        have hinsert : Followed (limit + 1) ([] ++ ([t] ++ texts)) ↔
            Followed (limit + 1) ([] ++ texts) := followed_insert (Nat.succ_pos _) hnone
        have hrest : ¬ Followed (limit + 1) texts := mt hinsert.mpr hlimit
        rw [hsame]
        simp only [gather, hdecode, hread]
        exact ih h hrest
      | some m =>
        have hmore : told (t :: texts) = m :: told texts := List.filterMap_cons_some hread
        have hrest : ¬ Followed limit texts := by
          rintro ⟨front, line, rest, rfl, hle⟩
          refine hlimit ⟨t :: front, line, rest, rfl, ?_⟩
          have hfront : told (t :: front) = m :: told front :=
            List.filterMap_cons_some hread
          rw [hfront, List.length_cons]
          exact Nat.succ_le_succ hle
        rw [hmore]
        simp only [gather, hdecode, hread, ih h hrest, Gathered.cons, List.take_succ_cons]

end Gather

/-! ## The outcome of a run -/

section Result

variable {r : ToolReply} {limit : Nat} {texts : List (List Char)}

theorem result_of_limited {found : List LineMatch}
    (h : gather limit r.lines = .limited found) : r.result limit = .ok found := by
  rw [result, h]

theorem result_of_all {found : List LineMatch} (h : gather limit r.lines = .all found)
    (hhangs : r.hangs = false) :
    (r.EndsWell → r.result limit = .ok found) ∧
      (¬ r.EndsWell → r.result limit = .error r.ending) := by
  rw [result, h, EndsWell, ending]
  cases r.signal <;> simp +contextual [hhangs]

/-- **The matches of a run**, and when there are any. -/
theorem result_eq (limit : Nat) (h : Spell r.lines texts) (hhangs : r.hangs = false) :
    (Followed limit texts ∨ r.EndsWell → r.result limit = .ok ((told texts).take limit)) ∧
      (¬ Followed limit texts → ¬ r.EndsWell → r.result limit = .error r.ending) := by
  by_cases hfollowed : Followed limit texts
  · obtain ⟨front, line, rest, rfl, hlimit⟩ := hfollowed
    have hsplit : front ++ line :: rest = (front ++ [line]) ++ rest := by simp
    obtain ⟨lines, more, hlines, hfront⟩ := h.exists_append hsplit
    have hgather := gather_of_followed hfront hlimit more
    rw [← hlines] at hgather
    rw [told_append, List.take_append_of_le_length hlimit]
    exact ⟨fun _ => result_of_limited hgather,
      fun hnot => absurd ⟨front, line, rest, rfl, hlimit⟩ hnot⟩
  · have hall := result_of_all (gather_of_not_followed h hfollowed) hhangs
    exact ⟨fun hend => hall.1 (hend.resolve_left hfollowed), fun _ => hall.2⟩

/-- **What a run comes to.** Lines that tell of no match, while matches are still wanted, change
nothing, and neither does anything behind the line that follows the last match. -/
theorem result_collects (h : Spell r.lines texts) (hhangs : r.hangs = false) :
    (Followed limit texts ∨ r.EndsWell → r.result limit = .ok ((told texts).take limit)) ∧
      (¬ Followed limit texts → ¬ r.EndsWell → r.result limit = .error r.ending) ∧
      (∀ (front junk rest : List (List Char)) (r' : ToolReply), texts = front ++ rest →
        (told front).length < limit → told junk = [] →
        Spell r'.lines (front ++ (junk ++ rest)) → r'.hangs = false → r'.exit = r.exit →
        r'.signal = r.signal → r'.result limit = r.result limit) ∧
      ∀ (front : List (List Char)) (line : List Char) (rest : List (List Char)) (r' : ToolReply),
        texts = front ++ line :: rest → limit ≤ (told front).length →
        r.lines.take (front.length + 1) <+: r'.lines → r'.result limit = r.result limit := by
  obtain ⟨hok, herror⟩ := result_eq limit h hhangs
  refine ⟨hok, herror, ?_, ?_⟩
  · rintro front junk rest r' rfl hfront hjunk h' hhangs' hexit hsignal
    obtain ⟨hok', herror'⟩ := result_eq limit h' hhangs'
    have hfollowed : Followed limit (front ++ (junk ++ rest)) ↔ Followed limit (front ++ rest) :=
      followed_insert hfront hjunk
    have hends : r'.EndsWell ↔ r.EndsWell := by rw [EndsWell, EndsWell, hexit, hsignal]
    have hending : r'.ending = r.ending := by rw [ending, ending, hexit, hsignal]
    have htold : told (front ++ (junk ++ rest)) = told (front ++ rest) := by
      rw [told_append, told_append, told_append, hjunk, List.nil_append]
    rw [hfollowed, hends, htold] at hok'
    rw [hfollowed, hends, hending] at herror'
    by_cases hdone : Followed limit (front ++ rest) ∨ r.EndsWell
    · rw [hok' hdone, hok hdone]
    · obtain ⟨hf, he⟩ := not_or.mp hdone
      rw [herror' hf he, herror hf he]
  · rintro front line rest r' rfl hlimit ⟨more, hmore⟩
    have hsplit : front ++ line :: rest = (front ++ [line]) ++ rest := by simp
    obtain ⟨lines, others, hlines, hfront⟩ := h.exists_append hsplit
    have hlength : lines.length = front.length + 1 := by
      simpa using congrArg List.length hfront
    rw [hlines, ← hlength, List.take_left] at hmore
    have hgather := gather_of_followed hfront hlimit more
    rw [hmore] at hgather
    rw [result_of_limited hgather, hok (.inl ⟨front, line, rest, rfl, hlimit⟩), told_append,
      List.take_append_of_le_length hlimit]

end Result

/-- The bytes of lines that hold ASCII characters only. -/
def bytesOf (texts : List String) : List UInt8 :=
  texts.flatMap fun t => (t.toList.map fun c => UInt8.ofNat c.toNat) ++ [10]

/-- A line about a match: the third line of `a` is `x y`, and its last character matched. -/
def tellsOf : String :=
  "\x7b\"type\":\"match\",\"data\":\x7b\"path\":\x7b\"text\":\"./a\"\x7d," ++
    "\"lines\":\x7b\"text\":\"x y\\n\"\x7d,\"line_number\":3," ++
    "\"submatches\":[\x7b\"start\":2,\"end\":3\x7d]\x7d\x7d"

/-- The match that it tells of. -/
def toldOf : LineMatch where
  path := ['a']
  lineNumber := 2
  line := ['x', ' ', 'y']
  spans := [(2, 3)]

/-- The reply that tells of it between two lines that tell of nothing. -/
def tellingReply (signal : Option Signal) : ToolReply :=
  ⟨bytesOf ["?", tellsOf, "?"], 2, signal, false⟩

/-- One match is all that is wanted, and a line follows it: the tool may fail, and it may be
killed. -/
theorem result_collects_one :
    (tellingReply none).result 1 = .ok [toldOf] ∧
      (tellingReply (some ⟨9, true⟩)).result 1 = .ok [toldOf] := by
  have hread : LineMatch.read? tellsOf.toList = some toldOf := by decide +kernel
  have hnone : LineMatch.read? "?".toList = none := by decide +kernel
  have htold : told ["?".toList, tellsOf.toList, "?".toList] = [toldOf] := by
    rw [told, List.filterMap_cons_none hnone, List.filterMap_cons_some hread,
      List.filterMap_cons_none hnone, List.filterMap_nil]
  have hspell : Spell (tellingReply none).lines ["?".toList, tellsOf.toList, "?".toList] := by
    rw [Spell]
    decide +kernel
  have hfollowed : Followed 1 ["?".toList, tellsOf.toList, "?".toList] := by
    refine ⟨["?".toList, tellsOf.toList], "?".toList, [], rfl, ?_⟩
    rw [told, List.filterMap_cons_none hnone, List.filterMap_cons_some hread, List.filterMap_nil]
    exact Nat.le_refl 1
  have hresult (signal : Option Signal) : (tellingReply signal).result 1 = .ok [toldOf] := by
    have hsignal : Spell (tellingReply signal).lines _ := hspell
    rw [(result_collects hsignal rfl).1 (.inl hfollowed), htold]
    rfl
  exact ⟨hresult none, hresult _⟩

end ToolReply

end CodeNav

import CodeNav.Hover
import CodeNav.Proofs.Text.Lines
import Mathlib.Data.List.Forall2
import Mathlib.Data.List.ReduceOption

/-!
# What wrapping does to documentation

Documentation falls into `Segment`s: single lines, and runs of indented lines with the blank ones
between them and behind. Wrapping **writes the segments one after the other, with fences around
each run** (`splitAt_wrap`), so without these fences there is a line for each line.

A line keeps its text if no more is cut off it than the blanks in front. The cut of a run is the
smallest indentation in it, counted in bytes, so it lies inside the blanks of every line; but for
another line of the run it may **lie inside one of its blanks, and then nothing is left of the
line** (`dropBytes_eq_nil`). That is the only way in which text is lost (`wrap_keeps_text_iff`).
-/

namespace CodeNav.Hover

open Text

/-! ## Cutting bytes off a line -/

/-- What is left of a text: its end, with all but blanks. -/
structure Kept (l l' : List Char) : Prop where
  suffix : l' <:+ l
  text_eq : trimStart l' = trimStart l

/-- A cut inside a character leaves nothing at all. -/
theorem dropBytes_eq_nil {n : Nat} {l : List Char} (h : Utf8.charsBefore? n l = none) :
    dropBytes n l = [] := by
  rw [dropBytes, h]

/-- Whatever is cut off, what is left is an end of the line. -/
theorem dropBytes_suffix (n : Nat) (l : List Char) : dropBytes n l <:+ l := by
  rw [dropBytes]
  split
  · exact List.drop_suffix _ _
  · exact List.nil_suffix

/-- A blank line has no text to lose. -/
theorem kept_of_allBlank {l l' : List Char} (hl : allBlank l = true) (h : l' <:+ l) :
    Kept l l' := by
  have hnil (s : List Char) (hs : allBlank s = true) : trimStart s = [] :=
    List.dropWhile_eq_nil_iff.mpr (List.all_eq_true.mp hs)
  have hl' : allBlank l' = true :=
    List.all_eq_true.mpr fun c hc => List.all_eq_true.mp hl c (h.subset hc)
  exact ⟨h, by rw [hnil l hl, hnil l' hl']⟩

/-- Characters within the blanks in front are blank. -/
theorem trimStart_drop {n k : Nat} {l : List Char} (hk : Utf8.charsBefore? n l = some k)
    (hn : n ≤ indentSize l) : trimStart (l.drop k) = trimStart l := by
  fun_induction Utf8.charsBefore? n l generalizing k with
  | case1 l =>
    cases hk
    rfl
  | case2 n => cases hk
  | case3 n c l hsize ih =>
    obtain ⟨j, hj, rfl⟩ := Option.map_eq_some_iff.mp hk
    cases hc : isBlank c with
    | false => simp [indentSize, hc, Utf8.size] at hn
    | true =>
      have hrest : n + 1 - c.utf8Size ≤ indentSize l := by
        simp only [indentSize, List.takeWhile_cons_of_pos hc, Utf8.size] at hn ⊢
        omega
      rw [List.drop_succ_cons, ih hj hrest, trimStart, trimStart, List.dropWhile_cons_of_pos hc]
  | case4 n c l hsize => cases hk

/-- **Cutting within the blanks in front keeps a text exactly if it does not cut a blank.** -/
theorem kept_dropBytes_iff {n : Nat} {l : List Char} (hl : allBlank l = false)
    (hn : n ≤ indentSize l) : Kept l (dropBytes n l) ↔ (Utf8.charsBefore? n l).isSome := by
  cases hk : Utf8.charsBefore? n l with
  | some k =>
    have hdrop : dropBytes n l = l.drop k := by rw [dropBytes, hk]
    rw [hdrop]
    exact iff_of_true ⟨List.drop_suffix k l, trimStart_drop hk hn⟩ rfl
  | none =>
    refine iff_of_false (fun hkept => ?_) nofun
    have htext := hkept.text_eq
    rw [dropBytes_eq_nil hk] at htext
    have hblank : allBlank l = true :=
      List.all_eq_true.mpr (List.dropWhile_eq_nil_iff.mp htext.symm)
    rw [hl] at hblank
    cases hblank

/-- Blanks of one byte are never cut. -/
theorem isSome_charsBefore? {n : Nat} {l : List Char}
    (hnarrow : ∀ c ∈ l.takeWhile isBlank, c.utf8Size = 1) (hn : n ≤ indentSize l) :
    (Utf8.charsBefore? n l).isSome := by
  fun_induction Utf8.charsBefore? n l with
  | case1 l => rfl
  | case2 n => cases hn
  | case3 n c l hsize ih =>
    rw [Option.isSome_map]
    cases hc : isBlank c with
    | false => simp [indentSize, hc, Utf8.size] at hn
    | true =>
      rw [List.takeWhile_cons_of_pos hc] at hnarrow
      refine ih (fun d hd => hnarrow d (List.mem_cons_of_mem c hd)) ?_
      simp only [indentSize, List.takeWhile_cons_of_pos hc, Utf8.size] at hn ⊢
      omega
  | case4 n c l hsize =>
    cases hc : isBlank c with
    | false => simp [indentSize, hc, Utf8.size] at hn
    | true =>
      have hone := hnarrow c (by rw [List.takeWhile_cons_of_pos hc]; exact List.mem_cons_self)
      omega

/-! ## Segments -/

/-- A line is indented only if it has a text. -/
theorem allBlank_of_isIndented {l : List Char} (h : isIndented l = true) : allBlank l = false := by
  simpa using (Bool.and_eq_true_iff.mp h).2

/-- Indented lines with the blank ones between them, and the blank lines behind. -/
structure Run where
  body : List (List Char)
  trailing : List (List Char)
  body_ne_nil : body ≠ []
  indented : ∀ l ∈ body, isIndented l = true ∨ allBlank l = true
  indented_first : ∀ l ∈ body.head?, isIndented l = true
  indented_last : ∀ l ∈ body.getLast?, isIndented l = true
  blank_trailing : ∀ l ∈ trailing, allBlank l = true

/-- A part of documentation. -/
inductive Segment where
  | line (l : List Char) (h : isIndented l = false)
  | run (r : Run)

namespace Segment

/-- The lines of a segment. -/
def source : Segment → List (List Char)
  | line l _ => [l]
  | run r => r.body ++ r.trailing

/-- How many bytes are cut off its lines. -/
def cut : Segment → Nat
  | line _ _ => 0
  | run r => commonIndent r.body

/-- The lines that are written for a segment; none for a fence that is put in. -/
def marked : Segment → List (Option (List Char))
  | line l _ => [some l]
  | run r => none :: r.body.map (fun l => some (dropBytes (commonIndent r.body) l)) ++ [none] ++
      r.trailing.map fun _ => some []

end Segment

/-- Lines that are gathered for a run. -/
structure Gathered (block : List (List Char)) : Prop where
  indented : ∀ l ∈ block, isIndented l = true ∨ allBlank l = true
  indented_first : ∀ l ∈ block.head?, isIndented l = true

/-- The first line has a text, so a run is more than the blank lines behind it. -/
theorem Gathered.body_ne_nil {block : List (List Char)} (h : Gathered block) (hne : block ≠ []) :
    block.rdropWhile allBlank ≠ [] := by
  intro hnil
  obtain ⟨l, rest, rfl⟩ := List.exists_cons_of_ne_nil hne
  have hblank := List.rdropWhile_eq_nil_iff.mp hnil l List.mem_cons_self
  rw [allBlank_of_isIndented (h.indented_first l rfl)] at hblank
  cases hblank

/-- Gathered lines are a run. -/
def Gathered.run {block : List (List Char)} (h : Gathered block) (hne : block ≠ []) : Run where
  body := block.rdropWhile allBlank
  trailing := block.rtakeWhile allBlank
  body_ne_nil := h.body_ne_nil hne
  indented l hl := h.indented l ((List.rdropWhile_prefix allBlank block).subset hl)
  indented_first l hl := by
    obtain ⟨rest, hrest⟩ := List.rdropWhile_prefix allBlank block
    refine h.indented_first l ?_
    rw [← hrest, List.head?_append, Option.mem_def.mp hl]
    rfl
  indented_last l hl := by
    obtain ⟨hbody, rfl⟩ := List.mem_getLast?_eq_getLast hl
    have hmem := (List.rdropWhile_prefix allBlank block).subset (List.getLast_mem hbody)
    exact (h.indented _ hmem).resolve_right (List.rdropWhile_last_not allBlank block hbody)
  blank_trailing l hl := List.mem_rtakeWhile_imp hl

/-- No line gets lost where the blank lines behind a run are told apart. -/
theorem Gathered.source_run {block : List (List Char)} (h : Gathered block) (hne : block ≠ []) :
    (Segment.run (h.run hne)).source = block :=
  List.rdropWhile_append_rtakeWhile

/-- Gathered lines are written as a run. -/
theorem Gathered.flush_eq {block : List (List Char)} (h : Gathered block) (hne : block ≠ []) :
    flush block = (Segment.run (h.run hne)).marked.map (·.getD fence) := by
  have hcount : block.length - (block.rdropWhile allBlank).length =
      (block.rtakeWhile allBlank).length := by
    have hlength := congrArg List.length (h.source_run hne)
    rw [Segment.source, List.length_append] at hlength
    simp only [Gathered.run] at hlength
    omega
  have hflush : flush block = fence ::
      (block.rdropWhile allBlank).map (dropBytes (commonIndent (block.rdropWhile allBlank))) ++
        [fence] ++ List.replicate (block.rtakeWhile allBlank).length [] := by
    rw [← hcount]
    exact if_neg (by simpa using h.body_ne_nil hne)
  rw [hflush]
  simp [Segment.marked, Gathered.run, List.map_const', Function.comp_def]

/-- Between two runs nothing is gathered. -/
theorem Gathered.nil : Gathered [] := ⟨by simp, by simp⟩

/-- The lines that a run begins and goes on with. -/
theorem Gathered.concat {block : List (List Char)} (h : Gathered block) {l : List Char}
    (hl : isIndented l = true ∨ block ≠ [] ∧ allBlank l = true) : Gathered (block ++ [l]) := by
  refine ⟨fun line hline => ?_, fun line hline => ?_⟩
  · rcases List.mem_append.mp hline with hline | hline
    · exact h.indented line hline
    · rw [List.mem_singleton.mp hline]
      exact hl.imp_right And.right
  · cases block with
    | nil =>
      obtain rfl := Option.some.inj hline
      exact hl.resolve_right fun hblank => hblank.1 rfl
    | cons first rest => exact h.indented_first line hline

/-- Gathered lines are a run, unless there are none. -/
def Gathered.segments {block : List (List Char)} (h : Gathered block) : List Segment :=
  if hne : block = [] then [] else [.run (h.run hne)]

/-- What is gathered is neither more nor less than one run. -/
theorem Gathered.source_segments {block : List (List Char)} (h : Gathered block) :
    h.segments.flatMap Segment.source = block := by
  rw [segments]
  split
  · next hnil => exact hnil.symm
  · next hne => rw [List.flatMap_singleton, h.source_run hne]

/-- Gathered lines are written as they are flushed. -/
theorem Gathered.marked_segments {block : List (List Char)} (h : Gathered block) :
    (h.segments.flatMap Segment.marked).map (·.getD fence) = flush block := by
  rw [segments]
  split
  · next hnil =>
    subst hnil
    rfl
  · next hne => rw [List.flatMap_singleton, h.flush_eq hne]

/-- The segments of some lines behind gathered ones. -/
def segmentsFrom (block : List (List Char)) (h : Gathered block) :
    List (List Char) → List Segment
  | [] => h.segments
  | l :: ls =>
    if hl : isIndented l = true ∨ block ≠ [] ∧ allBlank l = true then
      segmentsFrom (block ++ [l]) (h.concat hl) ls
    else
      h.segments ++ .line l (Bool.eq_false_iff.mpr fun hindented => hl (.inl hindented)) ::
        segmentsFrom [] .nil ls

/-- The segments of documentation. -/
def segments (doc : List Char) : List Segment := segmentsFrom [] .nil (lines doc)

/-- **No line is lost**, and none changes its place. -/
theorem source_segmentsFrom {block : List (List Char)} (h : Gathered block)
    (ls : List (List Char)) : (segmentsFrom block h ls).flatMap Segment.source = block ++ ls := by
  induction ls generalizing block with
  | nil => rw [segmentsFrom, h.source_segments, List.append_nil]
  | cons l ls ih =>
    rw [segmentsFrom]
    split
    · next hl => rw [ih (h.concat hl), List.append_assoc, List.singleton_append]
    · rw [List.flatMap_append, List.flatMap_cons, h.source_segments, ih Gathered.nil]
      rfl

/-- Lines are written in the order in which they are gathered. -/
theorem marked_segmentsFrom {block : List (List Char)} (h : Gathered block)
    (ls : List (List Char)) :
    ((segmentsFrom block h ls).flatMap Segment.marked).map (·.getD fence) = wrapFrom block ls := by
  induction ls generalizing block with
  | nil => rw [segmentsFrom, h.marked_segments, wrapFrom]
  | cons l ls ih =>
    have hgather : (isIndented l || !block.isEmpty && allBlank l) = true ↔
        isIndented l = true ∨ block ≠ [] ∧ allBlank l = true := by simp
    rw [segmentsFrom, wrapFrom]
    split
    · next hl => rw [if_pos (hgather.mpr hl), ih (h.concat hl)]
    · next hl =>
      rw [if_neg fun hg => hl (hgather.mp hg), List.flatMap_append, List.flatMap_cons,
        List.map_append, List.map_append, h.marked_segments, ih Gathered.nil]
      rfl

/-- Documentation falls into its segments. -/
theorem source_segments (doc : List Char) :
    (segments doc).flatMap Segment.source = lines doc :=
  source_segmentsFrom Gathered.nil (lines doc)

/-- **The segments of documentation are written one after the other.** -/
theorem marked_segments (doc : List Char) :
    ((segments doc).flatMap Segment.marked).map (·.getD fence) = wrapFrom [] (lines doc) :=
  marked_segmentsFrom Gathered.nil (lines doc)

/-! ## What is kept of the lines -/

/-- What becomes of a line that `cut` bytes are cut off. -/
structure Shown (cut : Nat) (l l' : List Char) : Prop where
  suffix : l' <:+ l
  kept_iff : Kept l l' ↔ allBlank l = true ∨ (Utf8.charsBefore? cut l).isSome
  lost : ¬ Kept l l' → l' = []

/-- No more than the blanks in front is cut off a line. -/
theorem commonIndent_le {body : List (List Char)} {l : List Char} (hl : l ∈ body)
    (htext : allBlank l = false) : commonIndent body ≤ indentSize l := by
  have hmem : indentSize l ∈ (body.filter fun line => !allBlank line).map indentSize :=
    List.mem_map_of_mem (List.mem_filter.mpr ⟨hl, by simp [htext]⟩)
  rw [commonIndent]
  cases hmin : ((body.filter fun line => !allBlank line).map indentSize).min? with
  | none =>
    rw [List.min?_eq_none_iff.mp hmin] at hmem
    cases hmem
  | some n => exact (List.min?_eq_some_iff.mp hmin).2 _ hmem

/-- A single line is shown as it is. -/
theorem shown_self (l : List Char) : Shown 0 l l where
  suffix := List.suffix_refl l
  kept_iff := iff_of_true ⟨List.suffix_refl l, rfl⟩ (.inr (by rw [Utf8.charsBefore?]; rfl))
  lost h := absurd ⟨List.suffix_refl l, rfl⟩ h

/-- A blank line may be shown by less of it. -/
theorem shown_of_allBlank {l l' : List Char} (n : Nat) (hl : allBlank l = true) (h : l' <:+ l) :
    Shown n l l' where
  suffix := h
  kept_iff := iff_of_true (kept_of_allBlank hl h) (.inl hl)
  lost hlost := absurd (kept_of_allBlank hl h) hlost

/-- A line that is cut within its blanks is kept unless a blank is cut, and then nothing is left of
it. -/
theorem shown_dropBytes {n : Nat} {l : List Char} (h : allBlank l = false → n ≤ indentSize l) :
    Shown n l (dropBytes n l) := by
  cases hl : allBlank l with
  | true => exact shown_of_allBlank n hl (dropBytes_suffix n l)
  | false =>
    have hkept := kept_dropBytes_iff hl (h hl)
    refine ⟨dropBytes_suffix n l, by simpa [hl] using hkept, fun hlost => dropBytes_eq_nil ?_⟩
    rw [hkept] at hlost
    simpa using hlost

theorem Segment.reduceOption_marked_run (r : Run) : (Segment.run r).marked.reduceOption =
    r.body.map (dropBytes (commonIndent r.body)) ++ r.trailing.map fun _ => [] := by
  simp [Segment.marked, List.reduceOption]

/-- The cut of a run is its smallest indentation. -/
theorem Segment.cut_le (s : Segment) {l : List Char} (hl : l ∈ s.source)
    (htext : allBlank l = false) : s.cut ≤ indentSize l := by
  cases s with
  | line => exact Nat.zero_le _
  | run r =>
    rcases List.mem_append.mp hl with hbody | htrailing
    · exact commonIndent_le hbody htext
    · rw [r.blank_trailing l htrailing] at htext
      cases htext

/-- The lines of a segment are shown one by one. -/
theorem Segment.shown (s : Segment) :
    List.Forall₂ (Shown s.cut) s.source s.marked.reduceOption := by
  cases s with
  | line l h => exact .cons (shown_self l) .nil
  | run r =>
    rw [Segment.reduceOption_marked_run]
    refine List.rel_append ?_ ?_
    · exact List.forall₂_map_right_iff.mpr (List.forall₂_same.mpr fun l hl =>
        shown_dropBytes (commonIndent_le hl))
    · exact List.forall₂_map_right_iff.mpr (List.forall₂_same.mpr fun l hl =>
        shown_of_allBlank _ (r.blank_trailing l hl) List.nil_suffix)

/-- The cut of a segment falls into no blank if the blanks have one byte each. -/
theorem Segment.kept_of_narrow {s : Segment}
    (hnarrow : ∀ l ∈ s.source, ∀ c ∈ l.takeWhile isBlank, c.utf8Size = 1) :
    List.Forall₂ Kept s.source s.marked.reduceOption := by
  obtain ⟨hlength, hshown⟩ := List.forall₂_iff_zip.mp s.shown
  refine List.forall₂_iff_zip.mpr ⟨hlength, fun {l l'} hmem => (hshown hmem).kept_iff.mpr ?_⟩
  have hl : l ∈ s.source := (List.of_mem_zip hmem).1
  cases htext : allBlank l with
  | true => exact .inl rfl
  | false => exact .inr (isSome_charsBefore? (hnarrow l hl) (s.cut_le hl htext))

/-! ## The text that is written -/

theorem Segment.marked_ne_nil (s : Segment) : s.marked ≠ [] := by
  cases s <;> exact List.cons_ne_nil _ _

/-- What is written for a segment besides fences are ends of its lines, and empty ones. -/
theorem Segment.exists_source {s : Segment} {l' : List Char} (h : some l' ∈ s.marked) :
    ∃ l ∈ s.source, l' <:+ l := by
  cases s with
  | line l hl =>
    obtain rfl := Option.some.inj (List.mem_singleton.mp h)
    exact ⟨l', List.mem_singleton_self l', List.suffix_refl l'⟩
  | run r =>
    have hmem : l' ∈ r.body.map (dropBytes (commonIndent r.body)) ∨
        l' ∈ r.trailing.map fun _ => [] := by
      rw [← List.mem_append, ← Segment.reduceOption_marked_run]
      exact List.reduceOption_mem_iff.mpr h
    rw [List.mem_map, List.mem_map] at hmem
    rcases hmem with ⟨l, hl, rfl⟩ | ⟨l, hl, rfl⟩
    · exact ⟨l, List.mem_append_left _ hl, dropBytes_suffix _ l⟩
    · exact ⟨l, List.mem_append_right _ hl, List.nil_suffix⟩

/-- Wrapped documentation is read by the lines that are written for its segments. -/
theorem splitAt_wrap (doc : List Char) :
    splitAt '\n' (wrap doc) = ((segments doc).flatMap Segment.marked).map (·.getD fence) := by
  have hsource := source_segments doc
  rw [wrap, ← marked_segments]
  refine splitAt_unlines ?_ fun line hline => ?_
  · intro hnil
    rw [List.map_eq_nil_iff, List.flatMap_eq_nil_iff] at hnil
    refine lines_ne_nil doc ?_
    rw [← hsource, List.flatMap_eq_nil_iff]
    exact fun s hs => absurd (hnil s hs) s.marked_ne_nil
  · obtain ⟨mark, hmark, rfl⟩ := List.mem_map.mp hline
    obtain ⟨s, hs, hmem⟩ := List.mem_flatMap.mp hmark
    cases mark with
    | none => decide
    | some l' =>
      obtain ⟨l, hl, hsuffix⟩ := Segment.exists_source hmem
      have hline : l ∈ lines doc := hsource ▸ List.mem_flatMap.mpr ⟨s, hs, hl⟩
      exact fun hnewline => newline_notMem_of_mem_lines hline (hsuffix.subset hnewline)

/-- Wrapping is told by segments: what they are made of, and what is written for them. -/
theorem exists_segments_wrap (doc : List Char) :
    ∃ segments : List Segment, lines doc = segments.flatMap Segment.source ∧
      splitAt '\n' (wrap doc) = (segments.flatMap Segment.marked).map (·.getD fence) :=
  ⟨segments doc, (source_segments doc).symm, splitAt_wrap doc⟩

/-- **Text is lost only with a blank that the cut of a run falls into.** Documentation falls into
segments, which are written one after the other, with fences put in around the runs. Each line of
a segment is shown in its place by an end of it. A line with text keeps it exactly if a number of
characters stands for the bytes that are cut off; if not, nothing is left of the line. -/
theorem wrap_keeps_text_iff (doc : List Char) :
    ∃ segments : List Segment,
      lines doc = segments.flatMap Segment.source ∧
      splitAt '\n' (wrap doc) = (segments.flatMap Segment.marked).map (·.getD fence) ∧
      ∀ s ∈ segments, List.Forall₂ (Shown s.cut) s.source s.marked.reduceOption := by
  obtain ⟨segments, hlines, hwrap⟩ := exists_segments_wrap doc
  exact ⟨segments, hlines, hwrap, fun s _ => s.shown⟩

/-- Wrapped documentation without the fences that were put in has a line for each line, which
keeps its text. -/
def KeepsText (doc : List Char) : Prop :=
  ∃ marked : List (Option (List Char)), splitAt '\n' (wrap doc) = marked.map (·.getD fence) ∧
    List.Forall₂ Kept (lines doc) marked.reduceOption

/-- Documentation keeps its text if the blanks in front of its lines have one byte each. -/
theorem keepsText_of_narrow {doc : List Char}
    (hnarrow : ∀ l ∈ lines doc, ∀ c ∈ l.takeWhile isBlank, c.utf8Size = 1) : KeepsText doc := by
  obtain ⟨segments, hlines, hwrap⟩ := exists_segments_wrap doc
  refine ⟨segments.flatMap Segment.marked, hwrap, ?_⟩
  have hkept (s : Segment) (hs : s ∈ segments) :
      List.Forall₂ Kept s.source s.marked.reduceOption := by
    refine Segment.kept_of_narrow fun l hl => hnarrow l ?_
    exact hlines ▸ List.mem_flatMap.mpr ⟨s, hs, hl⟩
  rw [hlines, List.reduceOption, List.filterMap_flatMap]
  exact List.rel_flatten (List.forall₂_map_left_iff.mpr (List.forall₂_map_right_iff.mpr
    (List.forall₂_same.mpr hkept)))

/-- An ideographic space, of three bytes, behind a tab and behind two. -/
def wide : List Char := "\t\u3000x\n\t\t\u3000y".toList

/-- The cut of four bytes falls into the ideographic space of the second line. -/
theorem wide_text_lost :
    wrap wide = fence ++ "\nx\n\n".toList ++ fence ∧ ¬ KeepsText wide := by
  refine ⟨by decide +kernel, ?_⟩
  rintro ⟨marked, hwrap, hkept⟩
  have hlines : lines wide = ["\t\u3000x".toList, "\t\t\u3000y".toList] := by decide +kernel
  rw [hlines] at hkept
  obtain ⟨_, _, -, hrest, hshown⟩ := List.forall₂_cons_left_iff.mp hkept
  obtain ⟨y, _, hy, -, rfl⟩ := List.forall₂_cons_left_iff.mp hrest
  have hmem : y ∈ splitAt '\n' (wrap wide) := by
    rw [hwrap]
    refine List.mem_map.mpr ⟨some y, List.reduceOption_mem_iff.mp ?_, rfl⟩
    exact hshown ▸ List.mem_cons_of_mem _ List.mem_cons_self
  have hletter : 'y' ∈ y := by
    have htrimmed : 'y' ∈ trimStart y := by
      rw [hy.text_eq]
      decide +kernel
    exact (List.dropWhile_suffix isBlank).subset htrimmed
  exact (by decide +kernel : ∀ l ∈ splitAt '\n' (wrap wide), 'y' ∉ l) y hmem hletter

end CodeNav.Hover

import CodeNav.Checkout.Declaration
import CodeNav.Proofs.Pattern.Reading

/-!
# The shapes of declarations

The three shapes of lines that declare a symbol are stretches around a group for the symbol. So
for an escaped text they **always read** (`exists_patterns?`), and the name that is found on a
line **is that text**, whatever the line is (`slice_of_name?`).
-/

namespace CodeNav.Declaration

open Pattern

/-! ## What the shapes are made of -/

theorem isPiece_noClosing : IsPiece "[^)]".toList :=
  isPiece_of_primitive (by decide) rfl fun _ => rfl

theorem isPiece_sigil : IsPiece "[*&]".toList :=
  isPiece_of_primitive (by decide) rfl fun _ => rfl

theorem isPiece_nameChar : IsPiece "[A-Za-z0-9_$]".toList :=
  isPiece_of_primitive (by decide) rfl fun _ => rfl

theorem isPiece_noNameChar : IsPiece "[^A-Za-z0-9_$]".toList :=
  isPiece_of_primitive (by decide) rfl fun _ => rfl

/-- Blanks, or none. -/
theorem isStretch_blanks : IsStretch "\\s*".toList :=
  isPiece_blank.repeated (c := '*') (by decide)

/-- A blank at least. -/
theorem isStretch_gap : IsStretch "\\s+".toList :=
  isPiece_blank.repeated (c := '+') (by decide)

/-- The start of a line, up to its first word. -/
theorem isStretch_indent : IsStretch "^\\s*".toList :=
  isPiece_caret.isStretch.append isStretch_blanks (by decide)

/-- Something in brackets. -/
theorem isStretch_parenthesized : IsStretch "\\([^)]*\\)".toList :=
  (isPiece_escaped (c := '(') (by decide)).isStretch.append
    ((isPiece_noClosing.repeated (c := '*') (by decide)).append
      (isPiece_escaped (c := ')') (by decide)).isStretch (by decide)) (by decide)

/-- One of several stretches. -/
theorem isPiece_oneOf {patterns : List String} (hne : patterns ≠ [])
    (h : ∀ p ∈ patterns, IsStretch p.toList) : IsPiece (oneOf patterns).toList := by
  have hlist : (oneOf patterns).toList =
      ['(', '?', ':'] ++ ['|'].intercalate (patterns.map String.toList) ++ [')'] := by
    simp [oneOf, String.toList_intercalate]
  rw [hlist]
  exact isPiece_alternatives (by simpa using hne) (List.forall_mem_map.mpr h)

/-- One of several words. -/
theorem isPiece_words {words : List String} (hne : words ≠ [])
    (h : ∀ w ∈ words, w.toList.all isPlain = true) : IsPiece (oneOf words).toList :=
  isPiece_oneOf hne fun w hw => isStretch_plain (h w hw)

section Join

variable {a b : String}

/-- Stretches may be put one behind the other, unless the second one would make the end of the first
lazy. -/
theorem isStretch_join (ha : IsStretch a.toList) (hb : IsStretch b.toList)
    (hhead : b.toList.head? ≠ some '?') : IsStretch (a ++ b).toList := by
  rw [String.toList_append]
  exact ha.append hb hhead

/-- In brackets a stretch is a single piece, so a repetition behind it is one of all of it. -/
theorem isPiece_bracketed (ha : IsStretch a.toList) : IsPiece (oneOf [a]).toList :=
  isPiece_oneOf (List.cons_ne_nil a []) (List.forall_mem_singleton.mpr ha)

/-- A piece that is repeated is a stretch and no piece: a second mark behind it would mean something
else. -/
theorem isStretch_repeated (ha : IsPiece a.toList) {c : Char} (hc : c ∈ marks) :
    IsStretch (a ++ String.ofList [c]).toList := by
  rw [String.toList_append, String.toList_ofList]
  exact ha.repeated hc

/-- What opens with a bracket cannot be taken for a mark. -/
theorem head?_oneOf (patterns : List String) : (oneOf patterns ++ a).toList.head? ≠ some '?' := by
  simp [oneOf]

end Join

/-- A modifier is a word, but for `pub`, behind which something may stand in brackets. -/
theorem isPiece_modifiers : IsPiece (oneOf modifiers).toList := by
  have hpub : "pub(?:\\([^)]*\\))?" = "pub" ++ (oneOf ["\\([^)]*\\)"] ++ "?") := by
    decide +kernel
  have hwords : ∀ w ∈ modifiers.tail, w.toList.all isPlain = true := by
    decide +kernel
  refine isPiece_oneOf (by decide) (List.forall_mem_cons.mpr ⟨?_, ?_⟩)
  · rw [hpub]
    exact isStretch_join (isStretch_plain (by decide))
      (isStretch_repeated (isPiece_bracketed isStretch_parenthesized) (by decide)) (head?_oneOf _)
  · exact fun w hw => isStretch_plain (hwords w hw)

/-- Any of the keywords, whichever they are. -/
theorem isPiece_keywords : IsPiece (oneOf keywords).toList :=
  isPiece_words (by decide) (by decide +kernel)

/-! ## The parts of the shapes -/

/-- A keyword in front of the name. -/
theorem isStretch_keywordForm : IsStretch keywordForm.toList := by
  have hform : keywordForm = "^\\s*" ++ ((oneOf [oneOf modifiers ++ "\\s+"] ++ "*") ++
      (oneOf keywords ++ ("\\s+" ++ "[*&]?"))) := by
    simp [keywordForm, oneOf, ← String.toList_inj]
  have hsigil : IsStretch "[*&]?".toList := isPiece_sigil.repeated (c := '?') (by decide)
  have hmodifier : IsStretch (oneOf modifiers ++ "\\s+").toList :=
    isStretch_join isPiece_modifiers.isStretch isStretch_gap (by decide)
  have hkeyword : IsStretch (oneOf keywords ++ ("\\s+" ++ "[*&]?")).toList :=
    isStretch_join isPiece_keywords.isStretch (isStretch_join isStretch_gap hsigil (by decide))
      (by decide)
  have hmodifiers := isStretch_repeated (c := '*') (isPiece_bracketed hmodifier) (by decide)
  rw [hform]
  refine isStretch_join isStretch_indent (isStretch_join hmodifiers hkeyword (head?_oneOf _)) ?_
  rw [String.append_assoc]
  exact head?_oneOf _

/-- A receiver in brackets, as methods have it. -/
theorem isStretch_receiverForm : IsStretch receiverForm.toList :=
  isStretch_indent.append ((isStretch_plain (s := "func".toList) (by decide)).append
    (isStretch_blanks.append (isStretch_parenthesized.append isStretch_blanks (by decide))
      (by decide)) (by decide)) (by decide)

/-- A declaration by assignment. -/
theorem isStretch_assignmentForm : IsStretch assignmentForm.toList := by
  have hform : assignmentForm = "^\\s*" ++
      ((oneOf [oneOf ["export", "const", "let", "var", "local"] ++ "\\s+"] ++ "?") ++
        (oneOf ["[A-Za-z0-9_$]+" ++ "\\."] ++ "*")) := by
    decide +kernel
  have hword : IsPiece (oneOf ["export", "const", "let", "var", "local"]).toList :=
    isPiece_words (by decide) (by decide +kernel)
  have hkeyword := isStretch_join hword.isStretch isStretch_gap (by decide)
  have howner : IsStretch ("[A-Za-z0-9_$]+" ++ "\\.").toList :=
    isStretch_join (isPiece_nameChar.repeated (c := '+') (by decide))
      (isPiece_escaped (c := '.') (by decide)).isStretch (by decide)
  have hkeywords := isStretch_repeated (c := '?') (isPiece_bracketed hkeyword) (by decide)
  have howners := isStretch_repeated (c := '*') (isPiece_bracketed howner) (by decide)
  rw [hform]
  refine isStretch_join isStretch_indent (isStretch_join hkeywords howners (head?_oneOf _)) ?_
  rw [String.append_assoc]
  exact head?_oneOf _

/-- What has to follow the name there. -/
theorem isStretch_assignmentTail : IsStretch assignmentTail.toList := by
  have hform : assignmentTail = "\\s*" ++ oneOf [":=", "=" ++ ("\\s*" ++
      oneOf (["function", "class", "async", "lambda"] ++ ["\\("]))] := by
    decide +kernel
  have hwords : ∀ w ∈ ["function", "class", "async", "lambda"],
      w.toList.all isPlain = true := by
    decide +kernel
  have hvalue : IsPiece (oneOf (["function", "class", "async", "lambda"] ++ ["\\("])).toList := by
    refine isPiece_oneOf (List.cons_ne_nil _ _) (List.forall_mem_append.mpr ⟨?_, ?_⟩)
    · exact fun w hw => isStretch_plain (hwords w hw)
    · exact List.forall_mem_singleton.mpr (isPiece_escaped (c := '(') (by decide)).isStretch
  have hlong : IsStretch ("=" ++ ("\\s*" ++
      oneOf (["function", "class", "async", "lambda"] ++ ["\\("]))).toList :=
    isStretch_join (isStretch_plain (by decide))
      (isStretch_join isStretch_blanks hvalue.isStretch (by simp [oneOf])) (by simp)
  rw [hform]
  refine isStretch_join isStretch_blanks (isPiece_oneOf (List.cons_ne_nil _ _)
    (List.forall_mem_cons.mpr ⟨isStretch_plain (by decide), ?_⟩)).isStretch (by simp [oneOf])
  exact List.forall_mem_singleton.mpr hlong

/-- The name has to end where it is found. -/
theorem isStretch_boundary : IsStretch boundary.toList := by
  have hform : boundary = oneOf ["[^A-Za-z0-9_$]", "$"] := by
    decide +kernel
  rw [hform]
  refine (isPiece_oneOf (by decide) (List.forall_mem_cons.mpr ⟨?_, ?_⟩)).isStretch
  · exact isPiece_noNameChar.isStretch
  · exact List.forall_mem_singleton.mpr isPiece_dollar.isStretch

/-! ## Names on lines -/

/-- The pattern finds a name on a line only where the text stands. -/
def Names (t : List Char) (p : Pattern) : Prop :=
  p.groupNumber? "name" = some 1 ∧ p.regex.Spells 1 t

/-- **For an escaped text all shapes read.** -/
theorem exists_patterns? (t : String) :
    ∃ ps, patterns? (escape t) true = some ps ∧ ∀ p ∈ ps, Names t.toList p := by
  obtain ⟨p, hp, hnames⟩ := parse?_around isStretch_keywordForm isStretch_boundary t
  obtain ⟨q, hq, hnames'⟩ := parse?_around isStretch_receiverForm isStretch_boundary t
  obtain ⟨r, hr, hnames''⟩ := parse?_around isStretch_assignmentForm isStretch_assignmentTail t
  have hshapes : shapes (escape t) true = [around keywordForm t boundary,
      around receiverForm t boundary, around assignmentForm t assignmentTail] := by
    simp [shapes, around]
  refine ⟨[p, q, r], ?_, ?_⟩
  · rw [patterns?, hshapes]
    simp [hp, hq, hr]
  · simpa using ⟨hnames, hnames', hnames''⟩

/-- **The name that is found on a line is the text**, from its first to its last character. -/
theorem slice_of_name? {t line : List Char} {patterns : List Pattern}
    (hpatterns : ∀ p ∈ patterns, Names t p) {start stop : Nat}
    (h : name? patterns line = some (start, stop)) :
    slice line start stop = t ∧ stop = start + t.length := by
  obtain ⟨p, hp, hname⟩ := List.exists_of_findSome?_eq_some h
  obtain ⟨hnumber, hspells⟩ := hpatterns p hp
  simp only [nameBy?, hnumber, Option.bind_eq_bind, Option.bind_some] at hname
  obtain ⟨found, hfound, hgroup⟩ := Option.bind_eq_some_iff.mp hname
  exact slice_of_group? hspells hfound hgroup

end CodeNav.Declaration

import CodeNav.Proofs.Docstring.Cut

/-!
# Reading with care

Documentation is extracted by looking lines up by their numbers and by cutting lines where
delimiters were found. A look-up gives nothing for a line that is not there, and a cut behind
the end of a line gives what there is. Here the extraction is written down once more, over
numbers of lines and with look-ups and cuts that **refuse** what is not there.

**Nothing is ever refused**: the careful extraction succeeds on every text and every line, with
what the other one finds (`careful_find?`). One lemma for each step says so under what it needs:
numbers of lines that are there (`Faithful`) and an extent inside its lines (`Extent.Placed`).
-/

namespace CodeNav.Docstring

open Text

/-! ## The careful extraction -/

/-- What is refused: a line that is not there, or a cut that is out of range. -/
inductive Refusal where
  | line (number : Nat)
  | cut (start stop : Nat)

/-- What may be refused. -/
abbrev Careful (α : Type) := Except Refusal α

namespace Careful

/-- The entry with a number. -/
def entry {α : Type} (l : List α) (n : Nat) : Careful α :=
  match l[n]? with
  | some a => .ok a
  | none => .error (.line n)

/-- The entries from `start` up to `stop`. -/
def cut {α : Type} (l : List α) (start stop : Nat) : Careful (List α) :=
  if start ≤ stop ∧ stop ≤ l.length then .ok ((l.drop start).take (stop - start))
  else .error (.cut start stop)

/-- Everything from `start` on. -/
def cutFrom {α : Type} (l : List α) (start : Nat) : Careful (List α) := cut l start l.length

/-- The answer of a function, if there is something to ask it about. -/
def optionally {α β : Type} (f : α → Careful (Option β)) : Option α → Careful (Option β)
  | some a => f a
  | none => pure none

/-- The first answer of a function on a list. -/
def firstSome {α β : Type} (f : α → Careful (Option β)) : List α → Careful (Option β)
  | [] => pure none
  | a :: rest => do
    match ← f a with
    | some b => pure (some b)
    | none => firstSome f rest

/-- The longest run, from the front of a list, on which a function answers. -/
def mapWhile {α β : Type} (f : α → Careful (Option β)) : List α → Careful (List β)
  | [] => pure []
  | a :: rest => do
    match ← f a with
    | some b => return b :: (← mapWhile f rest)
    | none => pure []

/-- The list without the longest run in front that a predicate holds on. -/
def dropWhile {α : Type} (p : α → Careful Bool) : List α → Careful (List α)
  | [] => pure []
  | a :: rest => do if ← p a then dropWhile p rest else pure (a :: rest)

def finish? (body : List (List Char)) : Careful (Option (List Char)) := do
  let front := body.rdropWhile allBlank
  let kept ← cutFrom front (front.takeWhile allBlank).length
  return if kept.isEmpty then none else some (unlines (kept.map trimEnd))

def inlineBlock? (block : BlockStyle) (line : List Char) : Careful (Option (List Char)) :=
  match block.opening.find? line with
  | none => pure none
  | some opened => do
    let rest ← cutFrom line opened.stop
    match block.closing.find? rest with
    | none => pure none
    | some closed => return nonBlank? (← cut rest 0 closed.start)

def inline? (style : CommentStyle) (line : List Char) : Careful (Option (List Char)) :=
  match (style.line.bind (·.trailingBody? line)).bind nonBlank? with
  | some body => pure (some body)
  | none => optionally (inlineBlock? · line) style.block

/-- The numbers of the lines on one side of a definition, the nearest first. -/
def away (total definition : Nat) : Placement → List Nat
  | .below => (List.range total).drop (definition + 1)
  | .above => (List.range definition).reverse

section Lines

variable (lines : List (List Char))

def candidates (definition : Nat) (ignore : Option Pattern) (side : Placement) :
    Careful (List Nat) :=
  dropWhile (fun i =>
      match ignore with
      | some p => do return p.isMatch (← entry lines i)
      | none => pure false)
    (away lines.length definition side)

def lineRun? (style : LineStyle) (side : Placement) (near : List Nat) :
    Careful (Option (List Char)) := do
  let bodies ← mapWhile (fun i => do return style.leadingBody? (← entry lines i)) near
  if bodies.isEmpty then pure none
  else finish? (if side = .above then bodies.reverse else bodies)

/-- Where a block that opened closes on the line `i`, the `n`-th away from its definition. -/
def closingOn? (block : BlockStyle) (opened : Found) (i n : Nat) :
    Careful (Option (Nat × Nat)) := do
  let offset := if n = 0 then opened.stop else 0
  let rest ← cutFrom (← entry lines i) offset
  return (block.closing.find? rest).map fun m => (i, offset + m.start)

def extentBelow? (block : BlockStyle) (near : List Nat) : Careful (Option Extent) := do
  let nearest ← entry near 0
  match block.opening.find? (← entry lines nearest) with
  | none => pure none
  | some opened =>
    let closed ← firstSome (fun (i, n) => closingOn? lines block opened i n) near.zipIdx
    return closed.map fun (last, stop) => ⟨nearest, opened.stop, last, stop⟩

/-- Where a block that closed opens on the line `i`, the `n`-th away from its definition. -/
def openingOn? (block : BlockStyle) (closed : Found) (i n : Nat) :
    Careful (Option (Nat × Nat)) := do
  let line ← entry lines i
  let front ← if n = 0 then cut line 0 closed.start else pure line
  return (block.opening.find? front).map fun m => (i, m.stop)

def extentAbove? (block : BlockStyle) (near : List Nat) : Careful (Option Extent) := do
  let nearest ← entry near 0
  match (block.closing.findAll (← entry lines nearest)).getLast? with
  | none => pure none
  | some closed =>
    let opened ← firstSome (fun (i, n) => openingOn? lines block closed i n) near.zipIdx
    return opened.map fun (first, start) => ⟨first, start, nearest, closed.start⟩

def extent? (block : BlockStyle) (side : Placement) (near : List Nat) : Careful (Option Extent) :=
  match side with
  | .below => extentBelow? lines block near
  | .above => extentAbove? lines block near

/-- The part of the line `i` that belongs to the body of a block, and its number. -/
def segment (block : BlockStyle) (e : Extent) (i : Nat) : Careful NumberedLine := do
  let line ← entry lines i
  let start := if i = e.first then e.start else 0
  let stop := if i = e.last then e.stop else line.length
  let part ← if start ≤ stop then cut line start stop else pure []
  return (match block.noise with
    | some noise => noise.dropFirst part
    | none => part, i)

def indent (e : Extent) (segments : List NumberedLine) : Careful Nat :=
  match segments.find? fun (segment, _) => !allBlank segment with
  | none => pure 0
  | some (segment, i) => do
    if i = e.first then return leadingBlanks (← entry lines e.first)
    else return leadingBlanks segment

def stripIndent (amount : Nat) (line : List Char) : Careful (List Char) :=
  cutFrom line ((line.take amount).takeWhile isBlank).length

def block? (block : BlockStyle) (side : Placement) (near : List Nat) :
    Careful (Option (List Char)) := do
  match ← extent? lines block side near with
  | none => pure none
  | some e =>
    let segments ← ((List.range (e.last + 1)).drop e.first).mapM (segment lines block e)
    let amount ← indent lines e segments
    finish? (← segments.mapM fun (segment, _) => stripIndent amount segment)

def nearby? (style : CommentStyle) (definition : Nat) (ignore : Option Pattern) :
    Careful (Option (List Char)) := do
  let near ← candidates lines definition ignore style.placement
  if near.isEmpty then pure none
  else
    match ← optionally (lineRun? lines · style.placement near) style.line with
    | some doc => pure (some doc)
    | none => optionally (block? lines · style.placement near) style.block

end Lines

/-- The documentation of the definition on a line, read with care. -/
def find? (styles : List CommentStyle) (ignore : Option Pattern) (text : String)
    (definition : Nat) : Careful (Option String) :=
  let lines := Text.lines text.toList
  match lines[definition]? with
  | none => pure none
  | some line => do
    match ← firstSome (inline? · line) styles with
    | some doc => return some (String.ofList doc)
    | none => return (← firstSome (nearby? lines · definition ignore) styles).map String.ofList

/-! ## Nothing is refused -/

@[simp] theorem ok_bind {α β : Type} (a : α) (f : α → Careful β) :
    ((.ok a : Careful α) >>= f) = f a := rfl

theorem pure_eq_ok {α : Type} (a : α) : (pure a : Careful α) = .ok a := rfl

/-- A line that is there is not refused. -/
theorem entry_eq_ok {α : Type} {l : List α} {n : Nat} {a : α} (h : l[n]? = some a) :
    entry l n = .ok a := by
  rw [entry, h]

/-- A cut within a line is not refused, and gives what the other one gives. -/
theorem cut_eq_ok {α : Type} {l : List α} {start stop : Nat} (hle : start ≤ stop)
    (hstop : stop ≤ l.length) : cut l start stop = .ok ((l.drop start).take (stop - start)) :=
  if_pos ⟨hle, hstop⟩

/-- The rest of a line may be asked for up to its very end. -/
theorem cutFrom_eq_ok {α : Type} {l : List α} {start : Nat} (h : start ≤ l.length) :
    cutFrom l start = .ok (l.drop start) := by
  rw [cutFrom, cut_eq_ok h (Nat.le_refl _), ← List.length_drop, List.take_length]

section Lists

variable {α β γ : Type} {h : γ → α} {l : List γ}

/-- Where there is nothing to ask about, nothing is refused. -/
theorem optionally_eq_ok {f : α → Careful (Option β)} {g : α → Option β}
    (hf : ∀ a, f a = .ok (g a)) (o : Option α) : optionally f o = .ok (o.bind g) := by
  cases o with
  | none => rfl
  | some a => exact hf a

/-- The careful search works on numbers of lines and the other one on the lines themselves, so their
lists are told apart by a map. A look-up behind the first answer is never made. -/
theorem firstSome_map {f : α → Careful (Option β)} {g : γ → Option β}
    (hf : ∀ c ∈ l, f (h c) = .ok (g c)) :
    firstSome f (l.map h) = .ok (Docstring.firstSome g l) := by
  induction l with
  | nil => rfl
  | cons c l ih =>
    obtain ⟨hc, hl⟩ := List.forall_mem_cons.mp hf
    rw [List.map_cons, firstSome, hc, ok_bind, Docstring.firstSome]
    cases g c with
    | some b => rfl
    | none => exact ih hl

/-- The same on one list. -/
theorem firstSome_eq_ok {f : α → Careful (Option β)} {g : α → Option β} {l : List α}
    (hf : ∀ a ∈ l, f a = .ok (g a)) : firstSome f l = .ok (Docstring.firstSome g l) := by
  have hmap := firstSome_map (h := id) hf
  rwa [List.map_id] at hmap

/-- The first answer on a list whose elements are taken with their places, where the first place
is treated in its own way. -/
theorem firstSome_zipIdx {f : α → Nat → Careful (Option β)} {g : γ → Option β} {a : α}
    {b : Option β} (hfirst : f a 0 = .ok b) (hlater : ∀ c ∈ l, ∀ n, f (h c) (n + 1) = .ok (g c)) :
    firstSome (fun (a, n) => f a n) (a :: l.map h).zipIdx =
      .ok (b.or (Docstring.firstSome g l)) := by
  have hrest : ∀ n, firstSome (fun (a, n) => f a n) ((l.map h).zipIdx (n + 1)) =
      .ok (Docstring.firstSome g l) := by
    clear hfirst
    induction l with
    | nil => exact fun _ => rfl
    | cons c l ih =>
      intro n
      obtain ⟨hc, hl⟩ := List.forall_mem_cons.mp hlater
      simp only [List.map_cons, List.zipIdx_cons, firstSome, hc n, ok_bind, Docstring.firstSome]
      cases g c with
      | some b => rfl
      | none => exact ih hl (n + 1)
  simp only [List.zipIdx_cons, firstSome, hfirst, ok_bind]
  cases b with
  | some b => rfl
  | none => exact hrest 0

/-- A run ends at the first line that does not answer, so nothing behind it is looked up. -/
theorem mapWhile_map {f : α → Careful (Option β)} {g : γ → Option β}
    (hf : ∀ c ∈ l, f (h c) = .ok (g c)) :
    mapWhile f (l.map h) = .ok (Docstring.mapWhile g l) := by
  induction l with
  | nil => rfl
  | cons c l ih =>
    obtain ⟨hc, hl⟩ := List.forall_mem_cons.mp hf
    rw [List.map_cons, mapWhile, hc, ok_bind, Docstring.mapWhile]
    cases g c with
    | some b => simp only [ih hl, ok_bind, pure_eq_ok]
    | none => rfl

/-- Leaving lines out looks up no line that the other one does not look at. -/
theorem dropWhile_map {p : α → Careful Bool} {q : γ → Bool}
    (hp : ∀ c ∈ l, p (h c) = .ok (q c)) :
    dropWhile p (l.map h) = .ok ((l.dropWhile q).map h) := by
  induction l with
  | nil => rfl
  | cons c l ih =>
    obtain ⟨hc, hl⟩ := List.forall_mem_cons.mp hp
    rw [List.map_cons, dropWhile, hc, ok_bind, List.dropWhile_cons]
    cases q c with
    | true => exact ih hl
    | false => rfl

theorem mapM_eq_ok {f : α → Careful β} {g : α → β} {l : List α}
    (hf : ∀ a ∈ l, f a = .ok (g a)) : l.mapM f = .ok (l.map g) := by
  induction l with
  | nil => rfl
  | cons a l ih =>
    obtain ⟨ha, hl⟩ := List.forall_mem_cons.mp hf
    rw [List.mapM_cons, ha, ok_bind, ih hl]
    rfl

end Lists

/-- It does not matter at which end one begins. -/
theorem dropWhile_rdropWhile {α : Type} (p : α → Bool) (l : List α) :
    (l.rdropWhile p).dropWhile p = (l.dropWhile p).rdropWhile p := by
  induction l using List.reverseRecOn with
  | nil => rfl
  | append_singleton l a ih =>
    rw [List.dropWhile_append]
    cases ha : p a with
    | true =>
      rw [List.rdropWhile_concat_pos p l a ha, ih]
      split
      · next hnil =>
        rw [List.isEmpty_iff.mp hnil, List.dropWhile_cons_of_pos ha]
        rfl
      · rw [List.rdropWhile_concat_pos p _ a ha]
    | false =>
      have hneg : ¬ p a = true := Bool.eq_false_iff.mp ha
      rw [List.rdropWhile_concat_neg p l a hneg, List.dropWhile_append]
      split
      · rw [List.dropWhile_cons_of_neg hneg]
        exact (List.rdropWhile_concat_neg p [] a hneg).symm
      · rw [List.rdropWhile_concat_neg p _ a hneg]

/-- Draining the blank lines in front never asks for more lines than there are. -/
theorem finish?_eq_ok (body : List (List Char)) : finish? body = .ok (Docstring.finish? body) := by
  have hle := (List.takeWhile_prefix allBlank (l := body.rdropWhile allBlank)).length_le
  have hdrained : (body.rdropWhile allBlank).drop
      ((body.rdropWhile allBlank).takeWhile allBlank).length =
        (body.dropWhile allBlank).rdropWhile allBlank := by
    have hdrop := @List.drop_left _ ((body.rdropWhile allBlank).takeWhile allBlank)
      ((body.rdropWhile allBlank).dropWhile allBlank)
    rwa [List.takeWhile_append_dropWhile, dropWhile_rdropWhile] at hdrop
  simp only [finish?, cutFrom_eq_ok hle, ok_bind, hdrained]
  rfl

/-- The cut of a line behind an opening delimiter, and that before a closing one, are in range. -/
theorem inlineBlock?_eq_ok (block : BlockStyle) (line : List Char) :
    inlineBlock? block line = .ok (Docstring.inlineBlock? block line) := by
  rw [inlineBlock?, Docstring.inlineBlock?]
  cases hopened : block.opening.find? line with
  | none => rfl
  | some opened =>
    simp only [cutFrom_eq_ok (Pattern.find?_within hopened).stop_le, ok_bind,
      Option.bind_eq_bind, Option.bind_some]
    cases hclosed : block.closing.find? (line.drop opened.stop) with
    | none => rfl
    | some closed =>
      obtain ⟨hle, hstop⟩ := Pattern.find?_within hclosed
      simp only [cut_eq_ok (Nat.zero_le _) (Nat.le_trans hle hstop), ok_bind]
      rfl

/-- A comment on a line is read from that line alone. -/
theorem inline?_eq_ok (style : CommentStyle) (line : List Char) :
    inline? style line = .ok (Docstring.inline? style line) := by
  rw [inline?, Docstring.inline?]
  cases (style.line.bind (·.trailingBody? line)).bind nonBlank? with
  | some body => rfl
  | none => exact optionally_eq_ok (inlineBlock?_eq_ok · line) style.block

/-- The numbers of numbered lines are numbers of lines that are there. -/
def Faithful (lines : List (List Char)) (near : List NumberedLine) : Prop :=
  ∀ l ∈ near, lines[l.2]? = some l.1

section Lines

variable {lines : List (List Char)}

/-- The lines on one side of a definition are there, under their numbers. -/
theorem faithful_away (edge : Nat) (side : Placement) :
    Faithful lines (Docstring.away lines edge side) :=
  fun _ hl => (of_mem_away hl).1

/-- On both ways the same lines are gone through, in the same order. -/
theorem away_eq {d : Nat} (hd : d ≤ lines.length) (side : Placement) :
    away lines.length d side = (Docstring.away lines d side).map (·.2) := by
  have hnumbers : lines.zipIdx.map (·.2) = List.range lines.length := by
    rw [List.range_eq_range', ← List.zipIdx_map_snd]
  cases side with
  | below => rw [away, Docstring.away, List.map_drop, hnumbers]
  | above =>
    rw [away, Docstring.away, List.map_reverse, List.map_take, hnumbers, List.take_range,
      Nat.min_eq_left hd]

/-- Lines to ignore are looked up by their numbers, which are those of lines on that side. -/
theorem candidates_eq_ok {d : Nat} (hd : d ≤ lines.length) (ignore : Option Pattern)
    (side : Placement) :
    candidates lines d ignore side =
      .ok ((Docstring.candidates lines d ignore side).map (·.2)) := by
  rw [candidates, away_eq hd, Docstring.candidates]
  refine dropWhile_map fun l hl => ?_
  cases ignore with
  | none => rfl
  | some p =>
    simp only [entry_eq_ok (faithful_away d side l hl), ok_bind]
    rfl

/-- A run of line comments is read line by line, each of which is there. -/
theorem lineRun?_eq_ok {near : List NumberedLine} (hnear : Faithful lines near)
    (style : LineStyle) (side : Placement) :
    lineRun? lines style side (near.map (·.2)) = .ok (Docstring.lineRun? style side near) := by
  have hbodies := mapWhile_map (h := Prod.snd) (l := near)
    (f := fun i => do return style.leadingBody? (← entry lines i))
    (g := fun l => style.leadingBody? l.1) fun l hl => by
      simp only [entry_eq_ok (hnear l hl), ok_bind]
      rfl
  simp only [lineRun?, hbodies, ok_bind, Docstring.lineRun?, finish?_eq_ok]
  split <;> rfl

variable {block : BlockStyle} {edge : Nat}

section Line

variable {i : Nat} {line : List Char} (hline : lines[i]? = some line)

include hline

/-- On the line where a block opens, it is closed behind the opening delimiter. -/
theorem closingOn?_nearest (block : BlockStyle) {opened : Found}
    (hopened : opened.stop ≤ line.length) :
    closingOn? lines block opened i 0 = .ok
      ((block.closing.find? (line.drop opened.stop)).map fun m => (i, opened.stop + m.start)) := by
  simp only [closingOn?, entry_eq_ok hline, ok_bind, if_pos, cutFrom_eq_ok hopened]
  rfl

/-- On a later line it may be closed from the start. -/
theorem closingOn?_later (opened : Found) (n : Nat) :
    closingOn? lines block opened i (n + 1) = .ok
      ((block.closing.find? line).map fun m => (i, m.start)) := by
  simp only [closingOn?, entry_eq_ok hline, ok_bind, Nat.add_one_ne_zero, if_false,
    cutFrom_eq_ok (Nat.zero_le _), List.drop_zero, Nat.zero_add]
  rfl

/-- On the line where a block closes, it was opened in front of the closing delimiter. -/
theorem openingOn?_nearest (block : BlockStyle) {closed : Found}
    (hclosed : closed.start ≤ line.length) :
    openingOn? lines block closed i 0 = .ok
      ((block.opening.find? (line.take closed.start)).map fun m => (i, m.stop)) := by
  simp only [openingOn?, entry_eq_ok hline, ok_bind, if_pos, cut_eq_ok (Nat.zero_le _) hclosed]
  rfl

/-- On an earlier line it may be opened anywhere. -/
theorem openingOn?_earlier (closed : Found) (n : Nat) :
    openingOn? lines block closed i (n + 1) = .ok
      ((block.opening.find? line).map fun m => (i, m.stop)) := by
  simp only [openingOn?, entry_eq_ok hline, ok_bind, Nat.add_one_ne_zero, if_false, pure_eq_ok]

end Line

/-- **The search for a block asks for lines that are there and cuts at delimiters.** -/
theorem extent?_eq_ok (hedge : edge ≤ lines.length) {side : Placement}
    (hne : Docstring.away lines edge side ≠ []) :
    extent? lines block side ((Docstring.away lines edge side).map (·.2)) =
      .ok (Docstring.extent? block side (Docstring.away lines edge side)) := by
  generalize hnear : Docstring.away lines edge side = near at hne
  cases near with
  | nil => exact absurd rfl hne
  | cons nearest more =>
    obtain ⟨line, i⟩ := nearest
    obtain ⟨hline, -, rfl⟩ := away_eq_cons hedge hnear
    cases side with
    | below =>
      simp only [extent?, extentBelow?, Docstring.extent?, Docstring.extentBelow?, List.map_cons,
        entry_eq_ok (List.getElem?_cons_zero), entry_eq_ok hline, ok_bind]
      cases hopened : block.opening.find? line with
      | none => rfl
      | some opened =>
        have hsearch := firstSome_zipIdx (h := Prod.snd)
          (closingOn?_nearest hline block (Pattern.find?_within hopened).stop_le)
          fun l hl n => closingOn?_later (faithful_away i .below l hl) opened n
        simp only [hsearch, ok_bind, Option.bind_eq_bind, Option.bind_some, Option.map_eq_bind]
        rfl
    | above =>
      simp only [extent?, extentAbove?, Docstring.extent?, Docstring.extentAbove?, List.map_cons,
        entry_eq_ok (List.getElem?_cons_zero), entry_eq_ok hline, ok_bind]
      cases hclosed : (block.closing.findAll line).getLast? with
      | none => rfl
      | some closed =>
        obtain ⟨hle, hstop⟩ := Pattern.within_of_mem_findAll (List.mem_of_getLast? hclosed)
        have hsearch := firstSome_zipIdx (h := Prod.snd)
          (openingOn?_nearest hline block (Nat.le_trans hle hstop))
          fun l hl n => openingOn?_earlier (faithful_away i .above l hl) closed n
        simp only [hsearch, ok_bind, Option.bind_eq_bind, Option.bind_some, Option.map_eq_bind]
        rfl

/-! ## The body of a block -/

variable {e : Extent}

/-- The part of a line inside a block is cut within the line. -/
theorem segment_eq_ok (he : e.Placed lines) {i : Nat} (hlast : i ≤ e.last) :
    segment lines block e i = .ok (block.bare (e.part (lines[i]?.getD []) i), i) := by
  have hlt : i < lines.length := Nat.lt_of_le_of_lt hlast he.last_lt
  obtain ⟨line, hline⟩ : ∃ line, lines[i]? = some line := ⟨_, List.getElem?_eq_getElem hlt⟩
  have hstop : (if i = e.last then e.stop else line.length) ≤ line.length := by
    split
    · next heq => exact he.stop_le line (heq ▸ hline)
    · exact Nat.le_refl _
  simp only [segment, entry_eq_ok hline, ok_bind, hline, Option.getD_some, Extent.part]
  generalize (if i = e.last then e.stop else line.length) = stop at hstop ⊢
  generalize (if i = e.first then e.start else 0) = start
  by_cases hle : start ≤ stop
  · rw [if_pos hle, cut_eq_ok hle hstop]
    rfl
  · -- the part that would stop before it starts is empty
    rw [if_neg hle, slice, Nat.sub_eq_zero_of_le (Nat.le_of_not_le hle), List.take_zero]
    rfl

/-- The segments of a block, by the numbers of its lines. -/
theorem segments_eq (he : e.Placed lines) :
    ((List.range (e.last + 1)).drop e.first).map (fun i =>
      (block.bare (e.part (lines[i]?.getD []) i), i)) = e.segments block lines := by
  refine List.ext_getElem? fun k => ?_
  rw [Extent.segments, List.getElem?_map, List.getElem?_map, List.getElem?_take,
    List.getElem?_drop, List.getElem?_drop, List.getElem?_zipIdx]
  by_cases hk : k < e.last + 1 - e.first
  · have hlt : e.first + k < lines.length := Nat.lt_of_lt_of_le (by omega) he.last_lt
    rw [List.getElem?_range (by omega), if_pos hk, List.getElem?_eq_getElem hlt, Nat.zero_add]
    simp only [List.getElem?_eq_getElem hlt, Option.map_some, Option.getD_some]
    rfl
  · rw [if_neg hk, List.getElem?_eq_none (by rw [List.length_range]; omega)]
    rfl

/-- The indentation is taken from a line inside the extent. -/
theorem indent_eq_ok (he : e.Placed lines) (segments : List NumberedLine) :
    indent lines e segments = .ok (e.indent lines segments) := by
  have hlt : e.first < lines.length := Nat.lt_of_le_of_lt he.first_le he.last_lt
  obtain ⟨line, hline⟩ : ∃ line, lines[e.first]? = some line := ⟨_, List.getElem?_eq_getElem hlt⟩
  rw [indent, Extent.indent]
  cases segments.find? fun (segment, _) => !allBlank segment with
  | none => rfl
  | some found =>
    obtain ⟨segment, i⟩ := found
    simp only [entry_eq_ok hline, ok_bind, hline, Option.getD_some]
    split <;> rfl

theorem length_takeWhile_take {α : Type} (p : α → Bool) (l : List α) (n : Nat) :
    ((l.take n).takeWhile p).length = min n (l.takeWhile p).length := by
  induction l generalizing n with
  | nil => simp
  | cons a l ih =>
    cases n with
    | zero => simp
    | succ n =>
      rw [List.take_succ_cons, List.takeWhile_cons, List.takeWhile_cons]
      split
      · rw [List.length_cons, List.length_cons, ih, Nat.succ_min_succ]
      · rfl

/-- No more is cut off a line than its blanks in front, so the cut is in range. -/
theorem stripIndent_eq_ok (amount : Nat) (line : List Char) :
    stripIndent amount line = .ok (Docstring.stripIndent amount line) := by
  rw [stripIndent, length_takeWhile_take]
  exact cutFrom_eq_ok (Nat.le_trans (Nat.min_le_right _ _) (List.takeWhile_prefix _).length_le)

/-- **A block is read without a refusal.** -/
theorem block?_eq_ok (block : BlockStyle) (hedge : edge ≤ lines.length) {side : Placement}
    (hne : Docstring.away lines edge side ≠ []) :
    block? lines block side ((Docstring.away lines edge side).map (·.2)) =
      .ok (Docstring.block? block side lines (Docstring.away lines edge side)) := by
  rw [block?, extent?_eq_ok hedge hne, ok_bind, Docstring.block?]
  cases hextent : Docstring.extent? block side (Docstring.away lines edge side) with
  | none => rfl
  | some e =>
    have he := (extent?_placed hedge hextent).1
    have hsegments : ((List.range (e.last + 1)).drop e.first).mapM (segment lines block e) =
        .ok (e.segments block lines) := by
      rw [← segments_eq he]
      refine mapM_eq_ok fun i hi => segment_eq_ok he ?_
      exact Nat.le_of_lt_succ (List.mem_range.mp (List.mem_of_mem_drop hi))
    have hbody := mapM_eq_ok (l := e.segments block lines) fun l _ =>
      stripIndent_eq_ok (e.indent lines (e.segments block lines)) l.1
    simp only [hsegments, indent_eq_ok he, hbody, finish?_eq_ok, ok_bind]
    rfl

/-- What one style finds next to a definition is found without a refusal. -/
theorem nearby?_eq_ok {d : Nat} (hd : d ≤ lines.length) (style : CommentStyle)
    (ignore : Option Pattern) :
    nearby? lines style d ignore = .ok (Docstring.nearby? style lines d ignore) := by
  obtain ⟨edge, -, hedge, hnear⟩ := exists_candidates_eq hd ignore style.placement
  rw [nearby?, candidates_eq_ok hd, ok_bind, Docstring.nearby?, hnear]
  by_cases hne : Docstring.away lines edge style.placement = []
  · -- on an empty side there is neither a run nor a block
    have hblock : ∀ block : BlockStyle, Docstring.extent? block style.placement [] = none := by
      intro block
      cases style.placement <;> rfl
    simp only [hne, Docstring.block?, hblock]
    cases style.line <;> cases style.block <;> rfl
  · have hfaithful : Faithful lines (Docstring.away lines edge style.placement) :=
      faithful_away edge style.placement
    have hrun := optionally_eq_ok (lineRun?_eq_ok hfaithful · style.placement) style.line
    have hblock := optionally_eq_ok (block?_eq_ok · hedge hne) style.block
    have hmap : ((Docstring.away lines edge style.placement).map (·.2)).isEmpty = false := by
      simpa using hne
    simp only [hmap, hrun, hblock, ok_bind]
    cases style.line.bind _ <;> rfl

end Lines

/-- **Nothing is ever refused.** -/
theorem careful_find? (styles : List CommentStyle) (ignore : Option Pattern) (text : String)
    (d : Nat) : find? styles ignore text d = .ok (Docstring.find? styles ignore text d) := by
  rw [find?, Docstring.find?]
  cases hline : (Text.lines text.toList)[d]? with
  | none => rfl
  | some line =>
    have hd : d ≤ (Text.lines text.toList).length :=
      Nat.le_of_lt (List.getElem?_eq_some_iff.mp hline).1
    have hinline := firstSome_eq_ok (l := styles) fun s _ => inline?_eq_ok s line
    have hnearby := firstSome_eq_ok (l := styles) fun s _ => nearby?_eq_ok hd s ignore
    simp only [hinline, hnearby, ok_bind, Option.bind_eq_bind, Option.bind_some]
    cases Docstring.firstSome (Docstring.inline? · line) styles with
    | some doc => rfl
    | none =>
      cases Docstring.firstSome (Docstring.nearby? · (Text.lines text.toList) d ignore) styles <;>
        rfl

end Careful

end CodeNav.Docstring

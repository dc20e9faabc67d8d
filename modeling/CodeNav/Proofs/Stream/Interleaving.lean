import CodeNav.Lookup.Stream
import Mathlib.Data.List.Induction

/-!
# Streams under interleaving

`Reader.next` looks at a stream once. A consumer on another thread does not: it takes the
newest snapshot, then looks **again** whether the stream is complete, then waits for the
cell to be written, and the producer may write between any two of these. Here each access
to the cell is one step, and the steps of the producer and of all consumers come in any
order.

* `Consumer.alone_eq_next` — without interference the steps are `Reader.next`.
* `returned_none_iff` — when `next` says that the stream has ended, the consumer was handed
  the last snapshot **exactly when nothing was emitted since its last look**. A snapshot
  that is emitted between the look and the check, with the completion right after it, is
  never handed out (`last_snapshot_lost`).
-/

namespace CodeNav.Interleaving

variable {α : Type}

/-! ## The steps -/

/-- The cell that a producer and its consumers share. -/
structure Cell (α : Type) where
  stream : Stream α := {}
  /-- how often it was written -/
  version : Nat := 0
  /-- the producer has let go of it -/
  released : Bool := false

/-- Where a consumer stands in `next`. -/
inductive Stage (α : Type) where
  /-- in no call, or in one that was given up -/
  | outside
  /-- about to take the snapshot it has not seen -/
  | look
  /-- it found none, and is about to look whether the stream is complete -/
  | check
  /-- waiting for the cell to be written -/
  | wait
  /-- the producer is gone; about to take a snapshot for the last time -/
  | lastLook
  /-- the call returned -/
  | returned (r : Option α)
  deriving DecidableEq

namespace Stage

/-- In no call. -/
def isIdle : Stage α → Bool
  | outside | returned _ => true
  | _ => false

/-- Past a look that found nothing. -/
def isBehindLook : Stage α → Bool
  | check | wait | lastLook | returned none => true
  | _ => false

/-- Only reached when the stream is complete. -/
def isAtEnd : Stage α → Bool
  | lastLook | returned none => true
  | _ => false

end Stage

/-- A consumer of a stream. -/
structure Consumer (α : Type) where
  reader : Reader := {}
  /-- how often the cell had been written when it looked last -/
  version : Nat := 0
  stage : Stage α := .outside
  /-- the snapshots it was handed with their numbers, the earliest first; a clone begins with
  those of its original -/
  handed : List (Nat × α) := []

/-- What a consumer can do next. -/
inductive Move where
  | call
  | look
  | check
  | wake
  | giveUp
  deriving DecidableEq

namespace Consumer

/-- Take the snapshot that was not seen; if there is none, go on to `otherwise`. -/
def look (cell : Cell α) (otherwise : Stage α) (c : Consumer α) : Consumer α :=
  match c.reader.unseen? cell.stream with
  | some a =>
    { reader := ⟨cell.stream.count⟩, version := cell.version, stage := .returned (some a)
      handed := c.handed ++ [(cell.stream.count, a)] }
  | none => { c with version := cell.version, stage := otherwise }

/-- One move of a consumer, if it can be made. -/
def move (cell : Cell α) (c : Consumer α) : Move → Option (Consumer α)
  | .call => if c.stage.isIdle then some { c with stage := .look } else none
  | .look =>
    match c.stage with
    | .look => some (c.look cell .check)
    | .lastLook => some (c.look cell (.returned none))
    | _ => none
  | .check =>
    match c.stage with
    | .check =>
      some { c with stage := if cell.stream.complete then .returned none else .wait }
    | _ => none
  | .wake =>
    match c.stage with
    | .wait =>
      if c.version ≠ cell.version then some { c with version := cell.version, stage := .look }
      else if cell.released then some { c with stage := .lastLook }
      else none
    | _ => none
  | .giveUp =>
    match c.stage with
    | .wait => some { c with stage := .outside }
    | _ => none

/-- A call whose moves are not interfered with, up to where it returns or waits. -/
def alone (cell : Cell α) (c : Consumer α) : Option (Consumer α) := do
  let c ← c.move cell .call
  let c ← c.move cell .look
  match c.stage with
  | .check => c.move cell .check
  | _ => some c

/-- Where a reading leaves a consumer. -/
def stageOf : Reading α → Stage α
  | .value a => .returned (some a)
  | .ended => .returned none
  | .waiting => .wait

/-- **Without interference the moves of a call are `Reader.next`.** -/
theorem alone_eq_next (cell : Cell α) (c : Consumer α) (hc : c.stage.isIdle) :
    ∃ c', c.alone cell = some c' ∧ c'.reader = (c.reader.next cell.stream).2 ∧
      c'.stage = stageOf (c.reader.next cell.stream).1 := by
  simp only [alone, move, hc, if_true, Option.bind_eq_bind, Option.bind_some, look, Reader.next]
  cases h : c.reader.unseen? cell.stream with
  | some a => exact ⟨_, rfl, rfl, rfl⟩
  | none => cases hd : cell.stream.complete <;> exact ⟨_, rfl, rfl, rfl⟩

end Consumer

/-- A stream with its consumers. At first there is one consumer. -/
structure State (α : Type) where
  cell : Cell α := {}
  consumers : List (Consumer α) := [{}]

/-- One step of the producer or of a consumer. -/
inductive Action (α : Type) where
  | emit (a : α)
  | complete
  | release
  | move (i : Nat) (m : Move)
  /-- a new consumer that has seen nothing -/
  | subscribe (i : Nat)
  /-- a new consumer that has seen what its original has -/
  | clone (i : Nat)

namespace State

/-- Write the stream. -/
def write (s : State α) (f : Stream α → Stream α) : State α :=
  { s with cell := { s.cell with stream := f s.cell.stream, version := s.cell.version + 1 } }

/-- One step, if it can be made. -/
def step (s : State α) : Action α → Option (State α)
  | .emit a => if s.cell.stream.complete then none else some (s.write (·.emit a))
  | .complete => if s.cell.stream.complete then none else some (s.write Stream.close)
  | .release =>
    if s.cell.stream.complete then some { s with cell := { s.cell with released := true } }
    else none
  | .move i m => do
    let c ← s.consumers[i]?
    let c ← c.move s.cell m
    return { s with consumers := s.consumers.set i c }
  | .subscribe i => do
    let c ← s.consumers[i]?
    if c.stage.isIdle then some { s with consumers := s.consumers ++ [{ version := c.version }] }
    else none
  | .clone i => do
    let c ← s.consumers[i]?
    if c.stage.isIdle then
      some { s with consumers := s.consumers ++ [{ c with stage := .outside }] }
    else none

/-- Steps one after the other, from the start. -/
def run (actions : List (Action α)) : Option (State α) := actions.foldlM step {}

end State

/-! ## What a run has emitted -/

namespace Action

/-- What a step emits. -/
def emitted? : Action α → Option α
  | emit a => some a
  | _ => none

/-- Whether a step is a look of the consumer `i`. -/
def isLookOf (i : Nat) : Action α → Bool
  | move j .look => j = i
  | _ => false

end Action

/-- The snapshots that were emitted, the earliest first. -/
def emitted (actions : List (Action α)) : List α := actions.filterMap Action.emitted?

/-- How many snapshots were emitted since the last look of the consumer `i`. -/
def missed (i : Nat) (actions : List (Action α)) : Nat :=
  (emitted (actions.reverse.takeWhile fun a => !a.isLookOf i)).length

/-- The snapshot with a number; the first one has number one. -/
def numbered (es : List α) : Nat → Option (Nat × α)
  | 0 => none
  | n + 1 => es[n]?.map (n + 1, ·)

/-- The last snapshot that was emitted, with its number. -/
def lastEmission? (actions : List (Action α)) : Option (Nat × α) :=
  numbered (emitted actions) (emitted actions).length

@[simp] theorem emitted_snoc (actions : List (Action α)) (a : Action α) :
    emitted (actions ++ [a]) = emitted actions ++ a.emitted?.toList := by
  cases h : a.emitted? <;> simp [emitted, h]

theorem missed_snoc (i : Nat) (actions : List (Action α)) (a : Action α) :
    missed i (actions ++ [a]) =
      if a.isLookOf i then 0 else missed i actions + a.emitted?.toList.length := by
  unfold missed
  rw [List.reverse_append, List.reverse_singleton, List.singleton_append, List.takeWhile_cons]
  by_cases h : a.isLookOf i
  · simp [h, emitted]
  · cases he : a.emitted? <;> simp [h, emitted, he]

theorem numbered_append {es : List α} {n : Nat} (hn : n ≤ es.length) (more : List α) :
    numbered (es ++ more) n = numbered es n := by
  cases n with
  | zero => rfl
  | succ n => rw [numbered, numbered, List.getElem?_append_left (by omega)]

theorem numbered_length (es : List α) :
    numbered es es.length = es.getLast?.map (es.length, ·) := by
  cases h : es.length with
  | zero => simp [numbered, List.length_eq_zero_iff.mp h]
  | succ n => rw [numbered, List.getLast?_eq_getElem?, h, Nat.add_sub_cancel]

/-- Snapshots that were emitted have different numbers. -/
theorem eq_of_numbered_eq {es : List α} {n : Nat} (hn : n ≤ es.length)
    (h : numbered es n = numbered es es.length) : n = es.length := by
  rcases Nat.eq_or_lt_of_le hn with rfl | hlt
  · rfl
  · obtain ⟨k, hk⟩ := Nat.exists_eq_add_of_lt hlt
    have hlast : es.length = (n + k) + 1 := by omega
    rw [hlast] at h
    cases n with
    | zero =>
      rw [numbered, numbered, List.getElem?_eq_getElem (by omega)] at h
      simp at h
    | succ n =>
      rw [numbered, numbered, List.getElem?_eq_getElem (by omega),
        List.getElem?_eq_getElem (by omega)] at h
      simp only [Option.map_some, Option.some.injEq, Prod.mk.injEq] at h
      omega

/-! ## The invariant

A consumer remembers the number of the snapshot it was handed last. Past a look that found
nothing it is behind by exactly what was emitted since, and it is at the end only when the
stream is complete. -/

/-- What holds of a consumer, given the snapshots emitted so far, how many of them came
since its last look, and whether the stream is complete. -/
structure Consumer.Fits (es : List α) (missed : Nat) (complete : Bool) (c : Consumer α) :
    Prop where
  seen_le : c.reader.seen ≤ es.length
  handed : c.handed.getLast? = numbered es c.reader.seen
  behind : c.stage.isBehindLook → c.reader.seen + missed = es.length
  atEnd : c.stage.isAtEnd → complete

/-- What holds of a cell, given the snapshots emitted so far. -/
structure Cell.Fits (es : List α) (cell : Cell α) : Prop where
  count : cell.stream.count = es.length
  newest : cell.stream.newest = es.getLast?
  released : cell.released → cell.stream.complete

namespace Consumer.Fits

variable {es : List α} {missed : Nat} {complete : Bool} {c : Consumer α}

theorem emit (h : c.Fits es missed false) (a : α) : c.Fits (es ++ [a]) (missed + 1) false where
  seen_le := by
    rw [List.length_append]
    exact Nat.le_add_right_of_le h.seen_le
  handed := by rw [numbered_append h.seen_le, h.handed]
  behind hb := by
    have := h.behind hb
    simp only [List.length_append, List.length_singleton]
    omega
  atEnd := h.atEnd

theorem complete_stream (h : c.Fits es missed complete) : c.Fits es missed true :=
  ⟨h.seen_le, h.handed, h.behind, fun _ => rfl⟩

/-- A consumer in no call is not behind anything. -/
theorem outside (h : c.Fits es missed complete) (m : Nat) (version : Nat) :
    Consumer.Fits es m complete { c with version, stage := .outside } :=
  ⟨h.seen_le, h.handed, fun hb => (by cases hb), fun he => (by cases he)⟩

/-- A look catches up. -/
theorem look {cell : Cell α} (h : c.Fits es missed cell.stream.complete) (hcell : cell.Fits es)
    {otherwise : Stage α} (ho : otherwise.isAtEnd → cell.stream.complete) :
    (c.look cell otherwise).Fits es 0 cell.stream.complete := by
  unfold Consumer.look Reader.unseen?
  by_cases hseen : c.reader.seen < cell.stream.count
  · -- something was emitted, so there is a newest snapshot
    have hne : es ≠ [] := by
      rintro rfl
      rw [hcell.count] at hseen
      simp at hseen
    have hnewest : cell.stream.newest = some (es.getLast hne) := by
      rw [hcell.newest, List.getLast?_eq_some_getLast hne]
    rw [if_pos hseen, hnewest]
    refine ⟨Nat.le_of_eq hcell.count, ?_, fun hb => (by cases hb), fun he => (by cases he)⟩
    rw [List.getLast?_concat, hcell.count, numbered_length,
      List.getLast?_eq_some_getLast hne]
    rfl
  · have hcount := hcell.count
    have hle := h.seen_le
    rw [if_neg hseen]
    exact ⟨hle, h.handed, fun _ => (by simp only; omega), ho⟩

/-- A move that is no look changes the stage only. -/
theorem of_stage (h : c.Fits es missed complete) {stage : Stage α} {version : Nat}
    (hb : stage.isBehindLook → c.stage.isBehindLook) (he : stage.isAtEnd → complete) :
    Consumer.Fits es missed complete { c with version, stage } :=
  ⟨h.seen_le, h.handed, fun hs => h.behind (hb hs), he⟩

/-- **Every move keeps the invariant**, and a look sets the count of missed snapshots back. -/
theorem move {cell : Cell α} (h : c.Fits es missed cell.stream.complete) (hcell : cell.Fits es)
    {m : Move} {c' : Consumer α} (hm : c.move cell m = some c') :
    c'.Fits es (if m = .look then 0 else missed) cell.stream.complete := by
  cases m with
  | call =>
    simp only [Consumer.move, Option.ite_none_right_eq_some, Option.some.injEq] at hm
    obtain ⟨-, rfl⟩ := hm
    exact h.of_stage (fun hb => (by cases hb)) (fun he => (by cases he))
  | look =>
    simp only [Consumer.move] at hm
    split at hm
    · cases hm
      exact h.look hcell (fun he => (by cases he))
    case h_2 hs =>
      cases hm
      exact h.look hcell (fun _ => h.atEnd (by rw [hs]; rfl))
    · cases hm
  | check =>
    simp only [Consumer.move] at hm
    split at hm
    case h_1 hs =>
      cases hm
      refine h.of_stage (fun _ => (by rw [hs]; rfl)) ?_
      cases cell.stream.complete <;> simp [Stage.isAtEnd]
    · cases hm
  | wake =>
    simp only [Consumer.move] at hm
    split at hm
    case h_1 hs =>
      split at hm
      · cases hm
        exact h.of_stage (fun hb => (by cases hb)) (fun he => (by cases he))
      · simp only [Option.ite_none_right_eq_some, Option.some.injEq] at hm
        obtain ⟨hreleased, rfl⟩ := hm
        exact h.of_stage (fun _ => (by rw [hs]; rfl)) (fun _ => hcell.released hreleased)
    · cases hm
  | giveUp =>
    simp only [Consumer.move] at hm
    split at hm
    · cases hm
      exact h.outside missed c.version
    · cases hm

end Consumer.Fits

/-- What holds of a state that a run leads to. -/
structure State.Fits (actions : List (Action α)) (s : State α) : Prop where
  cell : s.cell.Fits (emitted actions)
  consumers : ∀ (i : Nat) (c : Consumer α), s.consumers[i]? = some c →
    c.Fits (emitted actions) (missed i actions) s.cell.stream.complete

namespace State

theorem fits_start : State.Fits [] ({} : State α) where
  cell := ⟨rfl, rfl, fun h => (by cases h)⟩
  consumers i c hc := by
    obtain rfl : c = {} := by
      cases i with
      | zero => simpa using hc.symm
      | succ i => simp at hc
    exact ⟨Nat.le_refl 0, rfl, fun h => (by cases h), fun h => (by cases h)⟩

/-- A new consumer in no call fits in. -/
theorem Fits.push {actions : List (Action α)} {s : State α} (h : s.Fits actions)
    {a : Action α} (ha : a.emitted? = none) (hl : ∀ i, a.isLookOf i = false) {c : Consumer α}
    (hc : ∀ m, c.Fits (emitted actions) m s.cell.stream.complete) :
    State.Fits (actions ++ [a]) { s with consumers := s.consumers ++ [c] } where
  cell := by
    rw [emitted_snoc, ha, Option.toList_none, List.append_nil]
    exact h.cell
  consumers i d hd := by
    rw [emitted_snoc, missed_snoc, ha, hl i]
    simp only [Option.toList_none, List.append_nil, List.length_nil, Nat.add_zero,
      Bool.false_eq_true, if_false]
    by_cases hi : i < s.consumers.length
    · rw [List.getElem?_append_left hi] at hd
      exact h.consumers i d hd
    · rw [List.getElem?_append_right (by omega)] at hd
      obtain rfl := List.mem_singleton.mp (List.mem_of_getElem? hd)
      exact hc _

/-- **Every step keeps the invariant.** -/
theorem Fits.step {actions : List (Action α)} {s s' : State α} (h : s.Fits actions)
    {a : Action α} (hs : s.step a = some s') : s'.Fits (actions ++ [a]) := by
  cases a with
  | emit a =>
    simp only [State.step, Option.ite_none_left_eq_some, Option.some.injEq] at hs
    obtain ⟨hopen, rfl⟩ := hs
    have hopen : s.cell.stream.complete = false := by simpa using hopen
    have hheld : s.cell.released → False := fun hr => by simp [h.cell.released hr] at hopen
    refine ⟨⟨?_, ?_, fun hr => (hheld hr).elim⟩, fun i c hc => ?_⟩
    · simp [write, Stream.emit, hopen, h.cell.count, Action.emitted?]
    · simp [write, Stream.emit, hopen, Action.emitted?]
    · have hfits := h.consumers i c hc
      rw [hopen] at hfits
      rw [emitted_snoc, missed_snoc]
      simpa [write, Stream.emit, hopen, Action.emitted?, Action.isLookOf] using hfits.emit a
  | complete =>
    simp only [State.step, Option.ite_none_left_eq_some, Option.some.injEq] at hs
    obtain ⟨-, rfl⟩ := hs
    refine ⟨⟨?_, ?_, fun _ => rfl⟩, fun i c hc => ?_⟩
    · simpa [write, Stream.close, Action.emitted?] using h.cell.count
    · simpa [write, Stream.close, Action.emitted?] using h.cell.newest
    · rw [emitted_snoc, missed_snoc]
      simpa [write, Stream.close, Action.emitted?, Action.isLookOf] using
        (h.consumers i c hc).complete_stream
  | release =>
    simp only [State.step, Option.ite_none_right_eq_some, Option.some.injEq] at hs
    obtain ⟨hdone, rfl⟩ := hs
    refine ⟨⟨?_, ?_, fun _ => hdone⟩, fun i c hc => ?_⟩
    · simpa [Action.emitted?] using h.cell.count
    · simpa [Action.emitted?] using h.cell.newest
    · rw [emitted_snoc, missed_snoc]
      simpa [Action.emitted?, Action.isLookOf] using h.consumers i c hc
  | move j m =>
    obtain ⟨c, hc, hs⟩ := Option.bind_eq_some_iff.mp hs
    obtain ⟨c', hm, hs⟩ := Option.bind_eq_some_iff.mp hs
    obtain rfl := Option.some.inj hs
    refine ⟨by simpa [Action.emitted?] using h.cell, fun i d hd => ?_⟩
    rw [emitted_snoc, missed_snoc]
    by_cases hi : j = i
    · -- the consumer that moved
      subst hi
      have hlt : j < s.consumers.length := (List.getElem?_eq_some_iff.mp hc).1
      rw [List.getElem?_set_self hlt] at hd
      obtain rfl := Option.some.inj hd
      have hfits := (h.consumers j c hc).move h.cell hm
      cases m <;> simpa [Action.emitted?, Action.isLookOf] using hfits
    · -- any other consumer
      rw [List.getElem?_set_ne hi] at hd
      have hfits := h.consumers i d hd
      cases m <;> simpa [Action.emitted?, Action.isLookOf, hi] using hfits
  | subscribe j =>
    obtain ⟨c, hc, hs⟩ := Option.bind_eq_some_iff.mp hs
    simp only [Option.ite_none_right_eq_some, Option.some.injEq] at hs
    obtain ⟨-, rfl⟩ := hs
    refine h.push rfl (fun _ => rfl) (fun m => ?_)
    exact ⟨Nat.zero_le _, rfl, fun hb => (by cases hb), fun he => (by cases he)⟩
  | clone j =>
    obtain ⟨c, hc, hs⟩ := Option.bind_eq_some_iff.mp hs
    simp only [Option.ite_none_right_eq_some, Option.some.injEq] at hs
    obtain ⟨-, rfl⟩ := hs
    exact h.push rfl (fun _ => rfl) (fun m => (h.consumers j c hc).outside m c.version)

theorem fits_of_run {actions : List (Action α)} {s : State α} (h : run actions = some s) :
    s.Fits actions := by
  induction actions using List.reverseRecOn generalizing s with
  | nil =>
    obtain rfl := Option.some.inj h
    exact fits_start
  | append_singleton actions a ih =>
    rw [run, List.foldlM_append] at h
    obtain ⟨t, ht, hs⟩ := Option.bind_eq_some_iff.mp h
    exact (ih ht).step (by simpa using hs)

end State

/-! ## The end of a stream -/

/-- **No snapshot is lost except in the gap.** Whatever the order of the steps, when the
call of a consumer has returned with the end of the stream, the stream is complete, and the
consumer was handed the last snapshot (if there was any) exactly when nothing was emitted
since its last look. Then what it was handed last, which is what reading to the end keeps,
is the last snapshot. -/
theorem returned_none_iff {actions : List (Action α)} {s : State α}
    (hrun : State.run actions = some s)
    {i : Nat} {c : Consumer α} (hc : s.consumers[i]? = some c) (hend : c.stage = .returned none) :
    s.cell.stream.complete ∧
      (c.handed.getLast? = lastEmission? actions ↔ missed i actions = 0) ∧
      (missed i actions = 0 → c.handed.getLast?.map (·.2) = (emitted actions).getLast?) := by
  have hfits := (State.fits_of_run hrun).consumers i c hc
  have hbehind : c.reader.seen + missed i actions = (emitted actions).length :=
    hfits.behind (by rw [hend]; rfl)
  have hiff : c.handed.getLast? = lastEmission? actions ↔ missed i actions = 0 := by
    rw [hfits.handed, lastEmission?]
    constructor
    · intro h
      have := eq_of_numbered_eq hfits.seen_le h
      omega
    · intro h
      rw [h, Nat.add_zero] at hbehind
      rw [hbehind]
  refine ⟨hfits.atEnd (by rw [hend]; rfl), hiff, fun h => ?_⟩
  rw [hiff.mpr h, lastEmission?, numbered_length, Option.map_map]
  exact Option.map_id'

/-- A snapshot is emitted between the look of a consumer and its check, but the stream is
completed only after the check. -/
def foundRun : List (Action Nat) :=
  [.move 0 .call, .move 0 .look, .emit 7, .move 0 .check, .complete, .move 0 .wake,
    .move 0 .look, .move 0 .call, .move 0 .look, .move 0 .check]

/-- The next round hands it out. -/
theorem last_snapshot_found :
    ∃ s c, State.run foundRun = some s ∧ s.consumers[0]? = some c ∧ c.stage = .returned none ∧
      c.handed.getLast? = some (1, 7) := by
  refine ⟨_, _, rfl, rfl, rfl, ?_⟩
  exact (@returned_none_iff Nat foundRun _ rfl 0 _ rfl rfl).2.1.mpr rfl

/-- **The gap is real**: a snapshot is emitted and the stream is completed between the look of
a consumer and its check. The call returns with the end of the stream, and the only snapshot
was never handed out. -/
theorem last_snapshot_lost :
    ∃ s c, State.run [.move 0 .call, .move 0 .look, .emit 7, .complete, .release,
        .move 0 .check] = some s ∧
      s.consumers[0]? = some c ∧ c.stage = .returned none ∧ c.handed = [] ∧
      s.cell.stream.newest = some 7 :=
  ⟨_, _, rfl, rfl, rfl, rfl, rfl⟩

end CodeNav.Interleaving

import CodeNav.Lookup.Stream
import Mathlib.Data.List.Induction
import Mathlib.Data.List.Nodup

/-!
# Streams over whole histories

A stream is one cell that is overwritten, and a reader is one number. Here it is said what the
two come to over any history of a producer and any number of consumers, each operation taken as
one step. A snapshot is known by its number among those emitted, so that two equal ones are told
apart; the **line** of a consumer is what was handed to it and, if it is a clone, to its original
before.

* `Consumer.Fits` — the invariant: a line is a part of what was emitted, in order, and **the
  number a reader keeps is that of the last snapshot of its line**.
* `history_decides_reading` — so what `next` does can be read off the history: it hands out the
  newest snapshot if that is not in the line yet, and else waits or ends.
-/

namespace CodeNav.History

variable {α : Type}

/-! ## Histories -/

/-- One operation on a stream. -/
inductive Operation (α : Type) where
  | emit (a : α)
  | close
  /-- a new consumer that was handed nothing, got from the consumer `i` -/
  | subscribe (i : Nat)
  /-- a copy of the consumer `i` -/
  | clone (i : Nat)
  /-- the consumer `i` asks for a snapshot -/
  | next (i : Nat)

namespace Operation

def isClose : Operation α → Bool
  | close => true
  | _ => false

/-- What an operation emits. -/
def emitted? : Operation α → Option α
  | emit a => some a
  | _ => none

end Operation

/-- The producer is done. -/
def closed (ops : List (Operation α)) : Bool := ops.any Operation.isClose

/-- The snapshots that were emitted before the producer was done, the earliest first. -/
def emitted (ops : List (Operation α)) : List α :=
  (ops.takeWhile (!·.isClose)).filterMap Operation.emitted?

/-- Snapshots with their numbers; the first one has number one. -/
def numbered (es : List α) : List (α × Nat) := es.zipIdx 1

/-- The last snapshot that was emitted, with its number. -/
def newest? (es : List α) : Option (α × Nat) := (numbered es).getLast?

/-- A consumer, with a record of what it was handed. -/
structure Consumer (α : Type) where
  reader : Reader := {}
  /-- what its original had been handed when it was copied -/
  inherited : List (α × Nat) := []
  /-- what it was handed itself, the earliest first -/
  received : List (α × Nat) := []

/-- What was handed to a consumer and, before it was copied, to its original. -/
def Consumer.line (c : Consumer α) : List (α × Nat) := c.inherited ++ c.received

/-- Ask for a snapshot, after `n` of them were emitted. -/
def Consumer.ask (s : Stream α) (n : Nat) (c : Consumer α) : Consumer α :=
  match c.reader.next s with
  | (.value a, reader) => { c with reader, received := c.received ++ [(a, n)] }
  | (_, reader) => { c with reader }

/-- A stream with its consumers, and a record of what was emitted. At first there is one
consumer. -/
structure State (α : Type) where
  stream : Stream α := {}
  emitted : List α := []
  consumers : List (Consumer α) := [{}]

namespace State

/-- One operation. After the end nothing is emitted, and a consumer that is not there does
nothing. -/
def step (s : State α) : Operation α → State α
  | .emit a =>
    if s.stream.complete then s
    else { s with stream := s.stream.emit a, emitted := s.emitted ++ [a] }
  | .close => { s with stream := s.stream.close }
  | .subscribe i =>
    match s.consumers[i]? with
    | some _ => { s with consumers := s.consumers ++ [{}] }
    | none => s
  | .clone i =>
    match s.consumers[i]? with
    | some c => { s with consumers := s.consumers ++ [{ reader := c.reader, inherited := c.line }] }
    | none => s
  | .next i =>
    { s with consumers := s.consumers.modify i (·.ask s.stream s.emitted.length) }

/-- Operations one after the other, from the start. -/
def run (ops : List (Operation α)) : State α := ops.foldl step {}

@[simp] theorem run_snoc (ops : List (Operation α)) (o : Operation α) :
    run (ops ++ [o]) = (run ops).step o := by
  simp [run]

end State

@[simp] theorem closed_snoc (ops : List (Operation α)) (o : Operation α) :
    closed (ops ++ [o]) = (closed ops || o.isClose) := by
  simp [closed]

/-- A snapshot behind the end is not emitted, whatever the producer tries. -/
theorem emitted_cons (o : Operation α) (ops : List (Operation α)) :
    emitted (o :: ops) = if o.isClose then [] else o.emitted?.toList ++ emitted ops := by
  rw [emitted, List.takeWhile_cons]
  cases o <;> rfl

/-- Nothing is emitted after the end. -/
theorem emitted_snoc (ops : List (Operation α)) (o : Operation α) :
    emitted (ops ++ [o]) =
      if closed ops then emitted ops else emitted ops ++ o.emitted?.toList := by
  induction ops with
  | nil => cases o <;> rfl
  | cons o' ops ih =>
    have hclosed : closed (o' :: ops) = (o'.isClose || closed ops) := rfl
    rw [List.cons_append, emitted_cons, emitted_cons, ih, hclosed]
    cases o'.isClose with
    | true => rfl
    | false =>
      simp only [Bool.false_or, Bool.false_eq_true, if_false]
      cases closed ops <;> simp

/-! ## Numbered snapshots -/

/-- A new snapshot gets the next number, so numbers never change. -/
theorem numbered_concat (es : List α) (a : α) :
    numbered (es ++ [a]) = numbered es ++ [(a, es.length + 1)] := by
  simp [numbered, List.zipIdx_append, Nat.add_comm]

/-- The numbers are put beside the snapshots and change none of them. -/
theorem map_fst_numbered (es : List α) : (numbered es).map Prod.fst = es :=
  List.zipIdx_map_fst 1 es

/-- No number is higher than that of the newest snapshot, which is how many there are. -/
theorem number_le_of_mem {es : List α} {e : α × Nat} (h : e ∈ numbered es) :
    1 ≤ e.2 ∧ e.2 ≤ es.length := by
  have hbound := List.mem_zipIdx h
  omega

/-- The newest snapshot has the count for its number. -/
theorem newest?_eq (es : List α) : newest? es = es.getLast?.map (·, es.length) := by
  induction es using List.reverseRecOn with
  | nil => rfl
  | append_singleton es a ih => simp [newest?, numbered_concat]

/-- The snapshot with the highest number is the newest one. -/
theorem newest?_eq_of_mem {es : List α} {e : α × Nat} (h : e ∈ numbered es)
    (hnumber : e.2 = es.length) : newest? es = some e := by
  induction es using List.reverseRecOn with
  | nil => cases h
  | append_singleton es a _ =>
    rw [numbered_concat, List.mem_append, List.mem_singleton] at h
    rcases h with h | rfl
    · have hle := (number_le_of_mem h).2
      rw [List.length_append, List.length_singleton] at hnumber
      omega
    · simp [newest?, numbered_concat]

/-- Equal snapshots are told apart by their numbers. -/
theorem nodup_numbered (es : List α) : (numbered es).Nodup := by
  refine List.Nodup.of_map Prod.snd ?_
  rw [numbered, List.zipIdx_map_snd]
  exact List.nodup_range'

/-- The newest snapshot is the last one of each line that holds it. -/
theorem getLast?_eq_newest {es : List α} {line : List (α × Nat)} {e : α × Nat}
    (h : line.Sublist (numbered es)) (hnewest : newest? es = some e) (hmem : e ∈ line) :
    line.getLast? = some e := by
  rw [newest?_eq, Option.map_eq_some_iff] at hnewest
  obtain ⟨a, ha, rfl⟩ := hnewest
  obtain ⟨es, rfl⟩ := List.getLast?_eq_some_iff.mp ha
  rw [numbered_concat] at h
  obtain ⟨old, last, rfl, hold, hlast⟩ := List.sublist_append_iff.mp h
  have hnew : (a, (es ++ [a]).length) ∉ old := by
    intro hold'
    have hle := (number_le_of_mem (hold.subset hold')).2
    simp only [List.length_append, List.length_singleton] at hle
    omega
  obtain rfl : last = [(a, es.length + 1)] := by
    rcases List.sublist_singleton.mp hlast with rfl | hlast
    · rw [List.append_nil] at hmem
      exact absurd hmem hnew
    · exact hlast
  simp

/-- A part of what was emitted without the newest snapshot may be followed by it. -/
theorem sublist_snoc_newest {es : List α} {line : List (α × Nat)} {a : α}
    (h : line.Sublist (numbered es)) (hnew : ∀ e ∈ line, e.2 < es.length)
    (ha : es.getLast? = some a) : (line ++ [(a, es.length)]).Sublist (numbered es) := by
  obtain ⟨es, rfl⟩ := List.getLast?_eq_some_iff.mp ha
  rw [numbered_concat] at h ⊢
  obtain ⟨old, last, rfl, hold, hlast⟩ := List.sublist_append_iff.mp h
  -- the newest snapshot has too high a number to be in the line
  have hnil : last = [] := by
    refine List.eq_nil_iff_forall_not_mem.mpr fun e he => ?_
    have hlt := hnew e (List.mem_append_right _ he)
    rw [List.mem_singleton.mp (hlast.subset he), List.length_append] at hlt
    exact absurd hlt (Nat.lt_irrefl _)
  rw [hnil, List.append_nil, List.length_append]
  exact hold.append (List.Sublist.refl _)

/-! ## Readings -/

section Reading

variable {r : Reader} {s : Stream α}

/-- A snapshot that was not seen is handed out, whether or not the producer is done. -/
theorem next_eq_value_iff {a : α} : (r.next s).1 = .value a ↔ r.unseen? s = some a := by
  rw [Reader.next]
  cases r.unseen? s with
  | some b => simp
  | none => cases s.complete <;> simp

/-- A reader is told of the end only when it has seen everything. -/
theorem next_eq_ended_iff : (r.next s).1 = .ended ↔ s.complete = true ∧ r.unseen? s = none := by
  rw [Reader.next]
  cases r.unseen? s with
  | some b => simp
  | none => cases s.complete <;> simp

/-- It waits only while more may come. -/
theorem next_eq_waiting_iff :
    (r.next s).1 = .waiting ↔ s.complete = false ∧ r.unseen? s = none := by
  rw [Reader.next]
  cases r.unseen? s with
  | some b => simp
  | none => cases s.complete <;> simp

/-- Reading on to the end gives a snapshot only if the last one has not been seen by then. -/
theorem last_eq_value_iff {a : α} :
    r.last s = .value a ↔ s.complete = true ∧ r.unseen? s = some a := by
  rw [Reader.last]
  cases s.complete with
  | false => simp
  | true => cases r.unseen? s <;> simp

end Reading

/-! ## The invariant -/

/-- What holds of a consumer, given the snapshots emitted so far. -/
structure Consumer.Fits (es : List α) (c : Consumer α) : Prop where
  sublist : c.line.Sublist (numbered es)
  seen_le : c.reader.seen ≤ es.length
  /-- the reader has seen its whole line -/
  le_seen : ∀ e ∈ c.line, e.2 ≤ c.reader.seen
  /-- and nothing else -/
  seen_mem : c.reader.seen ≠ 0 → ∃ a, (a, c.reader.seen) ∈ c.line

/-- What holds of a stream, given the snapshots emitted so far and whether the producer is done. -/
structure Shows (es : List α) (done : Bool) (s : Stream α) : Prop where
  count : s.count = es.length
  newest : s.newest = es.getLast?
  complete : s.complete = done

namespace Consumer.Fits

variable {es : List α} {done : Bool} {s : Stream α} {c : Consumer α}

/-- A new consumer was handed nothing, whatever was emitted before. -/
theorem fresh (es : List α) : ({} : Consumer α).Fits es :=
  ⟨List.nil_sublist _, Nat.zero_le _, List.forall_mem_nil _, fun h => absurd rfl h⟩

/-- What was handed out before stays a part of what was emitted, in order. -/
theorem emit (h : c.Fits es) (a : α) : c.Fits (es ++ [a]) where
  sublist := by
    rw [numbered_concat]
    exact h.sublist.trans (List.sublist_append_left _ _)
  seen_le := by
    rw [List.length_append]
    exact Nat.le_add_right_of_le h.seen_le
  le_seen := h.le_seen
  seen_mem := h.seen_mem

/-- A copy has the line of its original. -/
theorem clone (h : c.Fits es) :
    ({ reader := c.reader, inherited := c.line } : Consumer α).Fits es := by
  have hline : ({ reader := c.reader, inherited := c.line } : Consumer α).line = c.line :=
    List.append_nil _
  exact ⟨by rw [hline]; exact h.sublist, h.seen_le, by rw [hline]; exact h.le_seen,
    by rw [hline]; exact h.seen_mem⟩

/-- **The newest snapshot was handed to a line exactly if the reader has seen as many as there
are.** -/
theorem newest_mem_iff (h : c.Fits es) :
    (∀ e ∈ newest? es, e ∈ c.line) ↔ c.reader.seen = es.length := by
  constructor
  · intro hnewest
    cases hlast : es.getLast? with
    | none =>
      have hle := h.seen_le
      rw [List.getLast?_eq_none_iff.mp hlast] at hle ⊢
      exact Nat.le_zero.mp hle
    | some a =>
      have hmem : (a, es.length) ∈ c.line := hnewest _ (by rw [newest?_eq, hlast]; rfl)
      exact Nat.le_antisymm h.seen_le (h.le_seen _ hmem)
  · intro hseen e he
    have hmem : e ∈ numbered es := List.mem_of_getLast? he
    have hbound := number_le_of_mem hmem
    obtain ⟨a, ha⟩ := h.seen_mem (by omega)
    rw [hseen] at ha
    have hnewest := newest?_eq_of_mem (h.sublist.subset ha) rfl
    rw [hnewest] at he
    rwa [← Option.some.inj he]

/-- What a reader has not seen is the newest snapshot, if its line does not hold it. -/
theorem unseen?_eq_some_iff (h : c.Fits es) (hs : Shows es done s) (a : α) :
    c.reader.unseen? s = some a ↔ ∃ n, newest? es = some (a, n) ∧ (a, n) ∉ c.line := by
  rw [Reader.unseen?, hs.count, hs.newest, newest?_eq]
  have hiff := h.newest_mem_iff
  have hle := h.seen_le
  rw [newest?_eq] at hiff
  cases hlast : es.getLast? with
  | none => simp
  | some b =>
    rw [hlast] at hiff
    simp only [Option.map_some, Option.mem_def, Option.some.injEq, forall_eq'] at hiff
    simp only [Option.map_some, Option.some.injEq, Prod.mk.injEq, Option.ite_none_right_eq_some]
    constructor
    · rintro ⟨hlt, rfl⟩
      exact ⟨es.length, ⟨rfl, rfl⟩, fun hmem => absurd (hiff.mp hmem) (Nat.ne_of_lt hlt)⟩
    · rintro ⟨n, ⟨rfl, rfl⟩, hmem⟩
      exact ⟨Nat.lt_of_le_of_ne hle fun heq => hmem (hiff.mpr heq), rfl⟩

/-- Nothing is unseen exactly if the newest snapshot, if there is any, is in the line. -/
theorem unseen?_eq_none_iff (h : c.Fits es) (hs : Shows es done s) :
    c.reader.unseen? s = none ↔ ∀ e ∈ newest? es, e ∈ c.line := by
  rw [Option.eq_none_iff_forall_ne_some]
  constructor
  · rintro hnone ⟨a, n⟩ he
    by_contra hmem
    exact hnone a ((h.unseen?_eq_some_iff hs a).mpr ⟨n, he, hmem⟩)
  · intro hall a ha
    obtain ⟨n, he, hmem⟩ := (h.unseen?_eq_some_iff hs a).mp ha
    exact hmem (hall _ he)

/-- Asking keeps the invariant. -/
theorem ask (h : c.Fits es) (hs : Shows es done s) : (c.ask s es.length).Fits es := by
  rw [Consumer.ask, Reader.next]
  cases hunseen : c.reader.unseen? s with
  | none => cases s.complete <;> exact h
  | some a =>
    rw [Reader.unseen?, Option.ite_none_right_eq_some, hs.count, hs.newest] at hunseen
    obtain ⟨hlt, ha⟩ := hunseen
    have hsub := sublist_snoc_newest h.sublist
      (fun e he => Nat.lt_of_le_of_lt (h.le_seen e he) hlt) ha
    rw [Consumer.line, List.append_assoc] at hsub
    simp only [hs.count]
    refine ⟨hsub, Nat.le_refl _, fun e he => (number_le_of_mem (hsub.subset he)).2,
      fun _ => ⟨a, ?_⟩⟩
    simp [Consumer.line]

end Consumer.Fits

/-- What holds of a state that a history leads to. -/
structure State.Fits (ops : List (Operation α)) (s : State α) : Prop where
  stream : Shows (History.emitted ops) (closed ops) s.stream
  emitted : s.emitted = History.emitted ops
  consumers : ∀ (i : Nat) (c : Consumer α), s.consumers[i]? = some c →
    c.Fits (History.emitted ops)

namespace State

/-- At first there is one consumer and nothing to hand out. -/
theorem fits_start : State.Fits [] ({} : State α) where
  stream := ⟨rfl, rfl, rfl⟩
  emitted := rfl
  consumers i c hc := by
    cases i with
    | zero =>
      obtain rfl := Option.some.inj hc
      exact .fresh _
    | succ i => simp at hc

/-- A consumer more. -/
theorem Fits.push {ops : List (Operation α)} {s : State α} (h : s.Fits ops) {c : Consumer α}
    (hc : c.Fits (History.emitted ops)) :
    State.Fits ops { s with consumers := s.consumers ++ [c] } where
  stream := h.stream
  emitted := h.emitted
  consumers i d hd := by
    by_cases hi : i < s.consumers.length
    · rw [List.getElem?_append_left hi] at hd
      exact h.consumers i d hd
    · rw [List.getElem?_append_right (Nat.not_lt.mp hi)] at hd
      obtain rfl := List.mem_singleton.mp (List.mem_of_getElem? hd)
      exact hc

/-- An operation of a consumer changes neither what was emitted nor whether there will be more. -/
theorem Fits.snoc {ops : List (Operation α)} {s : State α} (h : s.Fits ops) {o : Operation α}
    (hemitted : o.emitted? = none) (hclose : o.isClose = false) : s.Fits (ops ++ [o]) := by
  have heq : History.emitted (ops ++ [o]) = History.emitted ops := by
    rw [emitted_snoc, hemitted]
    simp
  have hdone : closed (ops ++ [o]) = closed ops := by simp [hclose]
  exact ⟨heq ▸ hdone ▸ h.stream, heq ▸ h.emitted, heq ▸ h.consumers⟩

/-- **Every operation keeps the invariant.** -/
theorem Fits.step {ops : List (Operation α)} {s : State α} (h : s.Fits ops) (o : Operation α) :
    (s.step o).Fits (ops ++ [o]) := by
  obtain ⟨hcount, hnewest, hcomplete⟩ := h.stream
  cases o with
  | emit a =>
    rw [State.step, hcomplete]
    cases hclosed : closed ops with
    | true =>
      have heq : History.emitted (ops ++ [.emit a]) = History.emitted ops := by
        rw [emitted_snoc, if_pos hclosed]
      refine ⟨?_, ?_, ?_⟩ <;> rw [heq]
      · exact ⟨hcount, hnewest, by simp [hcomplete, hclosed]⟩
      · exact h.emitted
      · exact h.consumers
    | false =>
      have heq : History.emitted (ops ++ [.emit a]) = History.emitted ops ++ [a] := by
        rw [emitted_snoc, hclosed]
        rfl
      have hopen : s.stream.complete = false := hcomplete.trans hclosed
      refine ⟨?_, ?_, ?_⟩ <;> rw [heq]
      · exact ⟨by simp [Stream.emit, hopen, hcount], by simp [Stream.emit, hopen],
          by simp [Stream.emit, hopen, hclosed, Operation.isClose]⟩
      · exact congrArg (· ++ [a]) h.emitted
      · exact fun i c hc => (h.consumers i c hc).emit a
  | close =>
    have heq : History.emitted (ops ++ [.close]) = History.emitted ops := by
      rw [emitted_snoc]
      simp [Operation.emitted?]
    refine ⟨?_, ?_, ?_⟩ <;> rw [heq]
    · exact ⟨hcount, hnewest, by simp [State.step, Stream.close, Operation.isClose]⟩
    · exact h.emitted
    · exact h.consumers
  | subscribe i =>
    refine Fits.snoc ?_ rfl rfl
    rw [State.step]
    split
    · exact h.push (.fresh _)
    · exact h
  | clone i =>
    refine Fits.snoc ?_ rfl rfl
    rw [State.step]
    split
    · next c hc => exact h.push (h.consumers i c hc).clone
    · exact h
  | next i =>
    have hasked : (s.step (.next i)).Fits ops := by
      refine ⟨h.stream, h.emitted, fun j c hc => ?_⟩
      simp only [State.step, List.getElem?_modify, Option.map_eq_map, Option.map_eq_some_iff] at hc
      obtain ⟨d, hd, rfl⟩ := hc
      split
      · rw [h.emitted]
        exact (h.consumers j d hd).ask h.stream
      · exact h.consumers j d hd
    exact hasked.snoc rfl rfl

/-- **Every history fits**, by induction on its operations. -/
theorem fits_run (ops : List (Operation α)) : (run ops).Fits ops := by
  induction ops using List.reverseRecOn with
  | nil => exact fits_start
  | append_singleton ops o ih =>
    rw [run_snoc]
    exact ih.step o

/-- A consumer stays where it is, and what it is handed goes behind what it was handed. -/
theorem step_consumer {s : State α} {i : Nat} {c : Consumer α} (hc : s.consumers[i]? = some c)
    (o : Operation α) :
    ∃ c' read, (s.step o).consumers[i]? = some c' ∧ c'.line = c.line ++ read ∧
      c'.received = c.received ++ read := by
  have hsame : ∃ c' read, some c = some c' ∧ c'.line = c.line ++ read ∧
      c'.received = c.received ++ read := ⟨c, [], rfl, by simp, by simp⟩
  have hi : i < s.consumers.length := (List.getElem?_eq_some_iff.mp hc).1
  cases o with
  | emit a =>
    rw [step]
    split <;> exact hc ▸ hsame
  | close => exact hc ▸ hsame
  | subscribe j =>
    rw [step]
    split
    · simp only [List.getElem?_append_left hi, hc]
      exact hsame
    · exact hc ▸ hsame
  | clone j =>
    rw [step]
    split
    · simp only [List.getElem?_append_left hi, hc]
      exact hsame
    · exact hc ▸ hsame
  | next j =>
    simp only [step, List.getElem?_modify, hc, Option.map_eq_map, Option.map_some]
    split
    · rw [Consumer.ask]
      split
      · next a reader _ =>
        refine ⟨_, [(a, s.emitted.length)], rfl, ?_, rfl⟩
        simp [Consumer.line]
      · exact ⟨_, [], rfl, by simp [Consumer.line], by simp⟩
    · exact hsame

/-- **A consumer is never taken anything away**: its line only grows, by what it is handed itself.
-/
theorem run_consumer {ops : List (Operation α)} {i : Nat} {c : Consumer α}
    (hc : (run ops).consumers[i]? = some c) (more : List (Operation α)) :
    ∃ c' read, (run (ops ++ more)).consumers[i]? = some c' ∧ c'.line = c.line ++ read ∧
      c'.received = c.received ++ read := by
  induction more using List.reverseRecOn with
  | nil => exact ⟨c, [], by rwa [List.append_nil], by simp, by simp⟩
  | append_singleton more o ih =>
    obtain ⟨c', read, hc', hline, hreceived⟩ := ih
    obtain ⟨c'', read', hc'', hline', hreceived'⟩ := step_consumer hc' o
    refine ⟨c'', read ++ read', ?_, ?_, ?_⟩
    · rwa [← List.append_assoc, run_snoc]
    · rw [hline', hline, List.append_assoc]
    · rw [hreceived', hreceived, List.append_assoc]

end State

/-! ## What can be read off a history -/

/-- What a consumer is handed last, of what it reads from some point to the end, is the newest
snapshot, and it is handed that exactly if it was not handed it before. -/
theorem Consumer.Fits.last_read {es : List α} {c' : Consumer α} {line read : List (α × Nat)}
    (h : c'.Fits es) (hline : c'.line = line ++ read) (hend : ∀ e ∈ newest? es, e ∈ c'.line)
    (e : α × Nat) : read.getLast? = some e ↔ newest? es = some e ∧ e ∉ line := by
  have hsub := h.sublist
  have hlast : (line ++ read).getLast? = read.getLast?.or line.getLast? := List.getLast?_append
  rw [hline] at hsub hend
  constructor
  · intro hread
    have hmem : e ∈ read := List.mem_of_getLast? hread
    have hnodup := (nodup_numbered es).sublist hsub
    refine ⟨?_, fun hold => List.disjoint_of_nodup_append hnodup hold hmem⟩
    cases hnewest : newest? es with
    | none =>
      rw [newest?, List.getLast?_eq_none_iff] at hnewest
      rw [hnewest] at hsub
      rw [(List.append_eq_nil_iff.mp (List.sublist_nil.mp hsub)).2] at hmem
      cases hmem
    | some e' =>
      have hlast' := getLast?_eq_newest hsub hnewest (hend e' hnewest)
      rw [hlast, hread] at hlast'
      exact hlast'.symm
  · rintro ⟨hnewest, hold⟩
    have hlast' := getLast?_eq_newest hsub hnewest (hend e hnewest)
    rw [hlast] at hlast'
    cases hread : read.getLast? with
    | none =>
      rw [hread, Option.none_or] at hlast'
      exact absurd (List.mem_of_getLast? hlast') hold
    | some e' =>
      rw [hread, Option.some_or] at hlast'
      exact hlast'

/-- **What a consumer reads is decided by the history.** After any operations, and for every
consumer: what it was handed, and its line, is a part of what was emitted, in order and nothing
twice; `next` hands out the newest snapshot exactly if its line does not hold it, and else ends
or waits, as the producer is done or not, so it never waits once the producer is done; `last`
yields the newest snapshot exactly if the producer is done and the line does not hold it. If the
consumer only gets to the end after more operations, what it is handed last on the way there
is the newest snapshot then, again exactly if its line did not hold it before. -/
theorem history_decides_reading (ops : List (Operation α)) {i : Nat} {c : Consumer α}
    (hc : (State.run ops).consumers[i]? = some c) :
    (c.line.Sublist (numbered (emitted ops)) ∧
      (c.received.map Prod.fst).Sublist (emitted ops)) ∧
    (∀ a, (c.reader.next (State.run ops).stream).1 = .value a ↔
      ∃ n, newest? (emitted ops) = some (a, n) ∧ (a, n) ∉ c.line) ∧
    ((c.reader.next (State.run ops).stream).1 = .ended ↔
      closed ops ∧ ∀ e ∈ newest? (emitted ops), e ∈ c.line) ∧
    ((c.reader.next (State.run ops).stream).1 = .waiting ↔
      ¬ closed ops ∧ ∀ e ∈ newest? (emitted ops), e ∈ c.line) ∧
    (closed ops → (c.reader.next (State.run ops).stream).1 ≠ .waiting) ∧
    (∀ a, c.reader.last (State.run ops).stream = .value a ↔
      closed ops ∧ ∃ n, newest? (emitted ops) = some (a, n) ∧ (a, n) ∉ c.line) ∧
    ∀ more, ∃ c' read, (State.run (ops ++ more)).consumers[i]? = some c' ∧
      c'.received = c.received ++ read ∧
      ((c'.reader.next (State.run (ops ++ more)).stream).1 = .ended →
        ∀ e, read.getLast? = some e ↔
          newest? (emitted (ops ++ more)) = some e ∧ e ∉ c.line) := by
  have hrun := State.fits_run ops
  have hfits := hrun.consumers i c hc
  have hcomplete := hrun.stream.complete
  have hnone := hfits.unseen?_eq_none_iff hrun.stream
  have hsome := hfits.unseen?_eq_some_iff hrun.stream
  refine ⟨⟨hfits.sublist, ?_⟩, ?_, ?_, ?_, ?_, ?_, ?_⟩
  · have hreceived : c.received.Sublist (numbered (emitted ops)) :=
      (List.sublist_append_right _ _).trans hfits.sublist
    simpa only [map_fst_numbered] using hreceived.map Prod.fst
  · exact fun a => next_eq_value_iff.trans (hsome a)
  · rw [next_eq_ended_iff, hcomplete, hnone]
  · rw [next_eq_waiting_iff, hcomplete, hnone, Bool.not_eq_true]
  · intro hclosed hwaiting
    rw [next_eq_waiting_iff, hcomplete, hclosed] at hwaiting
    cases hwaiting.1
  · intro a
    rw [last_eq_value_iff, hcomplete, hsome a]
  · intro more
    obtain ⟨c', read, hc', hline, hreceived⟩ := State.run_consumer hc more
    refine ⟨c', read, hc', hreceived, fun hended e => ?_⟩
    have hrun' := State.fits_run (ops ++ more)
    have hfits' := hrun'.consumers i c' hc'
    have hend := (hfits'.unseen?_eq_none_iff hrun'.stream).mp (next_eq_ended_iff.mp hended).2
    exact hfits'.last_read hline hend e

/-- Two equal snapshots are emitted behind the back of a copy, which then asks once; the original
never asks again, and a new consumer has been handed nothing. -/
def copied : List (Operation Nat) :=
  [.emit 1, .next 0, .clone 0, .emit 2, .next 1, .emit 2, .subscribe 1, .next 1, .close]

/-- The copy is at the end; the original and the new consumer still get the last snapshot. -/
theorem copied_reading :
    (∃ c, (State.run copied).consumers[1]? = some c ∧ c.line = [(1, 1), (2, 2), (2, 3)] ∧
      (c.reader.next (State.run copied).stream).1 = .ended) ∧
    (∃ c, (State.run copied).consumers[0]? = some c ∧ c.line = [(1, 1)] ∧
      c.reader.last (State.run copied).stream = .value 2) ∧
    ∃ c, (State.run copied).consumers[2]? = some c ∧ c.line = [] ∧
      (c.reader.next (State.run copied).stream).1 = .value 2 := by
  refine ⟨⟨_, rfl, rfl, ?_⟩, ⟨_, rfl, rfl, ?_⟩, ⟨_, rfl, rfl, ?_⟩⟩
  · obtain ⟨-, -, hended, -⟩ := history_decides_reading copied (i := 1) rfl
    exact hended.mpr ⟨rfl, by decide⟩
  · obtain ⟨-, -, -, -, -, hlast, -⟩ := history_decides_reading copied (i := 0) rfl
    exact (hlast 2).mpr ⟨rfl, 3, rfl, by decide⟩
  · obtain ⟨-, hvalue, -⟩ := history_decides_reading copied (i := 2) rfl
    exact (hvalue 2).mpr ⟨3, rfl, by decide⟩

end CodeNav.History

/-!
# Streams of snapshots

A producer replaces one snapshot by the next until it is done; readers look at the
newest one. A stream is the newest snapshot with its number, and a mark that no more
will come. A reader knows only the number of the snapshot it saw last, so any number of
readers share one stream, and **a reader that falls behind skips to the newest
snapshot**.
-/

namespace CodeNav

/-- The newest snapshot of a producer. -/
structure Stream (α : Type) where
  /-- how many snapshots there were -/
  count : Nat := 0
  newest : Option α := none
  /-- no more snapshots will come -/
  complete : Bool := false
  deriving Repr

namespace Stream

variable {α : Type}

/-- Replace the snapshot. Nothing replaces the last snapshot of a complete stream. -/
def emit (s : Stream α) (a : α) : Stream α :=
  if s.complete then s else { s with count := s.count + 1, newest := some a }

/-- Mark a stream as complete. -/
def close (s : Stream α) : Stream α := { s with complete := true }

end Stream

/-- A reader of a stream: the number of the snapshot it saw last. -/
structure Reader where
  seen : Nat := 0
  deriving DecidableEq, Repr

/-- What a reader gets. -/
inductive Reading (α : Type) where
  | value (a : α)
  /-- no more snapshots will come -/
  | ended
  /-- the reader has to wait -/
  | waiting
  deriving Repr

namespace Reader

variable {α : Type}

/-- The snapshot that a reader has not seen yet. -/
def unseen? (r : Reader) (s : Stream α) : Option α :=
  if r.seen < s.count then s.newest else none

/-- Read the newest snapshot unless it was seen before. -/
def next (r : Reader) (s : Stream α) : Reading α × Reader :=
  match r.unseen? s with
  | some a => (.value a, ⟨s.count⟩)
  | none => (if s.complete then .ended else .waiting, r)

/-- Whether `next` has to wait. -/
def mustWait (r : Reader) (s : Stream α) : Bool := (r.unseen? s).isNone && !s.complete

/-- Read to the end and keep the last snapshot. -/
def last (r : Reader) (s : Stream α) : Reading α :=
  if !s.complete then .waiting
  else match r.unseen? s with
    | some a => .value a
    | none => .ended

/-- Read to the end and keep all snapshots; none if the reader would have to wait. -/
def collect? (r : Reader) (s : Stream α) : Option (List α) :=
  if s.complete then some (r.unseen? s).toList else none

end Reader

end CodeNav

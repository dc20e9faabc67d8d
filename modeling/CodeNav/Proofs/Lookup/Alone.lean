import CodeNav.Proofs.Lookup.Steady
import Mathlib.Data.List.Induction

/-!
# One lookup alone

A provider with a single task under way. The task is polled, the clock moves to the instant
it waits for, it is polled again, and so on up to a limit: `passFrom_withLast` says that this
is the run of its program without interruption. Its stream is complete **exactly if the
program ends by the limit**, and then a reader gets what the program handed out last
(`Stream.last_close_after`).
-/

namespace CodeNav

/-! ## Streams of finished lookups -/

/-- What a reader gets who reads a finished stream to its end. -/
def Reading.ofAll {α : Type} (es : List α) : Reading α :=
  match es.getLast? with
  | some a => .value a
  | none => .ended

/-- Who reads to the end is told of an end. -/
theorem Reading.ofAll_ne_waiting {α : Type} (es : List α) : ofAll es ≠ .waiting := by
  rw [ofAll]
  split <;> nofun

namespace Stream

variable {α : Type}

/-- A stream after its producer handed out `es`. -/
def after (s : Stream α) (es : List α) : Stream α := es.foldl emit s

@[simp] theorem after_nil (s : Stream α) : s.after [] = s := rfl

@[simp] theorem after_append (s : Stream α) (es fs : List α) :
    s.after (es ++ fs) = (s.after es).after fs := List.foldl_append

@[simp] theorem complete_emit (s : Stream α) (a : α) : (s.emit a).complete = s.complete := by
  rw [emit]
  split <;> rfl

/-- Handing out completes nothing: the end has to be told. -/
@[simp] theorem complete_after (s : Stream α) (es : List α) :
    (s.after es).complete = s.complete := by
  induction es generalizing s with
  | nil => rfl
  | cons a es ih => exact (ih _).trans (complete_emit s a)

/-- The snapshots of a stream that is not complete are counted, and the last one is the newest. -/
theorem after_of_open {s : Stream α} (hs : s.complete = false) (es : List α) :
    s.after es = { s with count := s.count + es.length, newest := es.getLast?.or s.newest } := by
  induction es using List.reverseRecOn with
  | nil => simp
  | append_singleton es a ih =>
    rw [after_append, ih]
    simp [after, emit, hs, Nat.add_assoc]

/-- A new reader of a finished stream gets what was handed out last. -/
theorem last_close_after (es : List α) :
    Reader.last {} (after {} es).close = Reading.ofAll es := by
  rw [after_of_open rfl]
  cases es using List.reverseRecOn with
  | nil => rfl
  | append_singleton es a => simp [Reader.last, close, Reader.unseen?, Reading.ofAll]

end Stream

/-! ## One lookup alone -/

namespace Provider

variable {σ : Type} {w : World σ} {sources : Sources}

/-- The provider with one more stream and these tasks. -/
def withLast (p : Provider) (s : Stream Snapshot) (tasks : List Task) : Provider :=
  { p with streams := p.streams ++ [s], tasks }

variable {p : Provider} {s : Stream Snapshot} {tasks : List Task}

@[simp] theorem stream_withLast :
    (withLast p s tasks).stream p.streams.length = s := by
  simp [withLast, stream]

@[simp] theorem tasks_withLast : (withLast p s tasks).tasks = tasks := rfl

@[simp] theorem updateStream_withLast (f : Stream Snapshot → Stream Snapshot) :
    (withLast p s tasks).updateStream p.streams.length f =
      withLast p (f s) tasks := by
  simp [withLast, updateStream, List.modify_eq_take_drop]

/-- A provider with one lookup settles as that lookup does. -/
theorem settle_withLast (t : Task) (ht : t.stream = p.streams.length) (m : Machine σ) :
    (withLast p s [t]).settle w m =
      let r := stepTask w t s m
      (withLast p r.2.1 r.1.toList, r.2.2) := by
  have hempty : { withLast p s [t] with tasks := [] } =
    withLast p s [] := rfl
  simp only [settle, settleTasks, tasks_withLast, hempty, ht, stream_withLast,
    updateStream_withLast, List.nil_append]
  rfl

/-- Where the provider stands when its only task was due: at the end of it, at the next
instant it waits for, or stuck. -/
theorem settle_due (t : Task) (ht : t.stream = p.streams.length) (hc : t.cancelled = false)
    {m : Machine σ} (hwake : t.wake.any (· ≤ m.now)) :
    (withLast p s [t]).settle w m =
      let r := t.program.poll w m
      match r.progress with
      | .done () => (withLast p (s.after r.emitted).close [],
          r.machine.note (.counted (.lookups t.operation) 1))
      | .waiting due next => (withLast p (s.after r.emitted)
          [{ t with wake := some due, program := next }], r.machine)
      | .stuck => (withLast p (s.after r.emitted)
          [{ t with wake := none, program := .never }], r.machine) := by
  rw [settle_withLast t ht]
  simp only [stepTask, hc, Bool.false_eq_true, if_false, hwake, if_true]
  cases (t.program.poll w m).progress <;> rfl

/-- Settling takes no time. -/
theorem settle_now (t : Task) (ht : t.stream = p.streams.length) (hc : t.cancelled = false)
    {m : Machine σ} (hwake : t.wake.any (· ≤ m.now)) :
    ((withLast p s [t]).settle w m).2.now = m.now := by
  have hnow := (Program.poll_now (w := w) t.program m).1
  rw [settle_due t ht hc hwake]
  cases hp : (t.program.poll w m).progress <;> (simp only [hp]; exact hnow)

/-- A subscription to the last stream. -/
abbrev toLast (p : Provider) : Subscription := { stream := p.streams.length }

/-- Its reader is through when its stream is. -/
@[simp] theorem isComplete_withLast :
    (withLast p s tasks).isComplete (toLast p) = s.complete := by
  rw [isComplete, stream_withLast]

/-- It sleeps as long as its lookup does. -/
@[simp] theorem nextWake?_withLast (t : Task) :
    (withLast p s [t]).nextWake? = t.wake := by
  cases h : t.wake <;> simp [nextWake?, h]

/-- The end of a lookup that is alone: its stream is complete exactly if its program ends in
time, and then it holds what the program handed out last. -/
theorem passFrom_withLast (limit : Nat) (t : Task) (ht : t.stream = p.streams.length)
    (hc : t.cancelled = false) (hs : s.complete = false) (m : Machine σ)
    (hwake : t.wake.any (· ≤ m.now)) (hlimit : m.now ≤ limit)
    {f : Followed σ Snapshot Unit} (hf : t.program.follow w m = f)
    {r : Provider × Machine σ} (hr : (withLast p s [t]).settle w m = r) :
    (f.outcome = some () → f.machine.now ≤ limit →
      r.1.passFrom w (·.isComplete (toLast p)) limit m.now r.2 =
        (withLast p (s.after f.emitted).close [],
          f.machine.note (.counted (.lookups t.operation) 1))) ∧
    (¬ (f.outcome = some () ∧ f.machine.now ≤ limit) →
      (r.1.passFrom w (·.isComplete (toLast p)) limit m.now r.2).1.isComplete
        (toLast p) = false) := by
  -- each round ends at a later instant, and the limit does not move
  induction hgap : limit - m.now using Nat.strongRecOn generalizing t s m f r with
  | ind gap ih =>
    have hopen : (s.after (t.program.poll w m).emitted).complete = false := by
      rw [Stream.complete_after, hs]
    obtain ⟨hnow, hlater⟩ := Program.poll_now (w := w) t.program m
    rw [Program.follow_eq_poll] at hf
    rw [settle_due t ht hc hwake] at hr
    cases hp : (t.program.poll w m).progress with
    | done a =>
      simp only [hp, Progress.follow, List.append_nil] at hf hr
      subst hf hr
      rw [passFrom]
      simp only [isComplete_withLast, Stream.close, if_true, hnow, hlimit]
      exact ⟨fun _ _ => trivial, fun h => absurd ⟨trivial, trivial⟩ h⟩
    | stuck =>
      simp only [hp, Progress.follow, List.append_nil] at hf hr
      subst hf hr
      rw [passFrom]
      simp only [isComplete_withLast, hopen, nextWake?_withLast, Bool.false_eq_true, if_false]
      refine ⟨fun h => ?_, fun _ => trivial⟩
      cases h
    | waiting due next =>
      have hdue := hlater due next hp
      simp only [hp, Progress.follow] at hf hr
      subst hf hr
      rw [passFrom]
      simp only [isComplete_withLast, hopen, nextWake?_withLast, Bool.false_eq_true, if_false,
        hdue, true_and]
      split
      · next hle =>
        -- the task goes on at `due`
        have hmoved : ((t.program.poll w m).machine.moveTo due).now = due := by
          simp only [Machine.moveTo, hnow]
          omega
        have h := ih (limit - due) (by omega)
          { t with wake := some due, program := next } ht hc hopen
          ((t.program.poll w m).machine.moveTo due)
          (by simp [hmoved]) (by omega) rfl rfl (by rw [hmoved])
        simpa only [hmoved, Stream.after_append] using h
      · next hgt =>
        -- it would go on after the limit
        have hnext : due ≤ (next.follow w ((t.program.poll w m).machine.moveTo due)).machine.now :=
          Nat.le_trans (Nat.le_max_right _ _)
            (Program.now_le_follow next ((t.program.poll w m).machine.moveTo due))
        refine ⟨fun _ h => absurd h (by omega), fun _ => ?_⟩
        simp only [isComplete_withLast, hopen]

end Provider

end CodeNav

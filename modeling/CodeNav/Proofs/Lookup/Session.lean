import CodeNav.Proofs.Lookup.Alone
import Mathlib.Data.List.Nodup
import Mathlib.Logic.Relation

/-!
# Sessions

A provider, those who read its streams, and everything that may happen to them in any order:
somebody asks, a lookup goes on for a while or ends, time passes, somebody reads, joins in or
leaves. `Session.Step` is one such move. It is told nothing about the clock or the world, so a
lookup may be superseded **between any two steps of its program**, and one that was cancelled may
still go on until it notices.

* `Program.Leads` — where a program may get, and what it hands out on the way. Whatever the world,
  a run goes nowhere else (`leads_run`).
* `Sound` — what every move keeps (`Sound.step`), hence every session (`Reachable.sound`): each
  operation has **at most one lookup that is not cancelled**, its slot holds that one's key, and
  what readers saw was handed out for the key they asked for.
-/

namespace CodeNav

/-! ## Where a program may get -/

namespace Program

variable {σ ε α : Type}

/-- Where a program may get, whatever it is answered, and what it hands out on the way. -/
inductive Leads : Program ε α → List ε → Program ε α → Prop where
  | refl {p : Program ε α} : Leads p [] p
  | wait {t : Nat} {p q : Program ε α} {es : List ε} (h : Leads p es q) : Leads (wait t p) es q
  | now {k : Nat → Program ε α} {q : Program ε α} {es : List ε} (t : Nat)
      (h : Leads (k t) es q) : Leads (now k) es q
  | ask {c : Call} {k : Promise c.Answer → Program ε α} {q : Program ε α} {es : List ε}
      (r : Promise c.Answer) (h : Leads (k r) es q) : Leads (ask c k) es q
  | count {x : Counter} {n : Nat} {p q : Program ε α} {es : List ε} (h : Leads p es q) :
      Leads (count x n p) es q
  | emit {e : ε} {p q : Program ε α} {es : List ε} (h : Leads p es q) :
      Leads (emit e p) (e :: es) q
  | consult {key : ContentKey} {k : Option String → Program ε α} {q : Program ε α} {es : List ε}
      (o : Option String) (h : Leads (k o) es q) : Leads (consult key k) es q
  | remember {key : ContentKey} {text : String} {p q : Program ε α} {es : List ε}
      (h : Leads p es q) : Leads (remember key text p) es q

/-- What was handed out on the way stands in front of what is handed out later. -/
theorem Leads.trans {p q r : Program ε α} {es fs : List ε} (h : p.Leads es q)
    (h' : q.Leads fs r) : p.Leads (es ++ fs) r := by
  induction h with
  | refl => exact h'
  | wait _ ih => exact .wait (ih h')
  | now t _ ih => exact .now t (ih h')
  | ask a _ ih => exact .ask a (ih h')
  | count _ ih => exact .count (ih h')
  | emit _ ih => exact .emit (ih h')
  | consult o _ ih => exact .consult o (ih h')
  | remember _ ih => exact .remember (ih h')

end Program

/-- What is left of a program. -/
def Progress.rest {ε α : Type} : Progress ε α → Program ε α
  | .done a => .done a
  | .waiting _ next => next
  | .stuck => .never

/-- **A run goes where its program may get.** -/
theorem Program.leads_run {σ ε α : Type} (w : World σ) (limit : Nat) (p : Program ε α)
    (m : Machine σ) : p.Leads (p.run w limit m).emitted (p.run w limit m).progress.rest := by
  induction p generalizing m with
  | done a => exact .refl
  | never => exact .refl
  | wait t p ih =>
    rw [run]
    split
    · exact .wait (ih _)
    · exact .wait .refl
  | now k ih => exact .now _ (ih _ _)
  | ask c k ih => exact .ask _ (ih _ _)
  | count x n p ih => exact .count (ih _)
  | emit e p ih => exact .emit (ih _)
  | consult key k ih => exact .consult _ (ih _ _)
  | remember key text p ih => exact .remember (ih _)

/-! ## Sessions -/

/-- A lookup that was started: for which question, and what it handed out so far. -/
structure Session.Producer where
  question : Question
  given : List Snapshot := []

/-- The lookup after it handed out some more. -/
def Session.Producer.hand (p : Session.Producer) (es : List Snapshot) : Session.Producer :=
  { p with given := p.given ++ es }

/-- A reader: the question that got it its stream, and what it has read. -/
structure Session.Consumer where
  question : Question
  subscription : Subscription
  seen : List Snapshot := []

/-- A provider with its past and its readers. -/
structure Session where
  provider : Provider := {}
  /-- every lookup ever started, at the place of its stream -/
  producers : List Session.Producer := []
  consumers : List Session.Consumer := []

namespace Session

variable {σ : Type} {sources : Sources}

/-- A question is asked. -/
def ask (s : Session) (sources : Sources) (q : Question) (now : Nat) : Session :=
  let asked := s.provider.ask sources q now
  { provider := asked.1
    producers :=
      if s.provider.streams.length < asked.1.streams.length then s.producers ++ [{ question := q }]
      else s.producers
    consumers := { question := q, subscription := asked.2 } :: s.consumers }

/-- The task between `before` and `after` goes on and hands out `es`. -/
def goOn (s : Session) (before after : List Task) (t : Task) (es : List Snapshot)
    (wake : Option Nat) (next : Program Snapshot Unit) : Session :=
  { s with
    provider := { s.provider.updateStream t.stream (·.after es) with
      tasks := before ++ { t with wake, program := next } :: after }
    producers := s.producers.modify t.stream (·.hand es) }

/-- The task between `before` and `after` ends. -/
def stop (s : Session) (before after : List Task) (t : Task) : Session :=
  { s with
    provider := { s.provider.updateStream t.stream Stream.close with tasks := before ++ after } }

/-- One move of a session. -/
inductive Step (sources : Sources) : Session → Session → Prop where
  /-- somebody asks, at any instant -/
  | ask {s : Session} (q : Question) (now : Nat) : Step sources s (s.ask sources q now)
  /-- a lookup goes on, cancelled or not, and may be resumed at any instant -/
  | goOn {s : Session} {before after : List Task} {t : Task} {es : List Snapshot}
      {next : Program Snapshot Unit} (wake : Option Nat)
      (htasks : s.provider.tasks = before ++ t :: after) (h : t.program.Leads es next) :
      Step sources s (s.goOn before after t es wake next)
  /-- a lookup is at its end, or notices that it was cancelled -/
  | stop {s : Session} {before after : List Task} {t : Task}
      (htasks : s.provider.tasks = before ++ t :: after)
      (h : t.cancelled = true ∨ t.program = .done ()) : Step sources s (s.stop before after t)
  /-- a reader reads -/
  | read {s : Session} {before after : List Consumer} {c : Consumer} {a : Snapshot}
      {reader : Reader} (hconsumers : s.consumers = before ++ c :: after)
      (h : c.subscription.reader.next (s.provider.stream c.subscription.stream) =
        (.value a, reader)) :
      Step sources s { s with
        consumers := before ++ { c with
          subscription := { c.subscription with reader }, seen := c.seen ++ [a] } :: after }
  /-- somebody joins a reader, from the start or from where it is -/
  | subscribe {s : Session} {c : Consumer} (hc : c ∈ s.consumers) (reader : Reader) :
      Step sources s { s with
        consumers := { c with subscription := { c.subscription with reader }, seen := [] } ::
          s.consumers }
  /-- readers leave -/
  | detach {s : Session} {kept : List Consumer} (h : kept.Sublist s.consumers) :
      Step sources s { s with consumers := kept }

/-- A session that some row of moves leads to, whatever fingerprint its provider tells texts apart
by. -/
def Reachable (sources : Sources) (s : Session) : Prop :=
  ∃ fingerprint, Relation.ReflTransGen (Step sources) { provider := { fingerprint } } s

end Session

/-! ## What asking does -/

/-- The task, cancelled if it is for an operation. -/
def Task.cancelFor (o : Operation) (t : Task) : Task :=
  if t.operation = o then { t with cancelled := true } else t

namespace Task

variable {o : Operation} {t : Task}

@[simp] theorem cancelFor_operation : (t.cancelFor o).operation = t.operation := by
  rw [cancelFor]
  split <;> rfl

@[simp] theorem cancelFor_stream : (t.cancelFor o).stream = t.stream := by
  rw [cancelFor]
  split <;> rfl

@[simp] theorem cancelFor_program : (t.cancelFor o).program = t.program := by
  rw [cancelFor]
  split <;> rfl

/-- Asking anew for one operation cancels no lookup of another. -/
theorem cancelFor_of_ne (h : t.operation ≠ o) : t.cancelFor o = t := if_neg h

theorem cancelled_cancelFor (h : t.operation = o) : (t.cancelFor o).cancelled = true := by
  rw [cancelFor, if_pos h]

end Task

namespace Provider

variable {sources : Sources} {q : Question} {now : Nat}

/-- The places of the streams whose lookups are under way. -/
def places (p : Provider) : List Nat := p.tasks.map (·.stream)

/-- The lookups of an operation that are under way and not cancelled. -/
def live (p : Provider) (o : Operation) : List Task :=
  p.tasks.filter fun t => t.operation = o && !t.cancelled

theorem mem_live {p : Provider} {o : Operation} {t : Task} :
    t ∈ p.live o ↔ t ∈ p.tasks ∧ t.operation = o ∧ t.cancelled = false := by
  simp [live]

/-- A question joins the lookup that is held, or starts one. -/
theorem ask_cases (p : Provider) (sources : Sources) (q : Question) (now : Nat) :
    (∃ slot, p.slot? q.operation = some slot ∧ slot.key = q.key p.fingerprint ∧
        p.ask sources q now = (p, { stream := slot.stream })) ∨
      (∀ slot, p.slot? q.operation = some slot → slot.key ≠ q.key p.fingerprint) ∧
        p.ask sources q now = p.start sources q now := by
  rw [ask]
  cases p.slot? q.operation with
  | none => exact .inr ⟨nofun, rfl⟩
  | some slot =>
    by_cases hkey : slot.key = q.key p.fingerprint
    · exact .inl ⟨slot, rfl, hkey, if_pos hkey⟩
    · refine .inr ⟨?_, if_neg hkey⟩
      rintro _ ⟨⟩
      exact hkey

/-- The task of a new lookup. -/
def newTask (p : Provider) (sources : Sources) (q : Question) (now : Nat) : Task :=
  { operation := q.operation, stream := p.streams.length, wake := some now
    program := sources.answer q }

section Start

variable (p : Provider) {o : Operation}

theorem streams_start :
    (p.start sources q now).1.streams = p.streams ++ [({} : Stream Snapshot)] := rfl

theorem tasks_start : (p.start sources q now).1.tasks =
    p.tasks.map (·.cancelFor q.operation) ++ [p.newTask sources q now] := rfl

/-- A start takes no task away: each was there before, perhaps cancelled by now, or is the new one.
-/
theorem mem_tasks_start {t : Task} (h : t ∈ (p.start sources q now).1.tasks) :
    (∃ u ∈ p.tasks, t = u.cancelFor q.operation) ∨ t = p.newTask sources q now := by
  rw [tasks_start, List.mem_append, List.mem_map, List.mem_singleton] at h
  rcases h with ⟨u, hu, rfl⟩ | rfl
  · exact .inl ⟨u, hu, rfl⟩
  · exact .inr rfl

/-- The new lookup has a stream of its own, behind all others. -/
theorem places_start : (p.start sources q now).1.places = p.places ++ [p.streams.length] := by
  simp [places, tasks_start, newTask]

/-- The operation holds the new lookup from now on, under the key it was asked with. -/
theorem slot?_start_self : (p.start sources q now).1.slot? q.operation =
    some ⟨q.operation, q.key p.fingerprint, p.streams.length⟩ := by
  simp [slot?, start]

/-- The other operations hold what they held. -/
theorem slot?_start_of_ne (ho : o ≠ q.operation) :
    (p.start sources q now).1.slot? o = p.slot? o := by
  have hfilter : ∀ slot : Slot, (slot.operation ≠ q.operation ∧ slot.operation = o) ↔
      slot.operation = o := by
    intro slot
    constructor
    · exact fun h => h.2
    · rintro rfl
      exact ⟨ho, rfl⟩
  simp [slot?, start, cancel, Ne.symm ho, List.find?_filter, hfilter]

/-- The lookup that an operation had is cancelled. -/
theorem live_start_self :
    (p.start sources q now).1.live q.operation = [p.newTask sources q now] := by
  have hnone : (p.tasks.map (·.cancelFor q.operation)).filter
      (fun t => t.operation = q.operation && !t.cancelled) = [] := by
    refine List.filter_eq_nil_iff.mpr fun t ht => ?_
    obtain ⟨t, -, rfl⟩ := List.mem_map.mp ht
    by_cases ho : t.operation = q.operation
    · simp [Task.cancelled_cancelFor ho]
    · simp [ho]
  rw [live, tasks_start, List.filter_append, hnone]
  simp [newTask]

/-- The lookups of the other operations go on. -/
theorem filter_tasks_start_of_ne (ho : o ≠ q.operation) :
    (p.start sources q now).1.tasks.filter (·.operation = o) =
      p.tasks.filter (·.operation = o) := by
  have hsame : (p.tasks.filter (·.operation = o)).map (·.cancelFor q.operation) =
      p.tasks.filter (·.operation = o) := by
    refine (List.map_congr_left fun t ht => ?_).trans (List.map_id _)
    have hto : t.operation = o := of_decide_eq_true (List.mem_filter.mp ht).2
    exact Task.cancelFor_of_ne (hto ▸ ho)
  rw [tasks_start, List.filter_append, List.filter_map]
  simpa [Function.comp_def, newTask, Ne.symm ho] using hsame

/-- A question with another key takes the place of the lookup of its operation, and leaves the
other operations alone. -/
theorem ask_supersedes (now : Nat)
    (hnew : ∀ slot, p.slot? q.operation = some slot → slot.key ≠ q.key p.fingerprint) :
    let p' := (p.ask sources q now).1
    p'.slot? q.operation = some ⟨q.operation, q.key p.fingerprint, p.streams.length⟩ ∧
      p'.live q.operation = [p.newTask sources q now] ∧
      (∀ t ∈ p.tasks, t.operation = q.operation → { t with cancelled := true } ∈ p'.tasks) ∧
      ∀ o, o ≠ q.operation → p'.slot? o = p.slot? o ∧
        p'.tasks.filter (·.operation = o) = p.tasks.filter (·.operation = o) := by
  rcases p.ask_cases sources q now with ⟨slot, hslot, hkey, -⟩ | ⟨-, hask⟩
  · exact absurd hkey (hnew slot hslot)
  · rw [hask]
    refine ⟨p.slot?_start_self, p.live_start_self, fun t ht hop => ?_,
      fun o ho => ⟨p.slot?_start_of_ne ho, p.filter_tasks_start_of_ne ho⟩⟩
    rw [tasks_start]
    refine List.mem_append_left _ (List.mem_map.mpr ⟨t, ht, ?_⟩)
    rw [Task.cancelFor, if_pos hop]

end Start

end Provider

/-! ## What every move keeps -/

namespace Stream

variable {α : Type} {given : List α}

/-- The stream of a lookup that handed out `given`. It is complete unless the lookup is under
way. -/
def showing (given : List α) (underWay : Bool) : Stream α :=
  { after {} given with complete := !underWay }

theorem showing_true (given : List α) : showing given true = after {} given := by
  rw [showing, after_of_open rfl]
  rfl

/-- While a lookup is under way, handing out more is appending to what was handed out. -/
theorem after_showing (given es : List α) :
    (showing given true).after es = showing (given ++ es) true := by
  rw [showing_true, showing_true, after_append]

/-- What a reader finds in a stream was handed out. -/
theorem mem_of_unseen? {r : Reader} {underWay : Bool} {a : α}
    (h : r.unseen? (showing given underWay) = some a) : a ∈ given := by
  rw [showing, after_of_open rfl, Reader.unseen?] at h
  split at h
  · exact List.mem_of_getLast? (by simpa using h)
  · cases h

end Stream

namespace Session

variable {σ : Type} {sources : Sources} {s : Session}

/-- Lookups stay in their places, and what they handed out is not taken back. -/
def Grows (producers producers' : List Producer) : Prop :=
  ∀ (i : Nat) (p : Producer), producers[i]? = some p →
    ∃ more, producers'[i]? = some (p.hand more)

/-- Moves that hand out nothing leave the lookups as they are. -/
theorem Grows.refl (producers : List Producer) : Grows producers producers := by
  intro i p h
  refine ⟨[], ?_⟩
  rw [h, Producer.hand, List.append_nil]

/-- So what was handed out once is there after any number of moves. -/
theorem Grows.trans {producers producers' producers'' : List Producer}
    (h : Grows producers producers') (h' : Grows producers' producers'') :
    Grows producers producers'' := by
  intro i p hp
  obtain ⟨more, hp'⟩ := h i p hp
  obtain ⟨more', hp''⟩ := h' i _ hp'
  refine ⟨more ++ more', ?_⟩
  rw [hp'', Producer.hand, Producer.hand, Producer.hand, List.append_assoc]

/-- New lookups are put behind the others, whose places stay the same. -/
theorem Grows.append (producers more : List Producer) : Grows producers (producers ++ more) := by
  intro i p h
  refine ⟨[], ?_⟩
  rw [List.getElem?_append_left (List.getElem?_eq_some_iff.mp h).1, h, Producer.hand,
    List.append_nil]

/-- What one lookup hands out is no other's. -/
theorem Grows.modify (producers : List Producer) (i : Nat) (es : List Snapshot) :
    Grows producers (producers.modify i (·.hand es)) := by
  intro j p h
  by_cases hij : i = j
  · exact ⟨es, by simp [hij, h]⟩
  · exact ⟨[], by simp [hij, h, Producer.hand]⟩

/-- No move takes back what was handed out. -/
theorem Step.grows {s' : Session} (h : Step sources s s') : Grows s.producers s'.producers := by
  cases h with
  | ask q now =>
    simp only [Session.ask]
    split
    · exact .append _ _
    · exact .refl _
  | goOn wake htasks h => exact .modify _ _ _
  | stop htasks h => exact .refl _
  | read hconsumers h => exact .refl _
  | subscribe hc reader => exact .refl _
  | detach h => exact .refl _

/-- A lookup was started for the key of a slot. -/
def Filled (fingerprint : String → UInt64) (producers : List Producer) (slot : Slot) : Prop :=
  ∃ p, producers[slot.stream]? = some p ∧ p.question.operation = slot.operation ∧
    p.question.key fingerprint = slot.key

/-- What a reader saw was handed out by a lookup that was started for the key it asked for. -/
def Served (fingerprint : String → UInt64) (producers : List Producer) (c : Consumer) : Prop :=
  ∃ p, producers[c.subscription.stream]? = some p ∧
    p.question.operation = c.question.operation ∧
    p.question.key fingerprint = c.question.key fingerprint ∧ ∀ a ∈ c.seen, a ∈ p.given

variable {fingerprint : String → UInt64}

/-- A slot stays filled: a lookup never changes the question it was started for. -/
theorem Filled.mono {producers producers' : List Producer} {slot : Slot}
    (h : Filled fingerprint producers slot) (hg : Grows producers producers') :
    Filled fingerprint producers' slot := by
  obtain ⟨p, hp, hop, hkey⟩ := h
  obtain ⟨more, hp'⟩ := hg _ p hp
  exact ⟨_, hp', hop, hkey⟩

/-- What a reader saw stays handed out, so no later move can make it wrong. -/
theorem Served.mono {producers producers' : List Producer} {c : Consumer}
    (h : Served fingerprint producers c) (hg : Grows producers producers') :
    Served fingerprint producers' c := by
  obtain ⟨p, hp, hop, hkey, hseen⟩ := h
  obtain ⟨more, hp'⟩ := hg _ p hp
  exact ⟨_, hp', hop, hkey, fun a ha => List.mem_append_left more (hseen a ha)⟩

/-- What every move keeps. -/
structure Sound (sources : Sources) (s : Session) : Prop where
  /-- a stream shows what its lookup handed out, and is complete when that is no longer under
  way -/
  streams : ∀ i, s.provider.streams[i]? = s.producers[i]?.map fun p =>
    Stream.showing p.given (decide (i ∈ s.provider.places))
  /-- no two tasks share a stream -/
  apart : s.provider.places.Nodup
  /-- a task is at a point that its question's answer leads to -/
  tasks : ∀ t ∈ s.provider.tasks, ∃ p, s.producers[t.stream]? = some p ∧
    p.question.operation = t.operation ∧ (sources.answer p.question).Leads p.given t.program
  /-- a task that is not cancelled is the one its operation holds -/
  held : ∀ t ∈ s.provider.tasks, t.cancelled = false →
    ∃ slot, s.provider.slot? t.operation = some slot ∧ slot.stream = t.stream
  slots : ∀ slot ∈ s.provider.slots, Filled s.provider.fingerprint s.producers slot
  producers : ∀ (i : Nat) (p : Producer), s.producers[i]? = some p →
    ∃ rest, (sources.answer p.question).Leads p.given rest
  consumers : ∀ c ∈ s.consumers, Served s.provider.fingerprint s.producers c

/-- Without lookups and readers there is nothing to keep. -/
theorem Sound.fresh (fingerprint : String → UInt64) :
    Sound sources { provider := { fingerprint } } where
  streams _ := rfl
  apart := .nil
  tasks := nofun
  held := nofun
  slots := nofun
  producers := nofun
  consumers := nofun

namespace Sound

/-- Each lookup has one stream, so a place in one list is a place in the other. -/
theorem length_eq (h : Sound sources s) : s.provider.streams.length = s.producers.length := by
  refine Nat.le_antisymm ?_ ?_
  · rw [← List.getElem?_eq_none_iff, h.streams, List.getElem?_eq_none (Nat.le_refl _)]
    rfl
  · rw [← List.getElem?_eq_none_iff, ← Option.map_eq_none_iff, ← h.streams,
      List.getElem?_eq_none (Nat.le_refl _)]

/-- Only the readers change. -/
theorem of_consumers (h : Sound sources s) {consumers : List Consumer}
    (hc : ∀ c ∈ consumers, Served s.provider.fingerprint s.producers c) :
    Sound sources { s with consumers } :=
  ⟨h.streams, h.apart, h.tasks, h.held, h.slots, h.producers, hc⟩

/-- A task apart from the others. -/
theorem split (h : Sound sources s) {before after : List Task} {t : Task}
    (htasks : s.provider.tasks = before ++ t :: after) :
    t.stream ∉ (before ++ after).map (·.stream) ∧ ((before ++ after).map (·.stream)).Nodup := by
  have hapart := h.apart
  rw [Provider.places, htasks, List.map_append, List.map_cons, List.nodup_middle,
    List.nodup_cons] at hapart
  rwa [List.map_append]

/-- The other tasks are found beside it. -/
theorem mem_split {before after : List Task} {t u : Task} :
    u ∈ before ++ t :: after ↔ u = t ∨ u ∈ before ++ after := by
  simp only [List.mem_append, List.mem_cons]
  exact or_left_comm

/-- A lookup that goes on, cancelled or not, hands out only to its own stream, which nobody else
writes to. -/
theorem goOn (h : Sound sources s) {before after : List Task} {t : Task} {es : List Snapshot}
    {next : Program Snapshot Unit} (wake : Option Nat)
    (htasks : s.provider.tasks = before ++ t :: after) (hnext : t.program.Leads es next) :
    Sound sources (s.goOn before after t es wake next) := by
  have hplaces : (s.goOn before after t es wake next).provider.places = s.provider.places := by
    simp [Session.goOn, Provider.places, htasks]
  have hgrows : Grows s.producers (s.goOn before after t es wake next).producers := .modify _ _ _
  have ht : t ∈ s.provider.tasks := htasks ▸ mem_split.mpr (.inl rfl)
  obtain ⟨p, hp, hop, hleads⟩ := h.tasks t ht
  refine ⟨fun i => ?_, hplaces ▸ h.apart, fun u hu => ?_, fun u hu hlive => ?_,
    fun slot hslot => (h.slots slot hslot).mono hgrows, fun i p' hp' => ?_,
    fun c hc => (h.consumers c hc).mono hgrows⟩
  · rw [hplaces]
    simp only [Session.goOn, Provider.updateStream, List.getElem?_modify, h.streams i]
    by_cases hi : t.stream = i
    · subst hi
      have hplace : t.stream ∈ s.provider.places := List.mem_map_of_mem ht
      simp [hp, hplace, Stream.after_showing, Producer.hand]
    · simp [hi]
  · rcases mem_split.mp hu with rfl | hu
    · refine ⟨p.hand es, ?_, hop, hleads.trans hnext⟩
      simp [Session.goOn, hp]
    · obtain ⟨p', hp', hop', hleads'⟩ := h.tasks u (htasks ▸ mem_split.mpr (.inr hu))
      have hne : t.stream ≠ u.stream := fun heq =>
        (h.split htasks).1 (heq ▸ List.mem_map_of_mem hu)
      refine ⟨p', ?_, hop', hleads'⟩
      simp [Session.goOn, hne, hp']
  · rcases mem_split.mp hu with rfl | hu
    · exact h.held t ht hlive
    · exact h.held u (htasks ▸ mem_split.mpr (.inr hu)) hlive
  · by_cases hi : t.stream = i
    · subst hi
      obtain rfl : p.hand es = p' := by simpa [Session.goOn, hp] using hp'
      exact ⟨next, hleads.trans hnext⟩
    · exact h.producers i p' (by simpa [Session.goOn, hi] using hp')

/-- A lookup that stops completes its stream, and its slot stays filled: who asks again with its key
joins what it handed out. -/
theorem stop (h : Sound sources s) {before after : List Task} {t : Task}
    (htasks : s.provider.tasks = before ++ t :: after) :
    Sound sources (s.stop before after t) := by
  obtain ⟨hnot, hapart⟩ := h.split htasks
  have hmem : ∀ u ∈ before ++ after, u ∈ s.provider.tasks := by
    intro u hu
    rw [htasks]
    exact mem_split.mpr (.inr hu)
  refine ⟨fun i => ?_, hapart, fun u hu => h.tasks u (hmem u hu),
    fun u hu => h.held u (hmem u hu), h.slots, h.producers, h.consumers⟩
  have hplaces : (s.stop before after t).provider.places = (before ++ after).map (·.stream) := rfl
  rw [hplaces]
  simp only [Session.stop, Provider.updateStream, List.getElem?_modify, h.streams i]
  by_cases hi : t.stream = i
  · subst hi
    simp only [hnot, if_true]
    cases s.producers[t.stream]? <;> rfl
  · have hiff : i ∈ s.provider.places ↔ i ∈ (before ++ after).map (·.stream) := by
      simp [Provider.places, htasks, Ne.symm hi]
    simp only [hi, if_false, hiff]
    simp

/-- Asking anew cancels the lookup that the operation had, so that again one at most is not
cancelled. -/
theorem start (h : Sound sources s) (q : Question) (now : Nat) :
    Sound sources { s with
      provider := (s.provider.start sources q now).1
      producers := s.producers ++ [{ question := q }] } := by
  have hlength := h.length_eq
  have hgrows : Grows s.producers (s.producers ++ [{ question := q }]) := .append _ _
  have hnew : (s.producers ++ [({ question := q } : Producer)])[s.provider.streams.length]? =
      some { question := q } := by
    rw [hlength, List.getElem?_concat_length]
  -- every place is taken by a lookup that was started before
  have hplace : ∀ t ∈ s.provider.tasks, t.stream < s.producers.length := by
    intro t ht
    obtain ⟨p, hp, -, -⟩ := h.tasks t ht
    exact (List.getElem?_eq_some_iff.mp hp).1
  have hfresh : s.provider.streams.length ∉ s.provider.places := by
    intro hmem
    obtain ⟨t, ht, heq⟩ := List.mem_map.mp hmem
    exact absurd (hplace t ht) (by omega)
  refine ⟨fun i => ?_, ?_, fun t ht => ?_, fun t ht hlive => ?_, fun slot hslot => ?_,
    fun i p hp => ?_, fun c hc => (h.consumers c hc).mono hgrows⟩
  · rw [Provider.places_start, Provider.streams_start]
    rcases Nat.lt_trichotomy i s.provider.streams.length with hi | rfl | hi
    · have hiff : i ∈ s.provider.places ++ [s.provider.streams.length] ↔
          i ∈ s.provider.places := by simp [Nat.ne_of_lt hi]
      rw [List.getElem?_append_left hi, List.getElem?_append_left (hlength ▸ hi), h.streams i]
      simp only [hiff]
    · rw [List.getElem?_concat_length, hnew]
      simp [Stream.showing_true]
    · rw [List.getElem?_eq_none (by rw [List.length_append]; exact hi),
        List.getElem?_eq_none (by rw [List.length_append, ← hlength]; exact hi)]
      rfl
  · rw [Provider.places_start]
    refine List.nodup_append.mpr ⟨h.apart, List.nodup_singleton _, ?_⟩
    rintro a ha b hb rfl
    exact hfresh (List.mem_singleton.mp hb ▸ ha)
  · rcases s.provider.mem_tasks_start ht with ⟨u, hu, rfl⟩ | rfl
    · obtain ⟨p, hp, hop, hleads⟩ := h.tasks u hu
      simp only [Task.cancelFor_stream, Task.cancelFor_operation, Task.cancelFor_program]
      exact ⟨p, (List.getElem?_append_left (hplace u hu)).trans hp, hop, hleads⟩
    · exact ⟨_, hnew, rfl, .refl⟩
  · rcases s.provider.mem_tasks_start ht with ⟨u, hu, rfl⟩ | rfl
    · have hne : u.operation ≠ q.operation := by
        intro heq
        rw [Task.cancelled_cancelFor heq] at hlive
        cases hlive
      rw [Task.cancelFor_of_ne hne] at hlive ⊢
      obtain ⟨slot, hslot, hstream⟩ := h.held u hu hlive
      exact ⟨slot, (s.provider.slot?_start_of_ne hne).trans hslot, hstream⟩
    · exact ⟨_, s.provider.slot?_start_self, rfl⟩
  · rcases List.mem_cons.mp hslot with rfl | hslot
    · exact ⟨_, hnew, rfl, rfl⟩
    · exact (h.slots slot (List.mem_of_mem_filter hslot)).mono hgrows
  · rcases Nat.lt_or_ge i s.producers.length with hi | hi
    · exact h.producers i p (List.getElem?_append_left hi ▸ hp)
    · rw [List.getElem?_append_right hi] at hp
      obtain rfl := List.mem_singleton.mp (List.mem_of_getElem? hp)
      exact ⟨_, .refl⟩

/-- Who joins a running lookup asked for its key, and who starts one asked for the new key. -/
theorem ask (h : Sound sources s) (q : Question) (now : Nat) :
    Sound sources (s.ask sources q now) := by
  rcases s.provider.ask_cases sources q now with ⟨slot, hslot, hkey, hask⟩ | ⟨-, hask⟩
  · have hask' : s.ask sources q now =
        { s with consumers := { question := q, subscription := { stream := slot.stream } } ::
          s.consumers } := by
      simp [Session.ask, hask]
    obtain ⟨p, hp, hop, hkey'⟩ := h.slots slot (List.mem_of_find?_eq_some hslot)
    have hoperation : slot.operation = q.operation := by
      simpa using List.find?_some hslot
    rw [hask']
    refine h.of_consumers (List.forall_mem_cons.mpr ⟨?_, h.consumers⟩)
    exact ⟨p, hp, hop.trans hoperation, hkey'.trans hkey, nofun⟩
  · have hask' : s.ask sources q now =
        { provider := (s.provider.start sources q now).1
          producers := s.producers ++ [{ question := q }]
          consumers := { question := q, subscription := { stream := s.provider.streams.length } } ::
            s.consumers } := by
      have hlonger : s.provider.streams.length <
          (s.provider.start sources q now).1.streams.length := by
        rw [Provider.streams_start, List.length_append]
        exact Nat.lt_succ_self _
      simp only [Session.ask, hask, if_pos hlonger]
      rfl
    have hstart := h.start q now
    rw [hask']
    refine hstart.of_consumers (List.forall_mem_cons.mpr ⟨?_, hstart.consumers⟩)
    refine ⟨{ question := q }, ?_, rfl, rfl, nofun⟩
    rw [h.length_eq, List.getElem?_concat_length]

/-- A stream can be told from what its lookup handed out and whether it is under way. -/
theorem stream_eq (h : Sound sources s) {i : Nat} {p : Producer}
    (hp : s.producers[i]? = some p) :
    s.provider.stream i = Stream.showing p.given (decide (i ∈ s.provider.places)) := by
  rw [Provider.stream, List.getD_eq_getElem?_getD, h.streams, hp]
  rfl

/-- What is read was in the stream, so it was handed out for the key that the reader asked for. -/
theorem read (h : Sound sources s) {c : Consumer} (hc : c ∈ s.consumers) {a : Snapshot}
    {reader : Reader}
    (hread : c.subscription.reader.next (s.provider.stream c.subscription.stream) =
      (.value a, reader)) :
    Served s.provider.fingerprint s.producers { c with
      subscription := { c.subscription with reader }, seen := c.seen ++ [a] } := by
  obtain ⟨p, hp, hop, hkey, hseen⟩ := h.consumers c hc
  have ha : a ∈ p.given := by
    rw [h.stream_eq hp, Reader.next] at hread
    split at hread
    · next b hb =>
      cases hread
      exact Stream.mem_of_unseen? hb
    · split at hread <;> cases hread
  refine ⟨p, hp, hop, hkey, List.forall_mem_append.mpr ⟨hseen, ?_⟩⟩
  simpa using ha

/-- **Every move keeps a session sound.** -/
theorem step {s' : Session} (h : Sound sources s) (hstep : Step sources s s') :
    Sound sources s' := by
  cases hstep with
  | ask q now => exact h.ask q now
  | goOn wake htasks hnext => exact h.goOn wake htasks hnext
  | stop htasks _ => exact h.stop htasks
  | read hconsumers hread =>
    refine h.of_consumers ?_
    have hold := h.consumers
    rw [hconsumers, List.forall_mem_append, List.forall_mem_cons] at hold
    rw [List.forall_mem_append, List.forall_mem_cons]
    exact ⟨hold.1, h.read (hconsumers ▸ by simp) hread, hold.2.2⟩
  | subscribe hc reader =>
    obtain ⟨p, hp, hop, hkey, -⟩ := h.consumers _ hc
    exact h.of_consumers (List.forall_mem_cons.mpr ⟨⟨p, hp, hop, hkey, nofun⟩, h.consumers⟩)
  | detach hkept => exact h.of_consumers fun c hc => h.consumers c (hkept.subset hc)

end Sound

/-- **Every session is sound**, whatever fingerprint tells texts apart and in whatever order things
happen. -/
theorem Reachable.sound (h : Reachable sources s) : Sound sources s := by
  obtain ⟨fingerprint, hsteps⟩ := h
  induction hsteps with
  | refl => exact .fresh fingerprint
  | tail _ hstep ih => exact ih.step hstep

end Session

end CodeNav

import CodeNav.Lookup.Engine
import CodeNav.Lookup.Precise
import CodeNav.Lookup.Run
import CodeNav.Lookup.Stream

/-!
# Lookups for an editor

A provider answers an editor's lookups with streams. What an index knows comes first;
what is found by searching is marked as imprecise.

For each operation the provider holds **the one lookup asked for last**. Asking again for
the same thing joins that lookup; asking for something else cancels it and starts a new
one. A lookup runs as a task beside all others; when a task ends, or notices that it was
cancelled, its stream is complete.
-/

namespace CodeNav

/-- What the stream of a lookup shows. -/
inductive Snapshot where
  | locations (found : List (Annotated Location))
  | hover (payload : Annotated HoverPayload)
  deriving DecidableEq, Repr

/-! ## What a lookup does -/

namespace Snapshot

/-- Locations from an index. -/
def precise (found : List Location) : Snapshot := .locations (found.map .precise)

/-- Locations from a search. -/
def searched (hits : List Hit) : Snapshot := .locations (hits.map (.searched ·.location))

end Snapshot

/-- A question an editor asks. -/
structure Question where
  operation : Operation
  document : Document
  position : Position
  /-- whether references include the declaration -/
  declaration : Bool := false
  deriving DecidableEq, Repr

/-- What two questions must share to share an answer. -/
structure Question.Key where
  uri : String
  /-- stands for the text of the document -/
  fingerprint : UInt64
  position : Position
  declaration : Option Bool
  deriving DecidableEq, Repr

/-- The key of a question among those with its operation. -/
def Question.key (fingerprint : String → UInt64) (q : Question) : Question.Key where
  uri := q.document.uri
  fingerprint := fingerprint q.document.text
  position := q.position
  declaration := if q.operation = .references then some q.declaration else none

/-- Where answers come from: searches and, if there is one, an index. -/
structure Sources where
  engine : Engine
  hasIndex : Bool

namespace Sources

/-- The answer of an index. Without an index, or if it fails, the answer is `fallback`. -/
def indexed {α : Type} (s : Sources) (fallback : α)
    (ask : Program Snapshot (Promise (Except SearchError α))) : Program Snapshot α :=
  if s.hasIndex then do
    let answer ← Program.await (← ask)
    match answer with
    | .ok a => return a
    | .error _ => return fallback
  else return fallback

/-- Look up definitions. A failed search shows nothing. -/
def definition (s : Sources) (d : Document) (p : Position) : Program Snapshot Unit := do
  let known ← s.indexed [] (Program.call (.indexedDefinition d p))
  if !known.isEmpty then Program.give (.precise known)
  else
    let found ← s.engine.definition d p
    match found with
    | .ok hits => Program.give (.searched hits)
    | .error _ => return ()

/-- Look up references: what the index knows at once, then with the searched ones. -/
def references (s : Sources) (d : Document) (p : Position) (declaration : Bool) :
    Program Snapshot Unit := do
  let known ← s.indexed [] (Program.call (.indexedReferences d p declaration))
  if !known.isEmpty then Program.give (.precise known)
  let found ← s.engine.references d p
  match found with
  | .error _ => return ()
  | .ok hits =>
    if hits.isEmpty && !known.isEmpty then return ()
    else Program.give (.locations (mergeFileDisjoint known (hits.map (·.location))))

/-- Look up a hover. An empty hover of the index counts as none. -/
def hover (s : Sources) (d : Document) (p : Position) : Program Snapshot Unit := do
  let known ← s.indexed none (Program.call (.indexedHover d p))
  match known.filter (!·.contents.isEmpty) with
  | some payload => Program.give (.hover (.precise payload))
  | none =>
    let found ← s.engine.hover d p
    match found with
    | .ok (some payload) => Program.give (.hover (.searched payload))
    | _ => return ()

/-- Answer a question. -/
def answer (s : Sources) (q : Question) : Program Snapshot Unit :=
  match q.operation with
  | .definition => s.definition q.document q.position
  | .references => s.references q.document q.position q.declaration
  | .hover => s.hover q.document q.position

end Sources

/-! ## The provider -/

/-- A lookup that is under way. -/
structure Task where
  operation : Operation
  /-- the place of its stream -/
  stream : Nat
  cancelled : Bool := false
  /-- when it can go on; none if never -/
  wake : Option Nat
  program : Program Snapshot Unit

/-- The lookup that an operation was last asked for. -/
structure Slot where
  operation : Operation
  key : Question.Key
  /-- the place of its stream -/
  stream : Nat
  deriving DecidableEq, Repr

/-- The lookups of an editor. -/
structure Provider where
  /-- what is kept of a text to know it again -/
  fingerprint : String → UInt64 := hash
  /-- one stream for each lookup ever started -/
  streams : List (Stream Snapshot) := []
  /-- at most one slot for each operation -/
  slots : List Slot := []
  /-- the lookups under way, the earliest first -/
  tasks : List Task := []

/-- A reader of one of a provider's streams. -/
structure Subscription where
  /-- the place of the stream -/
  stream : Nat
  reader : Reader := {}
  deriving DecidableEq, Repr

namespace Provider

variable {σ : Type}

/-- The slot of an operation. -/
def slot? (p : Provider) (o : Operation) : Option Slot := p.slots.find? (·.operation = o)

/-- The stream at a place. -/
def stream (p : Provider) (i : Nat) : Stream Snapshot := p.streams.getD i {}

/-- Change the stream at a place. -/
def updateStream (p : Provider) (i : Nat) (f : Stream Snapshot → Stream Snapshot) : Provider :=
  { p with streams := p.streams.modify i f }

/-- Cancel the lookup of an operation. -/
def cancel (p : Provider) (o : Operation) : Provider :=
  { p with
    tasks := p.tasks.map fun t => if t.operation = o then { t with cancelled := true } else t }

/-- Start a lookup in place of the one the operation had. -/
def start (p : Provider) (sources : Sources) (q : Question) (now : Nat) :
    Provider × Subscription :=
  let i := p.streams.length
  let key := q.key p.fingerprint
  let task : Task :=
    { operation := q.operation, stream := i, wake := some now, program := sources.answer q }
  let p := p.cancel q.operation
  ({ p with
      streams := p.streams ++ [{}]
      slots := ⟨q.operation, key, i⟩ :: p.slots.filter (·.operation ≠ q.operation)
      tasks := p.tasks ++ [task] }, { stream := i })

/-- Ask a question: join the lookup that has the same key, or start a new one. -/
def ask (p : Provider) (sources : Sources) (q : Question) (now : Nat) :
    Provider × Subscription :=
  match p.slot? q.operation with
  | some s =>
    if s.key = q.key p.fingerprint then (p, { stream := s.stream }) else p.start sources q now
  | none => p.start sources q now

/-! ## Time -/

/-- Let a task go on as far as it gets without time passing: what remains of it, what its
stream becomes, and the machine it leaves. -/
def stepTask (w : World σ) (t : Task) (s : Stream Snapshot) (m : Machine σ) :
    Option Task × Stream Snapshot × Machine σ :=
  if t.cancelled then (none, s.close, m)
  else if t.wake.any (· ≤ m.now) then
    let r := t.program.poll w m
    let s := r.emitted.foldl Stream.emit s
    match r.progress with
    | .done () => (none, s.close, r.machine.note (.counted (.lookups t.operation) 1))
    | .waiting due next => (some { t with wake := some due, program := next }, s, r.machine)
    | .stuck => (some { t with wake := none, program := .never }, s, r.machine)
  else (some t, s, m)

/-- Let every task go on, in order. -/
def settleTasks (w : World σ) : List Task → Provider → Machine σ → Provider × Machine σ
  | [], p, m => (p, m)
  | t :: ts, p, m =>
    let (rest, s, m) := stepTask w t (p.stream t.stream) m
    let p := p.updateStream t.stream fun _ => s
    settleTasks w ts { p with tasks := p.tasks ++ rest.toList } m

/-- Let every task go on as far as it gets without time passing. -/
def settle (w : World σ) (p : Provider) (m : Machine σ) : Provider × Machine σ :=
  settleTasks w p.tasks { p with tasks := [] } m

/-- The next instant at which a task can go on. -/
def nextWake? (p : Provider) : Option Nat := (p.tasks.filterMap (·.wake)).min?

/-- Let time pass until `enough` holds, at most up to `limit`; `now` is the instant it is. -/
def passFrom (w : World σ) (enough : Provider → Bool) (limit now : Nat) (p : Provider)
    (m : Machine σ) : Provider × Machine σ :=
  if enough p then (p, m)
  else
    match p.nextWake? with
    | none => (p, m.moveTo limit)
    | some t =>
      if _h : now < t ∧ t ≤ limit then
        let settled := p.settle w (m.moveTo t)
        passFrom w enough limit t settled.1 settled.2
      else (p, m.moveTo limit)
termination_by limit - now
decreasing_by omega

/-- Let time pass until `enough` holds, at most up to `limit`. -/
def pass (w : World σ) (enough : Provider → Bool) (limit : Nat) (p : Provider)
    (m : Machine σ) : Provider × Machine σ :=
  p.passFrom w enough limit m.now m

/-- Let so many milliseconds pass. -/
def sleep (w : World σ) (ms : Nat) (p : Provider) (m : Machine σ) : Provider × Machine σ :=
  p.pass w (fun _ => false) (m.now + ms) m

/-! ## Reading -/

/-- Whether a subscription's stream is complete. -/
def isComplete (p : Provider) (s : Subscription) : Bool := (p.stream s.stream).complete

/-- Read the next snapshot, waiting for it if need be. -/
def next (w : World σ) (s : Subscription) (p : Provider) (m : Machine σ) :
    (Reading Snapshot × Subscription) × Provider × Machine σ :=
  let (p, m) :=
    p.pass w (fun p => !s.reader.mustWait (p.stream s.stream)) (m.now + Program.patience) m
  let (reading, reader) := s.reader.next (p.stream s.stream)
  ((reading, { s with reader }), p, m)

/-- Read to the end and keep the last snapshot, waiting for it at most `patience`
milliseconds. -/
def lastWithin (w : World σ) (patience : Nat) (s : Subscription) (p : Provider)
    (m : Machine σ) : Reading Snapshot × Provider × Machine σ :=
  let (p, m) := p.pass w (·.isComplete s) (m.now + patience) m
  (s.reader.last (p.stream s.stream), p, m)

/-- Read to the end and keep the last snapshot, waiting for it if need be. -/
def last (w : World σ) (s : Subscription) (p : Provider) (m : Machine σ) :
    Reading Snapshot × Provider × Machine σ :=
  p.lastWithin w Program.patience s m

/-- Ask a question and wait for the last snapshot of its answer, at most `patience`
milliseconds. -/
def lookupWithin (w : World σ) (patience : Nat) (sources : Sources) (q : Question)
    (p : Provider) (m : Machine σ) : Reading Snapshot × Provider × Machine σ :=
  let (p, s) := p.ask sources q m.now
  let (p, m) := p.settle w m
  p.lastWithin w patience s m

/-- Ask a question and wait for the last snapshot of its answer. -/
def lookup (w : World σ) (sources : Sources) (q : Question) (p : Provider) (m : Machine σ) :
    Reading Snapshot × Provider × Machine σ :=
  p.lookupWithin w Program.patience sources q m

end Provider

end CodeNav

/-!
# Maps that forget what was not used

A bounded map. The entries are kept the most recently used first: reading or writing
an entry moves it to the front, and a write that would make the map too large drops the
entry at the back. So **the map holds the entries used last**, as many as fit. A
capacity of zero counts as one.
-/

namespace CodeNav

/-- A bounded map, the most recently used entry first. -/
structure Lru (κ β : Type) where
  capacity : Nat
  entries : List (κ × β)
  deriving Repr

namespace Lru

variable {κ β : Type} [DecidableEq κ]

/-- A map without entries. -/
def empty (capacity : Nat) : Lru κ β := ⟨max capacity 1, []⟩

/-- The number of entries. -/
def size (m : Lru κ β) : Nat := m.entries.length

/-- The entries of the other keys. -/
def without (m : Lru κ β) (key : κ) : List (κ × β) := m.entries.filter (·.1 ≠ key)

/-- Read an entry, which makes it the most recent one. -/
def get? (m : Lru κ β) (key : κ) : Option β × Lru κ β :=
  match m.entries.find? (·.1 = key) with
  | none => (none, m)
  | some (_, v) => (some v, { m with entries := (key, v) :: m.without key })

/-- Write an entry, which makes it the most recent one. -/
def insert (m : Lru κ β) (key : κ) (value : β) : Lru κ β :=
  { m with entries := ((key, value) :: m.without key).take m.capacity }

end Lru

/-- What the text of a file is kept under. -/
structure ContentKey where
  repo : String
  revision : String
  path : String
  deriving DecidableEq, Repr

/-- The texts of files that were fetched. -/
abbrev ContentCache := Lru ContentKey String

/-- How many texts are kept unless said otherwise. -/
def ContentCache.defaultCapacity : Nat := 20

/-- A cache of the usual size. -/
def ContentCache.new : ContentCache := .empty ContentCache.defaultCapacity

end CodeNav

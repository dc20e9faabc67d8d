import CodeNav.Source.Decode

/-!
# Precise answers from an index

An index lists stretches of files and what stands there: definitions, references and a
hover. The **first entry** for a position answers.

The references with the declaration and those without it describe the same set: the
definitions are put in front of the references where they are missing, or taken out.
-/

namespace CodeNav

/-- What an index knows about a stretch of a file. -/
structure PreciseEntry where
  /-- the repository of the entry; an entry without one is for all -/
  repo : Option String := none
  path : String
  range : Range
  definitions : List Location := []
  references : List Location := []
  hover : Option String := none
  deriving DecidableEq, Repr

/-- An index of precise answers. -/
structure PreciseIndex where
  entries : List PreciseEntry := []
  deriving DecidableEq, Repr

namespace PreciseEntry

/-- Whether an entry is about a position of a document. -/
def covers (e : PreciseEntry) (document : Document) (position : Position) : Bool :=
  e.path = document.path && e.repo.all (· = document.repo) && e.range.contains position

/-- The references with the definitions in front, as far as they are not among them. -/
def withDeclaration (e : PreciseEntry) : List Location :=
  e.definitions.foldl (fun found d => if found.contains d then found else d :: found) e.references

/-- The references that are no definitions. -/
def withoutDeclaration (e : PreciseEntry) : List Location :=
  e.references.filter fun l => !e.definitions.contains l

end PreciseEntry

namespace PreciseIndex

/-- The entry for a position. -/
def find? (index : PreciseIndex) (document : Document) (position : Position) :
    Option PreciseEntry :=
  index.entries.find? (·.covers document position)

/-- The definitions at a position. -/
def definition (index : PreciseIndex) (document : Document) (position : Position) :
    List Location :=
  ((index.find? document position).map (·.definitions)).getD []

/-- The references at a position. -/
def references (index : PreciseIndex) (document : Document) (position : Position)
    (declaration : Bool) : List Location :=
  match index.find? document position with
  | none => []
  | some e => if declaration then e.withDeclaration else e.withoutDeclaration

/-- The hover at a position. -/
def hover (index : PreciseIndex) (document : Document) (position : Position) :
    Option HoverPayload := do
  let e ← index.find? document position
  return ⟨← e.hover, some e.range⟩

end PreciseIndex

/-- Precise locations, followed by the searched ones of files without a precise one. -/
def mergeFileDisjoint (precise searched : List Location) : List (Annotated Location) :=
  precise.map .precise ++
    (searched.filter fun l => !(precise.map (·.fileKey)).contains l.fileKey).map .searched

/-! ## Reading an index -/

open Json

/-- An entry while it is being read. -/
structure PreciseEntry.Draft where
  repo : Option (Option String) := none
  path : Option String := none
  range : Option Range := none
  definitions : Option (List Location) := none
  references : Option (List Location) := none
  hover : Option (Option String) := none

/-- Read an entry; only the path and the range have to be there. -/
def PreciseEntry.decoder : Decoder PreciseEntry :=
  record (σ := PreciseEntry.Draft)
    [⟨"repo", (·.repo.isSome), readInto (nullable string) fun d v => { d with repo := some v }⟩,
     ⟨"path", (·.path.isSome), readInto string fun d v => { d with path := some v }⟩,
     ⟨"range", (·.range.isSome), readInto Range.decoder fun d v => { d with range := some v }⟩,
     ⟨"definitions", (·.definitions.isSome),
        readInto (array Location.decoder) fun d v => { d with definitions := some v }⟩,
     ⟨"references", (·.references.isSome),
        readInto (array Location.decoder) fun d v => { d with references := some v }⟩,
     ⟨"hover", (·.hover.isSome), readInto (nullable string) fun d v => { d with hover := some v }⟩]
    {} fun d => do
      return {
        repo := d.repo.getD none
        path := ← d.path
        range := ← d.range
        definitions := d.definitions.getD []
        references := d.references.getD []
        hover := d.hover.getD none }

/-- An index while it is being read. -/
structure PreciseIndex.Draft where
  entries : Option (List PreciseEntry) := none

/-- Read an index. -/
def PreciseIndex.decoder : Decoder PreciseIndex :=
  record (σ := PreciseIndex.Draft)
    [⟨"entries", (·.entries.isSome),
        readInto (array PreciseEntry.decoder) fun d v => { d with entries := some v }⟩]
    {} fun d => some ⟨d.entries.getD []⟩

end CodeNav

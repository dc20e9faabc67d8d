import CodeNav.Json.Decoder
import CodeNav.Source.Basic

/-!
# Positions, documents and hits in JSON

How the nouns of `CodeNav.Source.Basic` are read. Each record is first read into a
draft whose fields are all optional; `finish` then asks for the required ones.
-/

namespace CodeNav

open Json

/-- Read a field into a draft. -/
def readInto {σ α : Type} (d : Decoder α) (put : σ → α → σ) : σ → Decoder σ :=
  fun draft s => (d s).map fun (a, s) => (put draft a, s)

/-- A position while it is being read. -/
structure Position.Draft where
  line : Option Nat := none
  character : Option Nat := none

/-- Read a position. -/
def Position.decoder : Decoder Position :=
  record (σ := Position.Draft)
    [⟨"line", (·.line.isSome), readInto nat fun d v => { d with line := some v }⟩,
     ⟨"character", (·.character.isSome), readInto nat fun d v => { d with character := some v }⟩]
    {} fun d => do return ⟨← d.line, ← d.character⟩

/-- A range while it is being read. -/
structure Range.Draft where
  start : Option Position := none
  stop : Option Position := none

/-- Read a range. -/
def Range.decoder : Decoder Range :=
  record (σ := Range.Draft)
    [⟨"start", (·.start.isSome), readInto Position.decoder fun d v => { d with start := some v }⟩,
     ⟨"end", (·.stop.isSome), readInto Position.decoder fun d v => { d with stop := some v }⟩]
    {} fun d => do return ⟨← d.start, ← d.stop⟩

/-- A location while it is being read. -/
structure Location.Draft where
  uri : Option String := none
  range : Option Range := none

/-- Read a location. -/
def Location.decoder : Decoder Location :=
  record (σ := Location.Draft)
    [⟨"uri", (·.uri.isSome), readInto string fun d v => { d with uri := some v }⟩,
     ⟨"range", (·.range.isSome), readInto Range.decoder fun d v => { d with range := some v }⟩]
    {} fun d => do return ⟨← d.uri, ← d.range⟩

/-- A hit while it is being read. -/
structure Hit.Draft where
  repository : Option String := none
  revision : Option String := none
  file : Option String := none
  range : Option Range := none
  preview : Option (Option String) := none
  symbolName : Option (Option String) := none
  symbolKind : Option (Option String) := none
  containerName : Option (Option String) := none
  fileLocal : Option Bool := none

/-- Read a hit. The texts about the symbol may be left out or `null`, and the mark of
a file-local symbol may be left out. -/
def Hit.decoder : Decoder Hit :=
  record (σ := Hit.Draft)
    [⟨"repository", (·.repository.isSome),
        readInto string fun d v => { d with repository := some v }⟩,
     ⟨"revision", (·.revision.isSome), readInto string fun d v => { d with revision := some v }⟩,
     ⟨"file", (·.file.isSome), readInto string fun d v => { d with file := some v }⟩,
     ⟨"range", (·.range.isSome), readInto Range.decoder fun d v => { d with range := some v }⟩,
     ⟨"preview", (·.preview.isSome),
        readInto (nullable string) fun d v => { d with preview := some v }⟩,
     ⟨"symbol_name", (·.symbolName.isSome),
        readInto (nullable string) fun d v => { d with symbolName := some v }⟩,
     ⟨"symbol_kind", (·.symbolKind.isSome),
        readInto (nullable string) fun d v => { d with symbolKind := some v }⟩,
     ⟨"container_name", (·.containerName.isSome),
        readInto (nullable string) fun d v => { d with containerName := some v }⟩,
     ⟨"file_local", (·.fileLocal.isSome), readInto bool fun d v => { d with fileLocal := some v }⟩]
    {} fun d => do
      return {
        repository := ← d.repository
        revision := ← d.revision
        file := ← d.file
        range := ← d.range
        preview := d.preview.getD none
        symbolName := d.symbolName.getD none
        symbolKind := d.symbolKind.getD none
        containerName := d.containerName.getD none
        fileLocal := d.fileLocal.getD false }

/-- A document while it is being read. -/
structure Document.Draft where
  uri : Option String := none
  repo : Option String := none
  revision : Option String := none
  path : Option String := none
  languageId : Option String := none
  text : Option String := none

/-- Read a document, all of whose fields have to be there. -/
def Document.decoder : Decoder Document :=
  record (σ := Document.Draft)
    [⟨"uri", (·.uri.isSome), readInto string fun d v => { d with uri := some v }⟩,
     ⟨"repo", (·.repo.isSome), readInto string fun d v => { d with repo := some v }⟩,
     ⟨"revision", (·.revision.isSome), readInto string fun d v => { d with revision := some v }⟩,
     ⟨"path", (·.path.isSome), readInto string fun d v => { d with path := some v }⟩,
     ⟨"language_id", (·.languageId.isSome),
        readInto string fun d v => { d with languageId := some v }⟩,
     ⟨"text", (·.text.isSome), readInto string fun d v => { d with text := some v }⟩]
    {} fun d => do
      return ⟨← d.uri, ← d.repo, ← d.revision, ← d.path, ← d.languageId, ← d.text⟩

/-- A hover while it is being read. -/
structure HoverPayload.Draft where
  contents : Option String := none
  range : Option (Option Range) := none

/-- Read a hover; its range may be left out or `null`. -/
def HoverPayload.decoder : Decoder HoverPayload :=
  record (σ := HoverPayload.Draft)
    [⟨"contents", (·.contents.isSome), readInto string fun d v => { d with contents := some v }⟩,
     ⟨"range", (·.range.isSome),
        readInto (nullable Range.decoder) fun d v => { d with range := some v }⟩]
    {} fun d => do return ⟨← d.contents, d.range.getD none⟩

end CodeNav

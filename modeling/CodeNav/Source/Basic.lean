import CodeNav.Text.Lines

/-!
# Positions, documents and hits

The nouns of code navigation: a place in a text, a stretch of it, an open document, a
hit that a search returns, and what is handed back to the editor. Lines and characters
count from zero, and characters are code points.

Positions are ordered line first; a range is closed, so **a range contains both its
ends**.
-/

namespace CodeNav

/-- A place in a text. -/
structure Position where
  line : Nat
  character : Nat
  deriving DecidableEq, Repr, Inhabited

namespace Position

/-- Line first, then character. -/
def compare (a b : Position) : Ordering :=
  (Ord.compare a.line b.line).then (Ord.compare a.character b.character)

/-- Not after. -/
def le (a b : Position) : Bool := a.compare b ≠ .gt

end Position

/-- A stretch of a text, both ends included. -/
structure Range where
  start : Position
  stop : Position
  deriving DecidableEq, Repr, Inhabited

/-- Whether a position lies in a range. -/
def Range.contains (r : Range) (p : Position) : Bool := r.start.le p && p.le r.stop

/-- A stretch of a named file. -/
structure Location where
  uri : String
  range : Range
  deriving DecidableEq, Repr

/-- Locations in one file share its name as their key. -/
def Location.fileKey (l : Location) : String := l.uri

/-- The name of a file in a repository at a revision. -/
def gitUri (repo revision file : String) : String :=
  "git://" ++ repo ++ "?" ++ revision ++ "#" ++ file

/-- A raw hit of a search. -/
structure Hit where
  repository : String
  revision : String
  file : String
  range : Range
  /-- the line of the hit, trimmed -/
  preview : Option String := none
  symbolName : Option String := none
  symbolKind : Option String := none
  containerName : Option String := none
  /-- the symbol is visible in its own file only -/
  fileLocal : Bool := false
  deriving DecidableEq, Repr

/-- Where a hit is. -/
def Hit.location (h : Hit) : Location := ⟨gitUri h.repository h.revision h.file, h.range⟩

/-- A document that is open in an editor. -/
structure Document where
  uri : String
  repo : String
  revision : String
  path : String
  languageId : String
  text : String
  deriving DecidableEq, Repr

/-- A document under its usual name. -/
def Document.new (repo revision path languageId text : String) : Document :=
  { uri := gitUri repo revision path, repo, revision, path, languageId, text }

/-- Whether a hit lies in a document. -/
def Hit.isIn (h : Hit) (d : Document) : Bool := h.repository = d.repo && h.file = d.path

/-- A result, marked when it comes from searching rather than from an index. -/
structure Annotated (α : Type) where
  value : α
  imprecise : Bool
  deriving DecidableEq, Repr

namespace Annotated

/-- A result of an index. -/
def precise {α : Type} (value : α) : Annotated α := ⟨value, false⟩

/-- A result of a search. -/
def searched {α : Type} (value : α) : Annotated α := ⟨value, true⟩

end Annotated

/-- What an editor shows over a symbol. -/
structure HoverPayload where
  contents : String
  range : Option Range := none
  deriving DecidableEq, Repr

end CodeNav

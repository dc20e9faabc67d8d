import CodeNav.Json.Printer
import CodeNav.Workspace.Basic

/-!
# Answers in JSON

How summaries and language profiles are written.
-/

namespace CodeNav

open Json

/-- An unsigned integer. -/
def Json.Value.ofNat (n : Nat) : Value := .num (some n)

/-- A position as JSON. -/
def Position.toValue (p : Position) : Value :=
  .obj [("line", .ofNat p.line), ("character", .ofNat p.character)]

/-- A range as JSON. -/
def Range.toValue (r : Range) : Value :=
  .obj [("start", r.start.toValue), ("end", r.stop.toValue)]

/-- A location as JSON. -/
def Location.toValue (l : Location) : Value :=
  .obj [("uri", .str l.uri), ("range", l.range.toValue)]

/-- A hover as JSON; a range that is not there is left out. -/
def HoverPayload.toValue (h : HoverPayload) : Value :=
  .obj (("contents", .str h.contents) :: (h.range.map fun r => ("range", r.toValue)).toList)

/-- A marked result as JSON. -/
def Annotated.toValue {α : Type} (f : α → Value) (a : Annotated α) : Value :=
  .obj [("value", f a.value), ("imprecise", .bool a.imprecise)]

/-- A summary as JSON; a hover that is not there is left out. -/
def Summary.toValue (s : Summary) : Value :=
  .obj ([("operation", .str s.operation.label), ("repo", .str s.repo),
    ("revision", .str s.revision), ("path", .str s.path), ("language", .str s.language),
    ("position", s.position.toValue),
    ("locations", .arr (s.locations.map (·.toValue Location.toValue)))] ++
    (s.hover.map fun h => ("hover", h.toValue HoverPayload.toValue)).toList ++
    [("elapsed_ms", .ofNat s.elapsedMs)])

/-- A profile as it is listed. -/
def Profile.toValue (p : Profile) : Value :=
  .obj [("id", .str p.id), ("name", .str p.name),
    ("extensions", .arr (p.extensions.map Value.str))]

/-- The list of built-in profiles. -/
def Builtin.toValue : Value := .arr (Builtin.profiles.map (·.toValue))

end CodeNav

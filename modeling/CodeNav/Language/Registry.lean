import Std.Data.HashMap
import CodeNav.Language.Profile
import CodeNav.Path

/-!
# The registry of languages

A list of profiles with two indexes, by id and by file extension. Extensions are
compared without regard to ASCII case. **The first profile that claims an id or an
extension keeps it**, so the order of the list decides who answers for a shared
extension.
-/

namespace CodeNav

/-- Profiles, and where to find them. -/
structure Registry where
  profiles : List Profile
  /-- place of the first profile with an id -/
  byId : Std.HashMap String Nat
  /-- place of the first profile with a lower-case extension -/
  byExtension : Std.HashMap String Nat

/-- A text with its ASCII letters in lower case. -/
def lowerAscii (s : List Char) : List Char := s.map Char.toLower

namespace Registry

/-- Let a key point to a place unless it points somewhere already. -/
def claim (index : Std.HashMap String Nat) (key : String) (place : Nat) :
    Std.HashMap String Nat :=
  index.insertIfNew key place

/-- Let every extension of a profile point to its place. -/
def claimExtensions (index : Std.HashMap String Nat) (p : Profile) (place : Nat) :
    Std.HashMap String Nat :=
  p.extensions.foldl
    (fun index ext => claim index (String.ofList (lowerAscii ext.toList)) place) index

/-- A registry of the given profiles, the first ones first. -/
def ofProfiles (profiles : List Profile) : Registry where
  profiles
  byId := profiles.zipIdx.foldl (fun index (p, i) => claim index p.id i) ∅
  byExtension := profiles.zipIdx.foldl (fun index (p, i) => claimExtensions index p i) ∅

/-- The profile with an id. -/
def get? (r : Registry) (id : String) : Option Profile := do
  r.profiles[← r.byId[id]?]?

/-- The profile that answers for a path's extension. -/
def forPath? (r : Registry) (path : String) : Option Profile := do
  let ext ← Path.extension? path.toList
  r.profiles[← r.byExtension[String.ofList (lowerAscii ext)]?]?

/-- The profile with the given id, or else the one for the path. -/
def resolve? (r : Registry) (id : Option String) (path : String) : Option Profile :=
  (id.bind r.get?).or (r.forPath? path)

/-- How many profiles there are. -/
def size (r : Registry) : Nat := r.profiles.length

end Registry

end CodeNav

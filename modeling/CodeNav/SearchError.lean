/-!
# Failures of a search

Why a search could not be answered. An empty result is never a failure. The wording
is given once, by `SearchError.message`.
-/

namespace CodeNav

/-- A search that could not be answered. -/
inductive SearchError where
  /-- the search tool failed -/
  | backend (detail : String)
  /-- no answer within so many milliseconds -/
  | timeout (ms : Nat)
  /-- an error that the search reported itself -/
  | application (text : String)
  /-- several errors that the search reported together -/
  | aggregate (texts : List String)
  /-- a file could not be read -/
  | io (text : String)
  /-- the query or the answer could not be understood -/
  | parse (detail : String)
  deriving DecidableEq, Repr

namespace SearchError

/-- The wording of a failure. -/
def message : SearchError → String
  | backend detail => s!"search backend failed: {detail}"
  | timeout ms => s!"search timed out after {ms} ms"
  | application text => text
  | aggregate texts => "\n".intercalate texts
  | io text => text
  | parse detail => s!"failed to parse search output: {detail}"

/-- Whether the search itself reported the error. -/
def isApplication : SearchError → Bool
  | application _ | aggregate _ => true
  | _ => false

/-- The failure that a list of reported messages stands for; none for no message. -/
def ofMessages : List String → Option SearchError
  | [] => none
  | [text] => some (application text)
  | texts => some (aggregate texts)

end SearchError

end CodeNav

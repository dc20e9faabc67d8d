import CodeNav.Service.Http

/-!
# Requests on lines

The service as it is used without a network: a request is a line with a method, a
target and a body, an answer is its status and its body. A body that is there counts as
JSON.
-/

namespace CodeNav.Http

/-- Cut a word from the front of a line. -/
def cutWord (line : List Char) : List Char × List Char :=
  let line := line.dropWhile (· = ' ')
  (line.takeWhile (· ≠ ' '), (line.dropWhile (· ≠ ' ')).drop 1)

/-- The request on a line. -/
def Request.ofLine (line : String) : Request :=
  let (method, rest) := cutWord (Text.trim line.toList)
  let (target, body) := cutWord rest
  { method := String.ofList method, target := String.ofList target
    contentType := some jsonType, body := String.ofList body }

variable {τ : Type}

/-- The counters that grew, one a line. -/
def countersText (m : Machine τ) : String :=
  "\n".intercalate ((Counter.all.filter fun c => m.total c ≠ 0).map fun c =>
    c.label ++ " " ++ toString (m.total c))

/-- An answer as text. -/
def Response.toText (r : Response) (m : Machine τ) : String :=
  let body := match r.body with
    | .none => []
    | .json v => [v.toText]
    | .counters => [countersText m]
  "\n".intercalate (toString r.status :: body)

/-- Answer the request on a line. -/
def handleLine (w : Workspace) (tree : FileTree) (tool : SearchTool τ) (s : ServiceState τ)
    (line : String) : String × ServiceState τ :=
  let (answer, s) := handle w tree tool s (Request.ofLine line)
  (answer.toText s.machine, s)

end CodeNav.Http

import CodeNav.Service.Lookup
import CodeNav.Service.MediaType

/-!
# The service over HTTP

Three routes answer lookups that are posted as JSON, one says that the service is up,
one gives the counters. A request is checked in a fixed order: the route, the method, the
type of the body, its size, its text; only then is it looked at.

The status of a failed lookup is read off the wording of the failure: what the request
could have avoided is its own fault.
-/

namespace CodeNav.Http

/-- A request. -/
structure Request where
  method : String
  target : String
  contentType : Option String
  body : String
  deriving DecidableEq, Repr

/-- What an answer holds. -/
inductive Body where
  | none
  | json (v : Json.Value)
  /-- the counters, as text -/
  | counters

/-- An answer. -/
structure Response where
  status : Nat
  contentType : Option String := Option.none
  body : Body := .none

/-- The routes. -/
inductive Route where
  | health
  | counters
  | lookup (operation : Operation)
  deriving DecidableEq, Repr

/-- The path of a target: what follows the host, up to a query or a fragment. -/
def pathOf (target : List Char) : List Char :=
  let rest := match Text.cutAt? "://".toList target with
    | some (scheme, rest) =>
      if scheme.all Char.isAlpha && !scheme.isEmpty then rest.dropWhile (· ≠ '/') else target
    | none => target
  rest.takeWhile fun c => c ≠ '?' && c ≠ '#'

/-- The route of a path. -/
def route? (path : String) : Option Route :=
  match path with
  | "/healthz" => some .health
  | "/metrics" => some .counters
  | "/definition" => some (.lookup .definition)
  | "/references" => some (.lookup .references)
  | "/hover" => some (.lookup .hover)
  | _ => none

/-- Whether a route takes a method. What can be got can also be asked for its head. -/
def Route.takes : Route → String → Bool
  | .lookup _, method => method = "POST"
  | _, method => method = "GET" || method = "HEAD"

/-- The type of JSON bodies. -/
def jsonType : String := "application/json"

/-- The type of the counters. -/
def countersType : String := "text/plain; version=0.0.4; charset=utf-8"

/-- An answer in JSON. -/
def ofJson (status : Nat) (v : Json.Value) : Response := ⟨status, some jsonType, .json v⟩

/-- An answer without its body. -/
def Response.head (r : Response) : Response := { r with body := .none }

/-- The largest body, in bytes. -/
def maxBody : Nat := 2097152

/-- Read the body of a lookup. The status tells what is wrong with it: its type, its
size, its text, or its shape. -/
def readBody (r : Request) : Except Nat ServiceRequest :=
  let isJson := (r.contentType.bind fun t => MediaType.parse? t.toList).any (·.isJson)
  if !isJson then .error 415
  else if maxBody < Utf8.size r.body.toList then .error 413
  else
    match Json.decodeFront ServiceRequest.decoder r.body with
    | .error .malformed => .error 400
    | .error .mismatch => .error 422
    | .ok request => .ok request

/-- Wordings of failures that a request could have avoided. -/
def avoidable : List String :=
  ["is required", "invalid file path", "no language profile", "failed to read"]

/-- The status of a failed lookup. -/
def failureStatus (message : String) : Nat :=
  if avoidable.any fun mark => Text.occurs mark.toList message.toList then 400 else 500

/-- What the service says about itself. -/
def health (w : Workspace) : Json.Value :=
  .obj [("status", .str "ok"), ("repo", .str w.config.repo),
    ("languages", .ofNat w.registry.size)]

/-- The answer for the outcome of a lookup. -/
def ofOutcome : Except WorkspaceFault Summary → Response
  | .ok summary => ofJson 200 summary.toValue
  | .error fault =>
    ofJson (failureStatus fault.message) (.obj [("message", .str fault.message)])

variable {τ : Type}

/-- Answer a request. -/
def handle (w : Workspace) (tree : FileTree) (tool : SearchTool τ) (s : ServiceState τ)
    (r : Request) : Response × ServiceState τ :=
  match route? (String.ofList (pathOf r.target.toList)) with
  | none => ({ status := 404 }, s)
  | some route =>
    if !route.takes r.method then ({ status := 405 }, s)
    else
      let cut (answer : Response) : Response := if r.method = "HEAD" then answer.head else answer
      match route with
      | .health => (cut (ofJson 200 (health w)), s)
      | .counters => (cut ⟨200, some countersType, .counters⟩, s)
      | .lookup operation =>
        match readBody r with
        | .error status => ({ status }, s)
        | .ok request =>
          let (outcome, s) := s.lookup w tree tool operation request
          (ofOutcome outcome, s)

end CodeNav.Http

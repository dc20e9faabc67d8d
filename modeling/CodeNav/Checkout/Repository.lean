import CodeNav.Checkout.Declaration
import CodeNav.Checkout.Tool
import CodeNav.Lookup.Precise
import CodeNav.Lookup.Run
import CodeNav.Query.Local

/-!
# A checkout as a world

A repository that is checked out in a directory answers searches with the search tool,
contents from its files, and knows only itself. Paths that could lead out of it are not
followed.

A run of the tool takes a moment, one millisecond on the clock; one that hangs takes as
long as it is waited for.
-/

namespace CodeNav

/-- A repository that is checked out. -/
structure Checkout where
  name : String
  revision : String
  /-- the directory it is in -/
  root : List Char
  /-- how long a run of the tool may take, in milliseconds -/
  timeoutMs : Nat := 10000
  /-- how many matches are read -/
  maxMatches : Nat := 2000
  deriving DecidableEq, Repr

namespace Checkout

variable {τ : Type}

/-- The hit of a symbol query on a line that declares the symbol. -/
def symbolHit? (c : Checkout) (patterns : List Pattern) (fileLocal : Bool) (m : LineMatch) :
    Option Hit := do
  let (start, stop) ← Declaration.name? patterns m.line
  let isLocal := Declaration.isFileLocal m.file m.line
  if isLocal && !fileLocal then none
  else return {
    repository := c.name, revision := c.revision, file := m.file, range := m.range start stop
    preview := some m.preview, symbolName := some (String.ofList (slice m.line start stop))
    fileLocal := isLocal }

/-- The hits of a text query: every stretch that matched. -/
def textHits (c : Checkout) (m : LineMatch) : List Hit :=
  m.spans.map fun (start, stop) =>
    { repository := c.name, revision := c.revision, file := m.file
      range := m.range (m.charsTo start) (m.charsTo stop), preview := some m.preview }

/-- The hits among matching lines. -/
def hits (c : Checkout) (q : LocalQuery) (found : List LineMatch) (fileLocal : Bool) :
    Except SearchError (List Hit) :=
  let found := found.filter fun m => q.includesPath m.file
  match q.kind with
  | .file => .ok (found.flatMap c.textHits)
  | .symbol =>
    match Declaration.patterns? q.symbolBody q.caseSensitive with
    | none => .error (.parse ("invalid symbol pattern " ++ Text.quote q.symbolBody))
    | some patterns => .ok (found.filterMap (c.symbolHit? patterns fileLocal))

/-- What the tool is asked for a query. -/
def request (q : LocalQuery) : ToolRequest where
  pattern := match q.kind with
    | .symbol => q.symbolBody
    | .file => q.pattern
  caseSensitive := q.caseSensitive

/-- Run the tool in the checkout. -/
def runTool (c : Checkout) (tree : FileTree) (tool : SearchTool τ) (r : ToolRequest) (s : τ) :
    Except ToolFault (List LineMatch) × τ :=
  match tree.enter c.root with
  | .error fault => (.error (.cannotStart fault), s)
  | .ok () =>
    match tool.run r.arguments s with
    | (none, s) => (.error (.cannotStart .notFound), s)
    | (some reply, s) => (reply.result c.maxMatches, s)

/-- When the outcome of a run is there that starts at `t`. -/
def arrival (c : Checkout) (t : Nat) (outcome : Except ToolFault (List LineMatch)) :
    Promise (Except ToolFault (List LineMatch)) :=
  match outcome with
  | .error (.cannotStart _) => .due t outcome
  | .error .timedOut => .due (t + c.timeoutMs) outcome
  | _ => if c.timeoutMs = 0 then .due t (.error .timedOut) else .due (t + 1) outcome

/-- Answer a search that is asked at `t`. -/
def search (c : Checkout) (tree : FileTree) (tool : SearchTool τ) (query : String)
    (fileLocal : Bool) (t : Nat) (s : τ) : Promise (Except SearchError (List Hit)) × τ :=
  match LocalQuery.parse query with
  | .error fault => (.due t (.error fault.toError), s)
  | .ok q =>
    if !q.includesRepo c.name c.revision then (.due t (.ok []), s)
    else
      let (outcome, s) := c.runTool tree tool (request q) s
      (match c.arrival t outcome with
        | .never => .never
        | .due t (.ok found) => .due t (c.hits q found fileLocal)
        | .due t (.error fault) => .due t (.error (fault.toError c.timeoutMs)), s)

/-- Where a path of the checkout leads; none if it could lead out of the directory. -/
def resolvePath? (c : Checkout) (path : String) : Option (List Char) :=
  if Path.staysBelow path.toList then some (Path.join c.root path.toList) else none

/-- The text of a file of the checkout, bytes that are no text being replaced. -/
def content (c : Checkout) (tree : FileTree) (repo path : String) :
    Except SearchError (Option String) :=
  if repo ≠ c.name then .ok none
  else
    match c.resolvePath? path with
    | none => .ok none
    | some file =>
      match tree.read file with
      | .ok bytes => .ok (some (String.ofList (Utf8.decodeLossy bytes)))
      | .error .notFound => .ok none
      | .error fault => .error (.io fault.message)

/-- What is known about a repository: the checkout knows itself, as a plain one. -/
def resolve (c : Checkout) (name : String) : Option RepoInfo :=
  if name = c.name then some ⟨false, false⟩ else none

/-- Answer calls from a checkout and an index. -/
def world (c : Checkout) (tree : FileTree) (tool : SearchTool τ) (index : PreciseIndex) :
    World τ where
  respond call t s :=
    match call with
    | .search query fileLocal => c.search tree tool query fileLocal t s
    | .content repo _ path => (.due t (c.content tree repo path), s)
    | .repository name => (.due t (.ok (c.resolve name)), s)
    | .indexedDefinition d p => (.due t (.ok (index.definition d p)), s)
    | .indexedReferences d p b => (.due t (.ok (index.references d p b)), s)
    | .indexedHover d p => (.due t (.ok (index.hover d p)), s)

end Checkout

end CodeNav

import CodeNav.Checkout.Repository
import CodeNav.Language.Builtin
import CodeNav.Lookup.Provider
import CodeNav.Workspace.Config

/-!
# Workspaces

A checkout that is ready to answer lookups. A lookup names a file of the checkout, by a
path from the root or an absolute one; **no path leads out of the root**. The document
is the text that comes with the lookup, or else the file.
-/

namespace CodeNav

/-- A checkout that is ready to answer lookups. -/
structure Workspace where
  config : WorkspaceConfig
  registry : Registry
  index : Option PreciseIndex

/-- A lookup in a workspace. -/
structure LookupRequest where
  operation : Operation
  path : String
  /-- the text of the document; the file is read if there is none -/
  text : Option String := none
  language : Option String := none
  position : Position
  /-- whether references include the declaration -/
  declaration : Bool := true
  deriving DecidableEq, Repr

/-- The answer to a lookup. -/
structure Summary where
  operation : Operation
  repo : String
  revision : String
  path : String
  language : String
  position : Position
  locations : List (Annotated Location)
  hover : Option (Annotated HoverPayload)
  elapsedMs : Nat
  deriving DecidableEq, Repr

namespace Workspace

variable {τ : Type}

/-- Read the index of a workspace. -/
def loadIndex (tree : FileTree) (path : String) : Except WorkspaceFault PreciseIndex :=
  match tree.readText path.toList with
  | .error fault => .error (.unreadableIndex path fault)
  | .ok text =>
    match Json.decode PreciseIndex.decoder text with
    | .error _ => .error (.invalidIndex path)
    | .ok index => .ok index

/-- Make a workspace ready. -/
def openWith (config : WorkspaceConfig) (tree : FileTree) : Except WorkspaceFault Workspace := do
  return {
    config
    registry := Builtin.registry
    index := ← config.preciseIndex.mapM (loadIndex tree) }

/-- The checkout of a workspace. -/
def checkout (w : Workspace) : Checkout where
  name := w.config.repo
  revision := w.config.revision
  root := w.config.root.toList
  timeoutMs := 1000 * w.config.searchTimeoutSecs
  maxMatches := w.config.maxMatches

/-- Where answers come from. -/
def sources (w : Workspace) : Sources where
  engine := { registry := w.registry, settings := w.config.settings, hasResolver := true }
  hasIndex := w.index.isSome

/-- How calls are answered. -/
def world (w : Workspace) (tree : FileTree) (tool : SearchTool τ) : World τ :=
  w.checkout.world tree tool (w.index.getD {})

/-- Drop `./` from the front, again and again. -/
def dropDots : List Char → List Char
  | '.' :: '/' :: rest => dropDots rest
  | s => s

/-- A path with slashes only. -/
def slashed (s : List Char) : List Char := s.map fun c => if c = '\\' then '/' else c

/-- The text of a named path from the root on; none if it is absolute and not below the
root. -/
def underRoot? (w : Workspace) (file : String) : Option (List Char) :=
  if Path.isAbsolute file.toList then Path.below? w.config.root.toList file.toList
  else some file.toList

/-- A path from the root, for a path that a lookup names. Backslashes count as slashes. -/
def relativePath (w : Workspace) (file : String) : Except WorkspaceFault String :=
  match w.underRoot? file with
  | none => .error (.outsideRoot file w.config.root)
  | some s =>
    let path := dropDots (slashed s)
    if path.isEmpty || (Text.splitAt '/' path).contains ['.', '.'] then .error (.invalidPath file)
    else .ok (String.ofList path)

/-- The document of a lookup. -/
def document (w : Workspace) (tree : FileTree) (path : String) (text language : Option String) :
    Except WorkspaceFault Document := do
  let file := Path.join w.config.root.toList path.toList
  let text ← match text with
    | some text => pure text
    | none =>
      match tree.readText file with
      | .ok text => pure text
      | .error fault => throw (.unreadableFile (String.ofList file) fault)
  match w.registry.resolve? language path with
  | some profile => return .new w.config.repo w.config.revision path profile.id text
  | none => throw (.noProfile path)

/-- The answer to a lookup of a document, given the last snapshot of its stream. -/
def summarize (document : Document) (request : LookupRequest) (elapsedMs : Nat)
    (last : Reading Snapshot) : Summary :=
  let (locations, hover) := match last with
    | .value (.locations found) => (found, none)
    | .value (.hover payload) => ([], some payload)
    | _ => ([], none)
  { operation := request.operation, repo := document.repo, revision := document.revision
    path := document.path, language := document.languageId, position := request.position
    locations, hover, elapsedMs }

/-- Answer a lookup through a provider. -/
def run (w : Workspace) (tree : FileTree) (tool : SearchTool τ) (request : LookupRequest)
    (p : Provider) (m : Machine τ) : Except WorkspaceFault Summary × Provider × Machine τ :=
  match w.document tree request.path request.text request.language with
  | .error fault => (.error fault, p, m)
  | .ok document =>
    let question : Question := ⟨request.operation, document, request.position, request.declaration⟩
    let (last, p, m') := p.lookup (w.world tree tool) w.sources question m
    (.ok (summarize document request (m'.now - m.now) last), p, m')

end Workspace

end CodeNav

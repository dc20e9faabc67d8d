import CodeNav.Service.Clients
import CodeNav.Workspace.Report

/-!
# Lookups for clients

The service answers one request after the other, each to its end. What outlasts a
request is the clients' providers, with the lookups they remember, and the machine,
with its cache of file texts.
-/

namespace CodeNav

/-- What a request asks for. -/
structure ServiceRequest where
  path : String
  line : Nat
  character : Nat
  text : Option String := none
  language : Option String := none
  includeDeclaration : Option Bool := none
  client : Option String := none
  deriving DecidableEq, Repr

namespace ServiceRequest

open Json

/-- A request while it is being read. -/
structure Draft where
  path : Option String := none
  line : Option Nat := none
  character : Option Nat := none
  text : Option (Option String) := none
  language : Option (Option String) := none
  includeDeclaration : Option (Option Bool) := none
  client : Option (Option String) := none

/-- Read a request; the place has to be there, all else may be left out or `null`. -/
def decoder : Decoder ServiceRequest :=
  record (σ := Draft)
    [⟨"path", (·.path.isSome), readInto string fun d v => { d with path := some v }⟩,
     ⟨"line", (·.line.isSome), readInto nat fun d v => { d with line := some v }⟩,
     ⟨"character", (·.character.isSome), readInto nat fun d v => { d with character := some v }⟩,
     ⟨"text", (·.text.isSome), readInto (nullable string) fun d v => { d with text := some v }⟩,
     ⟨"language", (·.language.isSome),
        readInto (nullable string) fun d v => { d with language := some v }⟩,
     ⟨"include_declaration", (·.includeDeclaration.isSome),
        readInto (nullable bool) fun d v => { d with includeDeclaration := some v }⟩,
     ⟨"client", (·.client.isSome),
        readInto (nullable string) fun d v => { d with client := some v }⟩]
    {} fun d => do
      return {
        path := ← d.path
        line := ← d.line
        character := ← d.character
        text := d.text.getD none
        language := d.language.getD none
        includeDeclaration := d.includeDeclaration.getD none
        client := d.client.getD none }

end ServiceRequest

/-- What the service remembers between requests. -/
structure ServiceState (τ : Type) where
  clients : Clients
  /-- the providers by their numbers -/
  providers : List Provider := []
  machine : Machine τ

namespace ServiceState

variable {τ : Type}

/-- The provider with a number; one that was not used yet knows of no lookups. -/
def provider (s : ServiceState τ) (n : Nat) : Provider := s.providers.getD n {}

/-- Keep a provider under its number. -/
def keep (s : ServiceState τ) (n : Nat) (p : Provider) : ServiceState τ :=
  { s with
    providers :=
      (s.providers ++ List.replicate (n + 1 - s.providers.length) ({} : Provider)).set n p }

/-- Answer a request. -/
def lookup (s : ServiceState τ) (w : Workspace) (tree : FileTree) (tool : SearchTool τ)
    (operation : Operation) (r : ServiceRequest) :
    Except WorkspaceFault Summary × ServiceState τ :=
  if Text.isBlankText r.path then (.error .pathRequired, s)
  else
    match w.relativePath r.path with
    | .error fault => (.error fault, s)
    | .ok path =>
      let (n, clients) := s.clients.providerFor r.client
      let request : LookupRequest :=
        { operation, path, text := r.text, language := r.language
          position := ⟨r.line, r.character⟩, declaration := r.includeDeclaration.getD true }
      let (answer, p, machine) := w.run tree tool request (s.provider n) s.machine
      (answer, { s with clients, machine }.keep n p)

end ServiceState

end CodeNav

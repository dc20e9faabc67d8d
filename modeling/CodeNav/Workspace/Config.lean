import CodeNav.Checkout.FileTree
import CodeNav.Settings
import CodeNav.Text.Blank

/-!
# Configuring a workspace

What a host asks for, and the configuration that follows from it: the root is followed
to its shortest path, the repository takes the name of the root unless it is given one,
limits are at least one, and an index is looked for below the root. Whatever can go
wrong between here and an answer is a `WorkspaceFault`.
-/

namespace CodeNav

/-- What a host asks for. -/
structure WorkspaceOptions where
  /-- the directory of the checkout; the working directory if none is given -/
  root : Option String := none
  /-- the name of the repository; a blank one counts as none -/
  repo : Option String := none
  revision : String := "HEAD"
  /-- how long the plain query runs alone, in milliseconds -/
  timeoutMs : Nat := 5000
  searchTimeoutSecs : Nat := 10
  maxMatches : Nat := 2000
  indexedOnly : Bool := false
  trace : Bool := false
  includeForks : Bool := false
  publicInstance : Bool := false
  preciseIndex : Option String := none
  deriving DecidableEq, Repr

/-- Why there is no workspace, or no answer. -/
inductive WorkspaceFault where
  | badRoot (root : String) (fault : FileFault)
  | noRepositoryName
  | unreadableIndex (path : String) (fault : FileFault)
  | invalidIndex (path : String)
  | pathRequired
  | outsideRoot (file root : String)
  | invalidPath (file : String)
  | unreadableFile (path : String) (fault : FileFault)
  | noProfile (path : String)
  deriving DecidableEq, Repr

/-- The wording of a fault. -/
def WorkspaceFault.message : WorkspaceFault → String
  | .badRoot root fault =>
    "failed to canonicalize repository root path: " ++ root ++ ": " ++ fault.message
  | .noRepositoryName => "cannot derive a repository name from the root; pass --repo"
  | .unreadableIndex path fault =>
    "failed to read precise index " ++ path ++ ": " ++ fault.message
  | .invalidIndex path => "invalid precise index " ++ path
  | .pathRequired => "path is required"
  | .outsideRoot file root => file ++ " is outside " ++ root ++ ": prefix not found"
  | .invalidPath file => "invalid file path " ++ file
  | .unreadableFile path fault => "failed to read " ++ path ++ ": " ++ fault.message
  | .noProfile path => "no language profile for " ++ path

/-- A checkout and how to navigate it. -/
structure WorkspaceConfig where
  /-- the shortest path of the root -/
  root : String
  repo : String
  revision : String
  searchTimeoutSecs : Nat
  maxMatches : Nat
  preciseIndex : Option String
  settings : Settings
  deriving DecidableEq, Repr

namespace WorkspaceOptions

/-- The settings of searches. -/
def settings (o : WorkspaceOptions) : Settings where
  indexedOnly := o.indexedOnly
  unindexedTimeoutMs := o.timeoutMs
  traceSearch := o.trace
  includeForks := o.includeForks
  publicInstance := o.publicInstance

/-- The name of the repository: the given one, or that of the root. -/
def repoName (o : WorkspaceOptions) (root : List Char) : Except WorkspaceFault String :=
  match o.repo.filter (!Text.isBlankText ·) with
  | some name => .ok name
  | none =>
    match Path.fileName? root with
    | some name => .ok (String.ofList name)
    | none => .error .noRepositoryName

/-- The configuration that the options ask for, seen from a working directory. -/
def configure (o : WorkspaceOptions) (tree : FileTree) (here : String) :
    Except WorkspaceFault WorkspaceConfig :=
  let asked := o.root.getD here
  match tree.canonical (Path.join here.toList asked.toList) with
  | .error fault => .error (.badRoot asked fault)
  | .ok root => do
    return {
      root := String.ofList root
      repo := ← o.repoName root
      revision := o.revision
      searchTimeoutSecs := max 1 o.searchTimeoutSecs
      maxMatches := max 1 o.maxMatches
      preciseIndex := o.preciseIndex.map fun p => String.ofList (Path.join root p.toList)
      settings := o.settings }

end WorkspaceOptions

end CodeNav

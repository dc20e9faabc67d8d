import CodeNav.CommandLine.Basic
import CodeNav.Workspace.Report

/-!
# Carrying out lookups

A lookup on the command line opens a workspace, finds the file in it, and asks once.
The first thing that goes wrong is reported: the root, the index, the path, the file.
-/

namespace CodeNav

variable {τ : Type}

/-- Open the workspace that options ask for. -/
def WorkspaceOptions.openIn (o : WorkspaceOptions) (tree : FileTree) (here : String) :
    Except WorkspaceFault Workspace := do
  Workspace.openWith (← o.configure tree here) tree

/-- The lookup that is asked for. -/
def LookupArgs.request (a : LookupArgs) (operation : Operation) (path : String) :
    LookupRequest :=
  { operation, path, language := a.language, position := a.position
    declaration := !a.excludeDeclaration }

/-- Carry out a lookup, seen from the working directory `here`. -/
def LookupArgs.execute (a : LookupArgs) (operation : Operation) (tree : FileTree) (here : String)
    (tool : SearchTool τ) (m : Machine τ) : Except WorkspaceFault Summary × Machine τ :=
  let ready := do
    let w ← a.options.openIn tree here
    return (w, ← w.relativePath a.file)
  match ready with
  | .error fault => (.error fault, m)
  | .ok (w, path) =>
    let (answer, _, m) := w.run tree tool (a.request operation path) {} m
    (answer, m)

end CodeNav

import CodeNav.Checkout.Scan
import CodeNav.CommandLine.Execute
import CodeNav.CommandLine.Parser
import CodeNav.Service.Line

/-!
# The program

Reads the command line, loads the files that a command can look at, and prints what the
library answers. Searches look through the loaded files; the service reads its requests
from the standard input, one a line.
-/

namespace CodeNav

/-- Where a command looks, and the files there. -/
structure Loaded where
  here : String
  options : WorkspaceOptions
  tree : FileTree

/-- The files of a directory and of the directories in it. Links are not followed. -/
partial def loadBelow (path : String) : IO (List (List (List Char) × List UInt8)) := do
  let entries ← (← IO.FS.realPath path).readDir
  let entries := entries.toList.mergeSort fun a b => a.fileName ≤ b.fileName
  let found ← entries.mapM fun entry => do
    let name := entry.fileName.toList
    match (← entry.path.symlinkMetadata).type with
    | .dir => return (← loadBelow entry.path.toString).map fun (names, b) => (name :: names, b)
    | .file => return [([name], (← IO.FS.readBinFile entry.path).toList)]
    | _ => return []
  return found.flatten

/-- Load the files that a command can look at: those of the checkout, and the index. -/
def load (options : WorkspaceOptions) : IO Loaded := do
  let here := (← IO.currentDir).toString
  let asked := options.root.getD here
  let root ← try pure (← IO.FS.realPath asked).toString catch _ => pure asked
  let names := Path.resolve (Path.join here.toList root.toList)
  let files ← try loadBelow root catch _ => pure []
  let indexPath := options.preciseIndex.map fun p => Path.join root.toList p.toList
  let index ← indexPath.toList.mapM fun p => do
    try
      return [(Path.resolve p, (← IO.FS.readBinFile (String.ofList p)).toList)]
    catch _ => return []
  let isThere ← try pure (← (← IO.FS.realPath root).isDir) catch _ => pure false
  let files := files.map fun (rest, bytes) => (names ++ rest, bytes)
  return {
    here
    options := { options with root := some root }
    tree := { files := files ++ index.flatten, directories := if isThere then [names] else [] } }

/-- The tool that searches the loaded files. -/
def Loaded.tool (l : Loaded) : SearchTool Unit :=
  Scan.tool l.tree (Path.resolve (Path.join l.here.toList (l.options.root.getD l.here).toList))

/-- Say what went wrong. -/
def complain (message : String) (code : UInt32) : IO UInt32 := do
  (← IO.getStderr).putStrLn ("error: " ++ message)
  return code

/-- Answer requests until there are no more. -/
partial def serveLines (w : Workspace) (l : Loaded) (s : ServiceState Unit) : IO Unit := do
  let line ← (← IO.getStdin).getLine
  if line.isEmpty then return
  let (answer, s) := Http.handleLine w l.tree l.tool s line
  let out ← IO.getStdout
  out.putStrLn answer
  out.flush
  serveLines w l s

/-- Carry out a command. -/
def carryOut : Command → IO UInt32
  | .languages => do
    (← IO.getStdout).putStrLn Builtin.toValue.toPrettyText
    return 0
  | .lookup operation args => do
    let l ← load args.options
    let args := { args with options := l.options }
    match (args.execute operation l.tree l.here l.tool { world := () }).1 with
    | .error fault => complain fault.message 1
    | .ok summary =>
      (← IO.getStdout).putStrLn summary.toValue.toPrettyText
      return 0
  | .serve options address => do
    let l ← load options
    match l.options.openIn l.tree l.here with
    | .error fault => complain fault.message 1
    | .ok w =>
      (← IO.getStderr).putStrLn ("requests for " ++ address.toText ++ " are read from the input")
      serveLines w l { clients := .empty Clients.defaultCapacity, machine := { world := () } }
      return 0

end CodeNav

/-- Read the command line and carry it out. -/
def main (args : List String) : IO UInt32 :=
  match CodeNav.CommandLine.parse args with
  | .ok command => CodeNav.carryOut command
  | .error fault => do
    if fault.isHelp then
      (← IO.getStdout).putStrLn fault.message
      return (if fault = .helpAsked then 0 else 2)
    else CodeNav.complain fault.message 2

import CodeNav.Checkout.FileTree
import CodeNav.Checkout.LineMatch
import CodeNav.SearchError

/-!
# The search tool

A search of a checkout runs an external program in the root of the checkout and reads
the lines it prints. `gather` reads them up to a limit: when the limit is reached and
**another line comes**, the rest no longer matters, nor does how the program ends. Else
the program has to end with code 0, or with 1 for no match; a signal that ends it leaves no
code.
-/

namespace CodeNav

/-- What the search tool is asked for. -/
structure ToolRequest where
  pattern : String
  caseSensitive : Bool
  deriving DecidableEq, Repr

/-- The arguments that the tool is run with. -/
def ToolRequest.arguments (r : ToolRequest) : List String :=
  ["--json", "--line-number", "--max-columns", "400",
    if r.caseSensitive then "--case-sensitive" else "--ignore-case", "-e", r.pattern, "."]

/-- A signal that ends a program. -/
structure Signal where
  number : Nat
  /-- the memory of the program was written to a file -/
  dumped : Bool := false
  deriving DecidableEq, Repr

/-- The names of signals, the first one first. -/
def Signal.names : List String :=
  ["SIGHUP", "SIGINT", "SIGQUIT", "SIGILL", "SIGTRAP", "SIGABRT", "SIGBUS", "SIGFPE", "SIGKILL",
    "SIGUSR1", "SIGSEGV", "SIGUSR2", "SIGPIPE", "SIGALRM", "SIGTERM", "SIGSTKFLT", "SIGCHLD",
    "SIGCONT", "SIGSTOP", "SIGTSTP", "SIGTTIN", "SIGTTOU", "SIGURG", "SIGXCPU", "SIGXFSZ",
    "SIGVTALRM", "SIGPROF", "SIGWINCH", "SIGIO", "SIGPWR", "SIGSYS"]

/-- The wording of a signal: its number, and its name if it has one. -/
def Signal.message (s : Signal) : String :=
  let name := if s.number = 0 then none else Signal.names[s.number - 1]?
  "signal: " ++ toString s.number ++ (name.map fun n => " (" ++ n ++ ")").getD "" ++
    if s.dumped then " (core dumped)" else ""

/-- What a run of the tool comes to. -/
structure ToolReply where
  output : List UInt8
  /-- the code it ends with, unless a signal ends it -/
  exit : Nat := 0
  signal : Option Signal := none
  /-- it never ends after printing -/
  hangs : Bool := false
  deriving DecidableEq, Repr

/-- A search tool that can be run; no reply means that there is no such program. -/
structure SearchTool (τ : Type) where
  run : List String → τ → Option ToolReply × τ

/-- Why a run of the tool gives no matches. -/
inductive ToolFault where
  | cannotStart (fault : FileFault)
  /-- a line is not text -/
  | garbled (fault : Utf8.Fault)
  | exited (code : Nat)
  | killed (signal : Signal)
  | timedOut
  deriving DecidableEq, Repr

/-- The failure of the search, if the tool is given `patience` milliseconds. -/
def ToolFault.toError (patience : Nat) : ToolFault → SearchError
  | .cannotStart fault =>
    .backend ("failed to spawn ripgrep; is rg installed and on PATH?: " ++ fault.message)
  | .garbled fault => .backend fault.message
  | .exited code => .backend s!"ripgrep exited with status exit status: {code}"
  | .killed signal => .backend ("ripgrep exited with status " ++ signal.message)
  | .timedOut => .timeout patience

namespace ToolReply

/-- Cut bytes into lines. A line that does not end is kept apart. -/
def cut : List UInt8 → List (List UInt8) × List UInt8
  | [] => ([], [])
  | b :: bytes =>
    let (lines, rest) := cut bytes
    if b = 10 then ([] :: lines, rest)
    else
      match lines with
      | [] => ([], b :: rest)
      | line :: lines => ((b :: line) :: lines, rest)

/-- A line without the carriage return at its end. -/
def dropReturn (line : List UInt8) : List UInt8 :=
  if line.getLast? = some 13 then line.dropLast else line

/-- The lines that can be read: the last one need not end, unless more might come. -/
def lines (r : ToolReply) : List (List UInt8) :=
  let (lines, rest) := cut r.output
  lines.map dropReturn ++ (if rest.isEmpty || r.hangs then [] else [rest])

/-- What reading lines comes to. -/
inductive Gathered where
  /-- all lines were read -/
  | all (found : List LineMatch)
  /-- a line followed after the limit was reached -/
  | limited (found : List LineMatch)
  /-- a line is not text -/
  | garbled (fault : Utf8.Fault)

/-- Put a match in front. -/
def Gathered.cons (m : LineMatch) : Gathered → Gathered
  | .all found => .all (m :: found)
  | .limited found => .limited (m :: found)
  | .garbled fault => .garbled fault

/-- Read lines until `limit` matches are there and another line comes. -/
def gather : (limit : Nat) → List (List UInt8) → Gathered
  | _, [] => .all []
  | limit, line :: lines =>
    match Utf8.decode line with
    | .error fault => .garbled fault
    | .ok text =>
      match limit with
      | 0 => .limited []
      | limit + 1 =>
        match LineMatch.read? text with
        | none => gather (limit + 1) lines
        | some m => (gather limit lines).cons m

/-- The matches of a run. -/
def result (r : ToolReply) (limit : Nat) : Except ToolFault (List LineMatch) :=
  match gather limit r.lines with
  | .garbled fault => .error (.garbled fault)
  | .limited found => .ok found
  | .all found =>
    if r.hangs then .error .timedOut
    else
      match r.signal with
      | some signal => .error (.killed signal)
      | none => if r.exit = 0 || r.exit = 1 then .ok found else .error (.exited r.exit)

end ToolReply

end CodeNav

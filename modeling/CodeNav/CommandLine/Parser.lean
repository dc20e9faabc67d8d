import CodeNav.CommandLine.Basic

/-!
# Reading the command line

A command is a name and options. An option is a switch, or takes a value: `--name=value`
or `--name value`. A value that stands apart is looked at only when the next option or
the end comes, so **what is wrong with a later word can be found before what is wrong
with the value before it**. After `--` only plain words could follow, and no command
takes any.
-/

namespace CodeNav.CommandLine

/-- A command while it is being read. -/
structure Draft where
  options : WorkspaceOptions := {}
  file : Option String := none
  line : Option Nat := none
  character : Option Nat := none
  language : Option String := none
  excludeDeclaration : Bool := false
  address : SocketAddress := .short [127, 0, 0, 1] 8080

/-- What an option does. -/
inductive Action where
  | switch (set : Draft → Draft)
  | value (set : Draft → String → Except UsageFault Draft)

/-- An option and its name. -/
structure Spec where
  name : String
  action : Action

/-! ## Values -/

/-- An unsigned integer of 64 bits; a plus sign may stand before it. -/
def number (text : String) : Except UsageFault Nat :=
  let digits := match text.toList with
    | '+' :: rest => rest
    | s => s
  if digits.isEmpty || !digits.all Char.isDigit then .error .invalidValue
  else
    let n := SocketAddress.value 10 digits
    if n < 18446744073709551616 then .ok n else .error .invalidValue

/-- A path, which must not be empty. -/
def path (text : String) : Except UsageFault String :=
  if text.isEmpty then .error .missingValue else .ok text

/-- An address to listen on. -/
def address (text : String) : Except UsageFault SocketAddress :=
  match SocketAddress.parse? text with
  | some a => .ok a
  | none => .error .invalidValue

/-! ## Options -/

/-- An option whose value goes into the options of the workspace. -/
def shared (name : String)
    (set : WorkspaceOptions → String → Except UsageFault WorkspaceOptions) : Spec :=
  ⟨name, .value fun d v => do return { d with options := ← set d.options v }⟩

/-- A switch among the options of the workspace. -/
def sharedSwitch (name : String) (set : WorkspaceOptions → WorkspaceOptions) : Spec :=
  ⟨name, .switch fun d => { d with options := set d.options }⟩

/-- The options of every command that opens a workspace. -/
def workspaceSpecs : List Spec :=
  [shared "root" fun o v => do return { o with root := some (← path v) },
   shared "repo" fun o v => return { o with repo := some v },
   shared "revision" fun o v => return { o with revision := v },
   shared "timeout-ms" fun o v => do return { o with timeoutMs := ← number v },
   shared "search-timeout-secs" fun o v => do return { o with searchTimeoutSecs := ← number v },
   shared "max-matches" fun o v => do return { o with maxMatches := ← number v },
   sharedSwitch "indexed-only" fun o => { o with indexedOnly := true },
   sharedSwitch "trace" fun o => { o with trace := true },
   sharedSwitch "include-forks" fun o => { o with includeForks := true },
   sharedSwitch "public-instance" fun o => { o with publicInstance := true },
   shared "precise-index" fun o v => do return { o with preciseIndex := some (← path v) }]

/-- The options of lookups. -/
def lookupSpecs : List Spec :=
  workspaceSpecs ++
  [⟨"file", .value fun d v => do return { d with file := some (← path v) }⟩,
   ⟨"line", .value fun d v => do return { d with line := some (← number v) }⟩,
   ⟨"character", .value fun d v => do return { d with character := some (← number v) }⟩,
   ⟨"language", .value fun d v => return { d with language := some v }⟩,
   ⟨"exclude-declaration", .switch fun d => { d with excludeDeclaration := true }⟩]

/-- The options of the service. -/
def serveSpecs : List Spec :=
  workspaceSpecs ++
  [⟨"http-addr", .value fun d v => do return { d with address := ← address v }⟩]

/-! ## Words -/

/-- A word of a command line. -/
inductive Word where
  /-- `--` -/
  | stop
  /-- `--name` or `--name=value` -/
  | long (name : String) (value : Option String)
  /-- `-` and letters -/
  | short (letters : List Char)
  | plain (text : String)
  deriving DecidableEq, Repr

/-- Read a word. -/
def Word.read (text : String) : Word :=
  match text.toList with
  | ['-', '-'] => .stop
  | '-' :: '-' :: rest =>
    match Text.cutAt? ['='] rest with
    | some (name, value) => .long (String.ofList name) (some (String.ofList value))
    | none => .long (String.ofList rest) none
  | '-' :: c :: rest => .short (c :: rest)
  | _ => .plain text

/-- Options read so far. -/
structure State where
  draft : Draft := {}
  /-- the names of the options that were given -/
  given : List String := []
  /-- the option that was named last, if it takes a value, with the value if it came -/
  pending : Option (Spec × Option String) := none

namespace State

/-- Take note of an option. -/
def give (s : State) (name : String) (draft : Except UsageFault Draft) :
    Except UsageFault State :=
  if s.given.contains name then .error .repeated
  else do return { draft := ← draft, given := name :: s.given }

/-- Take note of an option's value. -/
def giveValue (s : State) (spec : Spec) (v : String) : Except UsageFault State :=
  match spec.action with
  | .switch set => s.give spec.name (.ok (set s.draft))
  | .value set => s.give spec.name (set s.draft v)

/-- Settle the option that was named last. -/
def resolve (s : State) : Except UsageFault State :=
  match s.pending with
  | none => .ok s
  | some (_, none) => .error .missingValue
  | some (spec, some v) => { s with pending := none }.giveValue spec v

/-- Take note of a switch, or of an option whose value is still to come. -/
def name (s : State) (spec : Spec) : Except UsageFault State := do
  let s ← s.resolve
  match spec.action with
  | .switch set => s.give spec.name (.ok (set s.draft))
  | .value _ => return { s with pending := some (spec, none) }

/-- Read one word. -/
def step (specs : List Spec) (s : State) : Word → Except UsageFault State
  | .stop => .ok s
  | .long "help" none => do
    let _ ← s.resolve
    throw .helpAsked
  | .long "help" (some _) => .error .unexpectedValue
  | .long name value =>
    match specs.find? (·.name = name), value with
    | none, _ => .error .unknownArgument
    | some spec, none => s.name spec
    | some spec, some v =>
      match spec.action with
      | .switch _ => .error .unexpectedValue
      | .value _ => do (← s.resolve).giveValue spec v
  | .short letters =>
    if letters.head? = some 'h' then do
      let _ ← s.resolve
      throw .helpAsked
    else .error .unknownArgument
  | .plain text =>
    match s.pending with
    | some (spec, none) => .ok { s with pending := some (spec, some text) }
    | _ => .error .unknownArgument

/-- Read the words after the name of a command. -/
def read (specs : List Spec) : State → List String → Except UsageFault State
  | s, [] => s.resolve
  | s, text :: rest =>
    match Word.read text with
    | .stop => if rest.isEmpty then s.resolve else .error .unknownArgument
    | word => do State.read specs (← s.step specs word) rest

end State

/-! ## Commands -/

/-- The draft that options give. -/
def readOptions (specs : List Spec) (args : List String) : Except UsageFault Draft := do
  return (← State.read specs {} args).draft

/-- Read the options of a lookup. -/
def readLookup (operation : Operation) (args : List String) : Except UsageFault Command := do
  let d ← readOptions lookupSpecs args
  match d.file, d.line, d.character with
  | some file, some line, some character =>
    return .lookup operation
      { options := d.options, file, position := ⟨line, character⟩, language := d.language
        excludeDeclaration := d.excludeDeclaration }
  | _, _, _ => throw .missingOption

/-- The reader of a command's options, by the name of the command. -/
def command? (name : String) : Option (List String → Except UsageFault Command) :=
  match name with
  | "definition" => some (readLookup .definition)
  | "references" => some (readLookup .references)
  | "hover" => some (readLookup .hover)
  | "serve" => some fun args => do
    let d ← readOptions serveSpecs args
    return .serve d.options d.address
  | "languages" => some fun args => do
    let _ ← readOptions [] args
    return .languages
  | _ => none

/-- Whether help can be given on a name. -/
def isKnown (name : String) : Bool := name = "help" || (command? name).isSome

/-- Why `help` and some names gives no command. -/
def help : List String → UsageFault
  | [] => .helpAsked
  | [name] => if isKnown name then .helpAsked else .unknownCommand
  | _ => .unknownCommand

/-- Read a command line, without the name of the program. -/
def parse : List String → Except UsageFault Command
  | [] => .error .nothingAsked
  | name :: args =>
    match command? name with
    | some read => read args
    | none =>
      if name = "help" then .error (help args)
      else
        match Word.read name with
        | .stop =>
          match args with
          | [] => .error .nothingAsked
          | name :: _ => .error (if isKnown name then .unknownArgument else .unknownCommand)
        | .long "help" none => .error .helpAsked
        | .long "help" (some _) => .error .unexpectedValue
        | .long _ _ => .error .unknownArgument
        | .short letters =>
          .error (if letters.head? = some 'h' then .helpAsked else .unknownArgument)
        | .plain _ => .error .unknownCommand

end CodeNav.CommandLine

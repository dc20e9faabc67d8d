import CodeNav.Language.Registry

/-!
# The languages that are built in

Comment styles first, each named for how it looks, then the languages in the order in
which they answer for shared extensions: `.h` is C++ and not C.
-/

namespace CodeNav.Builtin

/-! ## Comment styles -/

/-- Comments written as `// line` and `/* block */`, with the doc forms of both. -/
def slashes : CommentStyle.Written where
  line := some "///?!?\\s?(.*)"
  block := some ("/\\*\\*?", "\\*/", some "^\\s*\\*\\s?")

/-- Comments written as `// line` only. -/
def slashLines : CommentStyle.Written where
  line := some "///?\\s?(.*)"

/-- Comments written as `# line`. -/
def hashes : CommentStyle.Written where
  line := some "#+\\s?(.*)"

/-- Comments written as `# line`, and texts between three double quotes below the definition. -/
def doubleQuoted : CommentStyle.Written where
  line := some "#\\s?(.*)"
  block := some ("[rRuU]?\"\"\"", "\"\"\"", none)
  placement := .below

/-- Comments written as texts between three single quotes below the definition. -/
def singleQuoted : CommentStyle.Written where
  block := some ("[rRuU]?'''", "'''", none)
  placement := .below

/-- Comments written as `# line`, and `=begin` to `=end`. -/
def beginEnd : CommentStyle.Written where
  line := some "#\\s?(.*)"
  block := some ("^=begin", "^=end", none)

/-- Comments written as `# line`, and `=pod` to `=cut`. -/
def pod : CommentStyle.Written where
  line := some "#\\s?(.*)"
  block := some ("^=(?:pod|head\\d|item)", "^=cut", none)

/-- Comments written as `# line`, and the doc form `#' line`. -/
def hashQuotes : CommentStyle.Written where
  line := some "#'?\\s?(.*)"

/-- Comments written as `; line`. -/
def semicolons : CommentStyle.Written where
  line := some ";+\\s?(.*)"

/-- Comments written as `-- line` and `{- block -}`, with the doc forms of both. -/
def dashBraces : CommentStyle.Written where
  line := some "--\\s?\\|?\\s?(.*)"
  block := some ("\\\x7b-\\|?", "-\\\x7d", none)

/-- Comments written as `-- line` and `--[[ block ]]`. -/
def dashBrackets : CommentStyle.Written where
  line := some "---?\\s?(.*)"
  block := some ("--\\[\\[", "\\]\\]", none)

/-- Comments written as `-- line`. -/
def dashes : CommentStyle.Written where
  line := some "--\\s?(.*)"

/-- Comments written as `% line`. -/
def percents : CommentStyle.Written where
  line := some "%+\\s?(.*)"

/-- Comments written as `(* block *)`. -/
def parenStars : CommentStyle.Written where
  block := some ("\\(\\*\\*?", "\\*\\)", some "^\\s*\\*\\s?")

/-- Comments written as `// line` and `{ block }`. -/
def braces : CommentStyle.Written where
  line := some "//\\s?(.*)"
  block := some ("\\\x7b", "\\\x7d", none)

/-- Comments written as `! line`. -/
def bangs : CommentStyle.Written where
  line := some "!>?\\s?(.*)"

/-- Comments written as `*> line`. -/
def starArrows : CommentStyle.Written where
  line := some "\\*>\\s?(.*)"

/-- Comments written as `# line`, and the texts of doc attributes. -/
def docAttributes : CommentStyle.Written where
  line := some "#\\s?(.*)"
  block := some ("@(?:module)?doc\\s+\"\"\"", "\"\"\"", none)

/-- Comments written as `# line`, and texts between three double quotes above the definition. -/
def quotedAbove : CommentStyle.Written where
  line := some "#\\s?(.*)"
  block := some ("\"\"\"", "\"\"\"", none)

/-- Comments written as `# line` and `<# block #>`. -/
def angleHashes : CommentStyle.Written where
  line := some "#\\s?(.*)"
  block := some ("<#", "#>", none)

/-! ## Languages -/

/-- The languages, the first to answer first. -/
def texts : List Profile.Written :=
  [{ id := "cpp", name := "C++", extensions := ["cpp", "cc", "cxx", "hpp", "hh", "hxx", "h"],
     comments := [slashes], imports := some Imports.cFamily },
   { id := "c", name := "C", extensions := ["c", "h"],
     comments := [slashes], imports := some Imports.cFamily },
   { id := "cuda", name := "CUDA", extensions := ["cu", "cuh"],
     comments := [slashes], imports := some Imports.cFamily },
   { id := "objectivec", name := "Objective-C", extensions := ["m", "mm"],
     comments := [slashes], imports := some Imports.cFamily },
   { id := "csharp", name := "C#", extensions := ["cs"],
     comments := [slashes], ignore := some "^\\s*\\[" },
   { id := "go", name := "Go", extensions := ["go"],
     comments := [slashes], imports := some Imports.go },
   { id := "java", name := "Java", extensions := ["java"],
     comments := [slashes], ignore := some "^\\s*@", imports := some Imports.java },
   { id := "kotlin", name := "Kotlin", extensions := ["kt", "kts"],
     comments := [slashes], ignore := some "^\\s*@", imports := some Imports.java },
   { id := "scala", name := "Scala", extensions := ["scala", "sc"],
     comments := [slashes], ignore := some "^\\s*@", imports := some Imports.java },
   { id := "groovy", name := "Groovy", extensions := ["groovy", "gradle"],
     comments := [slashes], ignore := some "^\\s*@", imports := some Imports.java },
   { id := "apex", name := "Apex", extensions := ["cls", "trigger"],
     comments := [slashes], ignore := some "^\\s*@" },
   { id := "typescript", name := "TypeScript", extensions := ["ts", "tsx", "mts", "cts"],
     comments := [slashes], ignore := some "^\\s*@", imports := some Imports.javascript },
   { id := "javascript", name := "JavaScript", extensions := ["js", "jsx", "mjs", "cjs"],
     comments := [slashes], imports := some Imports.javascript },
   { id := "python", name := "Python", extensions := ["py", "pyi"],
     comments := [doubleQuoted, singleQuoted], imports := some Imports.python },
   { id := "rust", name := "Rust", extensions := ["rs"],
     comments := [slashes], ignore := some "^\\s*#!?\\[" },
   { id := "swift", name := "Swift", extensions := ["swift"],
     comments := [slashes], ignore := some "^\\s*@" },
   { id := "dart", name := "Dart", extensions := ["dart"],
     comments := [slashes], ignore := some "^\\s*@" },
   { id := "php", name := "PHP", extensions := ["php", "phtml"],
     comments := [slashes, hashes], ignore := some "^\\s*#\\[" },
   { id := "zig", name := "Zig", extensions := ["zig"], comments := [slashLines] },
   { id := "verilog", name := "Verilog", extensions := ["v", "sv", "svh"],
     comments := [slashes] },
   { id := "protobuf", name := "Protocol Buffers", extensions := ["proto"],
     comments := [slashes] },
   { id := "graphql", name := "GraphQL", extensions := ["graphql", "gql"], comments := [hashes] },
   { id := "thrift", name := "Thrift", extensions := ["thrift"], comments := [slashes, hashes] },
   { id := "ruby", name := "Ruby", extensions := ["rb", "rake", "gemspec"],
     comments := [beginEnd], identifier := "[A-Za-z0-9_!?]" },
   { id := "perl", name := "Perl", extensions := ["pl", "pm"], comments := [pod] },
   { id := "shell", name := "Shell", extensions := ["sh", "bash", "zsh"], comments := [hashes] },
   { id := "powershell", name := "PowerShell", extensions := ["ps1", "psm1"],
     comments := [angleHashes], identifier := "[A-Za-z0-9_\\-]" },
   { id := "tcl", name := "Tcl", extensions := ["tcl"], comments := [hashes] },
   { id := "starlark", name := "Starlark", extensions := ["bzl", "star"],
     comments := [doubleQuoted] },
   { id := "r", name := "R", extensions := ["r"],
     comments := [hashQuotes], identifier := "[A-Za-z0-9_.]" },
   { id := "julia", name := "Julia", extensions := ["jl"],
     comments := [quotedAbove], identifier := "[A-Za-z0-9_!]" },
   { id := "elixir", name := "Elixir", extensions := ["ex", "exs"],
     comments := [docAttributes], identifier := "[A-Za-z0-9_!?]" },
   { id := "erlang", name := "Erlang", extensions := ["erl", "hrl"], comments := [percents] },
   { id := "haskell", name := "Haskell", extensions := ["hs", "lhs"],
     comments := [dashBraces], identifier := "[A-Za-z0-9_']" },
   { id := "ocaml", name := "OCaml", extensions := ["ml", "mli"],
     comments := [parenStars], identifier := "[A-Za-z0-9_']" },
   { id := "lua", name := "Lua", extensions := ["lua"], comments := [dashBrackets] },
   { id := "sql", name := "SQL", extensions := ["sql"], comments := [dashes] },
   { id := "clojure", name := "Clojure", extensions := ["clj", "cljs", "cljc", "edn"],
     comments := [semicolons], identifier := "[A-Za-z0-9_!?*+<>=\\-]" },
   { id := "lisp", name := "Lisp", extensions := ["lisp", "lsp", "cl", "el"],
     comments := [semicolons], identifier := "[A-Za-z0-9_!?*+<>=\\-]" },
   { id := "pascal", name := "Pascal", extensions := ["pas", "pp"], comments := [braces] },
   { id := "fortran", name := "Fortran", extensions := ["f", "for", "f90", "f95", "f03"],
     comments := [bangs] },
   { id := "cobol", name := "COBOL", extensions := ["cbl", "cob", "cpy"],
     comments := [starArrows], identifier := "[A-Za-z0-9_\\-]" }]

/-- The profiles of the built-in languages. -/
def profiles : List Profile := texts.filterMap (·.read?)

/-- The registry of the built-in languages. -/
def registry : Registry := .ofProfiles profiles

end CodeNav.Builtin

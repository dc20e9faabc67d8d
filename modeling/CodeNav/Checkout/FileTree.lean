import CodeNav.Path
import CodeNav.Text.Utf8

/-!
# Trees of files

Files by the names that lead to them from the root, and how a path is followed. A path
is walked **segment by segment**: every step has to start in a directory, so a file
followed by a slash is no file, and a missing directory is noticed even if the path
climbs out of it again.
-/

namespace CodeNav

/-- Why a file cannot be read. -/
inductive FileFault where
  | notFound
  | notDirectory
  | isDirectory
  | nameTooLong
  /-- a name with a zero character in it -/
  | badName
  /-- the file was read, and is not text -/
  | notText
  deriving DecidableEq, Repr

/-- The wording of a fault. -/
def FileFault.message : FileFault → String
  | .notFound => "No such file or directory (os error 2)"
  | .notDirectory => "Not a directory (os error 20)"
  | .isDirectory => "Is a directory (os error 21)"
  | .nameTooLong => "File name too long (os error 36)"
  | .badName => "file name contained an unexpected NUL byte"
  | .notText => "stream did not contain valid UTF-8"

/-- Files, by the names that lead to them. -/
structure FileTree where
  files : List (List (List Char) × List UInt8)
  /-- directories that are there even if they hold no file -/
  directories : List (List (List Char)) := []

namespace FileTree

/-- What stands at a place. -/
inductive Node where
  | file (bytes : List UInt8)
  | directory

/-- What stands at a place. Directories are there because something is below them. -/
def node? (t : FileTree) (names : List (List Char)) : Option Node :=
  match t.files.lookup names with
  | some bytes => some (.file bytes)
  | none =>
    if names.isEmpty || t.files.any (names.isPrefixOf ·.1) || t.directories.any (names.isPrefixOf ·)
    then some .directory
    else none

/-- The longest name, in bytes. -/
def maxName : Nat := 255

/-- Follow segments from the place `here`. -/
def follow (t : FileTree) : (here : List (List Char)) → List (List Char) →
    Except FileFault (List (List Char))
  | here, [] => .ok here
  | here, s :: rest =>
    match t.node? here with
    | some .directory =>
      if s = [] || s = ['.'] then t.follow here rest
      else if s = ['.', '.'] then t.follow here.dropLast rest
      else if maxName < Utf8.size s then .error .nameTooLong
      else if (t.node? (here ++ [s])).isNone then .error .notFound
      else t.follow (here ++ [s]) rest
    | _ => .error .notDirectory

/-- The place that an absolute path leads to. -/
def locate (t : FileTree) (path : List Char) : Except FileFault (List (List Char)) :=
  if path.contains (Char.ofNat 0) then .error .badName
  else t.follow [] (Text.splitAt '/' path)

/-- The shortest path to where an absolute path leads. -/
def canonical (t : FileTree) (path : List Char) : Except FileFault (List Char) :=
  (t.locate path).map Path.ofNames

/-- The bytes of a file. -/
def read (t : FileTree) (path : List Char) : Except FileFault (List UInt8) := do
  match t.node? (← t.locate path) with
  | some (.file bytes) => return bytes
  | some .directory => throw .isDirectory
  | none => throw .notFound

/-- The text of a file, all of which has to be text. -/
def readText (t : FileTree) (path : List Char) : Except FileFault String := do
  match Utf8.decode (← t.read path) with
  | .ok cs => return String.ofList cs
  | .error _ => throw .notText

/-- Whether a path leads to a directory, and why not. -/
def enter (t : FileTree) (path : List Char) : Except FileFault Unit := do
  match t.node? (← t.locate path) with
  | some .directory => return ()
  | some (.file _) => throw .notDirectory
  | none => throw .notFound

end FileTree

end CodeNav

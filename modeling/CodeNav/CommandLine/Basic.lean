import CodeNav.CommandLine.Address
import CodeNav.Lookup.Call
import CodeNav.Source.Basic
import CodeNav.Workspace.Config

/-!
# Commands

What can be asked for on the command line, and why a command line is refused.
-/

namespace CodeNav

/-- What a lookup command is given. -/
structure LookupArgs where
  options : WorkspaceOptions
  file : String
  position : Position
  language : Option String
  excludeDeclaration : Bool
  deriving DecidableEq, Repr

/-- A command. -/
inductive Command where
  | lookup (operation : Operation) (args : LookupArgs)
  | serve (options : WorkspaceOptions) (address : SocketAddress)
  | languages
  deriving DecidableEq, Repr

/-- Why a command line is refused, or only help is given. -/
inductive UsageFault where
  /-- nothing was asked for -/
  | nothingAsked
  /-- help was asked for -/
  | helpAsked
  | unknownCommand
  | unknownArgument
  /-- an option that has to be there is missing -/
  | missingOption
  /-- an option has no value, or an empty one where that is no value -/
  | missingValue
  /-- a value does not read as a number or an address -/
  | invalidValue
  /-- an option is given twice -/
  | repeated
  /-- a switch is given a value -/
  | unexpectedValue
  deriving DecidableEq, Repr

namespace UsageFault

/-- Whether help is the answer, rather than an error. -/
def isHelp : UsageFault → Bool
  | nothingAsked | helpAsked => true
  | _ => false

/-- The wording of a refusal. -/
def message : UsageFault → String
  | nothingAsked | helpAsked =>
    "usage: codenav <definition|references|hover|serve|languages|help> [options]"
  | unknownCommand => "unrecognized subcommand"
  | unknownArgument => "unexpected argument"
  | missingOption => "a required argument was not provided"
  | missingValue => "a value is required"
  | invalidValue => "invalid value"
  | repeated => "an argument cannot be used multiple times"
  | unexpectedValue => "unexpected value for a switch"

end UsageFault

end CodeNav

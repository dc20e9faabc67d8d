import CodeNav.Checkout.Repository
import CodeNav.Checkout.Scan
import CodeNav.CommandLine.Execute
import CodeNav.CommandLine.Parser
import CodeNav.Hover
import CodeNav.Json.Value
import CodeNav.Language.Builtin
import CodeNav.Lookup.Engine
import CodeNav.Lookup.Precise
import CodeNav.Lookup.Provider
import CodeNav.Lookup.Race
import CodeNav.Lookup.Run
import CodeNav.Lru
import CodeNav.Main
import CodeNav.Query.Basic
import CodeNav.Query.Local
import CodeNav.Rank
import CodeNav.Service.Http
import CodeNav.Service.Line
import CodeNav.Settings
import CodeNav.Source.Decode
import CodeNav.Token
import CodeNav.Workspace.Report
import CodeNav.Proofs.Lookup.Memo
import CodeNav.Proofs.Pattern.Places
import CodeNav.Proofs.Query.Scope
import CodeNav.Proofs.Stream.Interleaving
import CodeNav.Proofs.Workspace.Containment
import CodeNav.Proofs.Pattern.Literal
import CodeNav.Proofs.Token.Run
import CodeNav.Proofs.Token.Reference
import CodeNav.Proofs.Query.Occurrence
import CodeNav.Proofs.Language.Index
import CodeNav.Proofs.Path.Extension
import CodeNav.Proofs.Query.Files
import CodeNav.Proofs.Lookup.Sequence
import CodeNav.Proofs.Query.Text
import CodeNav.Proofs.Lookup.Tiers
import CodeNav.Proofs.Lookup.Both
import CodeNav.Proofs.Lookup.Union
import CodeNav.Proofs.Query.IndexForm
import CodeNav.Proofs.Lookup.Record
import CodeNav.Proofs.Lookup.Discipline
import CodeNav.Proofs.Lookup.OneEach
import CodeNav.Proofs.Lookup.PreciseFirst
import CodeNav.Proofs.Query.RoundTrip
import CodeNav.Proofs.Stream.History
import CodeNav.Proofs.Service.Clients
import CodeNav.Proofs.Lookup.Transparent
import CodeNav.Proofs.Lookup.Favored
import CodeNav.Proofs.Lookup.Narrowing
import CodeNav.Proofs.Lru.Touches
import CodeNav.Proofs.Checkout.Symbols
import CodeNav.Proofs.Pattern.Bounds
import CodeNav.Proofs.Text.Lines
import CodeNav.Proofs.Docstring.Body
import CodeNav.Proofs.Docstring.Beside
import CodeNav.Proofs.Docstring.Cut
import CodeNav.Proofs.Docstring.Careful
import CodeNav.Proofs.Docstring.Provenance
import CodeNav.Proofs.Docstring.Dedent
import CodeNav.Proofs.Pattern.Taken
import CodeNav.Proofs.Language.Slashes
import CodeNav.Proofs.Docstring.RoundTrip
import CodeNav.Proofs.Hover.Wrap
import CodeNav.Proofs.Query.Grammar
import CodeNav.Proofs.Hover.Fences
import CodeNav.Proofs.Hover.Contents
import CodeNav.Proofs.Imports.Go
import CodeNav.Proofs.Imports.Java
import CodeNav.Proofs.Imports.Python
import CodeNav.Proofs.Rank.Jaccard
import CodeNav.Proofs.Checkout.Gathered
import CodeNav.Proofs.Checkout.Ranges
import CodeNav.Proofs.Lookup.Accounting
import CodeNav.Proofs.Service.Status
import CodeNav.Proofs.Lookup.Declaration
import CodeNav.Proofs.Imports.Segments
import CodeNav.Proofs.Language.Answers

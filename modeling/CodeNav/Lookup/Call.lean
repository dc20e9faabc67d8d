import CodeNav.Query.Basic
import CodeNav.SearchError
import CodeNav.Source.Basic

/-!
# Calls to collaborators

A lookup asks others for hits, for the text of files, for facts about repositories and
for the entries of an index. It never sees how they do it: it makes a **call** and gets
a **promise**, which says when the answer arrives, if ever, and what it will be. An
instant is the number of milliseconds since the clock started.
-/

namespace CodeNav

/-- An answer that is on its way. -/
inductive Promise (α : Type) where
  /-- no answer will come -/
  | never
  /-- the answer `value` is there from the instant `t` on -/
  | due (t : Nat) (value : α)
  deriving Repr

namespace Promise

/-- Whether an answer is there at an instant. -/
def isBy {α : Type} (p : Promise α) (t : Nat) : Bool :=
  match p with
  | never => false
  | due s _ => s ≤ t

/-- Whether the answer comes no later than another one. What never comes is late. -/
def isFirst {α β : Type} (p : Promise α) (q : Promise β) : Bool :=
  match p, q with
  | never, never => true
  | never, due _ _ => false
  | due _ _, never => true
  | due s _, due t _ => s ≤ t

end Promise

/-- What a lookup is after. -/
inductive Operation where
  | definition
  | references
  | hover
  deriving DecidableEq, Repr

/-- The name of an operation. -/
def Operation.label : Operation → String
  | .definition => "definition"
  | .references => "references"
  | .hover => "hover"

/-- What is known about a repository. -/
structure RepoInfo where
  isFork : Bool
  isArchived : Bool
  deriving DecidableEq, Repr

/-- A question to a collaborator. -/
inductive Call where
  /-- hits for the text of a query; symbols local to their file only if asked for -/
  | search (query : String) (fileLocal : Bool)
  /-- the text of a file -/
  | content (repo revision path : String)
  /-- facts about a repository -/
  | repository (name : String)
  /-- definitions known to an index -/
  | indexedDefinition (document : Document) (position : Position)
  /-- references known to an index -/
  | indexedReferences (document : Document) (position : Position) (declaration : Bool)
  /-- a hover known to an index -/
  | indexedHover (document : Document) (position : Position)
  deriving DecidableEq, Repr

/-- The type of the answer to a call: a failure, or what was asked for. -/
@[reducible] def Call.Answer : Call → Type
  | .search _ _ => Except SearchError (List Hit)
  | .content _ _ _ => Except SearchError (Option String)
  | .repository _ => Except SearchError (Option RepoInfo)
  | .indexedDefinition _ _ => Except SearchError (List Location)
  | .indexedReferences _ _ _ => Except SearchError (List Location)
  | .indexedHover _ _ => Except SearchError (Option HoverPayload)

/-- What is counted while lookups run. -/
inductive Counter where
  /-- queries sent -/
  | searchCalls (scope : Scope)
  /-- hits received -/
  | searchResults (scope : Scope)
  /-- failures received -/
  | searchFailures (scope : Scope)
  /-- scopes answered by the index-only query -/
  | indexFallbacks (scope : Scope)
  /-- file texts found in the cache -/
  | cacheHits
  /-- lookups that ran to their end -/
  | lookups (operation : Operation)
  deriving DecidableEq, Repr

/-- All counters. -/
def Counter.all : List Counter :=
  let scopes : List Scope :=
    [.currentFile, .currentRepository, .otherRepositories, .allRepositories]
  scopes.flatMap (fun s => [.searchCalls s, .searchResults s, .searchFailures s,
    .indexFallbacks s]) ++ [.cacheHits, .lookups .definition, .lookups .references, .lookups .hover]

/-- The name of a counter, with what it is counted for. -/
def Counter.label : Counter → String
  | .searchCalls s => "search_calls:" ++ s.label
  | .searchResults s => "search_results:" ++ s.label
  | .searchFailures s => "search_failures:" ++ s.label
  | .indexFallbacks s => "index_fallbacks:" ++ s.label
  | .cacheHits => "cache_hits:content"
  | .lookups o => "lookup_latency_ms_count:" ++ o.label

end CodeNav

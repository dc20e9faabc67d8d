import CodeNav.Json.Decoder

/-!
# Settings of a lookup

The switches that the host supplies, and how they are read from JSON: every field may
be left out and keeps its default.
-/

namespace CodeNav

/-- What the host may change about searching. -/
structure Settings where
  /-- send index-only queries and nothing else -/
  indexedOnly : Bool := false
  /-- how long the plain query runs alone, in milliseconds -/
  unindexedTimeoutMs : Nat := 5000
  /-- log every query at a higher level -/
  traceSearch : Bool := false
  /-- search forks and archived repositories too -/
  includeForks : Bool := false
  /-- never search beyond the current repository -/
  publicInstance : Bool := false
  deriving DecidableEq, Repr

namespace Settings

/-- Settings while they are being read. -/
structure Partial where
  indexedOnly : Option Bool := none
  unindexedTimeoutMs : Option Nat := none
  traceSearch : Option Bool := none
  includeForks : Option Bool := none
  publicInstance : Option Bool := none

/-- The fields in their order. -/
def fields : List (Json.Field Partial) :=
  [⟨"indexed_only", (·.indexedOnly.isSome),
      fun p s => (Json.bool s).map fun (v, s) => ({ p with indexedOnly := some v }, s)⟩,
   ⟨"unindexed_timeout_ms", (·.unindexedTimeoutMs.isSome),
      fun p s => (Json.nat s).map fun (v, s) => ({ p with unindexedTimeoutMs := some v }, s)⟩,
   ⟨"trace_search", (·.traceSearch.isSome),
      fun p s => (Json.bool s).map fun (v, s) => ({ p with traceSearch := some v }, s)⟩,
   ⟨"include_forks", (·.includeForks.isSome),
      fun p s => (Json.bool s).map fun (v, s) => ({ p with includeForks := some v }, s)⟩,
   ⟨"public_instance", (·.publicInstance.isSome),
      fun p s => (Json.bool s).map fun (v, s) => ({ p with publicInstance := some v }, s)⟩]

/-- Fill in the defaults. -/
def Partial.finish (p : Partial) : Settings :=
  let d : Settings := {}
  { indexedOnly := p.indexedOnly.getD d.indexedOnly
    unindexedTimeoutMs := p.unindexedTimeoutMs.getD d.unindexedTimeoutMs
    traceSearch := p.traceSearch.getD d.traceSearch
    includeForks := p.includeForks.getD d.includeForks
    publicInstance := p.publicInstance.getD d.publicInstance }

/-- Read settings. -/
def decoder : Json.Decoder Settings := Json.record fields {} fun p => some p.finish

end Settings

end CodeNav

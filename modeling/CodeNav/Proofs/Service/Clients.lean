import CodeNav.Proofs.Lru.Recency
import CodeNav.Proofs.Text.Pieces
import CodeNav.Service.Clients

/-!
# Providers of clients

The providers are numbered in the order they are made, so the requests so far can be read as a
record of **what name each provider was made for** (`Clients.Numbered`): an entry of the table
stands under the name that is recorded for its provider, and a request gets a provider that is
recorded under its own name. A provider that was made for no name is never found in the table.

Whether a client still has its provider is a question about the table alone: it holds the names
that asked last (`Lru.Tracks`), as many as fit, and **a name that stays keeps its provider**
(`Clients.Holds`).
-/

namespace CodeNav.Clients

open Text

/-! ## One request -/

section One

variable {c : Clients} {client : Option String} {name : String}

/-- **No name.** The provider is new, and nobody is given it again. -/
theorem providerFor_of_name?_eq_none (h : name? client = none) :
    c.providerFor client = (c.made, { c with made := c.made + 1 }) := by
  simp only [providerFor, h]

/-- **Known name.** The provider is the client's own. -/
theorem providerFor_of_get?_eq_some (h : name? client = some name) {n : Nat}
    (hget : (c.table.get? name).1 = some n) :
    c.providerFor client = (n, { c with table := (c.table.get? name).2 }) := by
  have hpair : c.table.get? name = (some n, (c.table.get? name).2) := by rw [← hget]
  simp only [providerFor, h]
  rw [hpair]

/-- **New name.** The provider is new, and kept under the name. -/
theorem providerFor_of_notMem (h : name? client = some name) (hkeys : name ∉ c.table.keys) :
    c.providerFor client = (c.made, ⟨c.table.insert name c.made, c.made + 1⟩) := by
  simp only [providerFor, h, Lru.get?_of_notMem hkeys]

/-- Who is in the table has a provider. -/
theorem exists_get?_of_mem (h : name ∈ c.table.keys) : ∃ n, (c.table.get? name).1 = some n :=
  Option.isSome_iff_exists.mp ((c.table.get?_isSome_iff name).mpr h)

/-- All that a request can do. -/
theorem providerFor_cases (c : Clients) (client : Option String) :
    (name? client = none ∧ c.providerFor client = (c.made, { c with made := c.made + 1 })) ∨
    (∃ name n, name? client = some name ∧ name ∈ c.table.keys ∧
      (c.table.get? name).1 = some n ∧
      c.providerFor client = (n, { c with table := (c.table.get? name).2 })) ∨
    ∃ name, name? client = some name ∧ name ∉ c.table.keys ∧
      c.providerFor client = (c.made, ⟨c.table.insert name c.made, c.made + 1⟩) := by
  cases hname : name? client with
  | none => exact .inl ⟨rfl, providerFor_of_name?_eq_none hname⟩
  | some name =>
    by_cases hkeys : name ∈ c.table.keys
    · obtain ⟨n, hget⟩ := exists_get?_of_mem hkeys
      exact .inr (.inl ⟨name, n, rfl, hkeys, hget, providerFor_of_get?_eq_some hname hget⟩)
    · exact .inr (.inr ⟨name, rfl, hkeys, providerFor_of_notMem hname hkeys⟩)

end One

/-! ## Many requests -/

/-- The clients after some requests. -/
def serve (c : Clients) (calls : List (Option String)) : Clients :=
  calls.foldl (fun c client => (c.providerFor client).2) c

@[simp] theorem serve_nil (c : Clients) : c.serve [] = c := rfl

@[simp] theorem serve_cons (c : Clients) (client : Option String) (calls : List (Option String)) :
    c.serve (client :: calls) = (c.providerFor client).2.serve calls := rfl

@[simp] theorem serve_append (c : Clients) (calls more : List (Option String)) :
    c.serve (calls ++ more) = (c.serve calls).serve more := by
  simp [serve]

/-- The provider that a request gets after others. -/
def given (capacity : Nat) (before : List (Option String)) (client : Option String) : Nat :=
  (((empty capacity).serve before).providerFor client).1

/-- The names that some requests were made under, each once. -/
def names (calls : List (Option String)) : List String := (calls.filterMap name?).dedup

/-! ## What a provider was made for -/

/-- A provider that was made stays in its place while others are made behind it. -/
theorem getElem?_of_prefix {α : Type} {l l' : List α} (h : l <+: l') {n : Nat} {a : α}
    (hget : l[n]? = some a) : l'[n]? = some a := by
  obtain ⟨rest, rfl⟩ := h
  rw [List.getElem?_append_left (List.getElem?_eq_some_iff.mp hget).1, hget]

/-- The names that the providers were made for, the first provider first. -/
structure Numbered (owners : List (Option String)) (c : Clients) : Prop where
  made : c.made = owners.length
  entry : ∀ name n, (name, n) ∈ c.table.entries → owners[n]? = some (some name)

namespace Numbered

/-- At first no client has a provider. -/
theorem empty (capacity : Nat) : Numbered [] (.empty capacity) :=
  ⟨rfl, fun _ _ h => absurd h List.not_mem_nil⟩

variable {owners : List (Option String)} {c : Clients}

/-- A request gets a provider that was made for its name. -/
theorem providerFor (h : Numbered owners c) (client : Option String) :
    ∃ owners', owners <+: owners' ∧ Numbered owners' (c.providerFor client).2 ∧
      owners'[(c.providerFor client).1]? = some (name? client) := by
  have hgrows : owners <+: owners ++ [name? client] := List.prefix_append _ _
  have hlength : c.made + 1 = (owners ++ [name? client]).length := by
    rw [h.made, List.length_append, List.length_singleton]
  have hfresh : (owners ++ [name? client])[c.made]? = some (name? client) := by
    rw [h.made, List.getElem?_concat_length]
  have hold : ∀ name n, (name, n) ∈ c.table.entries →
      (owners ++ [name? client])[n]? = some (some name) := by
    intro name n hmem
    exact getElem?_of_prefix hgrows (h.entry name n hmem)
  obtain ⟨-, heq⟩ | ⟨name, n, hname, -, hget, heq⟩ | ⟨name, hname, -, heq⟩ :=
    providerFor_cases c client
  · rw [heq]
    exact ⟨_, hgrows, ⟨hlength, hold⟩, hfresh⟩
  · -- nothing is made
    rw [heq, hname]
    refine ⟨owners, List.prefix_rfl, ⟨h.made, ?_⟩, ?_⟩
    · intro name' n' hmem
      exact h.entry name' n' (Lru.entries_get?_subset _ _ hmem)
    · exact h.entry name n (Lru.mem_of_get?_eq_some hget)
  · rw [heq]
    refine ⟨_, hgrows, ⟨hlength, ?_⟩, hfresh⟩
    intro name' n' hmem
    rcases List.mem_cons.mp (Lru.entries_insert_subset _ _ _ hmem) with hnew | hmem
    · obtain ⟨rfl, rfl⟩ := Prod.mk.inj hnew
      rw [hfresh, hname]
    · exact hold name' n' hmem

/-- The record only grows. -/
theorem serve (h : Numbered owners c) (calls : List (Option String)) :
    ∃ owners', owners <+: owners' ∧ Numbered owners' (c.serve calls) := by
  induction calls generalizing owners c with
  | nil => exact ⟨owners, List.prefix_rfl, h⟩
  | cons client calls ih =>
    obtain ⟨owners₁, hprefix₁, h₁, -⟩ := h.providerFor client
    obtain ⟨owners₂, hprefix₂, h₂⟩ := ih h₁
    exact ⟨owners₂, hprefix₁.trans hprefix₂, h₂⟩

end Numbered

/-- What two requests are given is on one record. -/
theorem exists_numbered (capacity : Nat) (before : List (Option String)) (a : Option String)
    (between : List (Option String)) :
    ∃ owners, Numbered owners ((empty capacity).serve (before ++ a :: between)) ∧
      owners[given capacity before a]? = some (name? a) := by
  obtain ⟨owners₁, -, h₁⟩ := (Numbered.empty capacity).serve before
  obtain ⟨owners₂, -, h₂, hgiven⟩ := h₁.providerFor a
  obtain ⟨owners₃, hprefix, h₃⟩ := h₂.serve between
  rw [serve_append, serve_cons]
  exact ⟨owners₃, h₃, getElem?_of_prefix hprefix hgiven⟩

/-- A new provider was given to no request before. -/
theorem given_ne_made (capacity : Nat) (before : List (Option String)) (a : Option String)
    (between : List (Option String)) :
    given capacity before a ≠ ((empty capacity).serve (before ++ a :: between)).made := by
  obtain ⟨owners, h, hgiven⟩ := exists_numbered capacity before a between
  rw [h.made]
  exact Nat.ne_of_lt (List.getElem?_eq_some_iff.mp hgiven).1

/-- **Who shares a provider has the same name.** -/
theorem name?_eq_of_given_eq {capacity : Nat} {before : List (Option String)} {a : Option String}
    {between : List (Option String)} {b : Option String}
    (h : given capacity before a = given capacity (before ++ a :: between) b) :
    ∃ name, name? a = some name ∧ name? b = some name := by
  obtain ⟨owners, hnumbered, hgiven⟩ := exists_numbered capacity before a between
  obtain ⟨owners', hprefix, -, hgiven'⟩ := hnumbered.providerFor b
  have hsame : name? a = name? b := by
    have hlater : owners'[given capacity before a]? = some (name? a) :=
      getElem?_of_prefix hprefix hgiven
    rw [h, given, hgiven'] at hlater
    exact (Option.some.inj hlater).symm
  cases hb : name? b with
  | some name => exact ⟨name, hsame.trans hb, rfl⟩
  | none =>
    -- without a name the second request was given a new provider
    rw [given.eq_def _ (before ++ _), providerFor_of_name?_eq_none hb] at h
    exact absurd h (given_ne_made capacity before a between)

/-! ## Who still has a provider -/

/-- A request uses its name, if it has one. -/
theorem tracks_providerFor {uses : List String} {c : Clients} (h : c.table.Tracks uses)
    (client : Option String) :
    (c.providerFor client).2.table.Tracks (uses ++ (name? client).toList) := by
  obtain ⟨hname, heq⟩ | ⟨name, n, hname, hkeys, -, heq⟩ | ⟨name, hname, -, heq⟩ :=
    providerFor_cases c client
  · rw [hname, heq, Option.toList_none, List.append_nil]
    exact h
  · rw [hname, heq, Option.toList_some]
    exact h.get? hkeys
  · rw [hname, heq, Option.toList_some]
    exact h.insert name c.made

/-- The table holds the names that asked last. -/
theorem tracks_serve (capacity : Nat) (calls : List (Option String)) :
    ((empty capacity).serve calls).table.Tracks (calls.filterMap name?) := by
  induction calls using List.reverseRecOn with
  | nil => exact .empty capacity
  | append_singleton calls client ih =>
    have hnames : (calls ++ [client]).filterMap name? =
        calls.filterMap name? ++ (name? client).toList := by
      rw [List.filterMap_append]
      cases hname : name? client <;> simp [hname]
    rw [hnames, serve_append, serve_cons, serve_nil]
    exact tracks_providerFor ih client

@[simp] theorem capacity_providerFor (c : Clients) (client : Option String) :
    (c.providerFor client).2.table.capacity = c.table.capacity := by
  obtain ⟨-, heq⟩ | ⟨name, n, -, -, -, heq⟩ | ⟨name, -, -, heq⟩ := providerFor_cases c client
  · rw [heq]
  · rw [heq]
    exact c.table.capacity_get? name
  · rw [heq]
    exact c.table.capacity_insert name c.made

@[simp] theorem capacity_serve (c : Clients) (calls : List (Option String)) :
    (c.serve calls).table.capacity = c.table.capacity := by
  induction calls generalizing c with
  | nil => rfl
  | cons client calls ih => rw [serve_cons, ih, capacity_providerFor]

/-- Under the name stands this provider, or none. -/
def Holds (name : String) (n : Nat) (c : Clients) : Prop :=
  ∀ n', (c.table.get? name).1 = some n' → n' = n

namespace Holds

variable {c : Clients} {client : Option String} {name : String}

/-- What a request is given is what stands under its name. -/
theorem given (hc : 0 < c.table.capacity) (hname : name? client = some name) :
    Holds name (c.providerFor client).1 (c.providerFor client).2 := by
  intro n' hn'
  by_cases hkeys : name ∈ c.table.keys
  · obtain ⟨n, hget⟩ := exists_get?_of_mem hkeys
    rw [providerFor_of_get?_eq_some hname hget] at hn' ⊢
    rw [Lru.get?_get?, hget] at hn'
    exact (Option.some.inj hn').symm
  · rw [providerFor_of_notMem hname hkeys] at hn' ⊢
    rw [Lru.get?_insert_self hc] at hn'
    exact (Option.some.inj hn').symm

/-- A request under another name leaves it there, or takes its place. -/
theorem providerFor {n : Nat} (h : Holds name n c) (hname : name? client ≠ some name) :
    Holds name n (c.providerFor client).2 := by
  intro n' hn'
  obtain ⟨-, heq⟩ | ⟨other, m, -, -, -, heq⟩ | ⟨other, hother, -, heq⟩ :=
    providerFor_cases c client
  · rw [heq] at hn'
    exact h n' hn'
  · rw [heq, Lru.get?_get?] at hn'
    exact h n' hn'
  · have hne : name ≠ other := by
      rintro rfl
      exact hname hother
    rw [heq] at hn'
    exact h n' (Lru.get?_of_get?_insert hne hn')

theorem serve {n : Nat} (h : Holds name n c) {calls : List (Option String)}
    (hcalls : name ∉ calls.filterMap name?) : Holds name n (c.serve calls) := by
  induction calls generalizing c with
  | nil => exact h
  | cons client calls ih =>
    simp only [List.mem_filterMap, List.exists_mem_cons_iff, not_or] at hcalls
    obtain ⟨hclient, hcalls⟩ := hcalls
    exact ih (h.providerFor hclient) (by simpa using hcalls)

end Holds

/-- **A client finds its provider again while fewer other clients than fit have asked since.** -/
theorem given_eq_iff (capacity : Nat) (before : List (Option String)) {a b : Option String}
    {between : List (Option String)} {name : String} (ha : name? a = some name)
    (hb : name? b = some name) (hbetween : name ∉ between.filterMap name?) :
    given capacity before a = given capacity (before ++ a :: between) b ↔
      (names between).length < max capacity 1 := by
  have htracks := tracks_serve capacity (before ++ a :: between)
  rw [List.filterMap_append, List.filterMap_cons_some ha] at htracks
  have hcapacity : ((empty capacity).serve (before ++ a :: between)).table.capacity =
      max capacity 1 := capacity_serve _ _
  have hkept := htracks.mem_keys_iff hbetween
  rw [hcapacity] at hkept
  rw [names, ← hkept]
  by_cases hkeys : name ∈ ((empty capacity).serve (before ++ a :: between)).table.keys
  · -- the name stayed, and so did what stands under it
    refine iff_of_true ?_ hkeys
    obtain ⟨n, hget⟩ := exists_get?_of_mem hkeys
    have hholds : Holds name (given capacity before a)
        ((empty capacity).serve (before ++ a :: between)) := by
      rw [serve_append, serve_cons]
      exact (Holds.given (tracks_serve capacity before).pos ha).serve hbetween
    rw [given.eq_def _ (before ++ _), providerFor_of_get?_eq_some hb hget]
    exact (hholds n hget).symm
  · -- the name was lost, so the provider is new
    refine iff_of_false ?_ hkeys
    rw [given.eq_def _ (before ++ _), providerFor_of_notMem hb hkeys]
    exact given_ne_made capacity before a between

/-! ## Clients by what they call themselves -/

/-- A name counts without the blanks around it; a blank one is no name. -/
theorem name?_some (s : String) :
    name? (some s) = if isBlankText s then none else some (trimmed s) := by
  rw [name?, Option.map_some, Option.filter_some, isEmpty_trimmed]
  cases isBlankText s <;> rfl

/-- Calls without a name have no provider of their own. -/
theorem name?_eq_none_iff {client : Option String} :
    name? client = none ↔ ∀ s ∈ client, isBlankText s := by
  cases client with
  | none => simp [name?]
  | some s => simp [name?_some]

/-- So two clients are the same exactly if their names are, trimmed. -/
theorem name?_eq_some_iff {client : Option String} {name : String} :
    name? client = some name ↔ ∃ s, client = some s ∧ ¬ isBlankText s ∧ trimmed s = name := by
  cases client with
  | none => simp [name?]
  | some s => simp [name?_some]

/-- **Clients are kept apart, however many there are and in whatever order they ask.** Two
requests are given the same provider only if both name a client, not a blank one, and it is the
same but for the blanks around it. A request that names none leaves the table as it is. A client
that asks again is given the provider it had exactly if fewer others than fit have asked since,
and there are never more clients in the table than fit. -/
theorem clients_isolated (capacity : Nat) :
    (∀ before a between b,
      given capacity before a = given capacity (before ++ a :: between) b →
        ∃ s t, a = some s ∧ b = some t ∧ ¬ isBlankText s ∧ trimmed s = trimmed t) ∧
    (∀ before client, (∀ s ∈ client, isBlankText s) →
      ((empty capacity).serve (before ++ [client])).table =
        ((empty capacity).serve before).table) ∧
    (∀ before s between t, ¬ isBlankText s → trimmed s = trimmed t →
      (∀ u, some u ∈ between → trimmed u ≠ trimmed s) →
      (given capacity before (some s) = given capacity (before ++ some s :: between) (some t) ↔
        (names between).length < max capacity 1)) ∧
    ∀ calls, ((empty capacity).serve calls).table.size ≤ max capacity 1 := by
  refine ⟨?_, ?_, ?_, ?_⟩
  · intro before a between b h
    obtain ⟨name, ha, hb⟩ := name?_eq_of_given_eq h
    obtain ⟨s, rfl, hs, htrim⟩ := name?_eq_some_iff.mp ha
    obtain ⟨t, rfl, -, htrim'⟩ := name?_eq_some_iff.mp hb
    exact ⟨s, t, rfl, rfl, hs, htrim.trans htrim'.symm⟩
  · intro before client h
    rw [serve_append, serve_cons, serve_nil,
      providerFor_of_name?_eq_none (name?_eq_none_iff.mpr h)]
  · intro before s between t hs htrim hbetween
    have ha : name? (some s) = some (trimmed s) := name?_eq_some_iff.mpr ⟨s, rfl, hs, rfl⟩
    have ht : ¬ isBlankText t := by rwa [← isEmpty_trimmed, ← htrim, isEmpty_trimmed]
    have hb : name? (some t) = some (trimmed s) := name?_eq_some_iff.mpr ⟨t, rfl, ht, htrim.symm⟩
    refine given_eq_iff capacity before ha hb ?_
    intro hmem
    obtain ⟨client, hclient, hname⟩ := List.mem_filterMap.mp hmem
    obtain ⟨u, rfl, -, hu⟩ := name?_eq_some_iff.mp hname
    exact hbetween u hclient hu
  · intro calls
    have hsize := (tracks_serve capacity calls).size_le
    rwa [capacity_serve] at hsize

theorem evicted_client :
    given 1 [] (some "a") = given 1 [some "a", none, some " "] (some "a ") ∧
      given 1 [] (some "a") ≠ given 1 [some "a", some "b", some " "] (some "a ") := by
  obtain ⟨-, -, hagain, -⟩ := clients_isolated 1
  have hblank : ¬ isBlankText "a" := by decide
  have htrim : trimmed "a" = trimmed "a " := by decide
  have hspace : trimmed " " ≠ trimmed "a" := by decide
  have hother : trimmed "b" ≠ trimmed "a" := by decide
  have hkept := hagain [] "a" [none, some " "] "a " hblank htrim (by simpa using hspace)
  have hlost := hagain [] "a" [some "b", some " "] "a " hblank htrim
    (by simpa using ⟨hother, hspace⟩)
  exact ⟨hkept.mpr (by decide), fun h => absurd (hlost.mp h) (by decide)⟩

end CodeNav.Clients

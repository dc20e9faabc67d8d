import CodeNav.Lru
import CodeNav.Text.Blank

/-!
# Clients of the service

Requests that name a client share that client's provider, so a repeated lookup joins the
one under way and another one replaces it. **Clients never share a provider**, and a
request without a client gets one of its own. Providers are known by their numbers; when
there are too many clients, the one that asked least recently loses its provider.
-/

namespace CodeNav

/-- The providers of clients. -/
structure Clients where
  /-- the number of each client's provider -/
  table : Lru String Nat
  /-- how many providers were made -/
  made : Nat

namespace Clients

/-- How many clients are kept unless said otherwise. -/
def defaultCapacity : Nat := 64

/-- No clients yet. -/
def empty (capacity : Nat) : Clients := ⟨.empty capacity, 0⟩

/-- The name of a client without blanks around it; a blank name is none. -/
def name? (client : Option String) : Option String :=
  (client.map Text.trimmed).filter (!·.isEmpty)

/-- The provider for a request: the client's own, or a new one. -/
def providerFor (c : Clients) (client : Option String) : Nat × Clients :=
  match name? client with
  | none => (c.made, { c with made := c.made + 1 })
  | some name =>
    match c.table.get? name with
    | (some n, table) => (n, { c with table })
    | (none, table) => (c.made, ⟨table.insert name c.made, c.made + 1⟩)

end Clients

end CodeNav

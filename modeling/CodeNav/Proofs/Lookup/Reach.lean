import CodeNav.Lookup.Engine
import CodeNav.Proofs.Lookup.Steps
import CodeNav.Proofs.Query.Text

/-!
# What lookups may do

A lookup by searching counts, asks for the facts about a repository, and sends queries: its own
query for each of its scopes, **each in one of two forms**. A hover reads the text of a file, too.
That is all there is in their trees (`definition_every`, `references_every`, `hover_every`), so what
is said of these steps is said of every lookup:

* **silence** (`definition_silent` and so on) — no lookup shows anything on its own; what it shows
  is up to those who asked for the search;
* **calls** (`searchScope_asks`, `repoFlags_asks`) — what is sent at all, and by whom.
-/

namespace CodeNav

namespace Engine

open Program

variable {ε : Type}

/-! ## One search -/

section Search

variable {P : Step ε → Prop} (hcount : ∀ x n, P (.count x n))

include hcount

/-- Receiving an answer counts, and does nothing else. -/
theorem received_every (scope : Scope) (o : Outcome Hit) :
    (received scope o : Program ε Unit).Every P := by
  cases o <;> exact .tally (hcount _ _)

theorem send_every (scope : Scope) {query : Query} {fileLocal : Bool}
    (hsearch : P (.ask (.search query.text fileLocal))) :
    (send scope query fileLocal : Program ε _).Every P :=
  (Every.tally (hcount _ _)).bind fun _ => .call hsearch

theorem noteWinner_every (scope : Scope) (side : Side) :
    (noteWinner scope side : Program ε Unit).Every P := by
  cases side with
  | primary => exact .pure _
  | fallback => exact .tally (hcount _ _)

/-- What is done with the outcome of a race. -/
def conclude (scope : Scope) : Except SearchError (Raced Hit) → Program ε (Outcome Hit)
  | .error err => return .error err
  | .ok r => do
    noteWinner scope r.winner
    return .ok r.results

theorem conclude_every (scope : Scope) (raced : Except SearchError (Raced Hit)) :
    (conclude scope raced : Program ε _).Every P := by
  cases raced with
  | error err => exact .pure _
  | ok r => exact (noteWinner_every hcount scope r.winner).bind fun _ => .pure _

/-- **The search of a scope** sends its query, in one of the two forms. -/
theorem searchScope_every (e : Engine) (scope : Scope) (query : Query) (fileLocal : Bool)
    (hsearch : ∀ form, query.IsForm form → P (.ask (.search form.text fileLocal))) :
    (e.searchScope scope query fileLocal : Program ε _).Every P := by
  have hreceived := received_every hcount scope
  have hplain := send_every hcount scope (hsearch _ (.inl rfl))
  have hindexed := send_every hcount scope (hsearch _ (.inr rfl))
  rw [searchScope]
  split
  · exact hindexed.bind fun r => .receive hreceived r
  · exact (Every.race hreceived _ hplain hindexed).bind fun raced =>
      conclude_every hcount scope raced

end Search

/-- The facts about a repository are asked for in one call, if at all. -/
theorem repoFlags_every {P : Step ε → Prop} (e : Engine) {repo : String}
    (h : P (.ask (.repository repo))) : (e.repoFlags repo : Program ε _).Every P := by
  rw [repoFlags]
  split
  · exact .pure _
  · split
    · exact .pure _
    · refine (Every.call h).bind fun r => (Every.await r).bind fun info => ?_
      split <;> exact .pure _

/-! ## The lookups -/

/-- The scopes of a search for references, all at once. -/
def referenceScopes (e : Engine) : List Scope :=
  if e.settings.publicInstance then [.currentRepository]
  else [.currentRepository, .otherRepositories]

/-- All that a lookup in a document may do that searches in some scopes. -/
structure Allows (P : Step ε → Prop) (document : Document) (scopes : List Scope) : Prop where
  count : ∀ x n, P (.count x n)
  repository : P (.ask (.repository document.repo))
  search : ∀ kind profile token flags fileLocal, ∀ scope ∈ scopes, ∀ form,
    (query kind document profile token flags scope).IsForm form →
      P (.ask (.search form.text fileLocal))

/-- All that reading the text of a file may do, besides counting. -/
structure AllowsTexts (P : Step ε → Prop) : Prop where
  content : ∀ repo revision path, P (.ask (.content repo revision path))
  consult : ∀ key, P (.consult key)
  remember : ∀ key text, P (.remember key text)

/-- What a hover makes of the definitions that were found. -/
def hoverOf (e : Engine) (document : Document) (profile : Profile) :
    Outcome Hit → Program ε (Except SearchError (Option HoverPayload))
  | .error err => return .error err
  | .ok [] => return .ok none
  | .ok (hit :: _) => do
    let text ← definingText document hit
    let shown := (e.registry.forPath? hit.file).getD profile
    return .ok (text.bind fun t => Hover.build? t hit shown)

section Lookups

variable {P : Step ε → Prop} (e : Engine) {document : Document} {scopes : List Scope}

theorem searchTiers_every (h : Allows P document scopes) (profile : Profile) (token : String)
    (flags : RepoInfo) : (e.searchTiers document profile token flags scopes).Every P := by
  -- the scopes behind are among all scopes
  suffices hall : ∀ rest, (∀ scope ∈ rest, scope ∈ scopes) →
      (e.searchTiers document profile token flags rest).Every P from hall scopes fun _ h => h
  intro rest hrest
  induction rest with
  | nil => exact .pure _
  | cons scope rest ih =>
    obtain ⟨hscope, hrest⟩ := List.forall_mem_cons.mp hrest
    refine (e.searchScope_every h.count scope _ true fun form hform =>
      h.search _ _ _ _ _ scope hscope form hform).bind fun found => ?_
    split
    · exact .pure _
    · exact ih hrest
    · exact .pure _

theorem definitionsOf_every (h : Allows P document e.definitionScopes) (profile : Profile)
    (token : String) : (e.definitionsOf document profile token).Every P :=
  (e.repoFlags_every h.repository).bind fun flags => e.searchTiers_every h profile token flags

/-- **Definitions** are searched for, and that is all. -/
theorem definition_every (h : Allows P document e.definitionScopes) (position : Position) :
    (e.definition document position).Every P := by
  rw [definition]
  split
  · exact .pure _
  · split
    · exact .pure _
    · exact e.definitionsOf_every h _ _

/-- **References** are searched for, in one scope or in two at once. -/
theorem references_every (h : Allows P document e.referenceScopes) (position : Position) :
    (e.references document position).Every P := by
  have hwithin : ∀ profile token flags, ∀ scope ∈ e.referenceScopes,
      (e.searchScope scope (query .references document profile token flags scope)
        false).Every P := fun _ _ _ scope hscope =>
    e.searchScope_every h.count scope _ false (h.search _ _ _ _ _ scope hscope)
  rw [referenceScopes] at hwithin
  rw [references]
  split
  · exact .pure _
  · refine (e.repoFlags_every h.repository).bind fun flags => ?_
    dsimp only
    by_cases hpublic : e.settings.publicInstance
    · rw [if_pos hpublic] at hwithin ⊢
      exact Every.bind (hwithin _ _ _ _ List.mem_cons_self) fun _ => .pure _
    · rw [if_neg hpublic] at hwithin ⊢
      refine Every.bind (.both ?_ ?_) fun _ => .pure _
      · exact hwithin _ _ _ _ List.mem_cons_self
      · exact hwithin _ _ _ _ (List.mem_cons_of_mem _ List.mem_cons_self)

/-- The text of a definition is read from the cache or asked for, and remembered. -/
theorem definingText_every (hcount : ∀ x n, P (.count x n)) (h : AllowsTexts P)
    (document : Document) (hit : Hit) : (definingText document hit).Every P := by
  rw [definingText]
  split
  · exact .pure _
  · refine ⟨h.consult _, ?_⟩
    rintro (_ | text)
    · refine (Every.call (h.content _ _ _)).bind fun r => (Every.await r).bind fun fetched => ?_
      split
      · exact ⟨h.remember _ _, trivial⟩
      · exact .pure _
    · exact (Every.tally (hcount _ _)).bind fun _ => .pure _

theorem hoverOf_every (hcount : ∀ x n, P (.count x n)) (h : AllowsTexts P) (profile : Profile)
    (found : Outcome Hit) : (e.hoverOf document profile found).Every P := by
  rw [hoverOf.eq_def]
  split
  · exact .pure _
  · exact .pure _
  · exact (definingText_every hcount h document _).bind fun _ => .pure _

/-- **A hover** searches for definitions, and then reads the text of a file. -/
theorem hover_every (h : Allows P document e.definitionScopes) (htexts : AllowsTexts P)
    (position : Position) : (e.hover document position).Every P := by
  rw [hover]
  split
  · exact .pure _
  · split
    · exact .pure _
    · exact (e.definitionsOf_every h _ _).bind fun found =>
        e.hoverOf_every h.count htexts _ found

end Lookups

/-! ## What is shown -/

section Silent

variable (e : Engine) (document : Document) (position : Position)

theorem allows_silent (scopes : List Scope) :
    Allows (Step.IsSilent : Step ε → Prop) document scopes :=
  ⟨fun _ _ => trivial, trivial, fun _ _ _ _ _ _ _ _ _ => trivial⟩

/-- A lookup of definitions shows nothing on its own. -/
theorem definition_silent : (e.definition document position : Program ε _).Silent :=
  e.definition_every (allows_silent document _) position

/-- A lookup of references shows nothing on its own. -/
theorem references_silent : (e.references document position : Program ε _).Silent :=
  e.references_every (allows_silent document _) position

/-- A hover shows nothing on its own. -/
theorem hover_silent : (e.hover document position : Program ε _).Silent :=
  e.hover_every (allows_silent document _)
    ⟨fun _ _ _ => trivial, fun _ => trivial, fun _ _ => trivial⟩ position

end Silent

/-! ## What is sent -/

/-- The search of a scope sends its query, in one of the two forms, and nothing else. -/
theorem searchScope_asks (e : Engine) (scope : Scope) (query : Query) (fileLocal : Bool)
    {P : Call → Prop} (hP : ∀ form, query.IsForm form → P (.search form.text fileLocal)) :
    (e.searchScope scope query fileLocal : Program ε _).Asks P :=
  e.searchScope_every (fun _ _ => trivial) scope query fileLocal hP

/-- Who asks for the facts about a repository makes that call and no other. -/
theorem repoFlags_asks (e : Engine) (repo : String) :
    (e.repoFlags repo : Program ε _).Asks (· = .repository repo) :=
  e.repoFlags_every rfl

end Engine

end CodeNav

import CodeNav.Hover
import CodeNav.Language.Registry
import CodeNav.Lookup.Race
import CodeNav.Rank
import CodeNav.Settings
import CodeNav.Token

/-!
# Lookups by searching

Definitions, references and hovers of the identifier under the cursor, found by
searching for its name.

* **Definitions** are looked for in the current repository and, if it has none,
  everywhere. The hits are narrowed by what the document can see.
* **References** are looked for in the current repository and in all others at once;
  one of the two may fail.
* A **hover** is made from the first definition and the text of its file.

A search that reaches beyond the current repository is never sent on a public instance.
-/

namespace CodeNav

/-- What lookups by searching depend on, besides the collaborators. -/
structure Engine where
  registry : Registry
  settings : Settings
  /-- facts about repositories can be asked for -/
  hasResolver : Bool

namespace Engine

variable {ε : Type}

/-! ## One scope -/

/-- Send a query. -/
def send (scope : Scope) (query : Query) (fileLocal : Bool) :
    Program ε (Promise (Outcome Hit)) := do
  Program.tally (.searchCalls scope) 1
  Program.call (.search query.text fileLocal)

/-- Count what was received. -/
def received (scope : Scope) : Outcome Hit → Program ε Unit
  | .ok hits => Program.tally (.searchResults scope) hits.length
  | .error _ => Program.tally (.searchFailures scope) 1

/-- Count a scope that the index-only query answered. -/
def noteWinner (scope : Scope) : Side → Program ε Unit
  | .primary => return ()
  | .fallback => Program.tally (.indexFallbacks scope) 1

/-- The hits of a query in one scope: the index-only form alone if that is asked for,
else a race between the query and its index-only form. -/
def searchScope (e : Engine) (scope : Scope) (query : Query) (fileLocal : Bool) :
    Program ε (Outcome Hit) :=
  if e.settings.indexedOnly || query.isIndexOnly then do
    Program.receive (received scope) (← send scope query.toIndexOnly fileLocal)
  else do
    let raced ← Program.race e.settings.unindexedTimeoutMs (send scope query fileLocal)
      (send scope query.toIndexOnly fileLocal) (received scope)
    match raced with
    | .error err => return .error err
    | .ok r =>
      noteWinner scope r.winner
      return .ok r.results

/-! ## What to search for -/

/-- The profile of a document and the token under a position. -/
def tokenAt? (e : Engine) (document : Document) (position : Position) :
    Option (Profile × Token) := do
  let profile ← e.registry.resolve? (some document.languageId) document.path
  let token ← Token.find? document.text position profile.linePatterns profile.identifier
  return (profile, token)

/-- Whether queries ask for forks and archived repositories. What is not known about
a repository counts as no. -/
def repoFlags (e : Engine) (repo : String) : Program ε RepoInfo :=
  if e.settings.includeForks then return ⟨true, true⟩
  else if !e.hasResolver then return ⟨false, false⟩
  else do
    let info ← Program.await (← Program.call (.repository repo))
    match info with
    | .ok (some info) => return info
    | _ => return ⟨false, false⟩

/-- The query for a token of a document in a scope. -/
def query (kind : QueryKind) (document : Document) (profile : Profile) (token : String)
    (flags : RepoInfo) (scope : Scope) : Query :=
  Query.build kind
    { token, repo := document.repo, revision := document.revision, path := document.path
      extensions := profile.extensions, scope
      includeForks := flags.isFork, includeArchived := flags.isArchived }

/-! ## Definitions -/

/-- The hits that can be seen from a document: those of other files only if they are
not local to them, unless there would be none. -/
def visible (hits : List Hit) (document : Document) : List Hit :=
  let seen := hits.filter fun h => !h.fileLocal || h.isIn document
  if seen.isEmpty then hits else seen

/-- The hits in the document itself, if there are any. -/
def preferOwn (hits : List Hit) (document : Document) : List Hit :=
  if hits.any (·.isIn document) then hits.filter (·.isIn document) else hits

/-- Narrow the hits for a definition: visible ones, those of imported files, the nearest
first, and the document's own alone if it has any. -/
def refine (hits : List Hit) (document : Document) (profile : Profile) : List Hit :=
  let kept := profile.filterDefinitions (visible hits document)
    ⟨document.path.toList, document.text.toList⟩
  preferOwn (sortByProximity kept document.path) document

/-- Search for definitions scope by scope, until one has hits or fails. -/
def searchTiers (e : Engine) (document : Document) (profile : Profile) (token : String)
    (flags : RepoInfo) : List Scope → Program ε (Outcome Hit)
  | [] => return .ok []
  | scope :: scopes => do
    let found ← e.searchScope scope (query .definition document profile token flags scope) true
    match found with
    | .error err => return .error err
    | .ok [] => e.searchTiers document profile token flags scopes
    | .ok hits => return .ok (refine hits document profile)

/-- The scopes of a search for definitions, one after the other. -/
def definitionScopes (e : Engine) : List Scope :=
  if e.settings.publicInstance then [.currentRepository]
  else [.currentRepository, .allRepositories]

/-- The definitions of a token. -/
def definitionsOf (e : Engine) (document : Document) (profile : Profile) (token : String) :
    Program ε (Outcome Hit) := do
  let flags ← e.repoFlags document.repo
  e.searchTiers document profile token flags e.definitionScopes

/-- The definitions of the token under a position. A token in a comment has none. -/
def definition (e : Engine) (document : Document) (position : Position) :
    Program ε (Outcome Hit) :=
  match e.tokenAt? document position with
  | none => return .ok []
  | some (profile, token) =>
    if token.isComment then return .ok []
    else e.definitionsOf document profile token.text

/-! ## References -/

/-- What makes two hits the same reference. -/
def referenceKey (h : Hit) : String × String × Range := (h.repository, h.file, h.range)

/-- The first hit of each reference, given the references already taken. -/
def distinct (seen : List (String × String × Range)) : List Hit → List Hit
  | [] => []
  | h :: hits =>
    if seen.contains (referenceKey h) then distinct seen hits
    else h :: distinct (referenceKey h :: seen) hits

/-- The hits of all scopes together, each reference once. If every scope failed, the
only failure there is, or all their messages. -/
def unite (outcomes : List (Outcome Hit)) : Outcome Hit :=
  let failures := outcomes.filterMap fun
    | .error err => some err
    | .ok _ => none
  let hits := outcomes.flatMap fun
    | .error _ => []
    | .ok hits => hits
  if failures.length = outcomes.length then
    match failures with
    | [err] => .error err
    | _ => .error ((SearchError.ofMessages (failures.map (·.message))).getD
        (.backend "every reference tier failed"))
  else .ok (distinct [] hits)

/-- The references to the token under a position. -/
def references (e : Engine) (document : Document) (position : Position) :
    Program ε (Outcome Hit) :=
  match e.tokenAt? document position with
  | none => return .ok []
  | some (profile, token) => do
    let flags ← e.repoFlags document.repo
    let within (scope : Scope) : Program ε (Outcome Hit) :=
      e.searchScope scope (query .references document profile token.text flags scope) false
    if e.settings.publicInstance then
      return unite [← within .currentRepository]
    else
      let (current, other) ← (within .currentRepository).both (within .otherRepositories)
      return unite [current, other]

/-! ## Hovers -/

/-- The text of a file, from the cache if it is there. Failures and missing files are
not remembered. -/
def content (key : ContentKey) : Program ε (Option String) :=
  .consult key fun
    | some text => do
      Program.tally .cacheHits 1
      return some text
    | none => do
      let fetched ← Program.await (← Program.call (.content key.repo key.revision key.path))
      match fetched with
      | .ok (some text) => .remember key text (return some text)
      | _ => return none

/-- The text of the file that a definition is in. -/
def definingText (document : Document) (hit : Hit) : Program ε (Option String) :=
  if hit.isIn document then return some document.text
  else content ⟨hit.repository, hit.revision, hit.file⟩

/-- The hover for the token under a position, made from its first definition. Only a
failed search is a failure; without the text of the definition there is no hover. -/
def hover (e : Engine) (document : Document) (position : Position) :
    Program ε (Except SearchError (Option HoverPayload)) :=
  match e.tokenAt? document position with
  | none => return .ok none
  | some (profile, token) =>
    if token.isComment then return .ok none
    else do
      let found ← e.definitionsOf document profile token.text
      match found with
      | .error err => return .error err
      | .ok [] => return .ok none
      | .ok (hit :: _) =>
        let text ← definingText document hit
        let shown := (e.registry.forPath? hit.file).getD profile
        return .ok (text.bind fun t => Hover.build? t hit shown)

end Engine

end CodeNav

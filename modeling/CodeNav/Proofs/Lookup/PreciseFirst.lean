import CodeNav.Proofs.Lookup.Alone
import CodeNav.Proofs.Lookup.Record
import CodeNav.Proofs.Lookup.Reach

/-!
# What an index knows comes first

A lookup asks an index and searches. The index may know something or nothing, fail, or never
answer, and so may each search. Here it is said what a lookup that nobody cancels shows in each
case, beside any world and up to any limit.

* **Definitions and hovers** (`Instead`) — what the index knows is all that is shown, and nothing
  is searched for. If it knows nothing, only what a search finds is shown.
* **References** (`Extends`) — what the index knows is shown at once and stays: the snapshot that
  follows **adds searched locations behind it**, none of them in a file that the index knows
  a reference in.
-/

namespace CodeNav

/-! ## What an index has come to -/

namespace Sources

open Program

variable {σ α β : Type} {w : World σ} {limit : Nat} {m : Machine σ}

/-- What an index that made a promise has come to at an instant: its answer, or `fallback` if it
failed. Without an index it is `fallback`, too. -/
def known? (s : Sources) (fallback : α) (promise : Promise (Except SearchError α))
    (instant : Nat) : Option α :=
  if s.hasIndex then (promise.readyBy? instant).map (·.toOption.getD fallback) else some fallback

section Indexed

variable (s : Sources) (fallback : α) {ask : Program Snapshot (Promise (Except SearchError α))}

/-- Asking an index comes to what the index has come to by then. If it was not asked, or failed,
that is the fallback, so no lookup hangs on an index that is not there. -/
theorem outcome?_indexed {promise : Promise (Except SearchError α)} {m' : Machine σ}
    (hask : ask.run w limit m = ⟨.done promise, [], m'⟩) (hnow : m'.now = m.now) :
    ((s.indexed fallback ask).run w limit m).outcome? =
      s.known? fallback promise (max m.now limit) := by
  rw [indexed, known?]
  split
  · have hsome : (ask.run w limit m).outcome? = some promise := by
      rw [hask]
      rfl
    rw [(run_bind_of_some hsome _).1, hask, ← hnow]
    have hawait : ((await promise : Program Snapshot _).run w limit m').outcome? =
      promise.readyBy? (max m'.now limit) := outcome?_await promise m'
    cases h : promise.readyBy? (max m'.now limit) with
    | none =>
      rw [h] at hawait
      exact (run_bind_of_none hawait _).1
    | some answer =>
      rw [h] at hawait
      refine (run_bind_of_some hawait _).1.trans ?_
      cases answer <;> rfl
  · rfl

/-- Asking an index takes the steps of the question: its answer is waited for, and read. -/
theorem indexed_every {P : Step Snapshot → Prop} (hask : ask.Every P) :
    (s.indexed fallback ask).Every P := by
  rw [indexed]
  split
  · refine hask.bind fun promise => (Every.await promise).bind fun answer => ?_
    split <;> exact .pure _
  · exact .pure _

end Indexed

end Sources

/-! ## The index or a search -/

namespace Snapshot

/-- Everything in a snapshot is marked as imprecise, or nothing is. -/
def Marked (imprecise : Bool) : Snapshot → Prop
  | .locations found => ∀ a ∈ found, a.imprecise = imprecise
  | .hover payload => payload.imprecise = imprecise

/-- One list of locations goes on where another one ends. -/
def Continues : Snapshot → Snapshot → Prop
  | .locations found, .locations more => found <+: more
  | _, _ => False

/-- What an index knows is precise, entry by entry. -/
theorem marked_precise (found : List Location) : (precise found).Marked false := by
  simp [Marked, precise, Annotated.precise]

/-- What a search finds is imprecise, entry by entry. -/
theorem marked_searched (hits : List Hit) : (searched hits).Marked true := by
  simp [Marked, searched, Annotated.searched]

end Snapshot

namespace Sources

open Program

variable {σ α β : Type} {w : World σ} {limit : Nat} {m : Machine σ}

/-- Show a snapshot if there is one. -/
def offer (snapshot : Option Snapshot) : Program Snapshot Unit :=
  match snapshot with
  | some e => give e
  | none => return ()

/-- Showing takes no time and asks nobody. -/
@[simp] theorem run_offer (snapshot : Option Snapshot) :
    (offer snapshot).run w limit m = ⟨.done (), snapshot.toList, m⟩ := by
  cases snapshot <;> rfl

/-- What is found in silence is shown when the search has ended. -/
theorem run_bind_offer {search : Program Snapshot β} (hsearch : search.Silent)
    (searched? : β → Option Snapshot) {ran : Ran σ Snapshot Unit}
    (hran : (search >>= fun found => offer (searched? found)).run w limit m = ran) :
    ran.emitted = ((search.run w limit m).outcome?.bind searched?).toList ∧
      ran.outcome? = (search.run w limit m).outcome?.map fun _ => () := by
  subst hran
  rw [hsearch.emitted_bind]
  cases hfound : (search.run w limit m).outcome? with
  | none => exact ⟨rfl, (run_bind_of_none hfound _).1⟩
  | some found =>
    rw [(run_bind_of_some hfound _).1]
    simp only [run_offer]
    exact ⟨rfl, rfl⟩

/-- Show what is precise of the index's answer; if there is nothing, search. -/
def instead (index : Program Snapshot α) (precise? : α → Option Snapshot)
    (search : Program Snapshot β) (searched? : β → Option Snapshot) : Program Snapshot Unit := do
  let known ← index
  match precise? known with
  | some snapshot => give snapshot
  | none => offer (searched? (← search))

/-- What a lookup shows that takes the word of an index, and searches only if that is nothing.
The index has come to `known?`, and a search that starts then would come to `found?`. -/
structure Instead (c : Call) (known? : Option α) (precise? : α → Option Snapshot)
    (found? : Option β) (searched? : β → Option Snapshot) (record : List Sent)
    (ran : Ran σ Snapshot Unit) : Prop where
  pending : known? = none → ran.emitted = [] ∧ ran.outcome? = none
  /-- what the index knows is all that is shown, and nobody else is asked -/
  only : ∀ known snapshot, known? = some known → precise? known = some snapshot →
    ran.emitted = [snapshot] ∧ snapshot.Marked false ∧ ran.outcome? = some () ∧
      ∀ x ∈ record, x.call = c
  /-- if it knows nothing, what the search finds is shown -/
  otherwise : ∀ known, known? = some known → precise? known = none →
    ran.emitted = (found?.bind searched?).toList ∧ (∀ e ∈ ran.emitted, e.Marked true) ∧
      ran.outcome? = found?.map fun _ => ()

/-- **The index or a search, never both.** Neither of the two shows anything on its own, so all that
is shown is the one snapshot at the end; and where the index knows something, the search is not
even started. -/
theorem instead_shows {c : Call} {index : Program Snapshot α} {precise? : α → Option Snapshot}
    {search : Program Snapshot β} {searched? : β → Option Snapshot}
    (hindex : index.Silent) (hasks : index.Asks (· = c)) (hsearch : search.Silent)
    (hprecise : ∀ a e, precise? a = some e → e.Marked false)
    (hsearched : ∀ b e, searched? b = some e → e.Marked true) :
    Instead c (index.run w limit m).outcome? precise?
      (search.run w limit (index.run w limit m).machine).outcome? searched?
      ((instead index precise? search searched?).record w limit m)
      ((instead index precise? search searched?).run w limit m) := by
  refine ⟨fun hnone => ?_, fun known snapshot hknown hsnapshot => ?_,
    fun known hknown hnothing => ?_⟩
  · refine ⟨?_, (run_bind_of_none hnone _).1⟩
    rw [instead, hindex.emitted_bind, hnone]
  · -- the index knows something
    have hgive : (instead index precise? search searched?).record w limit m =
        index.record w limit m := by
      rw [instead, record_bind_of_some hknown]
      simp only [hsnapshot]
      exact List.append_nil _
    obtain ⟨g, o, htrace, -⟩ := trace_record w limit index m
    refine ⟨?_, hprecise _ _ hsnapshot, ?_, hgive ▸ htrace.of_asks hasks⟩
    · rw [instead, hindex.emitted_bind, hknown]
      simp only [hsnapshot]
      rfl
    · rw [instead, (run_bind_of_some hknown _).1]
      simp only [hsnapshot]
      rfl
  · -- it knows nothing
    have hshown : ((instead index precise? search searched?).run w limit m).emitted =
          ((search.run w limit (index.run w limit m).machine).outcome?.bind searched?).toList ∧
        ((instead index precise? search searched?).run w limit m).outcome? =
          (search.run w limit (index.run w limit m).machine).outcome?.map fun _ => () := by
      rw [instead, hindex.emitted_bind, (run_bind_of_some hknown _).1, hknown]
      simp only [hnothing]
      exact run_bind_offer hsearch searched? rfl
    refine ⟨hshown.1, fun e he => ?_, hshown.2⟩
    rw [hshown.1, Option.mem_toList] at he
    obtain ⟨found, -, he⟩ := Option.bind_eq_some_iff.mp he
    exact hsearched found e he

/-! ## Definitions and hovers -/

/-- What is precise about locations that an index knows. -/
def knownLocations? (known : List Location) : Option Snapshot :=
  if known.isEmpty then none else some (.precise known)

/-- What a search for definitions has to show. -/
def foundDefinitions? : Outcome Hit → Option Snapshot
  | .ok hits => some (.searched hits)
  | .error _ => none

/-- A lookup of definitions takes the word of the index, or searches. -/
theorem definition_eq_instead (s : Sources) (d : Document) (p : Position) :
    s.definition d p = instead (s.indexed [] (Program.call (.indexedDefinition d p)))
      knownLocations? (s.engine.definition d p) foundDefinitions? := by
  refine congrArg (Program.bind _) (funext fun known => ?_)
  cases known with
  | nil =>
    refine congrArg (Program.bind _) (funext fun found => ?_)
    cases found <;> rfl
  | cons l ls => rfl

/-- What is precise about a hover that an index knows. -/
def knownHover? (known : Option HoverPayload) : Option Snapshot :=
  (known.filter (!·.contents.isEmpty)).map (.hover <| .precise ·)

/-- What a search for a hover has to show. -/
def foundHover? : Except SearchError (Option HoverPayload) → Option Snapshot
  | .ok payload => payload.map (.hover <| .searched ·)
  | .error _ => none

/-- So does a hover, except that an index that knows a hover without contents knows nothing. -/
theorem hover_eq_instead (s : Sources) (d : Document) (p : Position) :
    s.hover d p = instead (s.indexed none (Program.call (.indexedHover d p)))
      knownHover? (s.engine.hover d p) foundHover? := by
  refine congrArg (Program.bind _) (funext fun known => ?_)
  rw [knownHover?]
  cases known.filter (!·.contents.isEmpty) with
  | some payload => rfl
  | none =>
    refine congrArg (Program.bind _) (funext fun found => ?_)
    cases found with
    | error err => rfl
    | ok payload => cases payload <;> rfl

/-- What is shown of an index is all that it knows. -/
theorem knownLocations?_eq_some {known : List Location} {e : Snapshot}
    (h : knownLocations? known = some e) : e = .precise known := by
  rw [knownLocations?] at h
  split at h
  · cases h
  · exact (Option.some.inj h).symm

/-- No location of an index is marked as imprecise, … -/
theorem marked_knownLocations? {known : List Location} {e : Snapshot}
    (h : knownLocations? known = some e) : e.Marked false :=
  knownLocations?_eq_some h ▸ Snapshot.marked_precise known

/-- … every definition that a search found is, … -/
theorem marked_foundDefinitions? {found : Outcome Hit} {e : Snapshot}
    (h : foundDefinitions? found = some e) : e.Marked true := by
  cases found with
  | error err => cases h
  | ok hits =>
    cases h
    exact Snapshot.marked_searched hits

/-- … and so it is with hovers. -/
theorem marked_knownHover? {known : Option HoverPayload} {e : Snapshot}
    (h : knownHover? known = some e) : e.Marked false := by
  obtain ⟨payload, -, rfl⟩ := Option.map_eq_some_iff.mp h
  rfl

theorem marked_foundHover? {found : Except SearchError (Option HoverPayload)} {e : Snapshot}
    (h : foundHover? found = some e) : e.Marked true := by
  cases found with
  | error err => cases h
  | ok payload =>
    obtain ⟨payload, -, rfl⟩ := Option.map_eq_some_iff.mp h
    rfl

/-! ## References -/

/-- What a search for references adds to those that an index knows. -/
def foundReferences? (known : List Location) : Outcome Hit → Option Snapshot
  | .ok hits =>
    if hits.isEmpty && !known.isEmpty then none
    else some (.locations (mergeFileDisjoint known (hits.map (·.location))))
  | .error _ => none

/-- A lookup of references shows what the index knows and searches all the same. -/
theorem references_eq (s : Sources) (d : Document) (p : Position) (declaration : Bool) :
    s.references d p declaration =
      s.indexed [] (Program.call (.indexedReferences d p declaration)) >>= fun known =>
        offer (knownLocations? known) >>= fun _ =>
          s.engine.references d p >>= fun found => offer (foundReferences? known found) := by
  refine congrArg (Program.bind _) (funext fun known => ?_)
  have hfirst : ∀ rest : Program Snapshot Unit,
      (if !known.isEmpty then (do give (.precise known); rest) else rest) =
        offer (knownLocations? known) >>= fun _ => rest := by
    intro rest
    cases known <;> rfl
  refine (hfirst _).trans (congrArg (Program.bind _) (funext fun _ => ?_))
  refine congrArg (Program.bind _) (funext fun found => ?_)
  cases found with
  | error err => rfl
  | ok hits =>
    simp only [foundReferences?]
    split <;> rfl

/-- What a lookup of references shows when the index knows `known` and the search has come to
`found?`. -/
def referencesShown (known : List Location) (found? : Option (Outcome Hit)) : List Snapshot :=
  (knownLocations? known).toList ++ (found?.bind (foundReferences? known)).toList

/-- The search for references starts only when the index has answered, and its end is the end of
the lookup: what was known has been shown by then. -/
theorem references_run (s : Sources) (d : Document) (p : Position) (declaration : Bool)
    {known : List Location} {asked : Ran σ Snapshot (List Location)}
    (hasked : (s.indexed [] (Program.call (.indexedReferences d p declaration))).run w limit m =
      asked) (hknown : asked.outcome? = some known)
    {searched : Ran σ Snapshot (Outcome Hit)}
    (hsearched : (s.engine.references d p).run w limit asked.machine = searched) :
    ((s.references d p declaration).run w limit m).emitted =
        referencesShown known searched.outcome? ∧
      ((s.references d p declaration).run w limit m).outcome? =
        searched.outcome?.map fun _ => () := by
  have hindex : (s.indexed [] (Program.call (.indexedReferences d p declaration))).Silent :=
    s.indexed_every [] (.call trivial)
  have hsearch := s.engine.references_silent (ε := Snapshot) d p
  subst hasked hsearched
  rw [references_eq, hindex.emitted_bind, (run_bind_of_some hknown _).1, hknown]
  obtain ⟨hemitted, houtcome⟩ := run_bind_offer (w := w) hsearch (foundReferences? known) rfl
  simp only [run_bind (offer _), run_offer]
  exact ⟨congrArg _ hemitted, houtcome⟩

/-- What a lookup of references shows, given what the index knows and what the search has come
to, if it has: the locations that the index knows stay, and searched ones are added behind. -/
structure Extends (known : List Location) (found? : Option (Outcome Hit)) (es : List Snapshot) :
    Prop where
  /-- every snapshot holds all that is known, and behind it searched locations in other files -/
  each : ∀ e ∈ es, ∃ more : List Location,
    e = .locations (known.map .precise ++ more.map .searched) ∧
      ∀ l ∈ more, ∀ k ∈ known, l.uri ≠ k.uri
  /-- what is known is shown first -/
  first : known ≠ [] → es.head? = some (.precise known)
  /-- nothing is taken back -/
  grows : es.IsChain Snapshot.Continues
  succeeded : ∀ hits, found? = some (.ok hits) →
    Reader.last {} (Stream.after {} es).close = .value (.locations (known.map .precise ++
      ((hits.map (·.location)).filter fun l => ∀ k ∈ known, k.uri ≠ l.uri).map .searched))
  failed : ∀ err, found? = some (.error err) →
    Reader.last {} (Stream.after {} es).close =
      if known = [] then .ended else .value (.precise known)

/-- Merging keeps what is known and adds what was searched in other files. -/
theorem mergeFileDisjoint_eq (known searched : List Location) :
    mergeFileDisjoint known searched = known.map .precise ++
      (searched.filter fun l => ∀ k ∈ known, k.uri ≠ l.uri).map .searched := by
  have hother : ∀ l : Location, (!(known.map (·.fileKey)).contains l.fileKey) =
      decide (∀ k ∈ known, k.uri ≠ l.uri) := by
    intro l
    rw [Bool.eq_iff_iff]
    simp [Location.fileKey]
  rw [mergeFileDisjoint]
  simp only [hother]

/-- What is added to known references continues them, with locations in other files. -/
theorem foundReferences?_eq_some {known : List Location} {found : Outcome Hit} {e : Snapshot}
    (h : foundReferences? known found = some e) : ∃ more : List Location,
      e = .locations (known.map .precise ++ more.map .searched) ∧
        ∀ l ∈ more, ∀ k ∈ known, l.uri ≠ k.uri := by
  cases found with
  | error err => cases h
  | ok hits =>
    simp only [foundReferences?] at h
    split at h
    · cases h
    · rw [mergeFileDisjoint_eq] at h
      refine ⟨_, (Option.some.inj h).symm, fun l hl k hk => ?_⟩
      have hother := (List.mem_filter.mp hl).2
      exact (of_decide_eq_true hother k hk).symm

/-- Of at most two snapshots, a reader that comes late sees the second one, if there is one. -/
theorem ofAll_append (a b : Option Snapshot) :
    Reading.ofAll (a.toList ++ b.toList) =
      match b.or a with
      | some e => .value e
      | none => .ended := by
  cases b <;> cases a <;> rfl

/-- What a lookup of references shows extends what the index knows, whatever the search came to. -/
theorem referencesShown_extends (known : List Location) (found? : Option (Outcome Hit)) :
    Extends known found? (referencesShown known found?) := by
  have hknown : known ≠ [] → knownLocations? known = some (.precise known) := by
    intro hne
    rw [knownLocations?, if_neg (by simpa using hne)]
  refine ⟨fun e he => ?_, fun hne => ?_, ?_, fun hits hok => ?_, fun err herr => ?_⟩
  · -- each
    rw [referencesShown, List.mem_append, Option.mem_toList, Option.mem_toList] at he
    rcases he with he | he
    · exact ⟨[], by simp [knownLocations?_eq_some he, Snapshot.precise], nofun⟩
    · obtain ⟨found, -, he⟩ := Option.bind_eq_some_iff.mp he
      exact foundReferences?_eq_some he
  · -- first
    rw [referencesShown, hknown hne]
    rfl
  · -- grows
    rw [referencesShown]
    cases ha : knownLocations? known with
    | none => cases found?.bind (foundReferences? known) <;> simp
    | some a =>
      cases hb : found?.bind (foundReferences? known) with
      | none => simp
      | some b =>
        obtain rfl := knownLocations?_eq_some ha
        obtain ⟨found, -, hb⟩ := Option.bind_eq_some_iff.mp hb
        obtain ⟨more, rfl, -⟩ := foundReferences?_eq_some hb
        simp [Snapshot.Continues, Snapshot.precise]
  · -- succeeded
    subst hok
    rw [Stream.last_close_after, referencesShown, ofAll_append, ← mergeFileDisjoint_eq,
      Option.bind_some, foundReferences?]
    by_cases hnothing : (hits.isEmpty && !known.isEmpty) = true
    · obtain ⟨hhits, hne⟩ : hits = [] ∧ known ≠ [] := by simpa using hnothing
      rw [if_pos hnothing, hknown hne, hhits]
      simp [mergeFileDisjoint, Snapshot.precise]
    · rw [if_neg hnothing]
      rfl
  · -- failed
    subst herr
    rw [Stream.last_close_after, referencesShown, ofAll_append, Option.bind_some, foundReferences?,
      Option.none_or]
    by_cases hne : known = []
    · subst hne
      rfl
    · rw [hknown hne, if_neg hne]

/-! ## Every lookup -/

/-- **What an index knows comes first, and is never taken back.** Beside any world and up to any
limit, a lookup of definitions or of a hover shows what the index knows or, if that is nothing,
what a search finds; a lookup of references shows what the index knows and then adds what
a search finds. -/
theorem precise_first (s : Sources) (d : Document) (p : Position) (declaration : Bool)
    (w : World σ) (limit : Nat) (m : Machine σ) :
    (let c := Call.indexedDefinition d p
      let asked := (s.indexed [] (Program.call c)).run w limit m
      let searched := (s.engine.definition d p : Program Snapshot _).run w limit asked.machine
      Instead c (s.known? [] (w.respond c m.now m.world).1 (max m.now limit)) knownLocations?
        searched.outcome? foundDefinitions? ((s.definition d p).record w limit m)
        ((s.definition d p).run w limit m)) ∧
    (let c := Call.indexedHover d p
      let asked := (s.indexed none (Program.call c)).run w limit m
      let searched := (s.engine.hover d p : Program Snapshot _).run w limit asked.machine
      Instead c (s.known? none (w.respond c m.now m.world).1 (max m.now limit)) knownHover?
        searched.outcome? foundHover? ((s.hover d p).record w limit m)
        ((s.hover d p).run w limit m)) ∧
    (let c := Call.indexedReferences d p declaration
      let asked := (s.indexed [] (Program.call c)).run w limit m
      let searched := (s.engine.references d p : Program Snapshot _).run w limit asked.machine
      let ran := (s.references d p declaration).run w limit m
      match s.known? [] (w.respond c m.now m.world).1 (max m.now limit) with
      | none => ran.emitted = [] ∧ ran.outcome? = none
      | some known => Extends known searched.outcome? ran.emitted ∧
          ran.outcome? = searched.outcome?.map fun _ => ()) := by
  refine ⟨?_, ?_, ?_⟩
  · intro c asked searched
    have hasked : asked.outcome? = s.known? [] (w.respond c m.now m.world).1 (max m.now limit) :=
      s.outcome?_indexed [] rfl rfl
    rw [definition_eq_instead, ← hasked]
    exact instead_shows (s.indexed_every [] (.call trivial)) (s.indexed_every [] (.call rfl))
      (s.engine.definition_silent d p) (fun _ _ => marked_knownLocations?)
      (fun _ _ => marked_foundDefinitions?)
  · intro c asked searched
    have hasked : asked.outcome? =
        s.known? none (w.respond c m.now m.world).1 (max m.now limit) :=
      s.outcome?_indexed none rfl rfl
    rw [hover_eq_instead, ← hasked]
    exact instead_shows (s.indexed_every none (.call trivial)) (s.indexed_every none (.call rfl))
      (s.engine.hover_silent d p) (fun _ _ => marked_knownHover?)
      (fun _ _ => marked_foundHover?)
  · intro c asked searched ran
    have hasked : asked.outcome? = s.known? [] (w.respond c m.now m.world).1 (max m.now limit) :=
      s.outcome?_indexed [] rfl rfl
    rw [← hasked]
    split
    · next hnone =>
      have hindex : (s.indexed [] (Program.call c)).Silent := s.indexed_every [] (.call trivial)
      refine ⟨?_, (run_bind_of_none hnone _).1⟩
      exact (hindex.emitted_bind _).trans (by rw [hnone])
    · next known hknown =>
      obtain ⟨hemitted, houtcome⟩ := s.references_run d p declaration rfl hknown rfl
      exact ⟨hemitted ▸ referencesShown_extends _ _, houtcome⟩

end Sources

end CodeNav

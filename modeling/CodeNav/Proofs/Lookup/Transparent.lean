import CodeNav.Proofs.Lookup.Both
import CodeNav.Proofs.Lookup.Discipline
import CodeNav.Proofs.Lookup.Memo

/-!
# Hovers that cannot tell whether there is a cache

The texts of files come from a source whose answers never change, each after a time of its own
(`World.Sends`). All else the world may answer as it likes, and differently every time.

* **hit** — a text in the cache is the one that the source would send (`Machine.TrueTo`), and
  finding it there makes no call;
* **miss** — the source is asked, and what it sends is kept if it is a text: an absent file and a
  failure are never kept.

A program is `Careful` if it keeps the cache true and asks the source for nothing that is in the
cache; lookups are, and so every machine that they lead to has a true cache (`Reached.trueTo`).
**What a hover comes to is then read off the definitions and the source**
(`outcome_follow_hover`).
-/

namespace CodeNav

/-- The call is for the text of a file. -/
def Call.isContent : Call → Bool
  | .content _ _ _ => true
  | _ => false

/-- What is answered about the text of each file: a text, nothing, or a failure. -/
abbrev ContentSource := ContentKey → Except SearchError (Option String)

/-- The world answers every call for a text, at some instant, with what the source says. -/
def World.Sends {σ : Type} (w : World σ) (source : ContentSource) : Prop :=
  ∀ (key : ContentKey) (t : Nat) (s : σ),
    ∃ due, (w.respond (.content key.repo key.revision key.path) t s).1 = .due due (source key)

/-- Every text in the cache is what the source says. -/
def Machine.TrueTo {σ : Type} (source : ContentSource) (m : Machine σ) : Prop :=
  ∀ key text, (key, text) ∈ m.cache.entries → source key = .ok (some text)

namespace Program

variable {σ ε α β : Type} {w : World σ} {limit : Nat} {source : ContentSource}

/-! ## The machine at each call -/

/-- The calls that a run makes, each with the machine it is made on. -/
def moments (w : World σ) (limit : Nat) : Program ε α → Machine σ → List (Call × Machine σ)
  | done _, _ => []
  | never, _ => []
  | wait t p, m =>
    if t ≤ m.now || t ≤ limit then p.moments w limit (m.moveTo t)
    else []
  | now k, m => (k m.now).moments w limit m
  | ask c k, m =>
    let (r, world) := w.respond c m.now m.world
    (c, m) :: (k r).moments w limit ({ m with world }.note (.called c))
  | count x n p, m => p.moments w limit (m.note (.counted x n))
  | emit _ p, m => p.moments w limit m
  | consult key k, m =>
    let (v, cache) := m.cache.get? key
    (k v).moments w limit { m with cache }
  | remember key text p, m => p.moments w limit { m with cache := m.cache.insert key text }

/-- The calls are those that the run adds to the log. -/
theorem calls_run (p : Program ε α) (m : Machine σ) :
    (p.run w limit m).machine.calls = m.calls ++ (p.moments w limit m).map Prod.fst := by
  induction p generalizing m with
  | done a => exact (List.append_nil _).symm
  | never => exact (List.append_nil _).symm
  | wait t p ih =>
    rw [run, moments]
    split
    · exact ih (m.moveTo t)
    · exact (List.append_nil _).symm
  | now k ih => exact ih m.now m
  | ask c k ih =>
    let m' : Machine σ := { m with world := (w.respond c m.now m.world).2 }
    have hrest := ih (w.respond c m.now m.world).1 (m'.note (.called c))
    rw [Machine.calls_note_called, List.append_assoc] at hrest
    exact hrest
  | count x n p ih =>
    have hrest := ih (m.note (.counted x n))
    rwa [Machine.calls_note_counted] at hrest
  | emit e p ih => exact ih m
  | consult key k ih => exact ih _ { m with cache := (m.cache.get? key).2 }
  | remember key text p ih => exact ih { m with cache := m.cache.insert key text }

/-- A call of a sequence is one of the first program, or of the second where the first ended. -/
theorem mem_moments_bind {p : Program ε α} {f : α → Program ε β} {m : Machine σ}
    {x : Call × Machine σ} (hx : x ∈ (p >>= f).moments w limit m) :
    x ∈ p.moments w limit m ∨
      ∃ a, x ∈ (f a).moments w limit (p.run w limit m).machine := by
  change x ∈ (p.bind f).moments w limit m at hx
  induction p generalizing m with
  | done a => exact .inr ⟨a, hx⟩
  | never => exact .inl hx
  | wait t p ih =>
    simp only [Program.bind, moments] at hx
    rw [run, moments]
    split at hx
    · next hdue =>
      rw [if_pos hdue, if_pos hdue]
      exact ih hx
    · exact absurd hx List.not_mem_nil
  | now k ih => exact ih _ hx
  | ask c k ih =>
    rcases List.mem_cons.mp hx with rfl | hx
    · exact .inl List.mem_cons_self
    · rcases ih _ hx with hx | hx
      · exact .inl (List.mem_cons_of_mem _ hx)
      · exact .inr hx
  | count x n p ih => exact ih hx
  | emit e p ih => exact ih hx
  | consult key k ih => exact ih _ hx
  | remember key text p ih => exact ih hx

/-- What is not in the tree of a program is sent on no machine. -/
theorem Asks.of_mem_moments {P : Call → Prop} {p : Program ε α} (hp : p.Asks P) {m : Machine σ}
    {x : Call × Machine σ} (hx : x ∈ p.moments w limit m) : P x.1 := by
  induction p generalizing m with
  | done a => exact absurd hx List.not_mem_nil
  | never => exact absurd hx List.not_mem_nil
  | wait t p ih =>
    rw [moments] at hx
    split at hx
    · exact ih hp hx
    · exact absurd hx List.not_mem_nil
  | now k ih => exact ih _ (hp _) hx
  | ask c k ih =>
    rcases List.mem_cons.mp hx with rfl | hx
    · exact hp.1
    · exact ih _ (hp.2 _) hx
  | count x n p ih => exact ih hp.2 hx
  | emit e p ih => exact ih hp.2 hx
  | consult key k ih => exact ih _ (hp.2 _) hx
  | remember key text p ih => exact ih hp.2 hx

/-- A call whose answer is waited for. -/
theorem run_call_await {c : Call} {f : c.Answer → Program ε α} {m : Machine σ} {due : Nat}
    {a : c.Answer} (h : (w.respond c m.now m.world).1 = .due due a) :
    (call c >>= fun r => await r >>= f).run w limit m =
      (wait due (f a)).run w limit
        ({ m with world := (w.respond c m.now m.world).2 }.note (.called c)) := by
  change (await (w.respond c m.now m.world).1 >>= f).run w limit
    ({ m with world := (w.respond c m.now m.world).2 }.note (.called c)) = _
  rw [h]
  rfl

/-- Given enough time, a run with a limit goes as far as one without. -/
theorem exists_run_eq_follow (p : Program ε α) (m : Machine σ) :
    ∃ enough, ∀ limit, enough ≤ limit → (p.run w limit m).machine = (p.follow w m).machine := by
  induction p generalizing m with
  | done a => exact ⟨0, fun _ _ => rfl⟩
  | never => exact ⟨0, fun _ _ => rfl⟩
  | wait t p ih =>
    obtain ⟨enough, h⟩ := ih (m.moveTo t)
    refine ⟨max t enough, fun limit hlimit => ?_⟩
    obtain ⟨ht, henough⟩ := Nat.max_le.mp hlimit
    rw [run, if_pos (by simp [ht])]
    exact h limit henough
  | now k ih => exact ih m.now m
  | ask c k ih =>
    let m' : Machine σ := { m with world := (w.respond c m.now m.world).2 }
    exact ih _ (m'.note (.called c))
  | count x n p ih => exact ih (m.note (.counted x n))
  | emit e p ih => exact ih m
  | consult key k ih => exact ih _ { m with cache := (m.cache.get? key).2 }
  | remember key text p ih => exact ih { m with cache := m.cache.insert key text }

/-- What a run with a limit ends with is what one without a limit ends with. -/
theorem outcome_follow_of_run {p : Program ε α} {m : Machine σ} {a : α}
    (h : (p.run w limit m).outcome? = some a) : (p.follow w m).outcome = some a := by
  rw [follow_eq_run limit]
  generalize p.run w limit m = r at h ⊢
  obtain ⟨progress, es, m'⟩ := r
  cases progress with
  | done b =>
    obtain rfl := Option.some.inj h
    rfl
  | waiting t next => cases h
  | stuck => cases h

/-! ## Without the cache -/

/-- Who leaves the cache alone leaves it true. -/
theorem Uncached.cache_run {p : Program ε α} (hp : p.Uncached) (m : Machine σ) :
    (p.run w limit m).machine.cache = m.cache := by
  induction p generalizing m with
  | done a => rfl
  | never => rfl
  | wait t p ih =>
    rw [run]
    split
    · exact ih hp (m.moveTo t)
    · rfl
  | now k ih => exact ih _ (hp _) m
  | ask c k ih =>
    let m' : Machine σ := { m with world := (w.respond c m.now m.world).2 }
    exact ih _ (hp.2 _) (m'.note (.called c))
  | count x n p ih => exact ih hp.2 (m.note (.counted x n))
  | emit e p ih => exact ih hp.2 m
  | consult key k ih => exact hp.1.elim
  | remember key text p ih => exact hp.1.elim

/-- What is in the cache makes no difference to a program that does not use it. -/
theorem Uncached.outcome_follow {p : Program ε α} (hp : p.Uncached) (m : Machine σ)
    (cache : ContentCache) :
    (p.follow w { m with cache }).outcome = (p.follow w m).outcome := by
  induction p generalizing m with
  | done a => rfl
  | never => rfl
  | wait t p ih => exact ih hp (m.moveTo t)
  | now k ih => exact ih _ (hp _) m
  | ask c k ih =>
    let m' : Machine σ := { m with world := (w.respond c m.now m.world).2 }
    exact ih _ (hp.2 _) (m'.note (.called c))
  | count x n p ih => exact ih hp.2 (m.note (.counted x n))
  | emit e p ih => exact ih hp.2 m
  | consult key k ih => exact hp.1.elim
  | remember key text p ih => exact hp.1.elim

/-! ## Care -/

/-- The call is not for a text that is in the cache. -/
def OnMiss (x : Call × Machine σ) : Prop :=
  ∀ key : ContentKey, x.1 = .content key.repo key.revision key.path → key ∉ x.2.cache.keys

/-- The program keeps the cache true, and asks for no text that is there. -/
structure Careful (w : World σ) (source : ContentSource) (p : Program ε α) : Prop where
  trueTo : ∀ limit m, m.TrueTo source → (p.run w limit m).machine.TrueTo source
  onMiss : ∀ limit m, ∀ x ∈ p.moments w limit m, OnMiss x

namespace Careful

/-- A program that asks for no text cannot tell whether there is a cache, and neither can the cache.
-/
theorem of_uncached {p : Program ε α} (hp : p.Uncached) (hasks : p.Asks (·.isContent = false)) :
    p.Careful w source where
  trueTo limit m hm := by
    rw [Machine.TrueTo, hp.cache_run]
    exact hm
  onMiss limit m x hx := by
    intro key hkey
    have hcall := hasks.of_mem_moments hx
    rw [hkey] at hcall
    cases hcall

/-- Each part of a sequence finds the cache as true as the part before left it. -/
theorem bind {p : Program ε α} {f : α → Program ε β} (hp : p.Careful w source)
    (hf : ∀ a, (f a).Careful w source) : Careful w source (p >>= f) where
  trueTo limit m hm := by
    have hm' := hp.trueTo limit m hm
    cases hend : (p.run w limit m).outcome? with
    | none =>
      rw [(run_bind_of_none hend f).2]
      exact hm'
    | some a =>
      rw [(run_bind_of_some hend f).2]
      exact (hf a).trueTo limit _ hm'
  onMiss limit m x hx := by
    rcases mem_moments_bind hx with hx | ⟨a, hx⟩
    · exact hp.onMiss limit m x hx
    · exact (hf a).onMiss limit _ x hx

/-- A result touches nothing. -/
theorem pure (a : α) : Careful w source (Pure.pure a : Program ε α) :=
  of_uncached trivial trivial

/-- To its end too, a careful program keeps the cache true: without a limit a run goes as far as
with enough of one. -/
theorem trueTo_follow {p : Program ε α} (hp : p.Careful w source) {m : Machine σ}
    (hm : m.TrueTo source) : (p.follow w m).machine.TrueTo source := by
  obtain ⟨enough, h⟩ := exists_run_eq_follow (w := w) p m
  rw [← h enough le_rfl]
  exact hp.trueTo enough m hm

end Careful

end Program

/-! ## The text of a file -/

namespace Engine

open Program

variable {σ ε : Type} {w : World σ} {source : ContentSource}

/-- Ask for a text, and keep it if there is one. -/
def fetch (key : ContentKey) : Program ε (Option String) := do
  let fetched ← Program.await (← Program.call (.content key.repo key.revision key.path))
  match fetched with
  | .ok (some text) => .remember key text (return some text)
  | _ => return none

/-- The text of a file is looked up first, and fetched only if it is not there. -/
theorem content_eq_consult (key : ContentKey) :
    (content key : Program ε _) = .consult key fun
      | some text => Program.tally .cacheHits 1 >>= fun _ => return some text
      | none => fetch key := rfl

/-- A text is kept only if the source sent it. -/
theorem cache_run_fetch (hw : w.Sends source) (key : ContentKey) (limit : Nat) (m : Machine σ) :
    ((fetch key : Program ε _).run w limit m).machine.cache = m.cache ∨
      ∃ text, source key = .ok (some text) ∧
        ((fetch key : Program ε _).run w limit m).machine.cache = m.cache.insert key text := by
  obtain ⟨due, hdue⟩ := hw key m.now m.world
  rw [fetch, run_call_await hdue, run]
  split
  · cases source key with
    | error err => exact .inl rfl
    | ok sent =>
      cases sent with
      | none => exact .inl rfl
      | some text => exact .inr ⟨text, rfl, rfl⟩
  · exact .inl rfl

/-- What is fetched is what the source sends; only the instant is the world's choice. -/
theorem outcome_follow_fetch (hw : w.Sends source) (key : ContentKey) (m : Machine σ) :
    ((fetch key : Program ε _).follow w m).outcome = some (sentText (source key)) := by
  obtain ⟨due, hdue⟩ := hw key m.now m.world
  simp only [fetch, follow_bind, call, follow, hdue, await]
  cases source key with
  | error err => rfl
  | ok sent => cases sent <;> rfl

/-- The source is asked once, at once. -/
theorem mem_moments_fetch {key : ContentKey} {limit : Nat} {m : Machine σ} {x : Call × Machine σ}
    (hx : x ∈ (fetch key : Program ε _).moments w limit m) :
    x = (.content key.repo key.revision key.path, m) := by
  rcases mem_moments_bind hx with hx | ⟨r, hx⟩
  · exact List.mem_singleton.mp hx
  · have hquiet : (await r >>= fun fetched => match fetched with
        | .ok (some text) => .remember key text (return some text)
        | _ => return none : Program ε _).Asks fun _ => False := by
      refine (Every.await r).bind fun fetched => ?_
      split
      · exact ⟨trivial, trivial⟩
      · exact .pure _
    exact (hquiet.of_mem_moments hx).elim

/-- Getting a text keeps the cache true, and asks for what is not there only. -/
theorem content_careful (hw : w.Sends source) (key : ContentKey) :
    (content key : Program ε _).Careful w source where
  trueTo limit m hm := by
    have hread : ∀ k t, (k, t) ∈ (m.cache.get? key).2.entries → source k = .ok (some t) :=
      fun k t hmem => hm k t (Lru.entries_get?_subset _ _ hmem)
    rw [content_eq_consult]
    simp only [run]
    cases (m.cache.get? key).1 with
    | some text => exact hread
    | none =>
      rcases cache_run_fetch (ε := ε) hw key limit { m with cache := (m.cache.get? key).2 }
        with hcache | ⟨text, hsent, hcache⟩
      · rw [Machine.TrueTo, hcache]
        exact hread
      · rw [Machine.TrueTo, hcache]
        intro k t hmem
        rcases List.mem_cons.mp (Lru.entries_insert_subset _ _ _ hmem) with heq | hmem
        · obtain ⟨rfl, rfl⟩ := Prod.mk.inj heq
          exact hsent
        · exact hread k t hmem
  onMiss limit m x hx := by
    rw [content_eq_consult] at hx
    simp only [moments] at hx
    cases hget : (m.cache.get? key).1 with
    | some text =>
      rw [hget] at hx
      exact absurd hx List.not_mem_nil
    | none =>
      have hkeys : key ∉ m.cache.keys := by
        rw [← Lru.get?_isSome_iff, hget]
        exact Bool.false_ne_true
      rw [hget, Lru.get?_of_notMem hkeys] at hx
      obtain rfl := mem_moments_fetch hx
      intro key' hkey'
      obtain ⟨hrepo, hrevision, hpath⟩ := Call.content.inj hkey'
      have hkey : key = key' := by
        cases key
        cases key'
        rw [ContentKey.mk.injEq]
        exact ⟨hrepo, hrevision, hpath⟩
      rw [← hkey]
      exact hkeys

/-- Hit or miss, what comes is what the source says. -/
theorem outcome_follow_content (hw : w.Sends source) (key : ContentKey) {m : Machine σ}
    (hm : m.TrueTo source) :
    ((content key : Program ε _).follow w m).outcome = some (sentText (source key)) := by
  rw [content_eq_consult]
  simp only [follow]
  cases hget : (m.cache.get? key).1 with
  | some text =>
    have hsent : source key = .ok (some text) := hm key text (Lru.mem_of_get?_eq_some hget)
    rw [hsent]
    rfl
  | none => exact outcome_follow_fetch hw key _

/-! ## Lookups -/

section Lookups

variable (e : Engine) (document : Document) (position : Position)

/-- A lookup that searches asks for no text. -/
theorem allows_noContent (scopes : List Scope) :
    Allows (Step.Asks (·.isContent = false) : Step ε → Prop) document scopes :=
  ⟨fun _ _ => trivial, rfl, fun _ _ _ _ _ _ _ _ _ => rfl⟩

/-- Searching for definitions asks for no text. -/
theorem definitionsOf_careful (profile : Profile) (token : String) :
    (e.definitionsOf document profile token : Program ε _).Careful w source :=
  .of_uncached (e.definitionsOf_timeless document profile token).uncached
    (e.definitionsOf_every (allows_noContent document _) profile token)

/-- So a lookup of definitions leaves the cache as it is. -/
theorem definition_careful : (e.definition document position : Program ε _).Careful w source :=
  .of_uncached (e.definition_timeless document position).uncached
    (e.definition_every (allows_noContent document _) position)

/-- So does a lookup of references. -/
theorem references_careful : (e.references document position : Program ε _).Careful w source :=
  .of_uncached (e.references_timeless document position).uncached
    (e.references_every (allows_noContent document _) position)

/-- A hover asks for a text only where `content` does, behind the search for definitions. -/
theorem hover_careful (hw : w.Sends source) :
    (e.hover document position : Program ε _).Careful w source := by
  rw [hover]
  split
  · exact .pure _
  · split
    · exact .pure _
    · refine (e.definitionsOf_careful document _ _).bind fun found => ?_
      split
      · exact .pure _
      · exact .pure _
      · refine Careful.bind ?_ fun _ => .pure _
        rw [definingText]
        split
        · exact .pure _
        · exact content_careful hw _

end Lookups

/-! ## Hovers -/

/-- The text of the file that a definition is in: the document's own, or what the source says. -/
def textFrom (source : ContentSource) (document : Document) (hit : Hit) : Option String :=
  if hit.isIn document then some document.text
  else sentText (source ⟨hit.repository, hit.revision, hit.file⟩)

/-- What a hover comes to, given the definitions that were found. -/
def hoverFrom (e : Engine) (source : ContentSource) (document : Document) :
    Outcome Hit → Except SearchError (Option HoverPayload)
  | .error err => .error err
  | .ok [] => .ok none
  | .ok (hit :: _) => .ok do
    let text ← textFrom source document hit
    let shown ← (e.registry.forPath? hit.file).or
      (e.registry.resolve? (some document.languageId) document.path)
    Hover.build? text hit shown

/-- A token is found with the profile of its document. -/
theorem resolve?_of_tokenAt? {e : Engine} {document : Document} {position : Position}
    {profile : Profile} {token : Token} (h : e.tokenAt? document position = some (profile, token)) :
    e.registry.resolve? (some document.languageId) document.path = some profile := by
  obtain ⟨profile', hprofile, htoken⟩ := Option.bind_eq_some_iff.mp h
  obtain ⟨token', -, hpair⟩ := Option.bind_eq_some_iff.mp htoken
  obtain ⟨rfl, rfl⟩ := Prod.mk.inj (Option.some.inj hpair)
  exact hprofile

/-- **The text that a definition stands in is the same with a cache and without**: the document
itself, or what the source sends. -/
theorem outcome_follow_definingText (hw : w.Sends source) (document : Document) (hit : Hit)
    {m : Machine σ} (hm : m.TrueTo source) :
    ((definingText document hit : Program ε _).follow w m).outcome =
      some (textFrom source document hit) := by
  rw [definingText, textFrom]
  split
  · rfl
  · exact outcome_follow_content hw _ hm

/-- A hover makes of the definitions what the source says. -/
theorem outcome_follow_hoverOf (hw : w.Sends source) (e : Engine) {document : Document}
    {profile : Profile}
    (hprofile : e.registry.resolve? (some document.languageId) document.path = some profile)
    (found : Outcome Hit) {m : Machine σ} (hm : m.TrueTo source) :
    ((e.hoverOf document profile found : Program ε _).follow w m).outcome =
      some (e.hoverFrom source document found) := by
  match found with
  | .error err => rfl
  | .ok [] => rfl
  | .ok (hit :: hits) =>
    rw [hoverOf, follow_bind, outcome_follow_definingText hw document hit hm, hoverFrom, hprofile,
      Option.or_some]
    rfl

/-- **A hover is read off the definitions and the source.** -/
theorem outcome_follow_hover (hw : w.Sends source) (e : Engine) (document : Document)
    (position : Position) {m : Machine σ} (hm : m.TrueTo source) :
    ((e.hover document position : Program ε _).follow w m).outcome =
      ((e.definition document position : Program ε _).follow w m).outcome.map
        (e.hoverFrom source document) := by
  rw [hover, definition]
  cases htoken : e.tokenAt? document position with
  | none => rfl
  | some found =>
    obtain ⟨profile, token⟩ := found
    dsimp only
    split
    · rfl
    · change ((e.definitionsOf document profile token.text >>=
        e.hoverOf document profile : Program ε _).follow w m).outcome = _
      have hm' : ((e.definitionsOf document profile token.text : Program ε _).follow w
          m).machine.TrueTo source := (e.definitionsOf_careful document _ _).trueTo_follow hm
      rw [follow_bind]
      cases (e.definitionsOf document profile token.text : Program ε _).follow w m |>.outcome with
      | none => rfl
      | some found => exact outcome_follow_hoverOf hw e (resolve?_of_tokenAt? htoken) found hm'

/-! ## One lookup after the other -/

/-- The program of a lookup by searching. -/
inductive Lookup (e : Engine) : {α : Type} → Program ε α → Prop where
  | definition (document : Document) (position : Position) :
      Lookup e (e.definition document position)
  | references (document : Document) (position : Position) :
      Lookup e (e.references document position)
  | hover (document : Document) (position : Position) : Lookup e (e.hover document position)

/-- A machine that started with an empty cache, after some lookups, each run up to an instant: to
its end, or to where it was dropped. -/
inductive Reached (e : Engine) (w : World σ) : Machine σ → Prop where
  | start {m : Machine σ} (capacity : Nat) (h : m.cache = .empty capacity) : Reached e w m
  | run {m : Machine σ} (h : Reached e w m) {ε α : Type} {p : Program ε α} (hp : e.Lookup p)
      (limit : Nat) : Reached e w (p.run w limit m).machine

/-- Whatever a provider is asked, it keeps the cache true. -/
theorem Lookup.careful {e : Engine} {α : Type} {p : Program ε α} (hp : e.Lookup p)
    (hw : w.Sends source) : p.Careful w source := by
  cases hp with
  | definition document position => exact e.definition_careful document position
  | references document position => exact e.references_careful document position
  | hover document position => exact e.hover_careful document position hw

namespace Reached

variable {e : Engine} {m : Machine σ}

/-- A lookup that is run to its end leads to such a machine too. -/
theorem follow (h : e.Reached w m) {α : Type} {p : Program ε α} (hp : e.Lookup p) :
    e.Reached w (p.follow w m).machine := by
  obtain ⟨enough, hrun⟩ := exists_run_eq_follow (w := w) p m
  rw [← hrun enough le_rfl]
  exact h.run hp enough

/-- **Every machine that lookups lead to has a true cache**, in whatever order they were asked and
however long each was run. -/
theorem trueTo (h : e.Reached w m) (hw : w.Sends source) : m.TrueTo source := by
  induction h with
  | start capacity hcache =>
    intro key text hmem
    rw [hcache] at hmem
    exact absurd hmem List.not_mem_nil
  | run _ hp limit ih => exact (hp.careful hw).trueTo limit _ ih

end Reached

end Engine

/-! ## A text that is fetched once -/

namespace TwoLanguages

open Engine Program

/-- There is one file, of one line. -/
def source : ContentSource := fun key =>
  if key.path = "b" then .ok (some "to serve") else .ok none

/-- Searches and calls for texts are answered at once, and no other call is. -/
def library : World Unit where
  respond c t s :=
    match c with
    | .search _ _ => (.due t (.ok [hit]), s)
    | .content repo revision path => (.due t (source ⟨repo, revision, path⟩), s)
    | .repository _ => (.never, s)
    | .indexedDefinition _ _ => (.never, s)
    | .indexedReferences _ _ _ => (.never, s)
    | .indexedHover _ _ => (.never, s)

/-- Every file is sent at once. -/
theorem library_sends : library.Sends source := fun _ t _ => ⟨t, rfl⟩

/-- What the hover shows. -/
def payload : HoverPayload := ⟨"```plain\nto serve\n```", some hit.range⟩

theorem hoverFrom_hit :
    sources.engine.hoverFrom source (question "plain").document (.ok [hit]) =
      .ok (some payload) := by
  have hforeign : hit.isIn (question "plain").document = false := by decide
  have hbuild : Hover.build? "to serve" hit plain = some payload := by decide +kernel
  have hshown : sources.engine.registry.forPath? hit.file = none := by
    have hextension : Path.extension? hit.file.toList = none := by decide
    rw [Registry.forPath?, hextension]
    rfl
  rw [hoverFrom, textFrom, hforeign, hshown, Option.none_or,
    resolve?_of_tokenAt? tokenAt?_plain, ← hbuild]
  rfl

/-- At the start of the clock the search is over at once. -/
theorem definitionsOf_follow (cache : ContentCache) (log : List Event) :
    ∃ log', (sources.engine.definitionsOf (question "plain").document plain "serve" :
      Program Unit _).follow library ⟨0, (), cache, log⟩ =
        ⟨some (.ok [hit]), [], 0, (), cache, log'⟩ := by
  rw [← refine_hit]
  exact ⟨_, rfl⟩

/-- The hover leaves the text of the file in the cache. -/
theorem hover_follow (log : List Event) :
    ∃ log', ((sources.engine.hover (question "plain").document ⟨0, 3⟩ : Program Unit _).follow
      library ⟨0, (), .empty 1, log⟩).machine =
        ⟨0, (), ⟨1, [(⟨"r", "v", "b"⟩, "to serve")]⟩, log'⟩ := by
  obtain ⟨log', hdefinitions⟩ := definitionsOf_follow (.empty 1) log
  have hhover : (sources.engine.hover (question "plain").document ⟨0, 3⟩ : Program Unit _) =
      sources.engine.definitionsOf (question "plain").document plain "serve" >>=
        sources.engine.hoverOf (question "plain").document plain := by
    rw [hover, tokenAt?_plain]
    rfl
  rw [hhover, follow_bind, hdefinitions]
  exact ⟨_, rfl⟩

end TwoLanguages

/-! ## Transparency -/

namespace Engine

variable {σ ε : Type} {w : World σ} {source : ContentSource}

open Program

/-- **The cache cannot be noticed.** After any lookups, run to their ends or dropped before, a
hover comes to what is read off the definitions and the source, whatever was in the cache when
they were looked for, and so does a hover that ends by a limit; the cache holds what the source
says, and nothing of what it does not have; and wherever a lookup asks for a text, the text is not
in the cache. -/
theorem cache_transparent (hw : w.Sends source) (e : Engine) {m : Machine σ}
    (hm : e.Reached w m) :
    (∀ document position cache,
      ((e.hover document position : Program ε _).follow w m).outcome =
        ((e.definition document position : Program ε _).follow w { m with cache }).outcome.map
          (e.hoverFrom source document)) ∧
    (∀ document position limit r,
      ((e.hover document position : Program ε _).run w limit m).outcome? = some r →
        ∃ found, ((e.definition document position : Program ε _).follow w m).outcome = some found ∧
          r = e.hoverFrom source document found) ∧
    (∀ key text, (key, text) ∈ m.cache.entries → source key = .ok (some text)) ∧
    (∀ key, sentText (source key) = none → key ∉ m.cache.keys) ∧
    ∀ (α : Type) (p : Program ε α), e.Lookup p → ∀ limit,
      (p.run w limit m).machine.calls = m.calls ++ (p.moments w limit m).map Prod.fst ∧
      ∀ c m', (c, m') ∈ p.moments w limit m → ∀ key : ContentKey,
        c = .content key.repo key.revision key.path → key ∉ m'.cache.keys := by
  have htrue : m.TrueTo source := hm.trueTo hw
  refine ⟨?_, ?_, htrue, ?_, ?_⟩
  · intro document position cache
    rw [(e.definition_timeless document position).uncached.outcome_follow m cache]
    exact outcome_follow_hover hw e document position htrue
  · intro document position limit r hr
    have hend := outcome_follow_of_run hr
    rw [outcome_follow_hover hw e document position htrue] at hend
    obtain ⟨found, hfound, hr⟩ := Option.map_eq_some_iff.mp hend
    exact ⟨found, hfound, hr.symm⟩
  · intro key hnone hkey
    obtain ⟨⟨key', text⟩, hmem, rfl⟩ := List.mem_map.mp hkey
    rw [htrue key' text hmem] at hnone
    cases hnone
  · intro α p hp limit
    refine ⟨calls_run p m, ?_⟩
    intro c m' hmem
    exact (hp.careful hw).onMiss limit m (c, m') hmem

end Engine

namespace TwoLanguages

open Engine

/-- The second hover finds the text that the first one left in the cache. -/
theorem hover_from_cache : ∃ m : Machine Unit, library.Sends source ∧
    sources.engine.Reached library m ∧ m.cache.keys = [⟨"r", "v", "b"⟩] ∧
    ((sources.engine.hover (question "plain").document ⟨0, 3⟩ : Program Unit _).follow library
      m).outcome = some (.ok (some payload)) := by
  have hstart : sources.engine.Reached library ⟨0, (), .empty 1, []⟩ := .start 1 rfl
  have hreached := hstart.follow (ε := Unit) (.hover (question "plain").document ⟨0, 3⟩)
  obtain ⟨log, hmachine⟩ := hover_follow []
  rw [hmachine] at hreached
  obtain ⟨hhover, -⟩ := cache_transparent (ε := Unit) library_sends sources.engine hreached
  obtain ⟨log', hdefinitions⟩ := definitionsOf_follow (.empty 1) log
  have hdefinition :
      (sources.engine.definition (question "plain").document ⟨0, 3⟩ : Program Unit _) =
        sources.engine.definitionsOf (question "plain").document plain "serve" := by
    rw [definition, tokenAt?_plain]
    rfl
  refine ⟨_, library_sends, hreached, rfl, ?_⟩
  rw [hhover _ _ (.empty 1), hdefinition, hdefinitions, Option.map_some, hoverFrom_hit]

end TwoLanguages

end CodeNav

import CodeNav.Proofs.Lookup.Record
import CodeNav.Proofs.Lookup.Tiers
import CodeNav.Proofs.Lookup.Union
import CodeNav.Proofs.Query.IndexForm

/-!
# What lookups send, and when

A lookup searches one scope after the other, or two at once, and each search may be sent in two
forms. Here it is said of every run, beside any world and up to any limit, what the record of its
calls looks like.

* `searchScope_paced` — **one scope**: the form for the index alone if that is asked for, else the
  plain form and, if it was not answered in time, the other form exactly when the time was over.
* `Disciplined` — **a lookup**: nothing is searched for but its own query in its own scopes, and
  each scope keeps its pace, also where two of them run at once
  (`Disciplined.of_apart`).
* `Asks.run_congr` — worlds that agree on what a program asks for cannot be told apart by it. On
  a public instance that is the current repository, so **what others would answer about the rest
  does not matter**.
-/

namespace CodeNav

namespace Call

/-- The call is a search. -/
def isSearch : Call → Bool
  | .search _ _ => true
  | _ => false

/-- The call is a search for a query, in one of its two forms. -/
def isFor (q : Query) (fileLocal : Bool) (c : Call) : Bool :=
  c = .search q.text fileLocal || c = .search q.toIndexOnly.text fileLocal

theorem isFor_iff {q : Query} {fileLocal : Bool} {c : Call} :
    c.isFor q fileLocal = true ↔ ∃ form, q.IsForm form ∧ c = .search form.text fileLocal := by
  simp [isFor, Query.IsForm, or_and_right, exists_or]

theorem isSearch_of_isFor {q : Query} {fileLocal : Bool} {c : Call}
    (h : c.isFor q fileLocal = true) : c.isSearch = true := by
  obtain ⟨form, -, rfl⟩ := isFor_iff.mp h
  rfl

/-- The call is no search, or one that is written for the current repository. -/
def IsInside (c : Call) : Prop :=
  ∀ text fileLocal, c = .search text fileLocal → ∃ kind input form,
    input.scope = .currentRepository ∧ (Query.build kind input).IsForm form ∧ text = form.text

end Call

namespace Program

variable {σ ε α β : Type} {w w' : World σ} {limit : Nat} {P : Call → Prop}

/-- **Worlds that agree on what a program asks for are the same to it.** -/
theorem Asks.run_congr {p : Program ε α} (hp : p.Asks P)
    (hw : ∀ c, P c → ∀ t s, w'.respond c t s = w.respond c t s) (m : Machine σ) :
    p.run w' limit m = p.run w limit m := by
  induction p generalizing m with
  | done a => rfl
  | never => rfl
  | wait t p ih =>
    simp only [run]
    split
    · exact ih hp (m.moveTo t)
    · rfl
  | now k ih => exact ih _ (hp _) m
  | ask c k ih =>
    simp only [run, hw c hp.1]
    exact ih _ (hp.2 _) _
  | count x n p ih => exact ih hp.2 (m.note _)
  | emit e p ih => simp only [run, ih hp.2 m]
  | consult key k ih => exact ih _ (hp.2 _) { m with cache := (m.cache.get? key).2 }
  | remember key text p ih => exact ih hp.2 { m with cache := m.cache.insert key text }

/-- **The calls of a race** are those of the primary search and, only if it has not answered
when the delay is over, those of the fallback from then on. A race that has ended was not left
before its primary search was sent. -/
theorem Trace.race_cases {received : Outcome α → Program ε Unit}
    (hr : ∀ o, (received o).Asks fun _ => False) {delay t : Nat}
    {primary fallback : Program ε (Promise (Outcome α))} {tr : List Sent} {g : Counter → Nat}
    {o : Option (Except SearchError (Raced α) × Nat)}
    (h : (race delay primary fallback received).Trace t tr g o) :
    (∃ g o', primary.Trace t tr g o' ∧ (o' = none → o = none)) ∨
      ∃ p t₁ tr₁ tr₂ g₁ g₂ o', primary.Trace t tr₁ g₁ (some (p, t₁)) ∧
        p.isBy (t + delay) = false ∧
        fallback.Trace (max t₁ (t + delay)) tr₂ g₂ o' ∧ tr = tr₁ ++ tr₂ := by
  cases h with
  | left => exact .inl ⟨0, none, .left, fun _ => rfl⟩
  | now h =>
    rcases bind_cases (p := primary) h with
      ⟨hp, ho⟩ | ⟨p, t₁, tr₁, tr₂, g₁, g₂, hp, hrest, rfl, rfl⟩
    · exact .inl ⟨g, none, hp, fun _ => ho⟩
    · dsimp only at hrest
      split at hrest
      · -- in time:
        have hquiet := hrest.eq_nil ((Every.receive hr p).bind fun _ => .pure _)
        rw [hquiet, List.append_nil]
        exact .inl ⟨g₁, _, hp, nofun⟩
      · next hlate =>
        -- too late:
        have hlate : p.isBy (t + delay) = false := by simpa using hlate
        refine .inr ⟨p, t₁, tr₁, tr₂, g₁, ?_⟩
        cases hrest with
        | left => exact ⟨0, none, hp, hlate, .left, rfl⟩
        | wait hrest =>
          -- once both are sent, nothing is asked for
          have hquiet : ∀ f, (if p.isFirst f then firstResults received p .primary f .fallback
              else firstResults received f .fallback p .primary).Asks fun _ => False := by
            intro f
            split
            · exact .firstResults hr p f _ _
            · exact .firstResults hr f p _ _
          obtain ⟨g', o', hf, -⟩ := of_bind_quiet (p := fallback) hquiet hrest
          exact ⟨g', o', hp, hlate, hf, rfl⟩

/-- What comes behind a program adds only calls that it asks for itself. -/
theorem exists_record_bind {p : Program ε α} {f : α → Program ε β} (hf : ∀ a, (f a).Asks P)
    (m : Machine σ) :
    ∃ rest, (p >>= f).record w limit m = p.record w limit m ++ rest ∧ ∀ x ∈ rest, P x.call := by
  cases h : (p.run w limit m).outcome? with
  | none => exact ⟨[], by rw [record_bind_of_none h, List.append_nil], List.forall_mem_nil _⟩
  | some a =>
    obtain ⟨g, o, htrace, -⟩ := trace_record w limit (f a) (p.run w limit m).machine
    exact ⟨_, record_bind_of_some h f, htrace.of_asks (hf a)⟩

end Program

namespace Engine

open Program

variable {σ ε : Type} {t : Nat} {tr : List Sent}

/-! ## One scope -/

/-- How the search for a query in one scope is sent: in the form for the index, if that is all that
is asked for; else as it is and, if no answer has come when the time for it is over, in the form
for the index too. Only a search that has not ended may be unsent. -/
inductive Paced (s : Settings) (q : Query) (fileLocal : Bool) (ended : Prop) :
    List Sent → Prop where
  | unsent (h : ¬ ended) : Paced s q fileLocal ended []
  | indexed {t : Nat} {r : Promise (Outcome Hit)} (h : s.indexedOnly = true) :
      Paced s q fileLocal ended [⟨t, .search q.toIndexOnly.text fileLocal, r⟩]
  | plain {t : Nat} {r : Promise (Outcome Hit)} (h : s.indexedOnly = false) :
      Paced s q fileLocal ended [⟨t, .search q.text fileLocal, r⟩]
  | raced {t : Nat} {r r' : Promise (Outcome Hit)} (h : s.indexedOnly = false)
      (hlate : r.isBy (t + s.unindexedTimeoutMs) = false) :
      Paced s q fileLocal ended [⟨t, .search q.text fileLocal, r⟩,
        ⟨t + s.unindexedTimeoutMs, .search q.toIndexOnly.text fileLocal, r'⟩]

/-- Less may be known to have ended. -/
theorem Paced.imp {s : Settings} {q : Query} {fileLocal : Bool} {ended ended' : Prop}
    (h : Paced s q fileLocal ended tr) (himp : ended' → ended) : Paced s q fileLocal ended' tr := by
  cases h with
  | unsent h => exact .unsent (mt himp h)
  | indexed h => exact .indexed h
  | plain h => exact .plain h
  | raced h hlate => exact .raced h hlate

/-- Sending takes no time: the query is sent and counted, or it was left before that. -/
theorem trace_send {scope : Scope} {q : Query} {fileLocal : Bool} {g : Counter → Nat}
    {o : Option (Promise (Outcome Hit) × Nat)}
    (h : (send scope q fileLocal : Program ε _).Trace t tr g o) :
    tr = [] ∧ o = none ∨
      ∃ r, tr = [⟨t, .search q.text fileLocal, r⟩] ∧
        ∀ x, o = some x → x = (r, t) ∧ g = Pi.single (.searchCalls scope) 1 := by
  cases h with
  | left => exact .inl ⟨rfl, rfl⟩
  | count h =>
    cases h with
    | left => exact .inl ⟨rfl, rfl⟩
    | ask r h =>
      refine .inr ⟨r, ?_⟩
      cases h with
      | left => exact ⟨rfl, nofun⟩
      | done => exact ⟨rfl, fun x hx => ⟨(Option.some.inj hx).symm, add_zero _⟩⟩

/-- **A scope keeps its pace**, and has been searched if its search has ended. -/
theorem searchScope_paced {e : Engine} {scope : Scope} {q : Query} {fileLocal : Bool}
    (hq : q.isIndexOnly = false) {g : Counter → Nat} {o : Option (Outcome Hit × Nat)}
    (h : (e.searchScope scope q fileLocal : Program ε _).Trace t tr g o) :
    Paced e.settings q fileLocal (o ≠ none) tr := by
  have hquiet : ∀ o, (received scope o : Program ε Unit).Asks fun _ => False :=
    received_every (fun _ _ => trivial) scope
  rw [searchScope, hq, Bool.or_false] at h
  split at h
  · next hindexed =>
    -- the form for the index alone
    obtain ⟨g', o', hsend, ho'⟩ := h.of_bind_quiet (Every.receive hquiet)
    rcases trace_send hsend with ⟨rfl, hnone⟩ | ⟨r, rfl, -⟩
    · exact .unsent fun hended => hended (ho' hnone)
    · exact .indexed hindexed
  · next hindexed =>
    have hplain : e.settings.indexedOnly = false := by simpa using hindexed
    -- nothing is sent once the race is over
    obtain ⟨g', o', hrace, ho'⟩ :=
      h.of_bind_quiet (conclude_every (fun _ _ => trivial) scope)
    rcases hrace.race_cases hquiet with
      ⟨g, o'', hsend, ho''⟩ | ⟨r, t₁, tr₁, tr₂, g₁, g₂, o'', hsend, hlate, hfallback, rfl⟩
    · rcases trace_send hsend with ⟨rfl, hnone⟩ | ⟨r, rfl, -⟩
      · exact .unsent fun hended => hended (ho' (ho'' hnone))
      · exact .plain hplain
    · rcases trace_send hsend with ⟨-, hnone⟩ | ⟨r', rfl, hr⟩
      · cases hnone
      · obtain ⟨rfl, rfl⟩ := Prod.mk.inj (hr _ rfl).1
        rw [Nat.max_eq_right (Nat.le_add_right _ _)] at hfallback
        rcases trace_send hfallback with ⟨rfl, -⟩ | ⟨r', rfl, -⟩
        · exact .plain hplain
        · exact .raced hplain hlate

/-! ## A lookup -/

/-- The searches of a record are those of a lookup, with its query for each of its scopes. -/
structure Disciplined (s : Settings) (queryOf : Scope → Query) (fileLocal : Bool)
    (scopes ended : List Scope) (record : List Sent) : Prop where
  /-- nothing else is searched for -/
  only : ∀ x ∈ record, x.call.isSearch = true →
    ∃ scope ∈ scopes, x.call.isFor (queryOf scope) fileLocal = true
  /-- each scope is searched at its pace, and those whose searches have ended are searched -/
  paced : ∀ scope ∈ scopes, Paced s (queryOf scope) fileLocal (scope ∈ ended)
    (record.filter (·.call.isFor (queryOf scope) fileLocal))

/-- The queries for different scopes are told apart by the calls they make. -/
def Distinct (queryOf : Scope → Query) (fileLocal : Bool) (scopes : List Scope) : Prop :=
  ∀ a ∈ scopes, ∀ b ∈ scopes, ∀ c : Call, c.isFor (queryOf a) fileLocal = true →
    c.isFor (queryOf b) fileLocal = true → a = b

theorem query_distinct (kind : QueryKind) (document : Document) (profile : Profile)
    (token : String) (flags : RepoInfo) (fileLocal : Bool) (scopes : List Scope)
    (hscopes : .currentFile ∉ scopes) :
    Distinct (query kind document profile token flags) fileLocal scopes := by
  intro a ha b hb c hca hcb
  obtain ⟨form, hform, rfl⟩ := Call.isFor_iff.mp hca
  obtain ⟨form', hform', heq⟩ := Call.isFor_iff.mp hcb
  exact isSearch_unique (fun h => hscopes (h ▸ ha)) (fun h => hscopes (h ▸ hb))
    ⟨flags, form, fileLocal, hform, rfl⟩ ⟨flags, form', fileLocal, hform', heq⟩

namespace Disciplined

variable {s : Settings} {queryOf : Scope → Query} {fileLocal : Bool} {scopes ended : List Scope}
  {scope : Scope} {record record' : List Sent}

/-- Where nothing is searched for, nothing is searched for a query. -/
theorem filter_of_quiet (h : ∀ x ∈ record, x.call.isSearch = false) (q : Query) :
    record.filter (·.call.isFor q fileLocal) = [] := by
  refine List.filter_eq_nil_iff.mpr fun x hx hfor => ?_
  exact Bool.false_ne_true ((h x hx).symm.trans (Call.isSearch_of_isFor hfor))

/-- Where nothing is searched for, no search has ended. -/
theorem of_quiet (h : ∀ x ∈ record, x.call.isSearch = false) :
    Disciplined s queryOf fileLocal scopes [] record := by
  refine ⟨fun x hx hsearch => ?_, fun scope _ => ?_⟩
  · exact absurd ((h x hx).symm.trans hsearch) Bool.false_ne_true
  · rw [filter_of_quiet h]
    exact .unsent List.not_mem_nil

theorem nil : Disciplined s queryOf fileLocal scopes [] [] := of_quiet (List.forall_mem_nil _)

/-- Less may be known to have ended. -/
theorem mono (h : Disciplined s queryOf fileLocal scopes ended record) {ended' : List Scope}
    (hended : ∀ scope ∈ scopes, scope ∈ ended' → scope ∈ ended) :
    Disciplined s queryOf fileLocal scopes ended' record :=
  ⟨h.only, fun scope hscope => (h.paced scope hscope).imp (hended scope hscope)⟩

/-- Which searches have ended may be left open. -/
theorem forget (h : Disciplined s queryOf fileLocal scopes ended record) :
    Disciplined s queryOf fileLocal scopes [] record :=
  h.mono fun _ _ hscope => absurd hscope List.not_mem_nil

/-- Other calls may stand before and behind. -/
theorem append_left (h : Disciplined s queryOf fileLocal scopes ended record')
    (hquiet : ∀ x ∈ record, x.call.isSearch = false) :
    Disciplined s queryOf fileLocal scopes ended (record ++ record') := by
  refine ⟨fun x hx hsearch => ?_, fun scope hscope => ?_⟩
  · rcases List.mem_append.mp hx with hx | hx
    · exact absurd ((hquiet x hx).symm.trans hsearch) Bool.false_ne_true
    · exact h.only x hx hsearch
  · rw [List.filter_append, filter_of_quiet hquiet, List.nil_append]
    exact h.paced scope hscope

theorem append_right (h : Disciplined s queryOf fileLocal scopes ended record)
    (hquiet : ∀ x ∈ record', x.call.isSearch = false) :
    Disciplined s queryOf fileLocal scopes ended (record ++ record') := by
  refine ⟨fun x hx hsearch => ?_, fun scope hscope => ?_⟩
  · rcases List.mem_append.mp hx with hx | hx
    · exact h.only x hx hsearch
    · exact absurd ((hquiet x hx).symm.trans hsearch) Bool.false_ne_true
  · rw [List.filter_append, filter_of_quiet hquiet, List.append_nil]
    exact h.paced scope hscope

/-- **One scope after the other**: each of them has its own calls. -/
theorem filter_append (hdistinct : Distinct queryOf fileLocal (scope :: scopes))
    (hnew : scope ∉ scopes)
    (hfor : ∀ x ∈ record, x.call.isFor (queryOf scope) fileLocal = true)
    (h : Disciplined s queryOf fileLocal scopes ended record') :
    (record ++ record').filter (·.call.isFor (queryOf scope) fileLocal) = record ∧
      ∀ scope' ∈ scopes, (record ++ record').filter (·.call.isFor (queryOf scope') fileLocal) =
        record'.filter (·.call.isFor (queryOf scope') fileLocal) := by
  -- no call is for the first scope and for a later one
  have hapart : ∀ scope' ∈ scopes, ∀ c : Call, c.isFor (queryOf scope) fileLocal = true →
      ¬ c.isFor (queryOf scope') fileLocal = true := by
    intro scope' hscope' c hc hc'
    have heq := hdistinct scope List.mem_cons_self scope' (List.mem_cons_of_mem _ hscope') c hc hc'
    exact hnew (heq ▸ hscope')
  refine ⟨?_, fun scope' hscope' => ?_⟩
  · have hlater : record'.filter (·.call.isFor (queryOf scope) fileLocal) = [] := by
      refine List.filter_eq_nil_iff.mpr fun x hx hx' => ?_
      obtain ⟨later, hlater, hx''⟩ := h.only x hx (Call.isSearch_of_isFor hx')
      exact hapart later hlater x.call hx' hx''
    rw [List.filter_append, hlater, List.append_nil, List.filter_eq_self.mpr hfor]
  · have hfirst : record.filter (·.call.isFor (queryOf scope') fileLocal) = [] :=
      List.filter_eq_nil_iff.mpr fun x hx => hapart scope' hscope' x.call (hfor x hx)
    rw [List.filter_append, hfirst, List.nil_append]

/-- The scope in front keeps its own pace, and those behind it keep theirs. -/
theorem cons (hdistinct : Distinct queryOf fileLocal (scope :: scopes)) (hnew : scope ∉ scopes)
    {ended' : List Scope} (hpaced : Paced s (queryOf scope) fileLocal (scope ∈ ended') record)
    (hfor : ∀ x ∈ record, x.call.isFor (queryOf scope) fileLocal = true)
    (h : Disciplined s queryOf fileLocal scopes ended record')
    (hended : ∀ scope ∈ scopes, scope ∈ ended' → scope ∈ ended) :
    Disciplined s queryOf fileLocal (scope :: scopes) ended' (record ++ record') := by
  obtain ⟨hself, hrest⟩ := filter_append hdistinct hnew hfor h
  refine ⟨fun x hx hsearch => ?_, fun scope' hscope' => ?_⟩
  · rcases List.mem_append.mp hx with hx | hx
    · exact ⟨scope, List.mem_cons_self, hfor x hx⟩
    · obtain ⟨scope', hscope', hx'⟩ := h.only x hx hsearch
      exact ⟨scope', List.mem_cons_of_mem _ hscope', hx'⟩
  · rcases List.mem_cons.mp hscope' with rfl | hscope'
    · rw [hself]
      exact hpaced
    · rw [hrest scope' hscope']
      exact (h.paced scope' hscope').imp (hended scope' hscope')

/-- **Two scopes at once**: the calls that are not for the one are for the other. -/
theorem isFor_eq_not {a b : Scope} (hdistinct : Distinct queryOf fileLocal [a, b]) (hab : a ≠ b)
    (hfor : ∀ x ∈ record.filter (!·.call.isFor (queryOf a) fileLocal),
      x.call.isFor (queryOf b) fileLocal = true) :
    ∀ x ∈ record, x.call.isFor (queryOf b) fileLocal = !x.call.isFor (queryOf a) fileLocal := by
  intro x hx
  cases hxa : x.call.isFor (queryOf a) fileLocal with
  | true =>
    rw [Bool.not_true, Bool.eq_false_iff]
    intro hxb
    exact hab (hdistinct a (by simp) b (by simp) x.call hxa hxb)
  | false => exact hfor x (List.mem_filter.mpr ⟨hx, by rw [hxa]; rfl⟩)

/-- So each of two scopes keeps its pace if it does so among its own calls. -/
theorem of_apart {a b : Scope} (hdistinct : Distinct queryOf fileLocal [a, b]) (hab : a ≠ b)
    (ha : Paced s (queryOf a) fileLocal (a ∈ ended)
      (record.filter (·.call.isFor (queryOf a) fileLocal)))
    (hb : Paced s (queryOf b) fileLocal (b ∈ ended)
      (record.filter (!·.call.isFor (queryOf a) fileLocal)))
    (hfor : ∀ x ∈ record.filter (!·.call.isFor (queryOf a) fileLocal),
      x.call.isFor (queryOf b) fileLocal = true) :
    Disciplined s queryOf fileLocal [a, b] ended record := by
  have hother := isFor_eq_not hdistinct hab hfor
  refine ⟨fun x hx _ => ?_, fun scope hscope => ?_⟩
  · cases hxa : x.call.isFor (queryOf a) fileLocal with
    | true => exact ⟨a, by simp, hxa⟩
    | false => exact ⟨b, by simp, by rw [hother x hx, hxa]; rfl⟩
  · rw [List.mem_cons, List.mem_singleton] at hscope
    rcases hscope with rfl | rfl
    · exact ha
    · rw [List.filter_congr hother]
      exact hb

end Disciplined

/-! ## What has ended -/

/-- The scopes whose searches have ended when a lookup has come to this: for references, which are
looked for at once, all of them; for definitions all of them if none were found, and else the first
one at least. -/
def through (kind : QueryKind) (scopes : List Scope) : Option (Outcome Hit) → List Scope
  | none => []
  | some found => if kind = .definition ∧ found ≠ .ok [] then scopes.take 1 else scopes

@[simp] theorem through_none (kind : QueryKind) (scopes : List Scope) :
    through kind scopes none = [] := rfl

theorem through_nothing (kind : QueryKind) (scopes : List Scope) :
    through kind scopes (some (.ok [])) = scopes := if_neg fun h => h.2 rfl

/-- Scopes behind the first one have been searched through only if nothing was found. -/
theorem eq_nothing_of_mem_through {scope scope' : Scope} {scopes : List Scope}
    (hnew : scope ∉ scopes) (hscope' : scope' ∈ scopes) {result : Option (Outcome Hit)}
    (h : scope' ∈ through .definition (scope :: scopes) result) : result = some (.ok []) := by
  cases result with
  | none => cases h
  | some found =>
    by_contra hfound
    have hfirst : through .definition (scope :: scopes) (some found) = [scope] :=
      if_pos ⟨rfl, fun heq => hfound (congrArg some heq)⟩
    rw [hfirst, List.mem_singleton] at h
    exact hnew (h ▸ hscope')

section Trace

variable {e : Engine} {document : Document} {profile : Profile} {token : String}
  {flags : RepoInfo} {kind : QueryKind} {fileLocal : Bool} {g : Counter → Nat}

theorem searchScope_asks_for (e : Engine) (scope : Scope) (q : Query) (fileLocal : Bool) :
    (e.searchScope scope q fileLocal : Program ε _).Asks (·.isFor q fileLocal = true) :=
  e.searchScope_asks scope q fileLocal fun form hform => Call.isFor_iff.mpr ⟨form, hform, rfl⟩

/-- A search in a scope keeps its pace, and asks for nothing else. -/
theorem searchScope_trace {scope : Scope} {o : Option (Outcome Hit × Nat)}
    (h : (e.searchScope scope (query kind document profile token flags scope) fileLocal :
      Program ε _).Trace t tr g o) :
    Paced e.settings (query kind document profile token flags scope) fileLocal (o ≠ none) tr ∧
      ∀ x ∈ tr, x.call.isFor (query kind document profile token flags scope) fileLocal = true :=
  ⟨searchScope_paced (Query.isIndexOnly_build _ _) h, h.of_asks (e.searchScope_asks_for _ _ _)⟩

/-- **One tier after the other.** The next one is searched only if this one has ended with nothing,
so by what the lookup has come to it can be told which of them have ended. -/
theorem searchTiers_disciplined {scopes : List Scope} (hscopes : .currentFile ∉ scopes)
    (hnodup : scopes.Nodup) {o : Option (Outcome Hit × Nat)}
    (h : (e.searchTiers document profile token flags scopes : Program ε _).Trace t tr g o) :
    Disciplined e.settings (query .definition document profile token flags) true scopes
      (through .definition scopes (o.map Prod.fst)) tr := by
  induction scopes generalizing t tr g with
  | nil =>
    rw [h.eq_nil (.pure _)]
    exact Disciplined.nil.mono (List.forall_mem_nil _)
  | cons scope scopes ih =>
    have hdistinct := query_distinct .definition document profile token flags true _ hscopes
    obtain ⟨hnew, hnodup⟩ := List.nodup_cons.mp hnodup
    have hrest := mt (List.mem_cons_of_mem scope) hscopes
    rcases h.bind_cases with
      ⟨hscope, rfl⟩ | ⟨found, t', tr₁, tr₂, g₁, g₂, hscope, htail, rfl, rfl⟩
    · obtain ⟨hpaced, hfor⟩ := searchScope_trace hscope
      rw [← List.append_nil tr]
      exact .cons hdistinct hnew (hpaced.imp nofun) hfor .nil nofun
    · obtain ⟨hpaced, hfor⟩ := searchScope_trace hscope
      -- a tier that fails or finds something is the last one
      have hstop : ∀ found : Outcome Hit, found ≠ .ok [] →
          (pure found : Program ε _).Trace t' tr₂ g₂ o →
          Disciplined e.settings (query .definition document profile token flags) true
            (scope :: scopes) (through .definition (scope :: scopes) (o.map Prod.fst))
            (tr₁ ++ tr₂) := by
        intro found hfound hend
        rw [hend.eq_nil (.pure _)]
        refine .cons hdistinct hnew (hpaced.imp fun _ => nofun) hfor .nil fun scope' hscope' h => ?_
        have hnothing := eq_nothing_of_mem_through hnew hscope' h
        cases hend with
        | left => cases hnothing
        | done => exact absurd (Option.some.inj hnothing) hfound
      dsimp only at htail
      split at htail
      · next err => exact hstop (.error err) nofun htail
      · refine .cons hdistinct hnew (hpaced.imp fun _ => nofun) hfor (ih hrest hnodup htail)
          fun scope' hscope' h => ?_
        rw [eq_nothing_of_mem_through hnew hscope' h, through_nothing]
        exact hscope'
      · next hits hne =>
        exact hstop _ (fun heq => hne (refine_eq_nil_iff.mp (Except.ok.inj heq))) htail

/-- The searches for the references to a token, once the facts about the repository are known. -/
def searchUnited (e : Engine) (document : Document) (profile : Profile) (token : String)
    (flags : RepoInfo) : Program ε (Outcome Hit) :=
  if e.settings.publicInstance then do
    return unite [← e.referenceTier document profile token flags .currentRepository]
  else do
    let (current, other) ← (e.referenceTier document profile token flags .currentRepository).both
      (e.referenceTier document profile token flags .otherRepositories)
    return unite [current, other]

/-- The search for references elsewhere asks for nothing in the current repository. -/
theorem otherTier_asks : (e.referenceTier document profile token flags .otherRepositories :
    Program ε _).Asks (·.isFor (query .references document profile token flags
      .currentRepository) false = false) := by
  refine e.searchScope_asks _ _ _ fun form hform => Bool.eq_false_iff.mpr fun hcurrent => ?_
  have heq := query_distinct .references document profile token flags false
    [.currentRepository, .otherRepositories] (by decide) .currentRepository (by decide)
    .otherRepositories (by decide) _ hcurrent (Call.isFor_iff.mpr ⟨form, hform, rfl⟩)
  cases heq

/-- **All scopes at once.** The lookup has ended only if each of its searches has. -/
theorem searchUnited_disciplined {o : Option (Outcome Hit × Nat)}
    (h : (e.searchUnited document profile token flags : Program ε _).Trace t tr g o) :
    Disciplined e.settings (query .references document profile token flags) false
      e.referenceScopes (through .references e.referenceScopes (o.map Prod.fst)) tr := by
  have hsome : ∀ {scope scopes}, scope ∈ through .references scopes (o.map Prod.fst) →
      o ≠ none := by
    rintro scope scopes hscope rfl
    cases hscope
  rw [searchUnited] at h
  rw [referenceScopes]
  split at h
  · next hpublic =>
    rw [if_pos hpublic]
    have hdistinct := query_distinct .references document profile token flags false
      [.currentRepository] (by decide)
    obtain ⟨g', o', hscope, ho'⟩ := h.of_bind_quiet fun _ => .pure _
    obtain ⟨hpaced, hfor⟩ := searchScope_trace hscope
    rw [← List.append_nil tr]
    exact .cons hdistinct List.not_mem_nil (hpaced.imp fun hended => mt ho' (hsome hended)) hfor
      .nil (List.forall_mem_nil _)
  · next hpublic =>
    rw [if_neg hpublic]
    have hdistinct := query_distinct .references document profile token flags false
      [.currentRepository, .otherRepositories] (by decide)
    -- nothing is sent once both searches are over
    obtain ⟨g', o', hboth, ho'⟩ := h.of_bind_quiet fun _ => .pure _
    have hleft := e.searchScope_asks_for (ε := ε) .currentRepository
      (query .references document profile token flags .currentRepository) false
    obtain ⟨g₁, g₂, o₁, o₂, hcurrent, hother, -, hends⟩ := Trace.both hleft otherTier_asks hboth
    obtain ⟨hpaced, -⟩ := searchScope_trace hcurrent
    obtain ⟨hpaced', hfor⟩ := searchScope_trace hother
    -- what has ended together has ended on either side
    have hended : o ≠ none → o₁ ≠ none ∧ o₂ ≠ none := by
      intro ho
      obtain ⟨⟨x, t'⟩, hx⟩ := Option.ne_none_iff_exists'.mp (mt ho' ho)
      obtain ⟨h₁, h₂⟩ := hends x t' hx
      refine ⟨?_, ?_⟩
      · rintro rfl
        cases h₁
      · rintro rfl
        cases h₂
    exact .of_apart hdistinct (by decide) (hpaced.imp fun h => (hended (hsome h)).1)
      (hpaced'.imp fun h => (hended (hsome h)).2) hfor

end Trace

/-! ## The lookups -/

section Lookup

variable (e : Engine) (ε : Type) (kind : QueryKind) (scopes : List Scope) (document : Document)
  (profile : Profile) (token : String) (w : World σ) (limit : Nat) (m : Machine σ)

/-- The record of a run that first asks for the facts about the repository, if it needs to, and
then searches for a token, disciplined, by the query that these facts make; and what it has come
to. -/
def Searches (result : Option (Outcome Hit)) (record : List Sent) : Prop :=
  ∃ flags, ((∃ x ∈ record, x.call.isSearch = true) →
      ((e.repoFlags document.repo : Program ε _).run w limit m).outcome? = some flags) ∧
    Disciplined e.settings (query kind document profile token flags) (kind = .definition) scopes
      (through kind scopes result) record

/-- The record of a run of a lookup: searches for the token, if there is one, and one in a comment
if it is not its definitions that are looked up; else nothing. -/
def Keeps (position : Position) (result : Option (Outcome Hit)) (record : List Sent) : Prop :=
  match e.tokenAt? document position with
  | none => record = []
  | some (profile, token) =>
    if kind = .definition ∧ token.isComment = true then record = []
    else e.Searches ε kind scopes document profile token.text w limit m result record

variable {e ε kind scopes document profile token w limit m} {record record' : List Sent}
  {result : Option (Outcome Hit)}

/-- What is behind the searches does not matter. -/
theorem Searches.append_right
    (h : e.Searches ε kind scopes document profile token w limit m result record)
    (hquiet : ∀ x ∈ record', x.call.isSearch = false) :
    e.Searches ε kind scopes document profile token w limit m result (record ++ record') := by
  obtain ⟨flags, hflags, hdisciplined⟩ := h
  refine ⟨flags, ?_, hdisciplined.append_right hquiet⟩
  rintro ⟨x, hx, hsearch⟩
  rcases List.mem_append.mp hx with hx | hx
  · exact hflags ⟨x, hx, hsearch⟩
  · exact absurd ((hquiet x hx).symm.trans hsearch) Bool.false_ne_true

/-- The facts about the repository first, then searches that are disciplined. -/
theorem searches_bind (body : RepoInfo → Program ε (Outcome Hit))
    (hbody : ∀ {flags t tr g o}, (body flags).Trace t tr g o →
      Disciplined e.settings (query kind document profile token flags) (kind = .definition) scopes
        (through kind scopes (o.map Prod.fst)) tr) :
    e.Searches ε kind scopes document profile token w limit m
      ((e.repoFlags document.repo >>= body).run w limit m).outcome?
      ((e.repoFlags document.repo >>= body).record w limit m) := by
  have hquiet : ∀ x ∈ (e.repoFlags document.repo : Program ε _).record w limit m,
      x.call.isSearch = false := by
    obtain ⟨g, o, htrace, -⟩ := trace_record w limit (e.repoFlags document.repo : Program ε _) m
    intro x hx
    rw [htrace.of_asks (e.repoFlags_asks document.repo) x hx]
    rfl
  cases hasked : ((e.repoFlags document.repo : Program ε _).run w limit m).outcome? with
  | none =>
    rw [record_bind_of_none hasked, (run_bind_of_none hasked body).1]
    refine ⟨⟨false, false⟩, ?_, .of_quiet hquiet⟩
    rintro ⟨x, hx, hsearch⟩
    exact absurd ((hquiet x hx).symm.trans hsearch) Bool.false_ne_true
  | some flags =>
    rw [record_bind_of_some hasked, (run_bind_of_some hasked body).1]
    obtain ⟨g, o, htrace, hout, -⟩ := trace_record w limit (body flags)
      ((e.repoFlags document.repo : Program ε _).run w limit m).machine
    rw [← hout]
    exact ⟨flags, fun _ => hasked, (hbody htrace).append_left hquiet⟩

theorem definitionScopes_cases (e : Engine) :
    .currentFile ∉ e.definitionScopes ∧ e.definitionScopes.Nodup := by
  rw [definitionScopes]
  split <;> decide

theorem definitionsOf_searches :
    e.Searches ε .definition e.definitionScopes document profile token w limit m
      ((e.definitionsOf document profile token : Program ε _).run w limit m).outcome?
      ((e.definitionsOf document profile token : Program ε _).record w limit m) :=
  searches_bind _ fun h =>
    searchTiers_disciplined e.definitionScopes_cases.1 e.definitionScopes_cases.2 h

/-- Reading the text of a file is no search. -/
theorem allowsTexts_quiet : AllowsTexts (Step.Asks (·.isSearch = false) : Step ε → Prop) :=
  ⟨fun _ _ _ => rfl, fun _ => trivial, fun _ _ => trivial⟩

/-- What a hover does with the definitions is no search. -/
theorem hoverOf_quiet (found : Outcome Hit) :
    (e.hoverOf document profile found : Program ε _).Asks (·.isSearch = false) :=
  e.hoverOf_every (fun _ _ => trivial) allowsTexts_quiet profile found

/-- A lookup of definitions keeps its discipline: a token in a comment is not even asked about. -/
theorem definition_keeps (position : Position) :
    e.Keeps ε .definition e.definitionScopes document w limit m position
      ((e.definition document position : Program ε _).run w limit m).outcome?
      ((e.definition document position : Program ε _).record w limit m) := by
  rw [Keeps, definition]
  cases e.tokenAt? document position with
  | none => rfl
  | some found =>
    obtain ⟨profile, token⟩ := found
    dsimp only
    cases token.isComment with
    | true => rfl
    | false => exact definitionsOf_searches

/-- So does a lookup of references, in comments too. -/
theorem references_keeps (position : Position) :
    e.Keeps ε .references e.referenceScopes document w limit m position
      ((e.references document position : Program ε _).run w limit m).outcome?
      ((e.references document position : Program ε _).record w limit m) := by
  rw [Keeps, references]
  cases e.tokenAt? document position with
  | none => rfl
  | some found =>
    obtain ⟨profile, token⟩ := found
    have hkind : ¬ (QueryKind.references = .definition ∧ token.isComment = true) :=
      fun h => by cases h.1
    dsimp only
    rw [if_neg hkind]
    exact searches_bind (e.searchUnited document profile token.text) searchUnited_disciplined

/-- A hover searches as the lookup of definitions does, whose end it has to wait for. -/
theorem hover_keeps (position : Position) :
    e.Keeps ε .definition e.definitionScopes document w limit m position
        ((e.definition document position : Program ε _).run w limit m).outcome?
        ((e.hover document position : Program ε _).record w limit m) ∧
      (((e.hover document position : Program ε _).run w limit m).outcome? ≠ none →
        ((e.definition document position : Program ε _).run w limit m).outcome? ≠ none) := by
  rw [Keeps, definition, hover]
  cases e.tokenAt? document position with
  | none => exact ⟨rfl, fun _ => Option.some_ne_none _⟩
  | some found =>
    obtain ⟨profile, token⟩ := found
    dsimp only
    cases token.isComment with
    | true => exact ⟨rfl, fun _ => Option.some_ne_none _⟩
    | false =>
      let found : Program ε (Outcome Hit) := e.definitionsOf document profile token.text
      obtain ⟨rest, hrecord, hrest⟩ :
          ∃ rest, (found >>= e.hoverOf document profile).record w limit m =
            found.record w limit m ++ rest ∧ ∀ x ∈ rest, x.call.isSearch = false :=
        exists_record_bind hoverOf_quiet m
      refine ⟨?_, fun hended hnone => hended (run_bind_of_none hnone _).1⟩
      rw [if_neg fun h => Bool.false_ne_true h.2]
      exact hrecord ▸ definitionsOf_searches.append_right hrest

end Lookup

/-! ## Public instances -/

section Inside

variable (e : Engine) (document : Document) (position : Position)

/-- A lookup in the current repository searches for what is written for the current repository. -/
theorem allows_inside {scopes : List Scope}
    (hscopes : ∀ scope ∈ scopes, scope = .currentRepository) :
    Allows (Step.Asks Call.IsInside : Step ε → Prop) document scopes where
  count _ _ := trivial
  repository := nofun
  search kind profile token flags fileLocal scope hscope form hform := by
    rintro text fileLocal' ⟨⟩
    exact ⟨kind, _, form, hscopes scope hscope, hform, rfl⟩

variable (hpublic : e.settings.publicInstance = true)

include hpublic

theorem allows_public :
    Allows (Step.Asks Call.IsInside : Step ε → Prop) document e.definitionScopes ∧
      Allows (Step.Asks Call.IsInside : Step ε → Prop) document e.referenceScopes := by
  rw [definitionScopes, referenceScopes, if_pos hpublic, if_pos hpublic]
  exact ⟨allows_inside document (List.forall_mem_singleton.mpr rfl),
    allows_inside document (List.forall_mem_singleton.mpr rfl)⟩

theorem definition_inside : (e.definition document position : Program ε _).Asks Call.IsInside :=
  e.definition_every (e.allows_public document hpublic).1 position

theorem references_inside : (e.references document position : Program ε _).Asks Call.IsInside :=
  e.references_every (e.allows_public document hpublic).2 position

theorem hover_inside : (e.hover document position : Program ε _).Asks Call.IsInside :=
  e.hover_every (e.allows_public document hpublic).1
    ⟨fun _ _ _ => nofun, fun _ => trivial, fun _ _ => trivial⟩ position

end Inside

/-- **The discipline of queries.** Every run of a lookup, beside any world and up to any limit,
searches for nothing but its own query in its own scopes, each at its pace, and has searched each of
them whose search has ended; a lookup of definitions does so with one kind of query, a lookup of
references with the other, and a hover as the lookup of definitions does. On a public instance the
only scope is the current repository, and two worlds that agree on every call but searches beyond it
have the same runs. -/
theorem queries_disciplined (e : Engine) (document : Document) (position : Position)
    (w : World σ) (limit : Nat) (m : Machine σ) :
    let definitions := (e.definition document position : Program ε _).run w limit m
    let references := (e.references document position : Program ε _).run w limit m
    let hovered := (e.hover document position : Program ε _).run w limit m
    e.Keeps ε .definition e.definitionScopes document w limit m position definitions.outcome?
        ((e.definition document position : Program ε _).record w limit m) ∧
      e.Keeps ε .references e.referenceScopes document w limit m position references.outcome?
        ((e.references document position : Program ε _).record w limit m) ∧
      e.Keeps ε .definition e.definitionScopes document w limit m position definitions.outcome?
        ((e.hover document position : Program ε _).record w limit m) ∧
      (hovered.outcome? ≠ none → definitions.outcome? ≠ none) ∧
      (e.settings.publicInstance = true →
        e.definitionScopes = [.currentRepository] ∧ e.referenceScopes = [.currentRepository] ∧
        ∀ w' : World σ, (∀ c : Call, c.IsInside → ∀ t s, w'.respond c t s = w.respond c t s) →
          (e.definition document position : Program ε _).run w' limit m = definitions ∧
            (e.references document position : Program ε _).run w' limit m = references ∧
            (e.hover document position : Program ε _).run w' limit m = hovered) := by
  refine ⟨definition_keeps position, references_keeps position, (hover_keeps position).1,
    (hover_keeps position).2, fun hpublic => ⟨if_pos hpublic, if_pos hpublic, fun w' hw => ?_⟩⟩
  refine ⟨?_, ?_, ?_⟩
  · exact (e.definition_inside document position hpublic).run_congr hw m
  · exact (e.references_inside document position hpublic).run_congr hw m
  · exact (e.hover_inside document position hpublic).run_congr hw m

end Engine

namespace TwoLanguages

/-- The current repository has no answer but from its index; the others answer at once. -/
def slowReplies : Replies
  | .search text _ =>
    if Text.occurs "-repo:".toList text.toList then some (0, .ok [hitIn "b", hitIn "c"])
    else if Text.occurs "index:only".toList text.toList then some (7, .ok [hitIn "a"])
    else none
  | _ => none

def slowWorld : World Unit := ⟨fun c t s => (.ofReply t (slowReplies c), s)⟩

/-- The query for the references to `serve` in a scope. -/
def serveIn (scope : Scope) : Query :=
  Engine.query .references (question "plain").document plain "serve" ⟨false, false⟩ scope

theorem slow_references :
    ((sources.engine.references (question "plain").document ⟨0, 3⟩ : Program Empty _).run
      slowWorld 10000 machine).outcome? = some (.ok [hitIn "a", hitIn "b", hitIn "c"]) := by
  rw [Engine.references, tokenAt?_plain]
  rfl

/-- The current repository is searched for twice, in either form, and the others once. -/
theorem queries_disciplined_slow :
    let record := (sources.engine.references (question "plain").document ⟨0, 3⟩ :
      Program Empty _).record slowWorld 10000 machine
    Engine.Keeps sources.engine Empty .references [.currentRepository, .otherRepositories]
        (question "plain").document slowWorld 10000 machine ⟨0, 3⟩
        (some (.ok [hitIn "a", hitIn "b", hitIn "c"])) record ∧
      record.map (fun x => (x.instant, x.call)) =
        [(0, .search (serveIn .currentRepository).text false),
         (0, .search (serveIn .otherRepositories).text false),
         (5000, .search (serveIn .currentRepository).toIndexOnly.text false)] := by
  have hkeeps := (Engine.queries_disciplined (ε := Empty) sources.engine
    (question "plain").document ⟨0, 3⟩ slowWorld 10000 machine).2.1
  rw [slow_references] at hkeeps
  refine ⟨hkeeps, ?_⟩
  rw [Engine.references, tokenAt?_plain]
  rfl

end TwoLanguages

end CodeNav

import CodeNav.Proofs.Lookup.Discipline
import CodeNav.Proofs.Lookup.Favored
import Mathlib.Algebra.BigOperators.Pi
import Mathlib.Algebra.Group.Pi.Lemmas
import Mathlib.Data.List.Sort

/-!
# Counters account for searches

For each scope it is counted how many searches are sent, how many hits and failures come back, and
whether the index alone had the answer. Some answers are never waited for: a race abandons the
search that is behind once the other one has results.

* `Reply.heard` — the replies that are waited for: **as they come, up to the first one with
  results**. `Reply.upshot` is what they come to, `Reply.decisive?` the one that says so.
* `completes_searchScope` — a search in one scope that ends has counted each search that it sent
  and each reply that it heard, and nothing else.
* `Accounts.cons` — scope after scope, or two of them at once: the counters of one scope are not
  touched by the others.
* `counters_account` — the lookups, beside any world.
-/

namespace CodeNav

/-- An answer to a search: what was searched for, when the answer comes, and what it is. -/
structure Reply where
  query : String
  instant : Nat
  outcome : Outcome Hit

/-- The answer that was promised to a search, if one comes. -/
def Promise.reply? (query : String) : Promise (Outcome Hit) → Option Reply
  | .due t o => some ⟨query, t, o⟩
  | .never => none

/-- The answer to a call, if the call is a search and an answer comes. -/
def Sent.reply? : Sent → Option Reply
  | ⟨_, .search query _, p⟩ => p.reply? query
  | _ => none

/-- The scope that a counter is about, if it is about one. -/
def Counter.scope? : Counter → Option Scope
  | .searchCalls s => some s
  | .searchResults s => some s
  | .searchFailures s => some s
  | .indexFallbacks s => some s
  | _ => none

namespace Reply

/-- The reply holds results. -/
def hasResults (r : Reply) : Bool := r.outcome.results?.isSome

/-- The reply is no failure. -/
def isSuccess (r : Reply) : Bool := r.outcome.isOk

/-- How many hits the reply holds. -/
def hitCount (r : Reply) : Nat := (Engine.hitsOf r.outcome).length

/-- Replies up to the first one with results: what comes behind it is not waited for. -/
def untilResults : List Reply → List Reply
  | [] => []
  | r :: rs => if r.hasResults then [r] else r :: untilResults rs

/-- A single reply is heard, with results or without: only what comes behind another is left out. -/
theorem untilResults_singleton (r : Reply) : untilResults [r] = [r] := by
  rw [untilResults]
  split <;> rfl

/-- A reply with results is the last one heard. -/
theorem untilResults_of_results {r : Reply} (h : r.outcome.results?.isSome = true)
    (rs : List Reply) : untilResults (r :: rs) = [r] := if_pos h

/-- Behind a reply without results the next one is waited for. -/
theorem untilResults_of_none {r : Reply} (h : r.outcome.results? = none) (rs : List Reply) :
    untilResults (r :: rs) = r :: untilResults rs := if_neg (by simp [hasResults, h])

/-- The replies to searches that are heard: as they come, and of two that come at once the one
that was asked for first, up to the first one with results. -/
def heard (sent : List Sent) : List Reply :=
  untilResults ((sent.filterMap Sent.reply?).insertionSort (·.instant ≤ ·.instant))

/-- The reply that decides: the one with results, else the first one that is no failure. -/
def decisive? (rs : List Reply) : Option Reply := (rs.find? hasResults).or (rs.find? isSuccess)

/-- What replies come to: what the decisive one holds, else the first failure. -/
def upshot (rs : List Reply) : Outcome Hit :=
  match (decisive? rs).or rs.head? with
  | some r => r.outcome
  | none => .ok []

/-! ## Replies to one search or two -/

section Heard

variable {t t' : Nat} {query query' : String} {fileLocal : Bool} {p p' : Promise (Outcome Hit)}
  {r : Reply}

/-- The reply to a search that is the only one is heard. -/
theorem heard_singleton (hp : p.reply? query = some r) :
    heard [⟨t, .search query fileLocal, p⟩] = [r] := by
  have hreplies : [(⟨t, .search query fileLocal, p⟩ : Sent)].filterMap Sent.reply? = [r] :=
    List.filterMap_cons_some hp
  rw [heard, hreplies]
  exact untilResults_singleton r

/-- The search that was sent first is answered first. -/
theorem heard_of_isFirst (hp : p.reply? query = some r) (hfirst : p.isFirst p' = true) :
    heard [⟨t, .search query fileLocal, p⟩, ⟨t', .search query' fileLocal, p'⟩] =
      untilResults (r :: (p'.reply? query').toList) := by
  cases p with
  | never => cases hp
  | due s o =>
    cases hp
    cases p' with
    | never => rfl
    | due s' o' =>
      have hle : s ≤ s' := by simpa [Promise.isFirst] using hfirst
      simp [heard, Sent.reply?, Promise.reply?, hle]

/-- The search that was sent last is answered first. -/
theorem heard_of_not_isFirst (hp' : p'.reply? query' = some r) (hfirst : p.isFirst p' = false) :
    heard [⟨t, .search query fileLocal, p⟩, ⟨t', .search query' fileLocal, p'⟩] =
      untilResults (r :: (p.reply? query).toList) := by
  cases p' with
  | never => cases hp'
  | due s' o' =>
    cases hp'
    cases p with
    | never => rfl
    | due s o =>
      have hle : ¬ s ≤ s' := by simpa [Promise.isFirst] using hfirst
      simp [heard, Sent.reply?, Promise.reply?, hle]

end Heard

/-! ## Replies that decide a race -/

section Judged

variable {r r' : Reply} {rs : List Reply} (side : Reply → Side)

/-- What replies come to, and whose the decisive one is. -/
def judged (rs : List Reply) : Except SearchError (Raced Hit) :=
  match (decisive? rs).or rs.head? with
  | some r => r.outcome.wonBy (side r)
  | none => .ok ⟨[], .primary⟩

/-- Whose the results are does not change what they are. -/
theorem map_judged (rs : List Reply) : (judged side rs).map (·.results) = upshot rs := by
  rw [judged, upshot]
  split
  · next r _ => cases h : r.outcome <;> rfl
  · rfl

/-- One reply decides, whatever it is. -/
theorem judged_singleton (r : Reply) : judged side [r] = r.outcome.wonBy (side r) := by
  have hdecides : (decisive? [r]).or [r].head? = some r := by
    rw [decisive?]
    cases hresults : r.hasResults <;> cases hsuccess : r.isSuccess <;>
      simp [List.find?, hresults, hsuccess]
  rw [judged, hdecides]

/-- Two replies, the first of which holds no results. -/
theorem judged_pair (hr : r.outcome.results? = none) :
    judged side [r, r'] = r.outcome.combine (side r) r'.outcome (side r') := by
  obtain ⟨query, t, o⟩ := r
  obtain ⟨query', t', o'⟩ := r'
  rcases o with err | _ | ⟨hit, hits⟩
  · rcases o' with err' | _ | ⟨hit', hits'⟩ <;> rfl
  · rcases o' with err' | _ | ⟨hit', hits'⟩ <;> rfl
  · cases hr

/-- Results are no failure, so a reply that is preferred for its results is never one. -/
theorem isSuccess_of_hasResults (h : r.hasResults = true) : r.isSuccess = true := by
  obtain ⟨query, t, o⟩ := r
  cases o with
  | error err => cases h
  | ok hits => rfl

/-- A failure decides nothing: it is told only if there is nothing else. -/
theorem isSuccess_of_decisive (h : decisive? rs = some r) : r.isSuccess = true := by
  rcases Option.or_eq_some_iff.mp h with h | ⟨-, h⟩
  · exact isSuccess_of_hasResults (List.find?_some h)
  · exact List.find?_some h

/-- A race is won by the side that the decisive reply is from. -/
theorem judged_eq_ok_iff {side : Reply → Side} :
    (∃ hits, judged side rs = .ok ⟨hits, .fallback⟩) ↔
      ∃ r, decisive? rs = some r ∧ side r = .fallback := by
  cases hdecides : decisive? rs with
  | some r =>
    have hr := isSuccess_of_decisive hdecides
    obtain ⟨query, t, o⟩ := r
    cases o with
    | error err => cases hr
    | ok hits => simp [judged, hdecides, Outcome.wonBy, Except.map]
  | none =>
    obtain ⟨-, hfails⟩ := Option.or_eq_none_iff.mp hdecides
    cases rs with
    | nil => simp [judged, hdecides]
    | cons r rs =>
      have hr : r.isSuccess = false := by
        simpa using List.find?_eq_none.mp hfails r List.mem_cons_self
      obtain ⟨query, t, o⟩ := r
      cases o with
      | error err => simp [judged, hdecides, Outcome.wonBy, Except.map]
      | ok hits => cases hr

end Judged

end Reply

namespace Engine

open Program Reply

variable {ε : Type} {scope : Scope} {t t' : Nat} {tr : List Sent} {g : Counter → Nat}

/-! ## Counting one scope -/

/-- What is counted when an answer is received. -/
def noted (scope : Scope) : Outcome Hit → Counter → Nat
  | .ok hits => Pi.single (.searchResults scope) hits.length
  | .error _ => Pi.single (.searchFailures scope) 1

/-- What is counted for an answer is counted at once, without a call and without waiting. -/
theorem completes_received {o : Outcome Hit} {u : Unit}
    (h : (received scope o : Program ε Unit).Completes t tr g u t') :
    tr = [] ∧ g = noted scope o ∧ t' = t := by
  cases o with
  | error err =>
    cases h with
    | count h =>
      cases h
      exact ⟨rfl, add_zero _, rfl⟩
  | ok hits =>
    cases h with
    | count h =>
      cases h
      exact ⟨rfl, add_zero _, rfl⟩

/-- Who has sent a query has counted one call. -/
theorem completes_send {q : Query} {fileLocal : Bool} {p : Promise (Outcome Hit)}
    (h : (send scope q fileLocal : Program ε _).Completes t tr g p t') :
    tr = [⟨t, .search q.text fileLocal, p⟩] ∧ g = Pi.single (.searchCalls scope) 1 ∧ t' = t := by
  rcases trace_send h with ⟨-, hnone⟩ | ⟨r, rfl, hsent⟩
  · cases hnone
  · obtain ⟨heq, hg⟩ := hsent _ rfl
    cases heq
    exact ⟨rfl, hg, rfl⟩

/-- A call by itself counts nothing: who sends a search counts it (`completes_send`). -/
theorem completes_call {c : Call} {r : Promise c.Answer}
    (h : (call c : Program ε _).Completes t tr g r t') : g = 0 := by
  cases h with
  | ask r h =>
    cases h
    rfl

/-- Who has awaited an answer got one, so it was due; waiting neither calls nor counts. -/
theorem completes_await {α : Type} {p : Promise α} {a : α}
    (h : (await p : Program ε α).Completes t tr g a t') :
    ∃ s, p = .due s a ∧ tr = [] ∧ g = 0 := by
  cases p with
  | never => cases h
  | due s a' =>
    cases h with
    | wait h =>
      cases h
      exact ⟨s, rfl, rfl, rfl⟩

/-- An answer that is received is counted in full, and only if it came: what never comes is never
counted. -/
theorem completes_receive {p : Promise (Outcome Hit)} {o : Outcome Hit}
    (h : (receive (received scope) p : Program ε _).Completes t tr g o t') :
    ∃ s, p = .due s o ∧ tr = [] ∧ g = noted scope o := by
  obtain ⟨o', t₁, tr₁, tr₂, g₁, g₂, hawait, hrest, rfl, rfl⟩ := h.bind_cases
  obtain ⟨u, t₂, tr₃, tr₄, g₃, g₄, hnoted, hend, rfl, rfl⟩ := hrest.bind_cases
  obtain ⟨s, rfl, rfl, rfl⟩ := completes_await hawait
  obtain ⟨rfl, rfl, rfl⟩ := completes_received hnoted
  cases hend
  exact ⟨s, rfl, rfl, by rw [zero_add, add_zero]⟩

/-- Whether a race was won by the search for the index alone. -/
def wonByIndex : Except SearchError (Raced Hit) → Bool
  | .ok r => r.winner = .fallback
  | .error _ => false

/-- At the end of a race it is counted whether the index won, and nothing else is. -/
theorem completes_conclude {raced : Except SearchError (Raced Hit)} {o : Outcome Hit}
    (h : (conclude scope raced : Program ε _).Completes t tr g o t') :
    tr = [] ∧ o = raced.map (·.results) ∧
      g = Pi.single (.indexFallbacks scope) (wonByIndex raced).toNat := by
  cases raced with
  | error err =>
    cases h
    exact ⟨rfl, rfl, (Pi.single_zero _).symm⟩
  | ok r =>
    obtain ⟨results, winner⟩ := r
    cases winner with
    | primary =>
      cases h
      exact ⟨rfl, rfl, (Pi.single_zero _).symm⟩
    | fallback =>
      cases h with
      | count h =>
        cases h
        exact ⟨rfl, rfl, add_zero _⟩

/-- The answers that are waited for once both searches are sent. -/
theorem completes_firstResults {p p' : Promise (Outcome Hit)} {text text' : String}
    {side : Reply → Side} {a a' : Side} (ha : ∀ s o, side ⟨text, s, o⟩ = a)
    (ha' : ∀ s o, side ⟨text', s, o⟩ = a') {raced : Except SearchError (Raced Hit)}
    (h : (firstResults (received scope) p a p' a' : Program ε _).Completes t tr g raced t') :
    tr = [] ∧ ∃ r, p.reply? text = some r ∧
      raced = judged side (untilResults (r :: (p'.reply? text').toList)) ∧
      g = ((untilResults (r :: (p'.reply? text').toList)).map (noted scope ·.outcome)).sum := by
  obtain ⟨o, t₁, tr₁, tr₂, g₁, g₂, hfirst, hrest, rfl, rfl⟩ := h.bind_cases
  obtain ⟨s, rfl, rfl, rfl⟩ := completes_receive hfirst
  cases hresults : o.results? with
  | some results =>
    -- the second search is abandoned
    rw [hresults] at hrest
    cases hrest
    obtain ⟨rfl, -⟩ := Outcome.results?_eq_some_iff.mp hresults
    refine ⟨rfl, _, rfl, ?_⟩
    rw [untilResults_of_results (by rw [hresults]; rfl), judged_singleton, ha]
    exact ⟨rfl, rfl⟩
  | none =>
    rw [hresults] at hrest
    obtain ⟨o', t₂, tr₃, tr₄, g₃, g₄, hsecond, hend, rfl, rfl⟩ := hrest.bind_cases
    obtain ⟨s', rfl, rfl, rfl⟩ := completes_receive hsecond
    cases hend
    refine ⟨rfl, _, rfl, ?_⟩
    simp only [Promise.reply?, Option.toList_some]
    rw [untilResults_of_none hresults, untilResults_singleton, judged_pair side hresults, ha, ha']
    refine ⟨rfl, ?_⟩
    simp

/-- The side that a reply is from. -/
def sideOf (q : Query) (r : Reply) : Side :=
  if r.query = q.toIndexOnly.text then .fallback else .primary

/-- The two sides of a race can be told apart in a record by what they searched for. -/
theorem sideOf_eq_fallback_iff {q : Query} {r : Reply} :
    sideOf q r = .fallback ↔ r.query = q.toIndexOnly.text := by
  rw [sideOf]
  split <;> simp_all

/-- **A race that ends** has counted what it sent, and what was heard of the answers. -/
theorem completes_race {q : Query} {fileLocal : Bool} (hq : q.isIndexOnly = false) {delay : Nat}
    {raced : Except SearchError (Raced Hit)}
    (h : (race delay (send scope q fileLocal) (send scope q.toIndexOnly fileLocal)
      (received scope) : Program ε _).Completes t tr g raced t') :
    tr ≠ [] ∧ raced = judged (sideOf q) (heard tr) ∧
      g = Pi.single (.searchCalls scope) tr.length +
        ((heard tr).map (noted scope ·.outcome)).sum := by
  have hplain (s : Nat) (o : Outcome Hit) : sideOf q ⟨q.text, s, o⟩ = .primary :=
    if_neg (Query.text_toIndexOnly_ne hq).symm
  have hindex (s : Nat) (o : Outcome Hit) : sideOf q ⟨q.toIndexOnly.text, s, o⟩ = .fallback :=
    if_pos rfl
  cases h with
  | now h =>
    obtain ⟨p, t₁, tr₁, tr₂, g₁, g₂, hsend, hrest, rfl, rfl⟩ :=
      Completes.bind_cases (p := send scope q fileLocal) h
    obtain ⟨rfl, rfl, rfl⟩ := completes_send hsend
    split at hrest
    · -- the plain search is answered in time
      obtain ⟨o, t₂, tr₃, tr₄, g₃, g₄, hreceive, hend, rfl, rfl⟩ := hrest.bind_cases
      obtain ⟨s, rfl, rfl, rfl⟩ := completes_receive hreceive
      cases hend
      have hreply : (Promise.due s o).reply? q.text = some ⟨q.text, s, o⟩ := rfl
      rw [List.append_nil, List.append_nil, heard_singleton hreply, judged_singleton, hplain]
      exact ⟨List.cons_ne_nil _ _, rfl, rfl⟩
    · cases hrest with
      | wait hrest =>
        obtain ⟨p', t₂, tr₃, tr₄, g₃, g₄, hsend', hend, rfl, rfl⟩ :=
          Completes.bind_cases (p := send scope q.toIndexOnly fileLocal) hrest
        obtain ⟨rfl, rfl, rfl⟩ := completes_send hsend'
        split at hend
        · next hfirst =>
          obtain ⟨rfl, r, hr, hraced, hg⟩ := completes_firstResults hplain hindex hend
          rw [List.append_nil, List.singleton_append, heard_of_isFirst hr hfirst]
          refine ⟨List.cons_ne_nil _ _, hraced, ?_⟩
          rw [← add_assoc, hg, ← Pi.single_add]
          rfl
        · next hfirst =>
          obtain ⟨rfl, r, hr, hraced, hg⟩ := completes_firstResults hindex hplain hend
          rw [List.append_nil, List.singleton_append,
            heard_of_not_isFirst hr (Bool.eq_false_iff.mpr hfirst)]
          refine ⟨List.cons_ne_nil _ _, hraced, ?_⟩
          rw [← add_assoc, hg, ← Pi.single_add]
          rfl

/-- **A search in one scope that ends** has counted what it sent and what was heard, and comes to
what the replies come to. -/
theorem completes_searchScope {e : Engine} {q : Query} {fileLocal : Bool}
    (hq : q.isIndexOnly = false) {o : Outcome Hit}
    (h : (e.searchScope scope q fileLocal : Program ε _).Completes t tr g o t') :
    tr ≠ [] ∧ o = upshot (heard tr) ∧ ∃ won : Bool,
      (won = true ↔ e.settings.indexedOnly = false ∧
        ∃ r, decisive? (heard tr) = some r ∧ r.query = q.toIndexOnly.text) ∧
      g = Pi.single (.searchCalls scope) tr.length +
        ((heard tr).map (noted scope ·.outcome)).sum +
          Pi.single (.indexFallbacks scope) won.toNat := by
  rw [searchScope, hq, Bool.or_false] at h
  split at h
  · next hindexed =>
    -- the form for the index alone
    obtain ⟨p, t₁, tr₁, tr₂, g₁, g₂, hsend, hreceive, rfl, rfl⟩ := h.bind_cases
    obtain ⟨rfl, rfl, rfl⟩ := completes_send hsend
    obtain ⟨s, rfl, rfl, rfl⟩ := completes_receive hreceive
    have hreply : (Promise.due s o).reply? q.toIndexOnly.text =
        some ⟨q.toIndexOnly.text, s, o⟩ := rfl
    rw [List.append_nil, heard_singleton hreply]
    refine ⟨List.cons_ne_nil _ _, ?_, false, by simp [hindexed], ?_⟩
    · rw [← map_judged (fun _ => .fallback), judged_singleton]
      cases o <;> rfl
    · rw [Bool.toNat_false, Pi.single_zero]
      rfl
  · next hindexed =>
    have hraced : e.settings.indexedOnly = false := by simpa using hindexed
    obtain ⟨raced, t₁, tr₁, tr₂, g₁, g₂, hrace, hend, rfl, rfl⟩ := h.bind_cases
    obtain ⟨hsent, rfl, rfl⟩ := completes_race hq hrace
    obtain ⟨rfl, rfl, rfl⟩ := completes_conclude hend
    rw [List.append_nil]
    refine ⟨hsent, map_judged _ _, _, ?_, rfl⟩
    simp only [hraced, true_and, ← sideOf_eq_fallback_iff (q := q), ← judged_eq_ok_iff]
    cases judged (sideOf q) (heard tr₁) with
    | error err => simp [wonByIndex]
    | ok raced =>
      obtain ⟨results, winner⟩ := raced
      cases winner <;> simp [wonByIndex]

/-- A failure brings no hits, so the hits counted are those of all replies, failures too. -/
theorem noted_results (scope : Scope) (r : Reply) :
    noted scope r.outcome (.searchResults scope) = r.hitCount := by
  obtain ⟨query, t, o⟩ := r
  cases o <;> simp [noted, hitCount, hitsOf]

/-- Each failure counts for one. -/
theorem noted_failures (scope : Scope) (r : Reply) :
    noted scope r.outcome (.searchFailures scope) = if r.isSuccess then 0 else 1 := by
  obtain ⟨query, t, o⟩ := r
  cases o <;> simp [noted, isSuccess, Except.isOk, Except.toBool]

/-- Nothing else is counted. -/
theorem noted_other {x : Counter} (hresults : x ≠ .searchResults scope)
    (hfailures : x ≠ .searchFailures scope) (o : Outcome Hit) : noted scope o x = 0 := by
  cases o <;> simp [noted, hresults, hfailures]

/-- Replies are counted one by one, so each counter can be summed up by itself. -/
theorem sum_noted (rs : List Reply) (x : Counter) :
    (rs.map (noted scope ·.outcome)).sum x = (rs.map (noted scope ·.outcome x)).sum := by
  rw [Pi.list_sum_apply, List.map_map]
  rfl

/-- Over several replies the failures are counted. -/
theorem sum_noted_failures (rs : List Reply) :
    (rs.map (noted scope ·.outcome)).sum (.searchFailures scope) = rs.countP (!·.isSuccess) := by
  rw [sum_noted]
  induction rs with
  | nil => rfl
  | cons r rs ih =>
    rw [List.map_cons, List.sum_cons, ih, noted_failures, List.countP_cons, add_comm]
    cases r.isSuccess <;> rfl

/-- Over several replies the hits are added up. -/
theorem sum_noted_results (rs : List Reply) :
    (rs.map (noted scope ·.outcome)).sum (.searchResults scope) = (rs.map hitCount).sum := by
  rw [sum_noted, List.map_congr_left fun r _ => noted_results scope r]

/-- Calls and fallbacks are not counted where answers are received. -/
theorem sum_noted_other (rs : List Reply) {x : Counter} (hresults : x ≠ .searchResults scope)
    (hfailures : x ≠ .searchFailures scope) :
    (rs.map (noted scope ·.outcome)).sum x = 0 := by
  rw [sum_noted, List.map_congr_left fun r _ => noted_other hresults hfailures r.outcome]
  exact List.sum_map_zero

/-! ## What the counters of a scope tell -/

variable (ε) in
/-- What the counters of a scope tell about the searches that were sent for it. If there are none,
none of them grows. -/
structure Accounted (e : Engine) (scope : Scope) (q : Query) (fileLocal : Bool)
    (sent : List Sent) (g : Counter → Nat) : Prop where
  /-- every search that was sent is a call -/
  calls : g (.searchCalls scope) = sent.length
  /-- the hits of the replies that were heard -/
  results : g (.searchResults scope) = ((heard sent).map hitCount).sum
  /-- the failures among the replies that were heard -/
  failures : g (.searchFailures scope) = (heard sent).countP (!·.isSuccess)
  fallbacks_le : g (.indexFallbacks scope) ≤ 1
  /-- the scope was raced, and what it came to is from the search of the index alone -/
  fallbacks_iff : g (.indexFallbacks scope) = 1 ↔ e.settings.indexedOnly = false ∧
    ∃ r, decisive? (heard sent) = some r ∧ r.query = q.toIndexOnly.text
  /-- if the scope was searched, the search ended, with what was heard -/
  ended : sent ≠ [] → ∃ t t' g', (e.searchScope scope q fileLocal : Program ε _).Completes t sent
    g' (upshot (heard sent)) t'

section Accounted

variable {e : Engine} {q : Query} {fileLocal : Bool} {sent : List Sent}

/-- A scope that was not searched. -/
theorem Accounted.idle (h : ∀ x : Counter, x.scope? = some scope → g x = 0) :
    Accounted ε e scope q fileLocal [] g := by
  refine ⟨h _ rfl, h _ rfl, h _ rfl, ?_, ?_, fun hne => absurd rfl hne⟩
  · rw [h _ rfl]
    exact Nat.zero_le 1
  · rw [h _ rfl]
    refine iff_of_false Nat.zero_ne_one ?_
    rintro ⟨-, r, hr, -⟩
    cases hr

/-- Only the scope's own counters matter, so others may have grown meanwhile. -/
theorem Accounted.congr {g' : Counter → Nat} (h : Accounted ε e scope q fileLocal sent g)
    (heq : ∀ x : Counter, x.scope? = some scope → g' x = g x) :
    Accounted ε e scope q fileLocal sent g' := by
  refine ⟨?_, ?_, ?_, ?_, ?_, h.ended⟩
  · rw [heq _ rfl, h.calls]
  · rw [heq _ rfl, h.results]
  · rw [heq _ rfl, h.failures]
  · rw [heq _ rfl]
    exact h.fallbacks_le
  · rw [heq _ rfl]
    exact h.fallbacks_iff

/-- **One scope.** The counters of a search that ends tell what was sent and what was heard, and no
other counters grow. -/
theorem searchScope_accounted (hq : q.isIndexOnly = false) {o : Outcome Hit}
    (h : (e.searchScope scope q fileLocal : Program ε _).Completes t sent g o t') :
    Accounted ε e scope q fileLocal sent g ∧
      ∀ x : Counter, x.scope? ≠ some scope → g x = 0 := by
  obtain ⟨-, ho, won, hwon, rfl⟩ := completes_searchScope hq h
  have hfallbacks : (Pi.single (.searchCalls scope) sent.length +
      ((heard sent).map (noted scope ·.outcome)).sum +
        Pi.single (.indexFallbacks scope) won.toNat : Counter → Nat) (.indexFallbacks scope) =
      won.toNat := by
    simp [sum_noted_other]
  refine ⟨⟨?_, ?_, ?_, ?_, ?_, fun _ => ⟨t, t', _, ho ▸ h⟩⟩, ?_⟩
  · simp [sum_noted_other]
  · simp [sum_noted_results]
  · simp [sum_noted_failures]
  · rw [hfallbacks]
    exact Bool.toNat_le won
  · rw [hfallbacks, ← hwon]
    cases won <;> decide
  · intro x hx
    have hcalls : x ≠ .searchCalls scope := fun h => hx (h ▸ rfl)
    have hresults : x ≠ .searchResults scope := fun h => hx (h ▸ rfl)
    have hfailures : x ≠ .searchFailures scope := fun h => hx (h ▸ rfl)
    have hindex : x ≠ .indexFallbacks scope := fun h => hx (h ▸ rfl)
    simp [hcalls, hindex, sum_noted_other _ hresults hfailures]

end Accounted

/-! ## What the counters of a lookup tell -/

variable (ε) in
/-- What the counters tell about the searches of a lookup, with its query for each of its scopes. -/
structure Accounts (e : Engine) (queryOf : Scope → Query) (fileLocal : Bool)
    (scopes : List Scope) (record : List Sent) (g : Counter → Nat) : Prop where
  accounted : ∀ scope ∈ scopes, Accounted ε e scope (queryOf scope) fileLocal
    (record.filter (·.call.isFor (queryOf scope) fileLocal)) g
  /-- nothing is counted for other scopes -/
  silent : ∀ (x : Counter) scope, x.scope? = some scope → scope ∉ scopes → g x = 0

namespace Accounts

variable {e : Engine} {queryOf : Scope → Query} {fileLocal : Bool} {scopes : List Scope}
  {record record' : List Sent} {g' : Counter → Nat}

/-- Where nothing is searched for and nothing counted. -/
theorem of_quiet (h : ∀ x ∈ record, x.call.isSearch = false)
    (hg : ∀ x : Counter, x.scope? ≠ none → g x = 0) :
    Accounts ε e queryOf fileLocal scopes record g := by
  refine ⟨fun scope _ => ?_, fun x scope hx _ => hg x (hx ▸ Option.some_ne_none scope)⟩
  rw [Disciplined.filter_of_quiet h]
  exact .idle fun x hx => hg x (hx ▸ Option.some_ne_none scope)

/-- Only the calls for the scopes' own queries matter, and only counters that are about a scope. -/
theorem congr (h : Accounts ε e queryOf fileLocal scopes record g)
    (hrecord : ∀ scope ∈ scopes, record'.filter (·.call.isFor (queryOf scope) fileLocal) =
      record.filter (·.call.isFor (queryOf scope) fileLocal))
    (hg : ∀ x : Counter, x.scope? ≠ none → g' x = g x) :
    Accounts ε e queryOf fileLocal scopes record' g' := by
  refine ⟨fun scope hscope => ?_, fun x scope hx hscope => ?_⟩
  · rw [hrecord scope hscope]
    exact (h.accounted scope hscope).congr fun x hx => hg x (hx ▸ Option.some_ne_none scope)
  · rw [hg x (hx ▸ Option.some_ne_none scope)]
    exact h.silent x scope hx hscope

/-- Other calls may stand before and behind, and other things be counted. -/
theorem append_left (h : Accounts ε e queryOf fileLocal scopes record' g')
    (hquiet : ∀ x ∈ record, x.call.isSearch = false)
    (hg : ∀ x : Counter, x.scope? ≠ none → g x = 0) :
    Accounts ε e queryOf fileLocal scopes (record ++ record') (g + g') := by
  refine h.congr (fun scope _ => ?_) fun x hx => ?_
  · rw [List.filter_append, Disciplined.filter_of_quiet hquiet, List.nil_append]
  · rw [Pi.add_apply, hg x hx, zero_add]

/-- The same holds for calls that come behind. -/
theorem append_right (h : Accounts ε e queryOf fileLocal scopes record g)
    (hquiet : ∀ x ∈ record', x.call.isSearch = false)
    (hg : ∀ x : Counter, x.scope? ≠ none → g' x = 0) :
    Accounts ε e queryOf fileLocal scopes (record ++ record') (g + g') := by
  refine h.congr (fun scope _ => ?_) fun x hx => ?_
  · rw [List.filter_append, Disciplined.filter_of_quiet hquiet, List.append_nil]
  · rw [Pi.add_apply, hg x hx, add_zero]

/-- **One scope more.** Its calls are told apart from those for the others, and it counts for itself
alone. -/
theorem cons {scope : Scope} {sent : List Sent} (hnew : scope ∉ scopes)
    (hscope : Accounted ε e scope (queryOf scope) fileLocal sent g)
    (hother : ∀ x : Counter, x.scope? ≠ some scope → g x = 0)
    (h : Accounts ε e queryOf fileLocal scopes record' g')
    (hself : record.filter (·.call.isFor (queryOf scope) fileLocal) = sent)
    (hrest : ∀ scope' ∈ scopes, record.filter (·.call.isFor (queryOf scope') fileLocal) =
      record'.filter (·.call.isFor (queryOf scope') fileLocal)) :
    Accounts ε e queryOf fileLocal (scope :: scopes) record (g + g') := by
  -- the counters of other scopes grow for them alone
  have hlater : ∀ (x : Counter) scope', x.scope? = some scope' → scope' ≠ scope →
      (g + g') x = g' x := by
    intro x scope' hx hne
    rw [Pi.add_apply, hother x (by simp [hx, hne]), zero_add]
  refine ⟨fun scope' hscope' => ?_, fun x scope' hx hscope' => ?_⟩
  · rcases List.mem_cons.mp hscope' with rfl | hscope'
    · rw [hself]
      refine hscope.congr fun x hx => ?_
      rw [Pi.add_apply, h.silent x _ hx hnew, add_zero]
    · rw [hrest scope' hscope']
      have hne : scope' ≠ scope := fun heq => hnew (heq ▸ hscope')
      exact (h.accounted scope' hscope').congr fun x hx => hlater x scope' hx hne
  · obtain ⟨hne, hscope'⟩ := not_or.mp (mt List.mem_cons.mpr hscope')
    rw [hlater x scope' hx hne]
    exact h.silent x scope' hx hscope'

end Accounts

/-! ## The lookups -/

section Searches

variable {e : Engine} {document : Document} {profile : Profile} {token : String}
  {flags : RepoInfo} {o : Outcome Hit}

/-- **Tier after tier.** A tier that is not reached is accounted for as one that was not searched.
-/
theorem searchTiers_accounts {scopes : List Scope} (hscopes : .currentFile ∉ scopes)
    (hnodup : scopes.Nodup)
    (h : (e.searchTiers document profile token flags scopes : Program ε _).Completes t tr g o t') :
    Accounts ε e (query .definition document profile token flags) true scopes tr g := by
  induction scopes generalizing t tr g with
  | nil =>
    cases h
    exact .of_quiet (List.forall_mem_nil _) fun _ _ => rfl
  | cons scope scopes ih =>
    obtain ⟨hnew, hnodup⟩ := List.nodup_cons.mp hnodup
    have hdistinct := query_distinct .definition document profile token flags true _ hscopes
    have hlater := mt (List.mem_cons_of_mem scope) hscopes
    obtain ⟨found, t₁, tr₁, tr₂, g₁, g₂, hscope, htail, rfl, rfl⟩ := h.bind_cases
    obtain ⟨haccounted, hother⟩ := searchScope_accounted (Query.isIndexOnly_build _ _) hscope
    -- the scopes behind are searched only if nothing is found in this one
    have hrest : Accounts ε e (query .definition document profile token flags) true scopes tr₂ g₂ ∧
        Disciplined e.settings (query .definition document profile token flags) true scopes []
          tr₂ := by
      have hstop : Accounts ε e (query .definition document profile token flags) true scopes [] 0 :=
        .of_quiet (List.forall_mem_nil _) fun _ _ => rfl
      split at htail
      · cases htail
        exact ⟨hstop, .nil⟩
      · exact ⟨ih hlater hnodup htail,
          (searchTiers_disciplined hlater hnodup htail).forget⟩
      · cases htail
        exact ⟨hstop, .nil⟩
    obtain ⟨hself, hothers⟩ :=
      hrest.2.filter_append hdistinct hnew (searchScope_trace hscope).2
    exact .cons hnew haccounted hother hrest.1 hself hothers

/-- **All tiers at once.** Though their searches run into each other, each is counted for its own
scope. -/
theorem searchUnited_accounts
    (h : (e.searchUnited document profile token flags : Program ε _).Completes t tr g o t') :
    Accounts ε e (query .references document profile token flags) false e.referenceScopes tr g := by
  have hnone : Accounts ε e (query .references document profile token flags) false [] [] 0 :=
    .of_quiet (List.forall_mem_nil _) fun _ _ => rfl
  rw [searchUnited] at h
  rw [referenceScopes]
  split at h
  · next hpublic =>
    rw [if_pos hpublic]
    obtain ⟨found, t₁, tr₁, tr₂, g₁, g₂, hscope, hend, rfl, rfl⟩ := h.bind_cases
    obtain ⟨haccounted, hother⟩ := searchScope_accounted (Query.isIndexOnly_build _ _) hscope
    cases hend
    rw [List.append_nil]
    refine .cons List.not_mem_nil haccounted hother hnone ?_ (List.forall_mem_nil _)
    exact List.filter_eq_self.mpr (searchScope_trace hscope).2
  · next hpublic =>
    rw [if_neg hpublic]
    have hdistinct := query_distinct .references document profile token flags false
      [.currentRepository, .otherRepositories] (by decide)
    obtain ⟨⟨found, found'⟩, t₁, tr₁, tr₂, g₁, g₂, hboth, hend, rfl, rfl⟩ := h.bind_cases
    cases hend
    rw [List.append_nil, add_zero]
    have hleft := e.searchScope_asks_for (ε := ε) .currentRepository
      (query .references document profile token flags .currentRepository) false
    obtain ⟨g₁, g₂, t₂, t₃, hcurrent, hothers, rfl⟩ := Completes.both hleft otherTier_asks hboth
    obtain ⟨haccounted, hother⟩ := searchScope_accounted (Query.isIndexOnly_build _ _) hcurrent
    obtain ⟨haccounted', hother'⟩ := searchScope_accounted (Query.isIndexOnly_build _ _) hothers
    have hfor := (searchScope_trace hothers).2
    have hsplit := Disciplined.isFor_eq_not hdistinct (by decide) hfor
    have hrest := Accounts.cons List.not_mem_nil haccounted' hother' hnone
      (List.filter_eq_self.mpr hfor) (List.forall_mem_nil _)
    rw [add_zero] at hrest
    refine .cons (by decide) haccounted hother hrest rfl fun scope hscope => ?_
    rw [List.mem_singleton.mp hscope, List.filter_congr hsplit]
    exact (List.filter_eq_self.mpr hfor).symm

end Searches

/-- Asking for the facts about a repository counts nothing. -/
theorem completes_repoFlags {e : Engine} {repo : String} {flags : RepoInfo}
    (h : (e.repoFlags repo : Program ε _).Completes t tr g flags t') :
    (∀ x ∈ tr, x.call.isSearch = false) ∧ g = 0 := by
  refine ⟨fun x hx => ?_, ?_⟩
  · rw [h.of_asks (e.repoFlags_asks repo) x hx]
    rfl
  · rw [repoFlags] at h
    split at h
    · cases h
      rfl
    · split at h
      · cases h
        rfl
      · obtain ⟨r, t₁, tr₁, tr₂, g₁, g₂, hcall, hrest, -, rfl⟩ := h.bind_cases
        obtain ⟨info, t₂, tr₃, tr₄, g₃, g₄, hawait, hend, -, rfl⟩ := hrest.bind_cases
        obtain rfl := completes_call hcall
        obtain ⟨s, -, -, rfl⟩ := completes_await hawait
        split at hend <;> cases hend <;> rfl

/-- Fetching the text of a definition counts nothing for a scope. -/
theorem completes_definingText {document : Document} {hit : Hit} {text : Option String}
    (h : (definingText document hit : Program ε _).Completes t tr g text t') :
    (∀ x ∈ tr, x.call.isSearch = false) ∧ ∀ x : Counter, x.scope? ≠ none → g x = 0 := by
  refine ⟨h.of_asks (P := (·.isSearch = false))
    (definingText_every (fun _ _ => trivial) allowsTexts_quiet document hit), fun x hx => ?_⟩
  rw [definingText] at h
  split at h
  · cases h
    rfl
  · rw [content] at h
    cases h with
    | consult v h =>
      cases v with
      | some text =>
        cases h with
        | count h =>
          cases h
          have hother : x ≠ .cacheHits := fun heq => hx (heq ▸ rfl)
          simp [hother]
      | none =>
        obtain ⟨r, t₁, tr₁, tr₂, g₁, g₂, hcall, hrest, -, rfl⟩ := Completes.bind_cases h
        obtain ⟨fetched, t₂, tr₃, tr₄, g₃, g₄, hawait, hend, -, rfl⟩ := hrest.bind_cases
        obtain rfl := completes_call hcall
        obtain ⟨s, -, -, rfl⟩ := completes_await hawait
        split at hend
        · cases hend with
          | remember hend =>
            cases hend
            rfl
        · cases hend
          rfl

section Lookup

variable (e : Engine) (ε : Type) (kind : QueryKind) (scopes : List Scope) (document : Document)

/-- The searches for a token are its queries, and the counters account for them. -/
def AuditedFor (profile : Profile) (token : String) (record : List Sent) (g : Counter → Nat) :
    Prop :=
  ∃ flags, Disciplined e.settings (query kind document profile token flags) (kind = .definition)
      scopes [] record ∧
    Accounts ε e (query kind document profile token flags) (kind = .definition) scopes record g

/-- The calls of a lookup, and what was counted: nothing where there is no token, else the searches
for it. -/
def Audited (position : Position) (record : List Sent) (g : Counter → Nat) : Prop :=
  match e.tokenAt? document position with
  | none => record = [] ∧ g = 0
  | some (profile, token) => e.AuditedFor ε kind scopes document profile token.text record g

/-- What the counters grow by in a run is accounted for by its calls. -/
def Balances {σ α : Type} (position : Position) (p : Program ε α) (w : World σ) (limit : Nat)
    (m : Machine σ) : Prop :=
  ∃ g, (∀ x, (p.run w limit m).machine.total x = m.total x + g x) ∧
    e.Audited ε kind scopes document position (p.record w limit m) g

variable {e ε kind scopes document} {profile : Profile} {token : String} {record : List Sent}
  {position : Position}

/-- Where nothing was sent and nothing counted, the books balance, whatever is known about the
repository. -/
theorem AuditedFor.nil : e.AuditedFor ε kind scopes document profile token [] 0 :=
  ⟨⟨false, false⟩, .nil, .of_quiet (List.forall_mem_nil _) fun _ _ => rfl⟩

/-- The facts about the repository first, then searches that are accounted for. -/
theorem audited_bind {α : Type} {body : RepoInfo → Program ε α}
    (hbody : ∀ {flags t tr g a t'}, (body flags).Completes t tr g a t' →
      Disciplined e.settings (query kind document profile token flags) (kind = .definition) scopes
          [] tr ∧
        Accounts ε e (query kind document profile token flags) (kind = .definition) scopes tr g)
    {a : α} (h : (e.repoFlags document.repo >>= body).Completes t tr g a t') :
    e.AuditedFor ε kind scopes document profile token tr g := by
  obtain ⟨flags, t₁, tr₁, tr₂, g₁, g₂, hflags, hsearch, rfl, rfl⟩ := h.bind_cases
  obtain ⟨hquiet, rfl⟩ := completes_repoFlags hflags
  obtain ⟨hdisciplined, haccounts⟩ := hbody hsearch
  exact ⟨flags, hdisciplined.append_left hquiet, haccounts.append_left hquiet fun _ _ => rfl⟩

/-- Only a lookup that finds a token searches. -/
theorem Audited.of_token (hnone : e.tokenAt? document position = none → record = [] ∧ g = 0)
    (hsome : ∀ profile token, e.tokenAt? document position = some (profile, token) →
      e.AuditedFor ε kind scopes document profile token.text record g) :
    e.Audited ε kind scopes document position record g := by
  rw [Audited]
  split
  · next htoken => exact hnone htoken
  · next profile token htoken => exact hsome profile token htoken

/-- The searches for the definitions of a token are asked for by two lookups, so they are audited by
themselves. -/
theorem definitionsOf_audited {o : Outcome Hit}
    (h : (e.definitionsOf document profile token : Program ε _).Completes t tr g o t') :
    e.AuditedFor ε .definition e.definitionScopes document profile token tr g := by
  obtain ⟨hfile, hnodup⟩ := e.definitionScopes_cases
  refine audited_bind (fun hsearch => ⟨?_, searchTiers_accounts hfile hnodup hsearch⟩) h
  exact (searchTiers_disciplined hfile hnodup hsearch).forget

/-- **A lookup of definitions is accounted for.** -/
theorem definition_audited {o : Outcome Hit}
    (h : (e.definition document position : Program ε _).Completes t tr g o t') :
    e.Audited ε .definition e.definitionScopes document position tr g := by
  rw [definition] at h
  refine .of_token (fun htoken => ?_) fun profile token htoken => ?_ <;> rw [htoken] at h
  · cases h
    exact ⟨rfl, rfl⟩
  · dsimp only at h
    split at h
    · cases h
      exact .nil
    · exact definitionsOf_audited h

/-- **A lookup of references is accounted for.** -/
theorem references_audited {o : Outcome Hit}
    (h : (e.references document position : Program ε _).Completes t tr g o t') :
    e.Audited ε .references e.referenceScopes document position tr g := by
  rw [references] at h
  refine .of_token (fun htoken => ?_) fun profile token htoken => ?_ <;> rw [htoken] at h
  · cases h
    exact ⟨rfl, rfl⟩
  · have hunited : (e.repoFlags document.repo >>= e.searchUnited document profile token.text :
        Program ε _).Completes t tr g o t' := h
    exact audited_bind (fun hsearch => ⟨(searchUnited_disciplined hsearch).forget,
      searchUnited_accounts hsearch⟩) hunited

/-- What a hover does with the definitions is no search. -/
theorem completes_hoverOf {found : Outcome Hit} {shown : Except SearchError (Option HoverPayload)}
    (h : (e.hoverOf document profile found : Program ε _).Completes t tr g shown t') :
    (∀ x ∈ tr, x.call.isSearch = false) ∧ ∀ x : Counter, x.scope? ≠ none → g x = 0 := by
  refine ⟨h.of_asks (hoverOf_quiet found), ?_⟩
  rcases found with err | _ | ⟨hit, hits⟩
  · cases h
    exact fun _ _ => rfl
  · cases h
    exact fun _ _ => rfl
  · obtain ⟨text, t₁, tr₁, tr₂, g₁, g₂, htext, hend, -, rfl⟩ :=
      Completes.bind_cases (p := definingText document hit) h
    cases hend
    rw [add_zero]
    exact (completes_definingText htext).2

/-- **A hover is accounted for** as the lookup of definitions that it begins with: fetching the text
and reading its comment searches for nothing. -/
theorem hover_audited {shown : Except SearchError (Option HoverPayload)}
    (h : (e.hover document position : Program ε _).Completes t tr g shown t') :
    e.Audited ε .definition e.definitionScopes document position tr g := by
  rw [hover] at h
  refine .of_token (fun htoken => ?_) fun profile token htoken => ?_ <;> rw [htoken] at h
  · cases h
    exact ⟨rfl, rfl⟩
  · dsimp only at h
    split at h
    · cases h
      exact .nil
    · obtain ⟨found, t₁, tr₁, tr₂, g₁, g₂, hfound, hend, rfl, rfl⟩ :=
        Completes.bind_cases (f := e.hoverOf document profile) h
      obtain ⟨flags, hdisciplined, haccounts⟩ := definitionsOf_audited hfound
      obtain ⟨hquiet, hsilent⟩ := completes_hoverOf hend
      exact ⟨flags, hdisciplined.append_right hquiet, haccounts.append_right hquiet hsilent⟩

end Lookup

/-- **The counters account for every search.** Every run of a lookup that ends, beside any world and
from any machine, searches for nothing but its own query in its own scopes. For each of these the
calls that are counted are the searches that were sent; the hits and the failures are those of the
replies that were heard, and a reply behind the first one with results is not; and a scope that was
raced is counted once as answered by the index if what its search came to is from there. Nothing
is counted for other scopes. -/
theorem counters_account {σ : Type} (e : Engine) (document : Document) (position : Position)
    (w : World σ) (limit : Nat) (m : Machine σ) :
    (∀ found, ((e.definition document position : Program ε _).run w limit m).outcome? = some found →
      e.Balances ε .definition e.definitionScopes document position
        (e.definition document position) w limit m) ∧
    (∀ found, ((e.references document position : Program ε _).run w limit m).outcome? = some found →
      e.Balances ε .references e.referenceScopes document position
        (e.references document position) w limit m) ∧
    ∀ shown, ((e.hover document position : Program ε _).run w limit m).outcome? = some shown →
      e.Balances ε .definition e.definitionScopes document position
        (e.hover document position) w limit m := by
  refine ⟨fun found h => ?_, fun found h => ?_, fun shown h => ?_⟩
  · obtain ⟨g, t', hcompletes, htotal⟩ := completes_run h
    exact ⟨g, htotal, definition_audited hcompletes⟩
  · obtain ⟨g, t', hcompletes, htotal⟩ := completes_run h
    exact ⟨g, htotal, references_audited hcompletes⟩
  · obtain ⟨g, t', hcompletes, htotal⟩ := completes_run h
    exact ⟨g, htotal, hover_audited hcompletes⟩

end Engine

namespace TwoLanguages

/-- The current repository is searched for twice and answered by its index, the others once. -/
theorem counters_account_slow :
    ∃ g, Engine.Audited sources.engine Empty .references [.currentRepository, .otherRepositories]
        (question "plain").document ⟨0, 3⟩ ((sources.engine.references (question "plain").document
          ⟨0, 3⟩ : Program Empty _).record slowWorld 10000 machine) g ∧
      g (.searchCalls .currentRepository) = 2 ∧ g (.searchResults .currentRepository) = 1 ∧
      g (.indexFallbacks .currentRepository) = 1 ∧ g (.searchCalls .otherRepositories) = 1 ∧
      g (.searchResults .otherRepositories) = 2 ∧ g (.indexFallbacks .otherRepositories) = 0 := by
  obtain ⟨g, htotal, haudited⟩ := (Engine.counters_account sources.engine
    (question "plain").document ⟨0, 3⟩ slowWorld 10000 machine).2.1 _ slow_references
  have hg : ∀ x, g x = ((sources.engine.references (question "plain").document ⟨0, 3⟩ :
      Program Empty _).run slowWorld 10000 machine).machine.total x := fun x =>
    ((htotal x).trans (Nat.zero_add _)).symm
  refine ⟨g, haudited, ?_⟩
  simp only [hg]
  rw [Engine.references, tokenAt?_plain]
  exact ⟨rfl, rfl, rfl, rfl, rfl, rfl⟩

end TwoLanguages

end CodeNav

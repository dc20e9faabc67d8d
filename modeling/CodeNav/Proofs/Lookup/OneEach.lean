import CodeNav.Proofs.Lookup.Memo
import CodeNav.Proofs.Lookup.Session

/-!
# One lookup for each operation

What holds in every session, and that the sessions are those of a provider whose tasks are let
run.

* `exists_moves_settle`, `exists_moves_passFrom` — **letting tasks run and time pass is a row of
  moves**, so what holds in every session holds whenever a provider is looked at.
* `Orderly` — each operation has at most one lookup that is not cancelled, asking again **joins**
  it, asking for something else **supersedes** it and no other, readers see what was handed out
  for the key they asked for, and a cancelled lookup's stream is **complete once its task has
  run** (`reachable_orderly`).
-/

namespace CodeNav

/-! ## Letting tasks run -/

/-- Replacing a stream by what it becomes is changing it. -/
theorem Provider.updateStream_stream (p : Provider) (i : Nat)
    (f : Stream Snapshot → Stream Snapshot) :
    (p.updateStream i fun _ => f (p.stream i)) = p.updateStream i f := by
  have hstreams : (p.streams.modify i fun _ => f (p.stream i)) = p.streams.modify i f := by
    refine List.ext_getElem? fun j => ?_
    rw [List.getElem?_modify, List.getElem?_modify]
    by_cases hij : i = j
    · subst hij
      rw [stream, List.getD_eq_getElem?_getD]
      cases p.streams[i]? <;> rfl
    · simp [hij]
  rw [updateStream, hstreams, updateStream]

namespace Session

variable {σ : Type} {sources : Sources} {s : Session}

/-- A row of moves, of lookups alone. -/
def Moves (sources : Sources) (s s' : Session) : Prop :=
  Relation.ReflTransGen (Step sources) s s' ∧ s'.consumers = s.consumers

theorem Moves.refl (s : Session) : Moves sources s s := ⟨.refl, rfl⟩

theorem Moves.trans {s' s'' : Session} (h : Moves sources s s') (h' : Moves sources s' s'') :
    Moves sources s s'' := ⟨h.1.trans h'.1, h'.2.trans h.2⟩

/-- A task that is run makes a few moves. -/
theorem exists_moves_stepTask (w : World σ) {before after : List Task} {t : Task}
    (htasks : s.provider.tasks = before ++ t :: after) (m : Machine σ) {rest : Option Task}
    {st : Stream Snapshot} {m' : Machine σ}
    (hstep : Provider.stepTask w t (s.provider.stream t.stream) m = (rest, st, m')) :
    ∃ s', Moves sources s s' ∧
      s'.provider = { s.provider.updateStream t.stream (fun _ => st) with
        tasks := before ++ rest.toList ++ after } := by
  have hleads : t.program.Leads (t.program.poll w m).emitted
    (t.program.poll w m).progress.rest := t.program.leads_run w m.now m
  have hgoOn : ∀ wake next, t.program.Leads (t.program.poll w m).emitted next →
      Moves sources s (s.goOn before after t (t.program.poll w m).emitted wake next) :=
    fun wake next h => ⟨.single (.goOn wake htasks h), rfl⟩
  -- a stream is replaced by what the task makes of it
  have hstream : ∀ (f : Stream Snapshot → Stream Snapshot) (tasks : List Task),
      { s.provider.updateStream t.stream (fun _ => f (s.provider.stream t.stream)) with tasks } =
        { s.provider.updateStream t.stream f with tasks } := by
    intro f tasks
    rw [s.provider.updateStream_stream]
  rw [Provider.stepTask] at hstep
  split at hstep
  · next hcancelled =>
    cases hstep
    refine ⟨_, ⟨.single (.stop htasks (.inl hcancelled)), rfl⟩, ?_⟩
    rw [List.append_assoc]
    exact (hstream Stream.close _).symm
  · split at hstep
    · dsimp only at hstep
      split at hstep
      · next hdone =>
        cases hstep
        rw [hdone] at hleads
        let s₁ := s.goOn before after t (t.program.poll w m).emitted t.wake (.done ())
        have hstop : Step sources s₁ (s₁.stop before after { t with program := .done () }) :=
          .stop rfl (.inr rfl)
        refine ⟨_, (hgoOn t.wake _ hleads).trans ⟨.single hstop, rfl⟩, ?_⟩
        rw [List.append_assoc]
        refine Eq.trans ?_ (hstream (fun st => (st.after _).close) _).symm
        simp only [s₁, Session.goOn, Session.stop, Provider.updateStream, List.modify_modify_eq]
        rfl
      · next due next hwaiting =>
        cases hstep
        rw [hwaiting] at hleads
        refine ⟨_, hgoOn (some due) next hleads, ?_⟩
        rw [List.append_assoc]
        exact (hstream (·.after _) _).symm
      · next hstuck =>
        cases hstep
        rw [hstuck] at hleads
        refine ⟨_, hgoOn none .never hleads, ?_⟩
        rw [List.append_assoc]
        exact (hstream (·.after _) _).symm
    · cases hstep
      refine ⟨s, .refl s, ?_⟩
      rw [List.append_assoc]
      refine Eq.trans ?_ (hstream id _).symm
      rw [Provider.updateStream, List.modify_id]
      exact congrArg (fun tasks => { s.provider with tasks }) htasks

theorem exists_moves_settleTasks (w : World σ) (ts : List Task) {p : Provider}
    (hp : s.provider = { p with tasks := p.tasks ++ ts }) (m : Machine σ) :
    ∃ s', Moves sources s s' ∧ s'.provider = (Provider.settleTasks w ts p m).1 := by
  induction ts generalizing s p m with
  | nil =>
    refine ⟨s, .refl s, ?_⟩
    rw [hp, List.append_nil]
    rfl
  | cons t ts ih =>
    obtain ⟨⟨rest, st, m'⟩, hstep⟩ :
      ∃ r, Provider.stepTask w t (p.stream t.stream) m = r := ⟨_, rfl⟩
    have hsettle : Provider.settleTasks w (t :: ts) p m =
        Provider.settleTasks w ts { p.updateStream t.stream (fun _ => st) with
          tasks := p.tasks ++ rest.toList } m' := by
      simp only [Provider.settleTasks, hstep]
      rfl
    have hstream : s.provider.stream t.stream = p.stream t.stream := by
      rw [hp]
      rfl
    have htasks : s.provider.tasks = p.tasks ++ t :: ts := by
      rw [hp]
    obtain ⟨s₁, hs₁, hp₁⟩ := exists_moves_stepTask w htasks m (hstream ▸ hstep)
    obtain ⟨s₂, hs₂, hp₂⟩ := ih (s := s₁) (p := { p.updateStream t.stream (fun _ => st) with
      tasks := p.tasks ++ rest.toList }) (by rw [hp₁, hp]; rfl) m'
    exact ⟨s₂, hs₁.trans hs₂, hsettle ▸ hp₂⟩

/-- **Letting all tasks run** is a row of moves. -/
theorem exists_moves_settle (s : Session) (w : World σ) (m : Machine σ) :
    ∃ s', Moves sources s s' ∧ s'.provider = (s.provider.settle w m).1 :=
  exists_moves_settleTasks w s.provider.tasks rfl m

/-- **Letting time pass** is a row of moves. -/
theorem exists_moves_passFrom {p : Provider} (hp : s.provider = p) (w : World σ)
    (enough : Provider → Bool) (limit now : Nat) (m : Machine σ) :
    ∃ s', Moves sources s s' ∧ s'.provider = (p.passFrom w enough limit now m).1 := by
  fun_induction Provider.passFrom w enough limit now p m generalizing s with
  | case1 now p m henough => exact ⟨s, .refl s, hp⟩
  | case2 now p m henough hwake => exact ⟨s, .refl s, hp⟩
  | case3 now p m henough t hwake hlater settled =>
    rename_i ih
    obtain ⟨s₁, hs₁, hp₁⟩ := s.exists_moves_settle w (m.moveTo t)
    obtain ⟨s₂, hs₂, hp₂⟩ := ih (hp₁.trans (by rw [hp]))
    exact ⟨s₂, hs₁.trans hs₂, hp₂⟩
  | case4 now p m henough t hwake hlate => exact ⟨s, .refl s, hp⟩

/-! ## In every session -/

/-- What holds in a session at any time. -/
structure Orderly (sources : Sources) (s : Session) : Prop where
  /-- at most one lookup of an operation is not cancelled -/
  one : ∀ o, (s.provider.live o).length ≤ 1
  /-- it is the one whose key the operation holds -/
  held : ∀ o, ∀ t ∈ s.provider.live o, ∃ slot, s.provider.slot? o = some slot ∧
    slot.stream = t.stream ∧ Filled s.provider.fingerprint s.producers slot
  /-- a question with the key that is held starts nothing and gets the stream that is held -/
  join : ∀ q now slot, s.provider.slot? q.operation = some slot →
    slot.key = q.key s.provider.fingerprint →
    s.provider.ask sources q now = (s.provider, { stream := slot.stream }) ∧
      Filled s.provider.fingerprint s.producers slot
  /-- a question with another key starts a lookup, and cancels those of its operation only -/
  supersede : ∀ q now, (∀ slot, s.provider.slot? q.operation = some slot →
      slot.key ≠ q.key s.provider.fingerprint) →
    let p := (s.provider.ask sources q now).1
    let key := q.key s.provider.fingerprint
    p.slot? q.operation = some ⟨q.operation, key, s.provider.streams.length⟩ ∧
      p.live q.operation = [s.provider.newTask sources q now] ∧
      (∀ t ∈ s.provider.tasks, t.operation = q.operation → { t with cancelled := true } ∈ p.tasks) ∧
      ∀ o, o ≠ q.operation → p.slot? o = s.provider.slot? o ∧
        p.tasks.filter (·.operation = o) = s.provider.tasks.filter (·.operation = o)
  /-- what a reader saw was handed out by a lookup for the key it asked for -/
  honest : ∀ c ∈ s.consumers, ∃ p rest, s.producers[c.subscription.stream]? = some p ∧
    p.question.operation = c.question.operation ∧
    p.question.key s.provider.fingerprint = c.question.key s.provider.fingerprint ∧
    (sources.answer p.question).Leads p.given rest ∧ ∀ a ∈ c.seen, a ∈ p.given
  /-- a stream is complete exactly when its lookup is no longer under way -/
  complete : ∀ i < s.provider.streams.length,
    (s.provider.stream i).complete = true ↔ i ∉ s.provider.places
  /-- a lookup that was cancelled is no longer under way when its task has run -/
  ends : ∀ t ∈ s.provider.tasks, t.cancelled = true → ∀ (σ : Type) (w : World σ) (m : Machine σ),
    ((s.provider.settle w m).1.stream t.stream).complete = true
  /-- letting time pass leads to such sessions only -/
  passes : ∀ (σ : Type) (w : World σ) (enough : Provider → Bool) (limit : Nat) (m : Machine σ),
    ∃ s', Reachable sources s' ∧ s'.provider = (s.provider.pass w enough limit m).1 ∧
      s'.consumers = s.consumers

theorem Sound.one (h : Sound sources s) (o : Operation) : (s.provider.live o).length ≤ 1 := by
  -- the lookups that are not cancelled all have the stream that is held, and no two share one
  have hnodup : ((s.provider.live o).map (·.stream)).Nodup :=
    h.apart.sublist (List.filter_sublist.map _)
  cases hlive : s.provider.live o with
  | nil => simp
  | cons t ts =>
    have hsame : ∀ i ∈ (s.provider.live o).map (·.stream), i = t.stream := by
      intro i hi
      obtain ⟨u, hu, rfl⟩ := List.mem_map.mp hi
      obtain ⟨ht, hto, htlive⟩ := Provider.mem_live.mp (hlive ▸ List.mem_cons_self)
      obtain ⟨hu, huo, hulive⟩ := Provider.mem_live.mp hu
      obtain ⟨slot, hslot, hstream⟩ := h.held t ht htlive
      obtain ⟨slot', hslot', hstream'⟩ := h.held u hu hulive
      rw [hto] at hslot
      rw [huo, hslot] at hslot'
      cases hslot'
      exact hstream'.symm.trans hstream
    have hrep := List.eq_replicate_of_mem hsame
    rw [hrep, List.nodup_replicate, List.length_map, hlive] at hnodup
    exact hnodup

theorem Sound.complete_iff (h : Sound sources s) {i : Nat} {p : Producer}
    (hp : s.producers[i]? = some p) :
    (s.provider.stream i).complete = true ↔ i ∉ s.provider.places := by
  rw [h.stream_eq hp]
  simp [Stream.showing]

end Session

/-- A task that was cancelled does not go on. -/
theorem Provider.stepTask_some {σ : Type} {w : World σ} {t t' : Task} {st : Stream Snapshot}
    {m : Machine σ} (h : (stepTask w t st m).1 = some t') :
    t.cancelled = false ∧ t'.stream = t.stream := by
  rw [stepTask] at h
  split at h
  · cases h
  · next hlive =>
    refine ⟨by simpa using hlive, ?_⟩
    split at h
    · dsimp only at h
      split at h
      all_goals cases h
      all_goals rfl
    · cases h
      rfl

theorem Provider.mem_places_settleTasks {σ : Type} {w : World σ} {ts : List Task} {p : Provider}
    {m : Machine σ} {i : Nat} (h : i ∈ (settleTasks w ts p m).1.places) :
    i ∈ p.places ∨ ∃ t ∈ ts, t.cancelled = false ∧ t.stream = i := by
  induction ts generalizing p m with
  | nil => exact .inl h
  | cons t ts ih =>
    rcases ih h with h | ⟨u, hu, hlive, hstream⟩
    · simp only [places, List.map_append, List.mem_append] at h
      rcases h with h | h
      · exact .inl h
      · obtain ⟨t', ht', rfl⟩ := List.mem_map.mp h
        obtain ⟨hlive, hstream⟩ := stepTask_some (Option.mem_toList.mp ht')
        exact .inr ⟨t, List.mem_cons_self, hlive, hstream.symm⟩
    · exact .inr ⟨u, List.mem_cons_of_mem t hu, hlive, hstream⟩

namespace Session

variable {sources : Sources} {s : Session}

/-- What was handed out stays handed out. -/
theorem Moves.grows {s' : Session} (h : Moves sources s s') :
    Grows s.producers s'.producers := by
  obtain ⟨hsteps, -⟩ := h
  induction hsteps with
  | refl => exact .refl _
  | tail _ hstep ih => exact ih.trans hstep.grows

theorem Reachable.moves {s' : Session} (h : Reachable sources s) (h' : Moves sources s s') :
    Reachable sources s' := by
  obtain ⟨fingerprint, hsteps⟩ := h
  exact ⟨fingerprint, hsteps.trans h'.1⟩

theorem Reachable.ends (h : Reachable sources s) {t : Task} (ht : t ∈ s.provider.tasks)
    (hcancelled : t.cancelled = true) {σ : Type} (w : World σ) (m : Machine σ) :
    ((s.provider.settle w m).1.stream t.stream).complete = true := by
  obtain ⟨s', hmoves, hp'⟩ := s.exists_moves_settle w m
  obtain ⟨p, hp, -, -⟩ := h.sound.tasks t ht
  obtain ⟨more, hmore⟩ := hmoves.grows _ p hp
  rw [← hp', (h.moves hmoves).sound.complete_iff hmore, hp']
  intro hmem
  rcases Provider.mem_places_settleTasks hmem with hmem | ⟨u, hu, hlive, hstream⟩
  · cases hmem
  · obtain rfl := List.inj_on_of_nodup_map h.sound.apart hu ht hstream
    rw [hcancelled] at hlive
    cases hlive

/-- **In every session**, whatever happens in whatever order, each operation has at most one
lookup that is neither at its end nor cancelled, and holds its key. -/
theorem reachable_orderly (h : Reachable sources s) : Orderly sources s where
  one := h.sound.one
  held o t ht := by
    obtain ⟨htasks, hop, hlive⟩ := Provider.mem_live.mp ht
    obtain ⟨slot, hslot, hstream⟩ := h.sound.held t htasks hlive
    rw [hop] at hslot
    exact ⟨slot, hslot, hstream, h.sound.slots slot (List.mem_of_find?_eq_some hslot)⟩
  join q now slot hslot hkey := by
    refine ⟨?_, h.sound.slots slot (List.mem_of_find?_eq_some hslot)⟩
    simp only [Provider.ask, hslot, hkey, if_true]
  supersede q now hnew := s.provider.ask_supersedes now hnew
  honest c hc := by
    obtain ⟨p, hp, hop, hkey, hseen⟩ := h.sound.consumers c hc
    obtain ⟨rest, hrest⟩ := h.sound.producers _ p hp
    exact ⟨p, rest, hp, hop, hkey, hrest, hseen⟩
  complete i hi := by
    rw [h.sound.length_eq] at hi
    exact h.sound.complete_iff (List.getElem?_eq_getElem hi)
  ends t ht hcancelled σ w m := h.ends ht hcancelled w m
  passes σ w enough limit m := by
    obtain ⟨s', hmoves, hp'⟩ := exists_moves_passFrom (s := s) rfl w enough limit m.now m
    exact ⟨s', h.moves hmoves, hp', hmoves.2⟩

end Session

namespace TwoLanguages

open Session

/-- Searches beside an index. -/
def indexedSources : Sources := { sources with hasIndex := true }

/-- The same question one character on. -/
def moved : Question := { question "plain" with position := ⟨0, 4⟩ }

/-- A lookup hands out what the index knows, somebody reads it, and the cursor moves on. -/
theorem superseded : ∃ s, Reachable indexedSources s ∧
    s.provider.tasks.map (·.cancelled) = [true, false] ∧
    s.consumers.map (·.seen) = [[], [.precise [hit.location]]] ∧
    Orderly indexedSources s := by
  let s₀ : Session := { provider := { fingerprint := lengthOf } }
  let s₁ := s₀.ask indexedSources (question "plain") 0
  let t := Provider.newTask {} indexedSources (question "plain") 0
  let s₂ := s₁.goOn [] [] t [.precise [hit.location]] none (.done ())
  have h₁ : Relation.ReflTransGen (Step indexedSources) s₀ s₁ := .single (.ask _ _)
  have h₂ : Relation.ReflTransGen (Step indexedSources) s₀ s₂ := by
    refine h₁.tail (.goOn none rfl ?_)
    exact .ask (.due 0 (.ok [hit.location])) (.wait (.emit .refl))
  let reader : Consumer := { question := question "plain", subscription := { stream := 0 } }
  have hconsumers : s₂.consumers = [] ++ reader :: [] := rfl
  have h₃ := h₂.tail (.read hconsumers rfl)
  have h₄ := h₃.tail (.ask moved 5)
  refine ⟨_, ⟨lengthOf, h₄⟩, ?_, ?_, reachable_orderly ⟨lengthOf, h₄⟩⟩
  · rfl
  · rfl

end TwoLanguages

end CodeNav

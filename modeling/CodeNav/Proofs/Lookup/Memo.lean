import CodeNav.Proofs.Lookup.Alone

/-!
# What a provider remembers

A provider joins a question to the lookup its operation holds if their keys are equal. The
key is the name of the document, **a fingerprint of its text**, the position and, for
references, whether the declaration is wanted. It does **not** hold the language of the
document, nor the repository and the revision, which two documents of one name need not share.

* **hit** (`lookupWithin_join`) — the question gets the last snapshot of the lookup it joins;
* **miss** (`lookupWithin_start`) — it gets what its own program hands out last.

`finally_iff_opener` puts the two together over any history: beside a steady world, a
question gets what a fresh provider would give **to the question that opened the lookup it
joins**. So the memory cannot be noticed as long as questions with one key are about one
document in one language, and no two of their texts share a fingerprint; and it can if they are
in two languages (`stale_answer`).
-/

namespace CodeNav

/-! ## Histories -/

namespace Question

/-- For each operation the question that opened the lookup it holds. -/
abbrev Held := Operation → Option Question

variable (fingerprint : String → UInt64)

/-- The question that opened the lookup that `q` joins; `q` itself if it joins none. -/
def join (held : Held) (q : Question) : Question :=
  match held q.operation with
  | some q' => if q'.key fingerprint = q.key fingerprint then q' else q
  | none => q

/-- What is held after one more question. -/
def hold (held : Held) (q : Question) : Held :=
  fun o => if o = q.operation then some (join fingerprint held q) else held o

/-- What is held after questions, the earliest first. -/
def held (qs : List Question) : Held := qs.foldl (hold fingerprint) fun _ => none

/-- The question that opened the lookup that `q` joins after the questions `qs`: the first
one of the unbroken row of questions with its operation and its key. -/
def opener (qs : List Question) (q : Question) : Question :=
  join fingerprint (held fingerprint qs) q

variable {fingerprint}

theorem held_append (qs : List Question) (q : Question) :
    held fingerprint (qs ++ [q]) = hold fingerprint (held fingerprint qs) q := by
  simp [held]

/-- What a question joins: a lookup that is held, or none. -/
theorem join_cases (fingerprint : String → UInt64) (held : Held) (q : Question) :
    (∃ q', held q.operation = some q' ∧ q'.key fingerprint = q.key fingerprint ∧
        q.join fingerprint held = q') ∨
      (∀ q', held q.operation = some q' → q'.key fingerprint ≠ q.key fingerprint) ∧
        q.join fingerprint held = q := by
  rw [join]
  cases held q.operation with
  | none => exact .inr ⟨nofun, rfl⟩
  | some q' =>
    by_cases hkey : q'.key fingerprint = q.key fingerprint
    · exact .inl ⟨q', rfl, hkey, if_pos hkey⟩
    · refine .inr ⟨?_, if_neg hkey⟩
      rintro _ ⟨⟩
      exact hkey

/-- What an operation holds was asked before, and for that operation. -/
theorem of_held {qs : List Question} {o : Operation} {q : Question}
    (h : held fingerprint qs o = some q) : q ∈ qs ∧ q.operation = o := by
  induction qs using List.reverseRecOn generalizing o q with
  | nil => cases h
  | append_singleton qs q' ih =>
    rw [held_append, hold] at h
    split at h
    · next ho =>
      subst ho
      obtain rfl := Option.some.inj h
      rcases q'.join_cases fingerprint (held fingerprint qs) with ⟨q₀, hq₀, -, hjoin⟩ | ⟨-, hjoin⟩
      · rw [hjoin]
        exact ⟨List.mem_append_left _ (ih hq₀).1, (ih hq₀).2⟩
      · rw [hjoin]
        exact ⟨List.mem_append_right _ (List.mem_singleton_self _), rfl⟩
    · exact ⟨List.mem_append_left _ (ih h).1, (ih h).2⟩

/-- The opener of a lookup shares operation and key with every question that joins it. -/
theorem opener_cases (fingerprint : String → UInt64) (qs : List Question) (q : Question) :
    opener fingerprint qs q = q ∨
      opener fingerprint qs q ∈ qs ∧ (opener fingerprint qs q).operation = q.operation ∧
        (opener fingerprint qs q).key fingerprint = q.key fingerprint := by
  rcases q.join_cases fingerprint (held fingerprint qs) with ⟨q', hq', hkey, hjoin⟩ | ⟨-, hjoin⟩
  · refine .inr ?_
    rw [opener, hjoin]
    exact ⟨(of_held hq').1, (of_held hq').2, hkey⟩
  · exact .inl hjoin

end Question

namespace Provider

variable {σ : Type} {w : World σ} {replies : Replies} {sources : Sources} {p : Provider}
  {m : Machine σ} {q : Question} {held : Question.Held}

/-- From every faithful machine the answer to `q` ends, having handed out `es`. -/
def Hands (w : World σ) (replies : Replies) (sources : Sources) (q : Question)
    (es : List Snapshot) : Prop :=
  ∀ m : Machine σ, m.Faithful replies →
    ((sources.answer q).follow w m).outcome = some () ∧
      ((sources.answer q).follow w m).emitted = es

theorem hands_of_follow (hw : w.Steady replies) (hm : m.Faithful replies)
    (h : ((sources.answer q).follow w m).outcome = some ()) :
    Hands w replies sources q ((sources.answer q).follow w m).emitted := by
  intro m' hm'
  have hq := Sources.answer_settled hw sources q
  exact ⟨hq.outcome m' m hm' hm ▸ h, hq.emitted m' m hm' hm⟩

/-- Nothing is under way, and each operation's stream holds what the answer to the question
that opened it hands out. -/
structure AtRest (w : World σ) (replies : Replies) (sources : Sources) (held : Question.Held)
    (p : Provider) : Prop where
  idle : p.tasks = []
  unused : ∀ o, held o = none → p.slot? o = none
  finished : ∀ o q, held o = some q → ∃ i es, p.slot? o = some ⟨o, q.key p.fingerprint, i⟩ ∧
    p.streams[i]? = some (Stream.after {} es).close ∧ Hands w replies sources q es

/-- The provider whose next stream is that of the question, in place of the one its operation
held. -/
def assign (p : Provider) (q : Question) : Provider :=
  { p with slots := ⟨q.operation, q.key p.fingerprint, p.streams.length⟩ ::
      p.slots.filter (·.operation ≠ q.operation) }

/-- The provider with a lookup for `q` in place of the one its operation held. -/
def holding (p : Provider) (q : Question) (s : Stream Snapshot) (tasks : List Task) : Provider :=
  (p.assign q).withLast s tasks

theorem AtRest.fresh (fingerprint : String → UInt64) :
    AtRest w replies sources (fun _ => none) { fingerprint } :=
  ⟨rfl, fun _ _ => rfl, nofun⟩

/-- A finished lookup takes its place beside the others. -/
theorem AtRest.holding (h : AtRest w replies sources held p)
    (hjoin : q.join p.fingerprint held = q) {es : List Snapshot}
    (hes : Hands w replies sources q es) :
    AtRest w replies sources (Question.hold p.fingerprint held q)
      (p.holding q (Stream.after {} es).close []) := by
  -- the slots of the other operations are found where they were
  have hother : ∀ o, o ≠ q.operation →
      (p.holding q (Stream.after {} es).close []).slot? o = p.slot? o := by
    intro o ho
    have hfilter : ∀ slot : Slot, (slot.operation ≠ q.operation ∧ slot.operation = o) ↔
        slot.operation = o := by
      intro slot
      constructor
      · exact fun h => h.2
      · rintro rfl
        exact ⟨ho, rfl⟩
    simp [slot?, Provider.holding, withLast, assign, Ne.symm ho, List.find?_filter, hfilter]
  refine ⟨rfl, fun o ho => ?_, fun o q' ho => ?_⟩
  · rw [Question.hold] at ho
    split at ho
    · cases ho
    · next hne => rw [hother o hne, h.unused o ho]
  · rw [Question.hold] at ho
    split at ho
    · next heq =>
      subst heq
      rw [hjoin] at ho
      cases ho
      exact ⟨p.streams.length, es, by simp [slot?, Provider.holding, withLast, assign],
        by simp [Provider.holding, withLast, assign], hes⟩
    · next hne =>
      obtain ⟨i, es', hslot, hstream, hes'⟩ := h.finished o q' ho
      refine ⟨i, es', (hother o hne).trans hslot, ?_, hes'⟩
      have hi := (List.getElem?_eq_some_iff.mp hstream).1
      exact (List.getElem?_append_left hi).trans hstream

/-! ## Hit and miss -/

/-- **Hit.** A question that joins a finished lookup gets its last snapshot at once, and
nothing changes. -/
theorem lookupWithin_join (h : AtRest w replies sources held p) {q' : Question}
    (hheld : held q.operation = some q') (hkey : q'.key p.fingerprint = q.key p.fingerprint)
    (n : Nat) (m : Machine σ) :
    ∃ es, Hands w replies sources q' es ∧
      p.lookupWithin w n sources q m = (Reading.ofAll es, p, m) := by
  obtain ⟨i, es, hslot, hstream, hes⟩ := h.finished _ _ hheld
  refine ⟨es, hes, ?_⟩
  have hi : p.stream i = (Stream.after {} es).close := by
    simp [stream, List.getD_eq_getElem?_getD, hstream]
  have hsettle : p.settle w m = (p, m) := by
    obtain ⟨fingerprint, streams, slots, tasks⟩ := p
    obtain rfl : tasks = [] := h.idle
    rfl
  have hcomplete : p.isComplete { stream := i } = true := by
    rw [isComplete, hi]
    rfl
  rw [lookupWithin, ask, hslot]
  simp only [hkey, if_true, hsettle, lastWithin, pass]
  rw [passFrom, hcomplete]
  simp only [if_true, hi, Stream.last_close_after]

/-- **Miss.** A question that joins no lookup gets what its own program hands out last, if
the program ends in time. -/
theorem lookupWithin_start (h : AtRest w replies sources held p)
    (hmiss : ∀ q', held q.operation = some q' → q'.key p.fingerprint ≠ q.key p.fingerprint)
    (n : Nat) (m : Machine σ) :
    let f := (sources.answer q).follow w m
    (f.outcome = some () → f.machine.now ≤ m.now + n →
      p.lookupWithin w n sources q m = (Reading.ofAll f.emitted,
        p.holding q (Stream.after {} f.emitted).close [],
        f.machine.note (.counted (.lookups q.operation) 1))) ∧
    (¬ (f.outcome = some () ∧ f.machine.now ≤ m.now + n) →
      (p.lookupWithin w n sources q m).1 = .waiting) := by
  intro f
  let task : Task :=
    { operation := q.operation, stream := p.streams.length, wake := some m.now
      program := sources.answer q }
  have hwake : task.wake.any (· ≤ m.now) := by simp [task]
  have hask : p.ask sources q m.now = (p.holding q {} [task], toLast (p.assign q)) := by
    have hstart : p.start sources q m.now = (p.holding q {} [task], toLast (p.assign q)) := by
      simp [start, cancel, h.idle, holding, withLast, assign, task]
    rw [ask, ← hstart]
    cases hq : held q.operation with
    | none => rw [h.unused _ hq]
    | some q' =>
      obtain ⟨i, es, hslot, -, -⟩ := h.finished _ _ hq
      simp only [hslot, if_neg (hmiss q' hq)]
  have hnow : ((p.holding q {} [task]).settle w m).2.now = m.now := settle_now task rfl rfl hwake
  have hlast : task.stream = (p.assign q).streams.length := rfl
  obtain ⟨hdone, hwait⟩ := passFrom_withLast (m.now + n) task hlast rfl rfl m hwake (by omega) rfl
    (rfl : (p.holding q {} [task]).settle w m = _)
  simp only [lookupWithin, hask, lastWithin, pass, hnow]
  constructor
  · intro hf hle
    rw [hdone hf hle]
    simp only [stream_withLast, Stream.last_close_after]
    rfl
  · intro hf
    have hopen := hwait hf
    rw [isComplete] at hopen
    simp only [Reader.last, hopen, Bool.not_false, if_true]

/-! ## Over a history -/

/-- The final value of a lookup: what its stream shows last, however long that takes. -/
def Finally (w : World σ) (sources : Sources) (q : Question) (p : Provider) (m : Machine σ)
    (r : Reading Snapshot) : Prop :=
  r ≠ .waiting ∧ ∃ n, (p.lookupWithin w n sources q m).1 = r

/-- A provider that was asked the questions `qs`, the earliest first, each of them after the
lookup before had come to its end. Between two questions time may pass and others may use
the machine. -/
inductive Asked (w : World σ) (replies : Replies) (sources : Sources) :
    List Question → Provider → Machine σ → Prop where
  | fresh {m : Machine σ} (fingerprint : String → UInt64) (hm : m.Faithful replies) :
      Asked w replies sources [] { fingerprint } m
  | lookup {qs : List Question} {p : Provider} {m : Machine σ} (n : Nat) (q : Question)
      (h : Asked w replies sources qs p m)
      (hr : (p.lookupWithin w n sources q m).1 ≠ .waiting) :
      Asked w replies sources (qs ++ [q]) (p.lookupWithin w n sources q m).2.1
        (p.lookupWithin w n sources q m).2.2
  | meanwhile {qs : List Question} {p : Provider} {m m' : Machine σ}
      (h : Asked w replies sources qs p m) (hm' : m'.Faithful replies) :
      Asked w replies sources qs p m'

/-- One lookup that comes to its end leaves the provider at rest. -/
theorem AtRest.lookup (hw : w.Steady replies) (h : AtRest w replies sources held p)
    (hm : m.Faithful replies) (n : Nat) (hr : (p.lookupWithin w n sources q m).1 ≠ .waiting) :
    AtRest w replies sources (Question.hold p.fingerprint held q)
        (p.lookupWithin w n sources q m).2.1 ∧
      (p.lookupWithin w n sources q m).2.2.Faithful replies ∧
      (p.lookupWithin w n sources q m).2.1.fingerprint = p.fingerprint := by
  rcases q.join_cases p.fingerprint held with
    ⟨q', hheld, hkey, hjoin⟩ | ⟨hmiss, hjoin⟩
  · -- hit: the lookup that is held stays
    obtain ⟨es, -, heq⟩ := lookupWithin_join h hheld hkey n m
    have hhold : Question.hold p.fingerprint held q = held := by
      funext o
      rw [Question.hold]
      split
      · next ho => rw [hjoin, ho, hheld]
      · rfl
    rw [heq, hhold]
    exact ⟨h, hm, rfl⟩
  · -- miss: the new one takes its place
    obtain ⟨hdone, hwait⟩ := lookupWithin_start (q := q) h hmiss n m
    have hend := not_imp_comm.mp hwait hr
    rw [hdone hend.1 hend.2]
    exact ⟨h.holding hjoin (hands_of_follow hw hm hend.1),
      (Sources.answer_settled hw sources q).faithful m hm, rfl⟩

/-- Between lookups a provider is at rest and its machine is faithful. -/
theorem Asked.atRest (hw : w.Steady replies) {qs : List Question}
    (h : Asked w replies sources qs p m) :
    AtRest w replies sources (Question.held p.fingerprint qs) p ∧ m.Faithful replies := by
  induction h with
  | fresh fingerprint hm => exact ⟨.fresh fingerprint, hm⟩
  | lookup n q _ hr ih =>
    obtain ⟨hrest, hm, hfingerprint⟩ := ih.1.lookup hw ih.2 n hr
    rw [hfingerprint, Question.held_append]
    exact ⟨hrest, hm⟩
  | meanwhile _ hm' ih => exact ⟨ih.1, hm'⟩

/-- The final value is what is handed out last to the question that opened the lookup. -/
theorem AtRest.finally_iff (hw : w.Steady replies) (h : AtRest w replies sources held p)
    (hm : m.Faithful replies) (r : Reading Snapshot) :
    p.Finally w sources q m r ↔
      ∃ es, Hands w replies sources (q.join p.fingerprint held) es ∧ r = Reading.ofAll es := by
  rcases q.join_cases p.fingerprint held with
    ⟨q', hheld, hkey, hjoin⟩ | ⟨hmiss, hjoin⟩
  all_goals rw [hjoin]
  · -- hit:
    constructor
    · rintro ⟨-, n, rfl⟩
      obtain ⟨es, hes, heq⟩ := lookupWithin_join h hheld hkey n m
      exact ⟨es, hes, by rw [heq]⟩
    · rintro ⟨es, hes, rfl⟩
      obtain ⟨es', hes', heq⟩ := lookupWithin_join h hheld hkey 0 m
      obtain rfl : es' = es := (hes' m hm).2.symm.trans (hes m hm).2
      exact ⟨Reading.ofAll_ne_waiting _, 0, by rw [heq]⟩
  · -- miss:
    constructor
    · rintro ⟨hr, n, rfl⟩
      obtain ⟨hdone, hwait⟩ := lookupWithin_start (q := q) h hmiss n m
      have hend := not_imp_comm.mp hwait hr
      exact ⟨_, hands_of_follow hw hm hend.1, by rw [hdone hend.1 hend.2]⟩
    · rintro ⟨es, hes, rfl⟩
      obtain ⟨hend, rfl⟩ := hes m hm
      refine ⟨Reading.ofAll_ne_waiting _, ((sources.answer q).follow w m).machine.now, ?_⟩
      rw [(lookupWithin_start (q := q) h hmiss _ m).1 hend (Nat.le_add_left _ _)]

/-- **After any history a question gets what a fresh provider gives to the question that
opened the lookup it joins.** -/
theorem finally_iff_opener (hw : w.Steady replies) {qs : List Question}
    (h : Asked w replies sources qs p m) {m₀ : Machine σ} (hm₀ : m₀.Faithful replies)
    (q : Question) (r : Reading Snapshot) :
    p.Finally w sources q m r ↔
      Finally w sources (q.opener p.fingerprint qs) { fingerprint := p.fingerprint } m₀ r := by
  obtain ⟨hrest, hm⟩ := h.atRest hw
  rw [hrest.finally_iff hw hm, (AtRest.fresh p.fingerprint).finally_iff hw hm₀]
  rfl

end Provider

/-! ## When the memory cannot be noticed -/

/-- A document that goes by its usual name. -/
def Document.Named (d : Document) : Prop := d.uri = gitUri d.repo d.revision d.path

/-- The name tells the path once the repository and the revision are known. -/
theorem gitUri_injective {repo revision a b : String}
    (h : gitUri repo revision a = gitUri repo revision b) : a = b := by
  simpa [gitUri] using h

namespace Question

/-- About documents of the same repository and revision, in the same language. -/
def SameSource (q q' : Question) : Prop :=
  q.document.repo = q'.document.repo ∧ q.document.revision = q'.document.revision ∧
    q.document.languageId = q'.document.languageId

/-- No two texts of the questions share a fingerprint. -/
def NoCollision (fingerprint : String → UInt64) (qs : List Question) : Prop :=
  ∀ q ∈ qs, ∀ q' ∈ qs, fingerprint q.document.text = fingerprint q'.document.text →
    q.document.text = q'.document.text

variable {fingerprint : String → UInt64} {q q' : Question}

/-- The name tells the path, and the fingerprint the text. -/
theorem document_eq (hkey : q.key fingerprint = q'.key fingerprint)
    (hcollision : fingerprint q.document.text = fingerprint q'.document.text →
      q.document.text = q'.document.text)
    (hsource : q.SameSource q') (hq : q.document.Named) (hq' : q'.document.Named) :
    q.document = q'.document := by
  obtain ⟨_, ⟨uri, repo, revision, path, languageId, text⟩, _, _⟩ := q
  obtain ⟨_, ⟨uri', repo', revision', path', languageId', text'⟩, _, _⟩ := q'
  obtain ⟨rfl, rfl, rfl⟩ := hsource
  simp only [key, Key.mk.injEq] at hkey
  obtain ⟨rfl, htext, -, -⟩ := hkey
  obtain rfl : path = path' := gitUri_injective (hq.symm.trans hq')
  obtain rfl : text = text' := hcollision htext
  rfl

/-- Questions that share operation, key and document have the same answer. -/
theorem answer_eq (sources : Sources) (hop : q.operation = q'.operation)
    (hkey : q.key fingerprint = q'.key fingerprint) (hdoc : q.document = q'.document) :
    sources.answer q = sources.answer q' := by
  simp only [key, Key.mk.injEq, hop] at hkey
  obtain ⟨-, -, hpos, hdecl⟩ := hkey
  rw [Sources.answer, Sources.answer, hop, hdoc, hpos]
  cases ho : q'.operation with
  | definition => rfl
  | hover => rfl
  | references =>
    simp only [ho, if_true, Option.some.injEq] at hdecl
    rw [hdecl]

end Question

/-! ## One text in two languages

The text `# serve` is code in one language and a comment in the other. -/

namespace TwoLanguages

open Provider

/-- A language whose identifiers are lower-case words. -/
def language (id : String) (comments : List CommentStyle) : Profile :=
  ⟨id, id, [], comments, ⟨"[a-z]", .set (.range 'a' 'z'), []⟩, none, none⟩

/-- A language without comments. -/
def plain : Profile := language "plain" []

/-- A language in which `#` starts a comment. -/
def hashed : Profile :=
  let hash : Pattern := ⟨"#", .set (.only '#'), []⟩
  language "hashed" [⟨some ⟨hash, hash⟩, none, .above⟩]

/-- Searches in these two languages. -/
def sources : Sources where
  engine := { registry := .ofProfiles [plain, hashed], settings := {}, hasResolver := false }
  hasIndex := false

/-- What every search finds. -/
def hit : Hit := { repository := "r", revision := "v", file := "b", range := ⟨⟨0, 3⟩, ⟨0, 8⟩⟩ }

/-- Searches are answered at once, and no other call is. -/
def replies : Replies
  | .search _ _ => some (0, .ok [hit])
  | _ => none

def world : World Unit := ⟨fun c t s => (.ofReply t (replies c), s)⟩

def machine : Machine Unit := { world := () }

/-- Where `serve` is defined. -/
def question (languageId : String) : Question where
  operation := .definition
  document := .new "r" "v" "a" languageId "# serve"
  position := ⟨0, 3⟩

theorem steady : world.Steady replies := fun _ _ _ => rfl

theorem faithful : machine.Faithful replies := nofun

theorem tokenAt?_plain : sources.engine.tokenAt? (question "plain").document ⟨0, 3⟩ =
    some (plain, ⟨"serve", false⟩) := by
  have hget : sources.engine.registry.get? "plain" = some plain := by
    simp [sources, Registry.ofProfiles, Registry.get?, Registry.claim, plain, hashed, language,
      Std.HashMap.getElem_insertIfNew]
  have htoken : Token.find? "# serve" ⟨0, 3⟩ plain.linePatterns plain.identifier =
      some ⟨"serve", false⟩ := by decide +kernel
  simp [Engine.tokenAt?, Registry.resolve?, question, Document.new, hget, htoken]

theorem tokenAt?_hashed : sources.engine.tokenAt? (question "hashed").document ⟨0, 3⟩ =
    some (hashed, ⟨"serve", true⟩) := by
  have hget : sources.engine.registry.get? "hashed" = some hashed := by
    simp [sources, Registry.ofProfiles, Registry.get?, Registry.claim, plain, hashed, language,
      Std.HashMap.getElem_insertIfNew]
  have htoken : Token.find? "# serve" ⟨0, 3⟩ hashed.linePatterns hashed.identifier =
      some ⟨"serve", true⟩ := by decide +kernel
  simp [Engine.tokenAt?, Registry.resolve?, question, Document.new, hget, htoken]

/-- Without an index the answer is what the search finds. -/
theorem answer_question (languageId : String) :
    sources.answer (question languageId) =
      sources.engine.definition (question languageId).document ⟨0, 3⟩ >>= fun found =>
        match found with
        | .ok hits => Program.give (.searched hits)
        | .error _ => pure () := rfl

theorem hashed_hands : Hands world replies sources (question "hashed") [.searched []] := by
  intro m _
  rw [answer_question, Engine.definition, tokenAt?_hashed]
  exact ⟨rfl, rfl⟩

/-- The one hit there is stays. -/
theorem refine_hit : Engine.refine [hit] (question "plain").document plain = [hit] := by
  simp [Engine.refine, sortByProximity, Engine.visible, Engine.preferOwn,
    Profile.filterDefinitions, plain, language, hit, Hit.isIn]

theorem plain_follow :
    ((sources.answer (question "plain")).follow world machine).outcome = some () ∧
      ((sources.answer (question "plain")).follow world machine).machine.now = 0 ∧
      ((sources.answer (question "plain")).follow world machine).emitted = [.searched [hit]] := by
  rw [answer_question, Engine.definition, tokenAt?_plain, ← refine_hit]
  exact ⟨rfl, rfl, rfl⟩

theorem plain_hands : Hands world replies sources (question "plain") [.searched [hit]] := by
  obtain ⟨hend, -, hes⟩ := plain_follow
  exact hes ▸ hands_of_follow steady faithful hend

/-- A fingerprint that tells lengths. -/
def lengthOf (text : String) : UInt64 := text.length.toUInt64

/-- A fresh provider that was asked about the text as code. -/
theorem asked_plain : ∃ p m, p.fingerprint = lengthOf ∧
    Asked world replies sources [question "plain"] p m := by
  obtain ⟨hend, hnow, -⟩ := plain_follow
  have hrest : AtRest world replies sources (fun _ => none) { fingerprint := lengthOf } :=
    .fresh lengthOf
  have hread :=
    (lookupWithin_start hrest nofun 0 machine).1 hend (by rw [hnow]; exact Nat.zero_le _)
  refine ⟨_, _, ?_, .lookup 0 (question "plain") (.fresh lengthOf faithful) ?_⟩
  · rw [hread]
    rfl
  · rw [hread]
    exact Reading.ofAll_ne_waiting _

end TwoLanguages

/-! ## Transparency -/

namespace Provider

/-- **What a provider remembers.** Beside a steady world and after any history, the final
value of a lookup is the one a fresh provider gives to the question that opened the lookup it
joins. So it is the one a fresh provider gives **to the question itself** if the earlier
questions with its operation and its key were about its repository, revision and language, and
no two texts have one fingerprint. -/
theorem finally_iff_fresh {σ : Type} {w : World σ} {replies : Replies} {sources : Sources}
    (hw : w.Steady replies) {qs : List Question} {p : Provider} {m : Machine σ}
    (h : Asked w replies sources qs p m) {m₀ : Machine σ} (hm₀ : m₀.Faithful replies)
    (q : Question) :
    let fresh : Provider := { fingerprint := p.fingerprint }
    (∀ r, p.Finally w sources q m r ↔
      fresh.Finally w sources (q.opener p.fingerprint qs) m₀ r) ∧
    ((∀ q' ∈ q :: qs, q'.document.Named) → Question.NoCollision p.fingerprint (q :: qs) →
      (∀ q' ∈ qs, q'.operation = q.operation → q'.key p.fingerprint = q.key p.fingerprint →
        q'.SameSource q) →
      ∀ r, p.Finally w sources q m r ↔ fresh.Finally w sources q m₀ r) := by
  intro fresh
  have hfresh : AtRest w replies sources (fun _ => none) fresh := .fresh p.fingerprint
  refine ⟨finally_iff_opener hw h hm₀ q, fun hnamed hcollision hsource r => ?_⟩
  rw [finally_iff_opener hw h hm₀ q r, hfresh.finally_iff hw hm₀, hfresh.finally_iff hw hm₀]
  have hanswer : sources.answer (q.opener p.fingerprint qs) = sources.answer q := by
    rcases q.opener_cases p.fingerprint qs with
      heq | ⟨hmem, hop, hkey⟩
    · rw [heq]
    · have hmem' := List.mem_cons_of_mem q hmem
      have hdoc := Question.document_eq hkey (hcollision _ hmem' _ List.mem_cons_self)
        (hsource _ hmem hop hkey) (hnamed _ hmem') (hnamed _ List.mem_cons_self)
      exact Question.answer_eq sources hop hkey hdoc
  have hhands : ∀ es, Hands w replies sources (q.opener p.fingerprint qs) es ↔
      Hands w replies sources q es := by
    intro es
    rw [Hands, Hands, hanswer]
  simpa only [Question.join] using exists_congr fun es => and_congr_left fun _ => hhands es

end Provider

namespace TwoLanguages

open Provider

/-- What a fresh provider comes to is what the search finds. -/
theorem fresh_plain : Finally world sources (question "plain") { fingerprint := lengthOf } machine
    (.value (.searched [hit])) :=
  ((AtRest.fresh lengthOf).finally_iff steady faithful _).mpr ⟨_, plain_hands, rfl⟩

/-- Asked twice about the text as code, the provider finds the definition twice. -/
theorem repeated_answer : ∃ p m, Asked world replies sources [question "plain"] p m ∧
    p.Finally world sources (question "plain") m (.value (.searched [hit])) := by
  obtain ⟨p, m, hp, h⟩ := asked_plain
  have hsame : ∀ q' ∈ [question "plain", question "plain"], q' = question "plain" := by simp
  refine ⟨p, m, h,
    ((finally_iff_fresh steady h faithful (question "plain")).2 ?_ ?_ ?_ _).mpr ?_⟩
  · intro q' hq'
    rw [hsame q' hq']
    rfl
  · intro q' hq' q'' hq'' _
    rw [hsame q' hq', hsame q'' hq'']
  · intro q' hq' _ _
    rw [hsame q' (List.mem_cons_of_mem _ hq')]
    exact ⟨rfl, rfl, rfl⟩
  · rw [hp]
    exact fresh_plain

/-- Asked about the text as a comment after it was asked about it as code, the provider still
finds the definition; a fresh one finds none. -/
theorem stale_answer : ∃ p m, world.Steady replies ∧ machine.Faithful replies ∧
    (∀ q ∈ [question "plain", question "hashed"], q.document.Named) ∧
    Question.NoCollision p.fingerprint [question "plain", question "hashed"] ∧
    Asked world replies sources [question "plain"] p m ∧
    p.Finally world sources (question "hashed") m (.value (.searched [hit])) ∧
    ¬ Finally world sources (question "hashed") { fingerprint := p.fingerprint } machine
      (.value (.searched [hit])) := by
  obtain ⟨p, m, hp, h⟩ := asked_plain
  have hboth : ∀ q ∈ [question "plain", question "hashed"],
      q.document.Named ∧ q.document.text = "# serve" := by
    intro q hq
    rw [List.mem_cons, List.mem_singleton] at hq
    rcases hq with rfl | rfl <;> exact ⟨rfl, rfl⟩
  refine ⟨p, m, steady, faithful, fun q hq => (hboth q hq).1, fun q hq q' hq' _ => ?_, h, ?_, ?_⟩
  · rw [(hboth q hq).2, (hboth q' hq').2]
  · -- the two questions share their key
    rw [finally_iff_opener steady h faithful, hp]
    exact fresh_plain
  · rw [(AtRest.fresh p.fingerprint).finally_iff steady faithful]
    rintro ⟨es, hes, hread⟩
    have hes' : [Snapshot.searched []] = es :=
      (hashed_hands machine faithful).2.symm.trans (hes machine faithful).2
    subst hes'
    simp [Reading.ofAll, Snapshot.searched] at hread

end TwoLanguages

end CodeNav

import CodeNav.Proofs.Lru.Recency

/-!
# What a bounded map answers, by its history

A map that was empty is written and read, in any order. A key is **touched** when it is written
and when a read finds it; a read that finds nothing leaves no trace (`touched?`). Since what is
found depends on what was dropped before, the touches are told along the way (`touches`).

* `tracks_replay` — the map holds the keys that were touched last.
* `agrees_replay` — what it holds under a key is what was written there last.
* `found_iff_recent` — so a key is found **exactly if fewer other keys than fit were touched
  since it was**, and the map is full once as many keys were written as fit.
-/

namespace CodeNav.Lru

variable {κ β : Type} [DecidableEq κ]

/-- A use of a map. -/
inductive Use (κ β : Type) where
  | write (key : κ) (value : β)
  | read (key : κ)
  deriving DecidableEq, Repr

/-- The map after a use of it. -/
def apply (m : Lru κ β) : Use κ β → Lru κ β
  | .write key value => m.insert key value
  | .read key => (m.get? key).2

/-- The map after some uses. -/
def applyAll (m : Lru κ β) (uses : List (Use κ β)) : Lru κ β := uses.foldl apply m

/-- A map that was empty, after some uses. -/
def replay (capacity : Nat) (uses : List (Use κ β)) : Lru κ β := (empty capacity).applyAll uses

@[simp] theorem replay_snoc (capacity : Nat) (uses : List (Use κ β)) (u : Use κ β) :
    replay capacity (uses ++ [u]) = (replay capacity uses).apply u := by
  simp [replay, applyAll]

/-! ## Touches -/

/-- The key that a use touches: one that is written, or found. -/
def touched? (m : Lru κ β) : Use κ β → Option κ
  | .write key _ => some key
  | .read key => if (m.get? key).1.isSome then some key else none

/-- The keys that some uses touch, the earliest first. -/
def touchesFrom (m : Lru κ β) : List (Use κ β) → List κ
  | [] => []
  | u :: uses => (m.touched? u).toList ++ (m.apply u).touchesFrom uses

/-- The keys that were touched since the map was empty, the earliest first. -/
def touches (capacity : Nat) (uses : List (Use κ β)) : List κ :=
  (empty capacity : Lru κ β).touchesFrom uses

/-- The other keys that were touched since a key was touched last, each once. -/
def since (key : κ) (touches : List κ) : List κ := (touches.reverse.takeWhile (· ≠ key)).dedup

/-- Touches are told along the way: the later uses are told by the map the earlier ones left. -/
theorem touchesFrom_append (m : Lru κ β) (uses more : List (Use κ β)) :
    m.touchesFrom (uses ++ more) = m.touchesFrom uses ++ (m.applyAll uses).touchesFrom more := by
  induction uses generalizing m with
  | nil => rfl
  | cons u uses ih =>
    rw [List.cons_append, touchesFrom, touchesFrom, ih, List.append_assoc]
    rfl

/-- One more use touches what it touches in the map as it is by then. -/
theorem touches_snoc (capacity : Nat) (uses : List (Use κ β)) (u : Use κ β) :
    touches capacity (uses ++ [u]) =
      touches capacity uses ++ ((replay capacity uses).touched? u).toList := by
  rw [touches, touchesFrom_append, touchesFrom, touchesFrom, List.append_nil]
  rfl

/-! ## Keys -/

/-- Whatever a use does, the map holds the keys that were touched last. -/
theorem Tracks.apply {ks : List κ} {m : Lru κ β} (h : Tracks ks m) (u : Use κ β) :
    Tracks (ks ++ (m.touched? u).toList) (m.apply u) := by
  cases u with
  | write key value => exact h.insert key value
  | read key =>
    by_cases hkey : key ∈ m.keys
    · have hfound : m.touched? (.read key) = some key :=
        if_pos ((m.get?_isSome_iff key).mpr hkey)
      rw [hfound, Option.toList_some]
      exact h.get? hkey
    · have hmissed : m.touched? (.read key) = none :=
        if_neg (mt (m.get?_isSome_iff key).mp hkey)
      rw [hmissed, Option.toList_none, List.append_nil, Lru.apply, get?_of_notMem hkey]
      exact h

/-- **After any uses the map holds the keys that were touched last**, as many as fit. -/
theorem tracks_replay (capacity : Nat) (uses : List (Use κ β)) :
    Tracks (touches capacity uses) (replay capacity uses) := by
  induction uses using List.reverseRecOn with
  | nil => exact .empty capacity
  | append_singleton uses u ih =>
    rw [touches_snoc, replay_snoc]
    exact ih.apply u

@[simp] theorem capacity_apply (m : Lru κ β) (u : Use κ β) : (m.apply u).capacity = m.capacity := by
  cases u with
  | write key value => exact capacity_insert m key value
  | read key => exact capacity_get? m key

@[simp] theorem capacity_replay (capacity : Nat) (uses : List (Use κ β)) :
    (replay capacity uses).capacity = max capacity 1 := by
  induction uses using List.reverseRecOn with
  | nil => rfl
  | append_singleton uses u ih => rw [replay_snoc, capacity_apply, ih]

/-- A key that was touched is kept while fewer others than fit have been touched since. -/
theorem Tracks.mem_keys_iff_since {ks : List κ} {m : Lru κ β} (h : Tracks ks m) {key : κ}
    (hkey : key ∈ ks) : key ∈ m.keys ↔ (since key ks).length < m.capacity := by
  obtain ⟨later, earlier, hks, hlater⟩ := List.eq_append_cons_of_mem (List.mem_reverse.mpr hkey)
  obtain rfl : ks = earlier.reverse ++ key :: later.reverse := by
    rw [← List.reverse_inj, hks]
    simp
  have hsince : since key (earlier.reverse ++ key :: later.reverse) = later.dedup := by
    have hother : ∀ k ∈ later, (decide (k ≠ key)) = true := by
      intro k hk
      exact decide_eq_true (ne_of_mem_of_not_mem hk hlater)
    rw [since, hks, List.takeWhile_append_of_pos hother, List.takeWhile_cons_of_neg (by simp),
      List.append_nil]
  rw [h.mem_keys_iff (by simpa using hlater), hsince,
    (List.reverse_perm later).dedup.length_eq]

/-! ## Values -/

/-- What a use writes under a key. -/
def Use.value? (key : κ) : Use κ β → Option β
  | .write key' value => if key' = key then some value else none
  | .read _ => none

/-- What was written under a key last. -/
def written? (key : κ) (uses : List (Use κ β)) : Option β :=
  (uses.filterMap (Use.value? key)).getLast?

/-- The key that a use writes under. -/
def Use.writtenKey? : Use κ β → Option κ
  | .write key _ => some key
  | .read _ => none

/-- The keys that were written. -/
def writtenKeys (uses : List (Use κ β)) : List κ := uses.filterMap Use.writtenKey?

omit [DecidableEq κ] in
theorem mem_writtenKeys_snoc {key : κ} {uses : List (Use κ β)} {u : Use κ β} :
    key ∈ writtenKeys (uses ++ [u]) ↔ key ∈ writtenKeys uses ∨ u.writtenKey? = some key := by
  simp [writtenKeys]

/-- The last write to a key decides, and a use that does not write there changes nothing. -/
theorem written?_snoc (key : κ) (uses : List (Use κ β)) (u : Use κ β) :
    written? key (uses ++ [u]) = (u.value? key).or (written? key uses) := by
  rw [written?, List.filterMap_append]
  cases h : u.value? key with
  | none => simp [h, written?]
  | some value => simp [h]

/-- There is a last value exactly where there was a write. -/
theorem written?_isSome_iff {key : κ} {uses : List (Use κ β)} :
    (written? key uses).isSome ↔ key ∈ writtenKeys uses := by
  induction uses using List.reverseRecOn with
  | nil => simp [written?, writtenKeys]
  | append_singleton uses u ih =>
    rw [written?_snoc, mem_writtenKeys_snoc, ← ih, Option.isSome_or, Bool.or_eq_true, or_comm]
    cases u with
    | write key' value => by_cases h : key' = key <;> simp [Use.value?, Use.writtenKey?, h]
    | read key' => simp [Use.value?, Use.writtenKey?]

/-- What the map holds under a key was written there last. -/
def Agrees (uses : List (Use κ β)) (m : Lru κ β) : Prop :=
  ∀ key v, (m.get? key).1 = some v → written? key uses = some v

/-- A use keeps values right: a write replaces the value of its own key only, and a read none. -/
theorem Agrees.apply {uses : List (Use κ β)} {m : Lru κ β} (h : Agrees uses m)
    (hm : 0 < m.capacity) (u : Use κ β) : Agrees (uses ++ [u]) (m.apply u) := by
  intro key v hget
  rw [written?_snoc]
  cases u with
  | write key' value =>
    by_cases hkey : key' = key
    · subst hkey
      rw [Lru.apply, get?_insert_self hm] at hget
      simpa [Use.value?] using hget
    · have hother := get?_of_get?_insert (Ne.symm hkey) hget
      simpa [Use.value?, hkey] using h key v hother
  | read key' =>
    rw [Lru.apply, get?_get?] at hget
    simpa [Use.value?] using h key v hget

/-- **After any uses the map holds what was written last**, under each key that it still has. -/
theorem agrees_replay (capacity : Nat) (uses : List (Use κ β)) :
    Agrees uses (replay capacity uses) := by
  induction uses using List.reverseRecOn with
  | nil =>
    intro key v hget
    cases hget
  | append_singleton uses u ih =>
    rw [replay_snoc]
    exact ih.apply (tracks_replay capacity uses).pos u

/-! ## Both -/

/-- What is touched was written, and what is written is touched. -/
theorem mem_touches_iff (capacity : Nat) {uses : List (Use κ β)} {key : κ} :
    key ∈ touches capacity uses ↔ key ∈ writtenKeys uses := by
  induction uses using List.reverseRecOn with
  | nil => rfl
  | append_singleton uses u ih =>
    rw [touches_snoc, List.mem_append, ih, Option.mem_toList, mem_writtenKeys_snoc]
    cases u with
    | write key' value => rfl
    | read key' =>
      -- a read finds only what was written before
      refine or_congr_right' fun hnew => iff_of_false (fun h => hnew ?_) nofun
      rw [touched?, Option.ite_none_right_eq_some] at h
      obtain ⟨hsome, ⟨⟩⟩ := h
      obtain ⟨v, hv⟩ := Option.isSome_iff_exists.mp hsome
      rw [← written?_isSome_iff, agrees_replay capacity uses _ v hv]
      rfl

/-- **A key is found exactly if fewer other keys than fit were touched since it was touched last**,
and then with what was written under it last. The map never holds more entries than fit, and
as many as keys were written until it is full. -/
theorem found_iff_recent (capacity : Nat) (uses : List (Use κ β)) :
    (∀ key v, ((replay capacity uses).get? key).1 = some v ↔
      written? key uses = some v ∧
        (since key (touches capacity uses)).length < max capacity 1) ∧
    (replay capacity uses).size ≤ max capacity 1 ∧
    (replay capacity uses).size = min (max capacity 1) (writtenKeys uses).dedup.length := by
  have htracks := tracks_replay capacity uses
  have hsize : (replay capacity uses).size =
      min (max capacity 1) (writtenKeys uses).dedup.length := by
    have hsame : (recent (touches capacity uses)).length = (writtenKeys uses).dedup.length :=
      ((List.perm_ext_iff_of_nodup (nodup_recent _) (List.nodup_dedup _)).mpr fun key => by
        rw [mem_recent, List.mem_dedup, mem_touches_iff]).length_eq
    rw [← hsame, ← capacity_replay capacity uses, ← List.length_take, ← htracks.keys, keys,
      List.length_map, size]
  refine ⟨fun key v => ?_, ?_, hsize⟩
  · rw [← capacity_replay capacity uses]
    constructor
    · intro hget
      have hwritten := agrees_replay capacity uses key v hget
      have htouched : key ∈ touches capacity uses := by
        rw [mem_touches_iff, ← written?_isSome_iff, hwritten]
        rfl
      have hkey : key ∈ (replay capacity uses).keys := by
        rw [← get?_isSome_iff, hget]
        rfl
      exact ⟨hwritten, (htracks.mem_keys_iff_since htouched).mp hkey⟩
    · rintro ⟨hwritten, hfew⟩
      have htouched : key ∈ touches capacity uses := by
        rw [mem_touches_iff, ← written?_isSome_iff, hwritten]
        rfl
      -- it is still there, and what is there was written last
      have hkey := (htracks.mem_keys_iff_since htouched).mpr hfew
      obtain ⟨v', hv'⟩ := Option.isSome_iff_exists.mp ((get?_isSome_iff _ key).mpr hkey)
      rw [hv', ← hwritten, agrees_replay capacity uses key v' hv']
  · rw [hsize]
    exact Nat.min_le_left _ _

/-- A read that finds `a` keeps it, so that `b` is dropped. -/
example : let m := replay 2 [.write "a" 1, .write "b" 2, .read "a", .read "x", .write "c" 3]
    (m.get? "a").1 = some 1 ∧ (m.get? "b").1 = none ∧ m.size = 2 := by decide

end CodeNav.Lru

import CodeNav.Lru
import Mathlib.Data.List.Dedup
import Mathlib.Data.List.Induction

/-!
# Which entries a bounded map keeps

A key is **used** when it is read with success or written. `Lru.recent` puts the keys that were
used in the order of their last use, the latest first. Whatever the values are, the map holds
**the front of that list, as much of it as fits** (`Lru.Tracks`), since cutting the list before a
use or after it comes to the same (`take_touch_take`).

So a key is lost exactly when as many other keys as fit have been used since its last use
(`Tracks.mem_keys_iff`).
-/

namespace CodeNav.Lru

variable {κ β : Type} [DecidableEq κ]

/-! ## Entries -/

section Find

variable {m : Lru κ β} {key : κ}

/-- **Miss.** What is not there is not found, and nothing changes. -/
theorem get?_of_find?_eq_none (h : m.entries.find? (·.1 = key) = none) :
    m.get? key = (none, m) := by
  simp only [get?, h]

/-- **Hit.** What is found goes to the front. -/
theorem get?_of_find?_eq_some {e : κ × β} (h : m.entries.find? (·.1 = key) = some e) :
    m.get? key = (some e.2, { m with entries := (key, e.2) :: m.without key }) := by
  simp only [get?, h]

end Find

/-- What is read is the first entry of the key, whether or not the entries are moved. -/
theorem get?_fst (m : Lru κ β) (key : κ) :
    (m.get? key).1 = (m.entries.find? (·.1 = key)).map Prod.snd := by
  cases hfind : m.entries.find? (·.1 = key) with
  | none => rw [get?_of_find?_eq_none hfind, Option.map_none]
  | some e => rw [get?_of_find?_eq_some hfind, Option.map_some]

/-- Nothing is made up: what is read was an entry. -/
theorem mem_of_get?_eq_some {m : Lru κ β} {key : κ} {v : β} (h : (m.get? key).1 = some v) :
    (key, v) ∈ m.entries := by
  rw [get?_fst, Option.map_eq_some_iff] at h
  obtain ⟨e, hfind, rfl⟩ := h
  have hkey : e.1 = key := by simpa using List.find?_some hfind
  rw [← hkey]
  exact List.mem_of_find?_eq_some hfind

/-- Reading only moves entries, so what holds of all of them still does. -/
theorem entries_get?_subset (m : Lru κ β) (key : κ) :
    (m.get? key).2.entries ⊆ m.entries := by
  cases hfind : m.entries.find? (·.1 = key) with
  | none => rw [get?_of_find?_eq_none hfind]; exact List.Subset.refl _
  | some e =>
    have hmem : (key, e.2) ∈ m.entries :=
      mem_of_get?_eq_some (by rw [get?_of_find?_eq_some hfind])
    rw [get?_of_find?_eq_some hfind]
    intro x hx
    rcases List.mem_cons.mp hx with rfl | hx
    · exact hmem
    · exact (List.mem_filter.mp hx).1

/-- Writing adds the one entry and may drop others, so what holds of all entries and the new one
still does. -/
theorem entries_insert_subset (m : Lru κ β) (key : κ) (v : β) :
    (m.insert key v).entries ⊆ (key, v) :: m.entries := by
  intro x hx
  rcases List.mem_cons.mp (List.mem_of_mem_take hx) with rfl | hx
  · exact List.mem_cons_self
  · exact List.mem_cons_of_mem _ (List.mem_filter.mp hx).1

@[simp] theorem capacity_get? (m : Lru κ β) (key : κ) : (m.get? key).2.capacity = m.capacity := by
  rw [get?]
  split <;> rfl

@[simp] theorem capacity_insert (m : Lru κ β) (key : κ) (v : β) :
    (m.insert key v).capacity = m.capacity := rfl

/-! ## Values -/

/-- Taking a key out hides no other key. -/
theorem find?_without {m : Lru κ β} {key key' : κ} (h : key' ≠ key) :
    (m.without key).find? (·.1 = key') = m.entries.find? (·.1 = key') := by
  have hboth : ∀ e : κ × β, (e.1 ≠ key ∧ e.1 = key') ↔ e.1 = key' := by
    intro e
    refine ⟨And.right, ?_⟩
    rintro rfl
    exact ⟨h, rfl⟩
  simp only [without, List.find?_filter, decide_eq_true_eq, hboth]

/-- Reading changes no value. -/
theorem get?_get? (m : Lru κ β) (key key' : κ) :
    ((m.get? key).2.get? key').1 = (m.get? key').1 := by
  cases hfind : m.entries.find? (·.1 = key) with
  | none => rw [get?_of_find?_eq_none hfind]
  | some e =>
    rw [get?_fst, get?_fst, get?_of_find?_eq_some hfind, List.find?_cons]
    by_cases hkey : key = key'
    · subst hkey
      simp [hfind]
    · simp only [hkey, decide_false, find?_without (Ne.symm hkey)]

/-- What was written is read back at once, if the map has room for one entry: the new entry is put
in front, and the entries are cut off behind. -/
theorem get?_insert_self {m : Lru κ β} (hm : 0 < m.capacity) (key : κ) (v : β) :
    ((m.insert key v).get? key).1 = some v := by
  obtain ⟨n, hn⟩ := Nat.exists_eq_add_of_lt hm
  simp [get?_fst, insert, hn]

/-- What is kept of the other keys when one is written keeps its value. -/
theorem get?_of_get?_insert {m : Lru κ β} {key key' : κ} (h : key' ≠ key) {v v' : β}
    (hget : ((m.insert key v).get? key').1 = some v') : (m.get? key').1 = some v' := by
  rw [get?_fst, Option.map_eq_some_iff] at hget ⊢
  obtain ⟨e, hfind, rfl⟩ := hget
  have hfind' := (List.take_prefix _ _).find?_eq_some hfind
  simp only [List.find?_cons, Ne.symm h, decide_false, find?_without h] at hfind'
  exact ⟨e, hfind', rfl⟩

/-! ## Keys -/

/-- The keys, the most recently used one first. -/
def keys (m : Lru κ β) : List κ := m.entries.map Prod.fst

/-- Use a key: it goes in front of the others. -/
def touch (ks : List κ) (k : κ) : List κ := k :: ks.filter (· ≠ k)

/-- Taking out the entries of a key is taking out the key, whatever the values are. -/
theorem keys_without (m : Lru κ β) (key : κ) :
    (m.without key).map Prod.fst = m.keys.filter (· ≠ key) := by
  rw [keys, List.filter_map]
  rfl

/-- A key is found exactly if it is there, so what is found is decided by the keys alone. -/
theorem get?_isSome_iff (m : Lru κ β) (key : κ) : (m.get? key).1.isSome ↔ key ∈ m.keys := by
  rw [get?_fst, Option.isSome_map, List.find?_isSome, keys, List.mem_map]
  simp

/-- A miss leaves the map as it was; in the order of last use it does not count. -/
theorem get?_of_notMem {m : Lru κ β} {key : κ} (h : key ∉ m.keys) : m.get? key = (none, m) := by
  rw [← get?_isSome_iff, get?_fst, Option.isSome_map, Bool.not_eq_true, Option.isSome_eq_false_iff,
    Option.isNone_iff_eq_none] at h
  exact get?_of_find?_eq_none h

/-- A hit is a use of its key. -/
theorem keys_get?_of_mem {m : Lru κ β} {key : κ} (h : key ∈ m.keys) :
    (m.get? key).2.keys = touch m.keys key := by
  rw [← get?_isSome_iff, get?_fst, Option.isSome_map] at h
  obtain ⟨e, hfind⟩ := Option.isSome_iff_exists.mp h
  rw [get?_of_find?_eq_some hfind, keys, List.map_cons, keys_without, touch]

/-- A write is a use of its key too, and then the keys are cut to what fits. -/
theorem keys_insert (m : Lru κ β) (key : κ) (v : β) :
    (m.insert key v).keys = (touch m.keys key).take m.capacity := by
  rw [keys, insert, List.map_take, List.map_cons, keys_without, touch]

/-! ## By last use -/

/-- The keys that were used, the earliest use first, in the order of their last use, the latest
first. -/
def recent (uses : List κ) : List κ := uses.foldl touch []

@[simp] theorem recent_snoc (uses : List κ) (k : κ) :
    recent (uses ++ [k]) = touch (recent uses) k := by
  simp [recent]

/-- A use leaves no second copy of the key behind. -/
theorem nodup_touch {ks : List κ} (h : ks.Nodup) (k : κ) : (touch ks k).Nodup :=
  List.nodup_cons.mpr ⟨by simp, h.filter _⟩

/-- Each key stands once, at its last use. -/
theorem nodup_recent (uses : List κ) : (recent uses).Nodup := by
  induction uses using List.reverseRecOn with
  | nil => exact List.nodup_nil
  | append_singleton uses k ih =>
    rw [recent_snoc]
    exact nodup_touch ih k

@[simp] theorem mem_touch {ks : List κ} {k x : κ} : x ∈ touch ks k ↔ x = k ∨ x ∈ ks := by
  by_cases hx : x = k <;> simp [touch, hx]

@[simp] theorem mem_recent {uses : List κ} {x : κ} : x ∈ recent uses ↔ x ∈ uses := by
  induction uses using List.reverseRecOn with
  | nil => rfl
  | append_singleton uses k ih => simp [ih, or_comm]

/-- The list is as long as there are different keys among the uses. -/
theorem length_recent (uses : List κ) : (recent uses).length = uses.dedup.length :=
  ((List.perm_ext_iff_of_nodup (nodup_recent uses) uses.nodup_dedup).mpr (by simp)).length_eq

/-- Using a key that is there only moves it, so a map that is full needs no room for it. -/
theorem length_touch_of_mem {ks : List κ} (h : ks.Nodup) {k : κ} (hk : k ∈ ks) :
    (touch ks k).length = ks.length := by
  have hfilter : ks.filter (· ≠ k) = ks.erase k := by
    rw [h.erase_eq_filter]
    exact List.filter_congr fun a _ => by rw [Bool.eq_iff_iff, decide_eq_true_iff, bne_iff_ne]
  rw [touch, List.length_cons, hfilter, List.length_erase_add_one hk]

theorem filter_ne_cons {a k : κ} (h : a ≠ k) (ks : List κ) :
    (a :: ks).filter (· ≠ k) = a :: ks.filter (· ≠ k) := by
  simp [h]

theorem filter_ne_of_notMem {k : κ} {ks : List κ} (h : k ∉ ks) : ks.filter (· ≠ k) = ks :=
  List.filter_eq_self.mpr fun _ hb => decide_eq_true (ne_of_mem_of_not_mem hb h)

/-- To take `n` of the others, the first `n + 1` keys are enough, for at most one of them is taken
out. -/
theorem take_filter_take {ks : List κ} (h : ks.Nodup) (k : κ) (n : Nat) :
    ((ks.take (n + 1)).filter (· ≠ k)).take n = (ks.filter (· ≠ k)).take n := by
  induction ks generalizing n with
  | nil => rfl
  | cons a ks ih =>
    obtain ⟨ha, hks⟩ := List.nodup_cons.mp h
    by_cases hak : a = k
    · -- the one that is taken out stands only here
      subst hak
      have htake : a ∉ ks.take n := fun hmem => ha (List.mem_of_mem_take hmem)
      have hdrop : ∀ l : List κ, (a :: l).filter (· ≠ a) = l.filter (· ≠ a) := by simp
      rw [List.take_succ_cons, hdrop, hdrop, filter_ne_of_notMem htake, filter_ne_of_notMem ha,
        List.take_take, Nat.min_self]
    · cases n with
      | zero => rfl
      | succ n =>
        rw [List.take_succ_cons, filter_ne_cons hak, filter_ne_cons hak, List.take_succ_cons,
          List.take_succ_cons, ih hks]

/-- Whether the list is cut before a use too or only after it comes to the same. -/
theorem take_touch_take {ks : List κ} (h : ks.Nodup) (k : κ) {n : Nat} (hn : 0 < n) :
    (touch (ks.take n) k).take n = (touch ks k).take n := by
  cases n with
  | zero => contradiction
  | succ n => rw [touch, touch, List.take_succ_cons, List.take_succ_cons, take_filter_take h]

/-- In front of a key stand the keys that were used after it. -/
theorem exists_recent_eq (before : List κ) {x : κ} {between : List κ} (h : x ∉ between) :
    ∃ older, recent (before ++ x :: between) = recent between ++ x :: older := by
  induction between using List.reverseRecOn with
  | nil => exact ⟨_, recent_snoc before x⟩
  | append_singleton between k ih =>
    obtain ⟨hbetween, hk⟩ : x ∉ between ∧ x ≠ k := by simpa using h
    obtain ⟨older, holder⟩ := ih hbetween
    refine ⟨older.filter (· ≠ k), ?_⟩
    rw [← List.cons_append, ← List.append_assoc, recent_snoc, holder, recent_snoc, touch, touch,
      List.filter_append, filter_ne_cons hk, List.cons_append]

/-! ## The front of the list -/

/-- The map holds the keys that were used last, as many as fit. -/
structure Tracks (uses : List κ) (m : Lru κ β) : Prop where
  pos : 0 < m.capacity
  keys : m.keys = (recent uses).take m.capacity

namespace Tracks

/-- An empty map fits a history without uses. Its capacity is one at least. -/
theorem empty (capacity : Nat) : Tracks [] (.empty capacity : Lru κ β) :=
  ⟨Nat.lt_of_lt_of_le Nat.one_pos (Nat.le_max_right _ _), by simp [Lru.empty, Lru.keys, recent]⟩

variable {uses : List κ} {m : Lru κ β}

/-- Writing an entry uses its key. -/
theorem insert (h : Tracks uses m) (key : κ) (v : β) :
    Tracks (uses ++ [key]) (m.insert key v) where
  pos := h.pos
  keys := by
    rw [keys_insert, h.keys, capacity_insert, recent_snoc,
      take_touch_take (nodup_recent uses) key h.pos]

/-- Reading an entry that is there uses its key. -/
theorem get? (h : Tracks uses m) {key : κ} (hkey : key ∈ m.keys) :
    Tracks (uses ++ [key]) (m.get? key).2 where
  pos := by rw [capacity_get?]; exact h.pos
  keys := by
    have hnodup : m.keys.Nodup := by
      rw [h.keys]
      exact (nodup_recent uses).take
    have hfits : (touch m.keys key).length ≤ m.capacity := by
      rw [length_touch_of_mem hnodup hkey, h.keys]
      exact List.length_take_le _ _
    rw [keys_get?_of_mem hkey, capacity_get?, recent_snoc,
      ← take_touch_take (nodup_recent uses) key h.pos, ← h.keys, List.take_of_length_le hfits]

/-- The map never holds more than fits. -/
theorem size_le (h : Tracks uses m) : m.size ≤ m.capacity := by
  have hsize : m.size = m.keys.length := by rw [size, Lru.keys, List.length_map]
  rw [hsize, h.keys]
  exact List.length_take_le _ _

/-- **A key is kept while fewer other keys than fit have been used since.** -/
theorem mem_keys_iff {before between : List κ} {x : κ} (h : Tracks (before ++ x :: between) m)
    (hx : x ∉ between) : x ∈ m.keys ↔ between.dedup.length < m.capacity := by
  obtain ⟨older, holder⟩ := exists_recent_eq before hx
  have hnewer : x ∉ (recent between).take m.capacity := fun hmem =>
    hx (mem_recent.mp (List.mem_of_mem_take hmem))
  rw [h.keys, holder, List.take_append, List.mem_append, ← length_recent between]
  cases hroom : m.capacity - (recent between).length with
  | zero =>
    rw [List.take_zero]
    refine iff_of_false ?_ (by omega)
    rintro (hmem | hmem)
    · exact hnewer hmem
    · exact List.not_mem_nil hmem
  | succ room =>
    rw [List.take_succ_cons]
    exact iff_of_true (Or.inr List.mem_cons_self) (by omega)

end Tracks

end CodeNav.Lru

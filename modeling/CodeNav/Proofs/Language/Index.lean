import CodeNav.Language.Registry

/-!
# The indexes of a registry

Both indexes of a registry are filled the same way: each profile in turn claims its keys, and
a key that is taken stays taken. So an index answers like a **search through the list**
(`getElem?_claimed`) and never points out of it (`lt_of_getElem?_claimed`). The registry answers
like a search, too: `get?_ofProfiles` by id, `forPath?_ofProfiles` by extension.
-/

namespace CodeNav.Registry

/-- Let several keys point to a place unless they point somewhere already. -/
def claimAll (index : Std.HashMap String Nat) (keys : List String) (place : Nat) :
    Std.HashMap String Nat :=
  keys.foldl (fun index key => claim index key place) index

/-- A key that is taken stays taken; one of the new keys points to the place. -/
theorem getElem?_claimAll (index : Std.HashMap String Nat) (keys : List String) (place : Nat)
    (key : String) :
    (claimAll index keys place)[key]? =
      index[key]?.or (if key ∈ keys then some place else none) := by
  induction keys generalizing index with
  | nil => simp [claimAll]
  | cons k keys ih =>
    have hstep : claimAll index (k :: keys) place = claimAll (claim index k place) keys place := rfl
    rw [hstep, ih, claim, Std.HashMap.getElem?_insertIfNew]
    cases hindex : index[key]? with
    | some n =>
      have hmem : key ∈ index := Std.HashMap.mem_iff_isSome_getElem?.mpr (by simp [hindex])
      have htaken : ¬ (k = key ∧ k ∉ index) := by
        rintro ⟨rfl, hfree⟩
        exact hfree hmem
      simp [htaken]
    | none =>
      have hfree : key ∉ index := by simp [Std.HashMap.mem_iff_isSome_getElem?, hindex]
      by_cases hkey : k = key
      · subst hkey
        simp [hfree]
      · simp [hkey, Ne.symm hkey]

variable (keys : Profile → List String)

/-- Let each profile claim its keys, the first ones first. -/
def claimed (index : Std.HashMap String Nat) (profiles : List (Profile × Nat)) :
    Std.HashMap String Nat :=
  profiles.foldl (fun index (p, i) => claimAll index (keys p) i) index

/-- **An index points to the first profile that has the key.** -/
theorem getElem?_claimed (index : Std.HashMap String Nat) (profiles : List Profile) (n : Nat)
    (key : String) :
    (claimed keys index (profiles.zipIdx n))[key]? =
      index[key]?.or ((profiles.findIdx? (key ∈ keys ·)).map (· + n)) := by
  induction profiles generalizing index n with
  | nil => simp [claimed]
  | cons p profiles ih =>
    have hstep : claimed keys index ((p :: profiles).zipIdx n) =
        claimed keys (claimAll index (keys p) n) (profiles.zipIdx (n + 1)) := rfl
    rw [hstep, ih, getElem?_claimAll, Option.or_assoc, List.findIdx?_cons]
    by_cases hp : key ∈ keys p
    · simp [hp]
    · simp [hp, Function.comp_def, Nat.add_assoc, Nat.add_comm 1 n]

/-- An index points into the list. -/
theorem lt_of_getElem?_claimed {profiles : List Profile} {key : String} {i : Nat}
    (h : (claimed keys ∅ profiles.zipIdx)[key]? = some i) : i < profiles.length := by
  rw [getElem?_claimed] at h
  simp only [Std.HashMap.getElem?_empty, Option.none_or, Nat.add_zero, Option.map_id'] at h
  exact (List.findIdx?_eq_some_iff_getElem.mp h).1

/-- What an index points to is what a search through the list finds. -/
theorem bind_getElem?_claimed (profiles : List Profile) (key : String) :
    (claimed keys ∅ profiles.zipIdx)[key]?.bind (profiles[·]?) =
      profiles.find? (key ∈ keys ·) := by
  rw [getElem?_claimed, List.find?_eq_bind_findIdx?_getElem?]
  simp

theorem byId_ofProfiles (profiles : List Profile) :
    (ofProfiles profiles).byId = claimed (fun p => [p.id]) ∅ profiles.zipIdx := rfl

theorem byExtension_ofProfiles (profiles : List Profile) : (ofProfiles profiles).byExtension =
    claimed (fun p => p.extensions.map fun e => .ofList (lowerAscii e.toList)) ∅
      profiles.zipIdx := by
  simp only [ofProfiles, claimed, claimExtensions, claimAll, List.foldl_map]

/-- **A profile is found by its id as by a search through the list.** -/
theorem get?_ofProfiles (profiles : List Profile) (id : String) :
    (ofProfiles profiles).get? id = profiles.find? (·.id = id) := by
  rw [get?, byId_ofProfiles]
  refine (bind_getElem?_claimed _ profiles id).trans ?_
  simp [eq_comm]

/-- **The profile for a path is the first one in the list with its extension**, ASCII case
aside. -/
theorem forPath?_ofProfiles (profiles : List Profile) (path : String) :
    (ofProfiles profiles).forPath? path = (Path.extension? path.toList).bind fun ext =>
      profiles.find? (·.extensions.any (lowerAscii ·.toList = lowerAscii ext)) := by
  rw [forPath?, byExtension_ofProfiles]
  cases Path.extension? path.toList with
  | none => rfl
  | some ext =>
    refine (bind_getElem?_claimed _ profiles _).trans ?_
    simp [List.any_eq, String.ofList_inj]

end CodeNav.Registry

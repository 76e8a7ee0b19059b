import Mathlib.Data.List.AList

/-! # Hash maps as keyed lists

A hash map is an association list with duplicate-free keys. The order of the
entries stands for the iteration order, which callers may not rely on:
`Reordered` relates two maps that differ in nothing else. -/

namespace OomWatcher

abbrev Dictionary (Key Value : Type) := AList fun _ : Key => Value

namespace Dictionary

variable {Key Value : Type}

def retain (map : Dictionary Key Value) (keep : Key → Value → Bool) :
    Dictionary Key Value where
  entries := map.entries.filter fun entry => keep entry.1 entry.2
  nodupKeys := map.nodupKeys.sublist List.filter_sublist

def keysWhere (map : Dictionary Key Value) (chosen : Key → Value → Bool) :
    List Key :=
  (map.entries.filter fun entry => chosen entry.1 entry.2).map Sigma.fst

/-- The same map, possibly iterated in another order. -/
def Reordered (left right : Dictionary Key Value) : Prop :=
  left.entries.Perm right.entries

theorem Reordered.refl (map : Dictionary Key Value) : Reordered map map :=
  List.Perm.refl _

section Lookup

variable [DecidableEq Key]

theorem Reordered.lookup {left right : Dictionary Key Value}
    (reordered : Reordered left right) (key : Key) :
    left.lookup key = right.lookup key :=
  AList.perm_lookup reordered

theorem Reordered.of_lookup {left right : Dictionary Key Value}
    (same : ∀ key, left.lookup key = right.lookup key) : Reordered left right := by
  apply List.lookup_ext left.nodupKeys right.nodupKeys
  intro key value
  change value ∈ left.lookup key ↔ value ∈ right.lookup key
  rw [same key]

@[simp] theorem lookup_retain (map : Dictionary Key Value)
    (keep : Key → Value → Bool) (key : Key) :
    (map.retain keep).lookup key = (map.lookup key).filter (keep key) := by
  apply Option.ext
  intro value
  rw [Option.filter_eq_some_iff]
  change value ∈ (map.retain keep).lookup key ↔ value ∈ map.lookup key ∧ _
  rw [AList.mem_lookup_iff, AList.mem_lookup_iff]
  exact List.mem_filter

theorem lookup_insert_eq (map : Dictionary Key Value) (key other : Key)
    (value : Value) :
    (map.insert key value).lookup other =
      if other = key then some value else map.lookup other := by
  by_cases equal : other = key
  · subst equal
    rw [if_pos rfl, AList.lookup_insert]
  · rw [if_neg equal, AList.lookup_insert_ne equal]

theorem mem_keysWhere (map : Dictionary Key Value)
    (chosen : Key → Value → Bool) (key : Key) :
    key ∈ map.keysWhere chosen ↔
      ∃ value, map.lookup key = some value ∧ chosen key value = true := by
  constructor
  · intro member
    rcases List.mem_map.mp member with ⟨⟨entryKey, value⟩, inFilter, rfl⟩
    rcases List.mem_filter.mp inFilter with ⟨inEntries, isChosen⟩
    exact ⟨value, AList.mem_lookup_iff.mpr inEntries, isChosen⟩
  · intro stored
    rcases stored with ⟨value, found, isChosen⟩
    apply List.mem_map.mpr
    exact ⟨⟨key, value⟩,
      List.mem_filter.mpr ⟨AList.mem_lookup_iff.mp found, isChosen⟩, rfl⟩

theorem mem_keys_iff_lookup (map : Dictionary Key Value) (key : Key) :
    key ∈ map.keys ↔ ∃ value, map.lookup key = some value := by
  rw [← AList.mem_keys, ← AList.lookup_isSome, Option.isSome_iff_exists]

theorem mem_keys_insert (map : Dictionary Key Value) (key other : Key) (value : Value) :
    other ∈ (map.insert key value).keys ↔ other = key ∨ other ∈ map.keys :=
  AList.mem_insert map

end Lookup

theorem Reordered.retain {left right : Dictionary Key Value}
    (reordered : Reordered left right) (keep : Key → Value → Bool) :
    Reordered (left.retain keep) (right.retain keep) :=
  List.Perm.filter _ reordered

theorem retain_retain (map : Dictionary Key Value) (first second : Key → Value → Bool) :
    (map.retain first).retain second =
      map.retain fun key value => first key value && second key value := by
  apply AList.ext
  exact List.filter_filter.trans (List.filter_congr fun _ _ => Bool.and_comm _ _)

theorem keysWhere_append_keysWhere (map : Dictionary Key Value)
    (first second : Key → Value → Bool) :
    (map.keysWhere first ++
        (map.retain fun key value => !first key value).keysWhere second).Perm
      (map.keysWhere fun key value => first key value || second key value) := by
  have split := List.filter_append_perm (fun entry : (_ : Key) × Value => first entry.1 entry.2)
    (map.entries.filter fun entry => first entry.1 entry.2 || second entry.1 entry.2)
  rw [List.filter_filter, List.filter_filter] at split
  have early : ∀ entry ∈ map.entries,
      (first entry.1 entry.2 && (first entry.1 entry.2 || second entry.1 entry.2)) =
        first entry.1 entry.2 := by
    intro entry _
    cases first entry.1 entry.2 <;> rfl
  have late : ∀ entry ∈ map.entries,
      (!first entry.1 entry.2 && (first entry.1 entry.2 || second entry.1 entry.2)) =
        (second entry.1 entry.2 && !first entry.1 entry.2) := by
    intro entry _
    cases first entry.1 entry.2 <;> simp
  rw [List.filter_congr early, List.filter_congr late, ← List.filter_filter] at split
  have keys := split.map Sigma.fst
  rwa [List.map_append] at keys

theorem countP_split (map : Dictionary Key Value) (chosen : Key → Value → Bool)
    (among : Key → Bool) :
    (map.keysWhere chosen).countP among +
        (map.retain fun key value => !chosen key value).keys.countP among =
      map.keys.countP among := by
  have split := (List.filter_append_perm (fun entry : (_ : Key) × Value => chosen entry.1 entry.2)
    map.entries).map Sigma.fst
  rw [List.map_append] at split
  rw [← List.countP_append]
  exact split.countP_eq among

theorem countP_insert_le [DecidableEq Key] (map : Dictionary Key Value) (key : Key)
    (value : Value) (among : Key → Bool) :
    (map.insert key value).keys.countP among ≤
      map.keys.countP among + if among key then 1 else 0 := by
  rw [AList.keys_insert, List.countP_cons]
  exact Nat.add_le_add_right (List.erase_sublist.countP_le) _

theorem Reordered.keysWhere {left right : Dictionary Key Value}
    (reordered : Reordered left right) (chosen : Key → Value → Bool) :
    (left.keysWhere chosen).Perm (right.keysWhere chosen) :=
  (List.Perm.filter _ reordered).map _

end Dictionary

end OomWatcher

import Clif.Dict

/-!
# Keyed — a dictionary whose values name the keys they stand under

Writing a value needs no key, and no value can stand under a key that is not its own.
-/

structure Keyed (κ ν : Type) [DecidableEq κ] (key : ν → κ) where
  dict : Dict κ ν
  keyed : ∀ k v, dict.get? k = some v → key v = k

namespace Keyed

variable {κ ν : Type} [DecidableEq κ] {key : ν → κ} {d : Keyed κ ν key} {k j : κ} {v w : ν}

def empty : Keyed κ ν key := ⟨Dict.empty, fun k v h => by simp at h⟩

def get? (d : Keyed κ ν key) (k : κ) : Option ν := d.dict.get? k

def keys (d : Keyed κ ν key) : List κ := d.dict.keys

def values (d : Keyed κ ν key) : List ν := d.dict.values

def put (d : Keyed κ ν key) (v : ν) : Keyed κ ν key where
  dict := d.dict.set (key v) v
  keyed := fun k w h => by
    rw [Dict.get?_set] at h
    split at h
    · rename_i hk
      cases h
      exact hk
    · exact d.keyed k w h

def filterKeys (d : Keyed κ ν key) (q : κ → Bool) : Keyed κ ν key where
  dict := d.dict.filterKeys q
  keyed := fun k v h => by
    rw [Dict.get?_filterKeys] at h
    split at h
    · exact d.keyed k v h
    · cases h

def erase (d : Keyed κ ν key) (k : κ) : Keyed κ ν key := d.filterKeys fun j => j ≠ k

theorem key_of_get? (h : d.get? k = some v) : key v = k := d.keyed k v h

@[simp] theorem get?_empty : (empty : Keyed κ ν key).get? k = none := rfl

theorem get?_put : (d.put v).get? k = if key v = k then some v else d.get? k := Dict.get?_set

theorem get?_filterKeys {q : κ → Bool} :
    (d.filterKeys q).get? k = if q k then d.get? k else none := Dict.get?_filterKeys

theorem get?_erase : (d.erase k).get? j = if k = j then none else d.get? j := Dict.get?_erase

theorem get?_erase_ne (h : k ≠ j) : (d.erase k).get? j = d.get? j := by
  rw [get?_erase, if_neg h]

theorem get?_erase_some : (d.erase k).get? j = some v ↔ k ≠ j ∧ d.get? j = some v := by
  rw [get?_erase]
  by_cases h : k = j
  · simp [h]
  · simp [h]

theorem mem_keys : k ∈ d.keys ↔ ∃ v, d.get? k = some v := by
  rw [keys, Dict.mem_keys, Option.isSome_iff_exists]
  rfl

theorem get?_eq_none : d.get? k = none ↔ k ∉ d.keys := Dict.get?_eq_none

theorem keys_nodup : d.keys.Nodup := d.dict.keys_nodup

theorem mem_keys_put : j ∈ (d.put v).keys ↔ key v = j ∨ j ∈ d.keys := Dict.mem_keys_set

theorem keys_put : (d.put v).keys = if key v ∈ d.keys then d.keys else d.keys ++ [key v] :=
  Dict.keys_setL

theorem keys_erase : (d.erase k).keys = d.keys.filter fun j => j ≠ k := by
  show ((d.dict.entries.filter fun e => e.1 ≠ k).map Prod.fst) =
    (d.dict.entries.map Prod.fst).filter fun j => j ≠ k
  rw [List.filter_map]
  rfl

theorem mem_values : v ∈ d.values ↔ d.get? (key v) = some v := by
  constructor
  · intro h
    obtain ⟨⟨k, w⟩, hmem, rfl⟩ := List.mem_map.mp h
    have hget : d.dict.get? k = some w := Dict.mem_entries.mp hmem
    rw [d.keyed k w hget]
    exact hget
  · intro h
    exact List.mem_map.mpr ⟨(key v, v), Dict.mem_entries.mpr h, rfl⟩

/-- After many writes a key has the last value written under it. -/
theorem get?_foldl_put {vs : List ν} : (vs.foldl put d).get? k =
    (vs.reverse.find? fun v => key v = k).or (d.get? k) := by
  induction vs generalizing d with
  | nil => rfl
  | cons v vs ih =>
    rw [List.foldl_cons, ih, get?_put, List.reverse_cons, List.find?_append, Option.or_assoc]
    by_cases hk : key v = k
    · simp [hk]
    · simp [hk]

theorem mem_keys_foldl_put {vs : List ν} :
    k ∈ (vs.foldl put d).keys ↔ (∃ v ∈ vs, key v = k) ∨ k ∈ d.keys := by
  rw [mem_keys, get?_foldl_put, mem_keys]
  cases hfind : vs.reverse.find? fun v => key v = k with
  | some v =>
    refine iff_of_true ⟨v, rfl⟩ (.inl ⟨v, ?_, ?_⟩)
    · exact List.mem_reverse.mp (List.mem_of_find?_eq_some hfind)
    · simpa using List.find?_some hfind
  | none =>
    rw [Option.none_or]
    refine ⟨.inr, ?_⟩
    rintro (⟨v, hv, hk⟩ | h)
    · have hnot := List.find?_eq_none.mp hfind v (List.mem_reverse.mpr hv)
      simp [hk] at hnot
    · exact h

/-- Each value stands under its own key. -/
theorem map_values : d.values.map key = d.keys := by
  show (d.dict.entries.map Prod.snd).map key = d.dict.entries.map Prod.fst
  rw [List.map_map]
  refine List.map_congr_left fun e he => ?_
  exact d.keyed e.1 e.2 (Dict.mem_entries.mp he)

theorem values_nodup : d.values.Nodup := by
  have hnodup : (d.values.map key).Nodup := by
    rw [map_values]
    exact d.keys_nodup
  exact hnodup.of_map

/-- What a list of the values says under a key, read from its end. -/
theorem find?_of_perm {vs : List ν} (h : vs.Perm d.values) :
    (vs.reverse.find? fun v => key v = k) = d.get? k := by
  cases hfind : vs.reverse.find? fun v => key v = k with
  | some v =>
    have hmem : v ∈ d.values :=
      h.mem_iff.mp (List.mem_reverse.mp (List.mem_of_find?_eq_some hfind))
    have hkey : key v = k := by simpa using List.find?_some hfind
    rw [← hkey]
    exact (mem_values.mp hmem).symm
  | none =>
    symm
    rw [get?_eq_none, ← map_values]
    intro hmem
    obtain ⟨v, hv, hk⟩ := List.mem_map.mp hmem
    have hnot := List.find?_eq_none.mp hfind v (List.mem_reverse.mpr (h.mem_iff.mpr hv))
    simp [hk] at hnot

end Keyed

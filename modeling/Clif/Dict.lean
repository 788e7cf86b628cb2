import Mathlib.Data.List.Nodup
import Mathlib.Data.List.Perm.Basic

/-!
# Dict — a finite map that remembers the order of insertion

Writing to a key that is present keeps its place, a new key goes to the end, and removing a key
leaves the order of the others.  Two dictionaries with the same lookups hold the same entries, in
some order (`perm_of_get?_eq`).
-/

structure Dict (κ ν : Type) where
  entries : List (κ × ν)
  nodup : (entries.map Prod.fst).Nodup

namespace Dict

variable {κ ν : Type} [DecidableEq κ]

instance [DecidableEq ν] : DecidableEq (Dict κ ν) := fun d e =>
  decidable_of_iff (d.entries = e.entries) <| by
    cases d
    cases e
    simp

/-! ### On association lists -/

def lookupL : List (κ × ν) → κ → Option ν
  | [], _ => none
  | (k', v) :: l, k => if k' = k then some v else lookupL l k

def setL : List (κ × ν) → κ → ν → List (κ × ν)
  | [], k, v => [(k, v)]
  | (k', v') :: l, k, v => if k' = k then (k', v) :: l else (k', v') :: setL l k v

theorem lookupL_eq_none {k : κ} : ∀ {l : List (κ × ν)}, lookupL l k = none ↔ k ∉ l.map Prod.fst
  | [] => by simp [lookupL]
  | (k', v) :: l => by
    by_cases h : k' = k
    · simp [lookupL, h]
    · simp [lookupL, h, lookupL_eq_none (l := l), Ne.symm h]

theorem lookupL_setL {k j : κ} {v : ν} :
    ∀ {l : List (κ × ν)}, lookupL (setL l k v) j = if k = j then some v else lookupL l j
  | [] => by simp [setL, lookupL]
  | (k', v') :: l => by
    by_cases h : k' = k
    · subst h
      by_cases hj : k' = j <;> simp [setL, lookupL, hj]
    · by_cases hj : k' = j
      · subst hj
        simp [setL, lookupL, h, Ne.symm h]
      · simp [setL, lookupL, h, hj, lookupL_setL (l := l)]

theorem keys_setL {k : κ} {v : ν} : ∀ {l : List (κ × ν)},
    (setL l k v).map Prod.fst = if k ∈ l.map Prod.fst then l.map Prod.fst else l.map Prod.fst ++ [k]
  | [] => by simp [setL]
  | (k', v') :: l => by
    by_cases h : k' = k
    · simp [setL, h]
    · simp only [setL, h, if_false, List.map_cons, keys_setL (l := l), List.mem_cons, Ne.symm h,
        false_or]
      split <;> simp

theorem lookupL_eq_some {k : κ} {v : ν} :
    ∀ {l : List (κ × ν)}, (l.map Prod.fst).Nodup → (lookupL l k = some v ↔ (k, v) ∈ l)
  | [], _ => by simp [lookupL]
  | (k', v') :: l, hn => by
    simp only [List.map_cons, List.nodup_cons] at hn
    by_cases h : k' = k
    · subst h
      have hl : (k', v) ∉ l := fun hm => hn.1 (List.mem_map_of_mem (f := Prod.fst) hm)
      simp [lookupL, hl, eq_comm]
    · simp [lookupL, h, lookupL_eq_some hn.2, Ne.symm h]

/-! ### The dictionary -/

def empty : Dict κ ν := ⟨[], List.nodup_nil⟩

def get? (d : Dict κ ν) (k : κ) : Option ν := lookupL d.entries k

def set (d : Dict κ ν) (k : κ) (v : ν) : Dict κ ν where
  entries := setL d.entries k v
  nodup := by
    rw [keys_setL]
    split
    · exact d.nodup
    · rename_i h
      exact List.nodup_append.mpr
        ⟨d.nodup, by simp, fun a ha b hb => by
          rw [List.mem_singleton.mp hb]
          exact fun hab => h (hab ▸ ha)⟩

/-- Keep the entries whose key satisfies `q`. -/
def filterKeys (d : Dict κ ν) (q : κ → Bool) : Dict κ ν where
  entries := d.entries.filter fun e => q e.1
  nodup := d.nodup.sublist (List.filter_sublist.map _)

def erase (d : Dict κ ν) (k : κ) : Dict κ ν := d.filterKeys fun j => j ≠ k

def keys (d : Dict κ ν) : List κ := d.entries.map Prod.fst

def values (d : Dict κ ν) : List ν := d.entries.map Prod.snd

def contains (d : Dict κ ν) (k : κ) : Bool := (d.get? k).isSome

/-- `d.setdefault(k, v)`. -/
def setdefault (d : Dict κ ν) (k : κ) (v : ν) : Dict κ ν := if d.contains k then d else d.set k v

/-- `d.pop(k, None)` for every `k` of the list. -/
def eraseAll (d : Dict κ ν) (ks : List κ) : Dict κ ν := d.filterKeys fun j => j ∉ ks

theorem mem_entries {d : Dict κ ν} {k : κ} {v : ν} : (k, v) ∈ d.entries ↔ d.get? k = some v :=
  (lookupL_eq_some d.nodup).symm

omit [DecidableEq κ] in
theorem keys_nodup (d : Dict κ ν) : d.keys.Nodup := d.nodup

theorem mem_keys {d : Dict κ ν} {k : κ} : k ∈ d.keys ↔ (d.get? k).isSome := by
  rw [Option.isSome_iff_ne_none, ne_eq, get?, lookupL_eq_none, not_not, keys]

theorem get?_eq_none {d : Dict κ ν} {k : κ} : d.get? k = none ↔ k ∉ d.keys := lookupL_eq_none

omit [DecidableEq κ] in
@[simp] theorem entries_empty : (empty : Dict κ ν).entries = [] := rfl

@[simp] theorem get?_empty (k : κ) : (empty : Dict κ ν).get? k = none := rfl

omit [DecidableEq κ] in
@[simp] theorem keys_empty : (empty : Dict κ ν).keys = [] := rfl

theorem get?_set {d : Dict κ ν} {k j : κ} {v : ν} :
    (d.set k v).get? j = if k = j then some v else d.get? j := lookupL_setL

@[simp] theorem get?_set_self {d : Dict κ ν} {k : κ} {v : ν} : (d.set k v).get? k = some v := by
  simp [get?_set]

theorem get?_filterKeys {d : Dict κ ν} {q : κ → Bool} {j : κ} :
    (d.filterKeys q).get? j = if q j then d.get? j else none := by
  by_cases hq : q j
  · rw [if_pos hq]
    ext v
    rw [← mem_entries, ← mem_entries, filterKeys, List.mem_filter]
    simp [hq]
  · rw [if_neg hq, get?_eq_none, keys, filterKeys]
    simp [hq]

theorem get?_erase {d : Dict κ ν} {k j : κ} :
    (d.erase k).get? j = if k = j then none else d.get? j := by
  unfold erase
  rw [get?_filterKeys]
  by_cases h : k = j
  · simp [h]
  · simp [h, Ne.symm h]

theorem mem_keys_set {d : Dict κ ν} {k j : κ} {v : ν} :
    j ∈ (d.set k v).keys ↔ k = j ∨ j ∈ d.keys := by
  rw [mem_keys, mem_keys, get?_set]
  by_cases h : k = j <;> simp [h]

theorem get?_setdefault {d : Dict κ ν} {k j : κ} {v : ν} :
    (d.setdefault k v).get? j = if k = j then some ((d.get? k).getD v) else d.get? j := by
  unfold setdefault contains
  by_cases hk : (d.get? k).isSome
  · rw [if_pos hk]
    obtain ⟨w, hw⟩ := Option.isSome_iff_exists.mp hk
    by_cases h : k = j
    · subst h
      simp [hw]
    · simp [h]
  · rw [if_neg hk, get?_set]
    simp [Option.not_isSome_iff_eq_none.mp hk]

theorem mem_keys_setdefault {d : Dict κ ν} {k j : κ} {v : ν} :
    j ∈ (d.setdefault k v).keys ↔ k = j ∨ j ∈ d.keys := by
  rw [mem_keys, mem_keys, get?_setdefault]
  by_cases h : k = j <;> simp [h]

theorem mem_keys_eraseAll {d : Dict κ ν} {ks : List κ} {j : κ} :
    j ∈ (d.eraseAll ks).keys ↔ j ∈ d.keys ∧ j ∉ ks := by
  rw [mem_keys, mem_keys, eraseAll, get?_filterKeys]
  by_cases h : j ∈ ks <;> simp [h]

/-- Writing a value for each entry of `l` in turn: an entry of `l` wins over the dictionary. -/
theorem get?_foldl_set {α : Type} (g : κ → α → ν) {k : κ} :
    ∀ {l : List (κ × α)} {d : Dict κ ν}, (l.map Prod.fst).Nodup →
      (l.foldl (fun d ka => d.set ka.1 (g ka.1 ka.2)) d).get? k =
        ((lookupL l k).map (g k)).or (d.get? k)
  | [], d, _ => by simp [lookupL]
  | (j, a) :: l, d, hn => by
    obtain ⟨hj, hn⟩ := List.nodup_cons.mp hn
    rw [List.foldl_cons, get?_foldl_set g hn, get?_set]
    by_cases h : j = k
    · subst h
      have hnone : lookupL l j = none := lookupL_eq_none.mpr hj
      simp [lookupL, hnone]
    · simp [lookupL, h]

/-- The lookups determine the entries up to their order. -/
theorem perm_of_get?_eq {d e : Dict κ ν} (h : ∀ k, d.get? k = e.get? k) :
    d.entries.Perm e.entries := by
  refine (List.perm_ext_iff_of_nodup d.nodup.of_map e.nodup.of_map).mpr ?_
  rintro ⟨k, v⟩
  rw [mem_entries, mem_entries, h]

end Dict

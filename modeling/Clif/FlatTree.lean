import Mathlib.Data.List.GetD
import Mathlib.Data.List.Perm.Basic
import Mathlib.Data.List.Range

/-!
# FlatTree — a binary tree kept in one array

A tree over `n` leaves is an array of `2 n - 1` cells: the inner cells are `0 … n - 2`, the leaves
are `n - 1 … 2 n - 2`, and an inner cell `i` holds `op` of its children `2 i + 1` and `2 i + 2`.

* `build` fills the inner cells from the last to the first; `shaped_build` says the result is a
  tree.
* `climb` folds a list of siblings into a value, as a verifier does that knows no positions.
  `climb_path`: with the siblings of a cell it ends at the root.  `climb_leaf`: when `op` does not
  collide on the pairs combined, a climb that ends in the tree started at a leaf.
* `below` lists the leaves under a cell; under the root every leaf stands exactly once
  (`below_root`).
-/

namespace FlatTree

variable {α : Type*}

/-! ## Building -/

section Build

variable (op : α → α → α) (z : α)

def step (t : List α) (i : ℕ) : List α :=
  t.set i (op (t.getD (2 * i + 1) z) (t.getD (2 * i + 2) z))

/-- The array before the first step: `z` in the inner cells, then the leaves. -/
def start (leaves : List α) : List α := List.replicate (leaves.length - 1) z ++ leaves

def build (leaves : List α) : List α :=
  (List.range (leaves.length - 1)).reverse.foldl (step op z) (start z leaves)

end Build

/-- The cells from `k` on are as they should be; at `k = 0` the array is a tree over `leaves`. -/
structure Shaped (op : α → α → α) (z : α) (leaves : List α) (k : ℕ) (t : List α) : Prop where
  length_eq : t.length = 2 * leaves.length - 1
  leaves_eq : t.drop (leaves.length - 1) = leaves
  node_eq : ∀ i, k ≤ i → i < leaves.length - 1 →
    t.getD i z = op (t.getD (2 * i + 1) z) (t.getD (2 * i + 2) z)

variable {op : α → α → α} {z : α} {leaves t : List α}

theorem shaped_start (h : leaves ≠ []) :
    Shaped op z leaves (leaves.length - 1) (start z leaves) := by
  have hn := List.length_pos_iff.mpr h
  refine ⟨?_, ?_, fun i hk hi => by omega⟩
  · simp only [start, List.length_append, List.length_replicate]
    omega
  · simp [start]

theorem getD_set_ne (t : List α) (v : α) {i j : ℕ} (h : i ≠ j) :
    (t.set i v).getD j z = t.getD j z := by
  simp [List.getD_eq_getElem?_getD, List.getElem?_set_ne h]

theorem getD_set_self (t : List α) (v : α) {i : ℕ} (h : i < t.length) :
    (t.set i v).getD i z = v := by
  simp [List.getD_eq_getElem?_getD, h]

/-- A step writes its own cell; the children of the cells from `i` on stand behind it. -/
theorem Shaped.step {k : ℕ} (h : Shaped op z leaves (k + 1) t) (hk : k < leaves.length - 1) :
    Shaped op z leaves k (FlatTree.step op z t k) := by
  have hlen := h.length_eq
  refine ⟨by simpa [FlatTree.step] using hlen, ?_, fun i hki hi => ?_⟩
  · rw [FlatTree.step, List.drop_set_of_lt hk]
    exact h.leaves_eq
  · have hl := getD_set_ne (z := z) t (op (t.getD (2 * k + 1) z) (t.getD (2 * k + 2) z))
      (show k ≠ 2 * i + 1 by omega)
    have hr := getD_set_ne (z := z) t (op (t.getD (2 * k + 1) z) (t.getD (2 * k + 2) z))
      (show k ≠ 2 * i + 2 by omega)
    simp only [FlatTree.step, hl, hr]
    by_cases hik : i = k
    · subst hik
      exact getD_set_self t _ (by omega)
    · rw [getD_set_ne t _ (fun hc => hik hc.symm)]
      exact h.node_eq i (by omega) hi

theorem Shaped.foldl : ∀ (k : ℕ) {t : List α}, k ≤ leaves.length - 1 → Shaped op z leaves k t →
    Shaped op z leaves 0 ((List.range k).reverse.foldl (FlatTree.step op z) t)
  | 0, _, _, h => h
  | k + 1, _, hk, h => by
    simp only [List.range_succ, List.reverse_append, List.reverse_singleton, List.singleton_append,
      List.foldl_cons]
    exact Shaped.foldl k (by omega) (h.step hk)

theorem shaped_build (h : leaves ≠ []) : Shaped op z leaves 0 (build op z leaves) :=
  (shaped_start h).foldl _ le_rfl

theorem Shaped.leaf_mem {k i : ℕ} (h : Shaped op z leaves k t) (hi : leaves.length - 1 ≤ i)
    (hlt : i < t.length) : t.getD i z ∈ leaves := by
  have hmem : t[i] ∈ t.drop (leaves.length - 1) := by
    rw [List.mem_drop_iff_getElem]
    exact ⟨i - (leaves.length - 1), by omega, by congr 1; omega⟩
  rw [List.getD_eq_getElem t z hlt]
  rwa [h.leaves_eq] at hmem

/-- Every leaf has a cell. -/
theorem Shaped.exists_cell {k : ℕ} {v : α} (h : Shaped op z leaves k t) (hv : v ∈ leaves) :
    ∃ i, leaves.length - 1 ≤ i ∧ i < t.length ∧ t.getD i z = v := by
  rw [← h.leaves_eq, List.mem_drop_iff_getElem] at hv
  obtain ⟨j, hj, rfl⟩ := hv
  exact ⟨leaves.length - 1 + j, by omega, by omega, List.getD_eq_getElem t z (by omega)⟩

/-! ## Climbing -/

/-- A verifier's fold: it does not know on which side a sibling stands. -/
def climb (op : α → α → α) (h : α) (proof : List α) : α := proof.foldl (fun h p => op p h) h

@[simp] theorem climb_nil (h : α) : climb op h [] = h := rfl

@[simp] theorem climb_cons (h p : α) (proof : List α) :
    climb op h (p :: proof) = climb op (op p h) proof := rfl

theorem climb_concat (h p : α) (proof : List α) :
    climb op h (proof ++ [p]) = op p (climb op h proof) := by
  simp [climb]

def sibling (i : ℕ) : ℕ := if i % 2 = 1 then i + 1 else i - 1

/-- The cells of the siblings met on the way from a cell to the root. -/
def path : ℕ → List ℕ
  | 0 => []
  | i + 1 => sibling (i + 1) :: path (i / 2)

@[simp] theorem path_zero : path 0 = [] := by simp [path]

theorem path_succ (i : ℕ) : path (i + 1) = sibling (i + 1) :: path (i / 2) := by
  rw [path]

theorem Shaped.path_lt (h : Shaped op z leaves 0 t) {i : ℕ} (hi : i < t.length) :
    ∀ j ∈ path i, j < t.length := by
  have hlen := h.length_eq
  induction i using path.induct with
  | case1 => simp
  | case2 i ih =>
    intro j hj
    rw [path_succ, List.mem_cons] at hj
    rcases hj with rfl | hj
    · unfold sibling
      split_ifs <;> omega
    · exact ih (by omega) j hj

/-- The siblings of a cell lead to the root, on whichever side they stand. -/
theorem climb_path (h : Shaped op z leaves 0 t) (hop : ∀ a b, op a b = op b a) {i : ℕ}
    (hi : i < t.length) :
    climb op (t.getD i z) ((path i).map fun j => t.getD j z) = t.getD 0 z := by
  induction i using path.induct with
  | case1 => simp
  | case2 i ih =>
    have hlen := h.length_eq
    have hnode := h.node_eq (i / 2) (Nat.zero_le _) (by omega)
    have hup : op (t.getD (sibling (i + 1)) z) (t.getD (i + 1) z) = t.getD (i / 2) z := by
      rw [hnode]
      by_cases hodd : (i + 1) % 2 = 1
      · have hs : sibling (i + 1) = 2 * (i / 2) + 2 := by simp only [sibling, if_pos hodd]; omega
        rw [hs, show i + 1 = 2 * (i / 2) + 1 by omega, hop]
      · have hs : sibling (i + 1) = 2 * (i / 2) + 1 := by simp only [sibling, if_neg hodd]; omega
        rw [hs, show i + 1 = 2 * (i / 2) + 2 by omega]
    rw [path_succ, List.map_cons, climb_cons, hup]
    exact ih (by omega)

/-- The pairs a climb combines. -/
inductive Climbed (op : α → α → α) (h : α) (proof : List α) : α → α → Prop
  | intro {ps qs : List α} {p : α} (hp : proof = ps ++ p :: qs) :
    Climbed op h proof p (climb op h ps)

/-- The pairs a tree combines. -/
inductive Combined (z : α) (leaves t : List α) : α → α → Prop
  | intro {i : ℕ} (hi : i < leaves.length - 1) :
    Combined z leaves t (t.getD (2 * i + 1) z) (t.getD (2 * i + 2) z)

/-- `op` does not collide, up to the sides, on the pairs of `U`. -/
def InjOn (op : α → α → α) (U : α → α → Prop) : Prop :=
  ∀ ⦃a b c d⦄, U a b → U c d → op a b = op c d → (a = c ∧ b = d) ∨ (a = d ∧ b = c)

/-- The values of `L` are not made by `op` from a pair of `U`. -/
def Apart (op : α → α → α) (U : α → α → Prop) (L : α → Prop) : Prop :=
  ∀ ⦃a b c⦄, U a b → L c → op a b ≠ c

/-- A climb from a leaf value that ends in a cell of the tree started at a leaf of the tree.

By induction on the proof from its last sibling: the last step lands in an inner cell, since a leaf
is no `op`, and what it combined is what the cell combined. -/
theorem climb_leaf (h : Shaped op z leaves 0 t) {U : α → α → Prop} {L : α → Prop}
    (hinj : InjOn op U) (hapart : Apart op U L) (htree : ∀ a b, Combined z leaves t a b → U a b)
    (hleaves : ∀ v ∈ leaves, L v) {v : α} (hv : L v) :
    ∀ (proof : List α), (∀ a b, Climbed op v proof a b → U a b) → ∀ i < t.length,
      climb op v proof = t.getD i z → v ∈ leaves := by
  have hlen := h.length_eq
  intro proof
  induction proof using List.reverseRecOn with
  | nil =>
    intro _ i hi heq
    rw [climb_nil] at heq
    by_cases hin : i < leaves.length - 1
    · -- an inner cell is no leaf value
      have hU := htree _ _ (.intro hin)
      exact absurd ((h.node_eq i (Nat.zero_le _) hin).symm.trans heq.symm) (hapart hU hv)
    · rw [heq]
      exact h.leaf_mem (by omega) hi
  | append_singleton ps p ih =>
    intro hU i hi heq
    have hlast : U p (climb op v ps) := hU _ _ (.intro rfl)
    have hrest : ∀ a b, Climbed op v ps a b → U a b := by
      rintro _ _ ⟨hp⟩
      exact hU _ _ (.intro (by rw [hp, List.append_assoc, List.cons_append]))
    rw [climb_concat] at heq
    by_cases hin : i < leaves.length - 1
    · rw [h.node_eq i (Nat.zero_le _) hin] at heq
      rcases hinj hlast (htree _ _ (.intro hin)) heq with ⟨-, hr⟩ | ⟨-, hl⟩
      · exact ih hrest (2 * i + 2) (by omega) hr
      · exact ih hrest (2 * i + 1) (by omega) hl
    · exact absurd heq (hapart hlast (hleaves _ (h.leaf_mem (by omega) hi)))

/-! ## What a tree covers -/

/-- The leaf cells under a cell of a tree over `n` leaves, from left to right. -/
def below (n i : ℕ) : List ℕ :=
  if i < n - 1 then below n (2 * i + 1) ++ below n (2 * i + 2) else [i]
termination_by n - 1 - i

theorem below_inner {n i : ℕ} (h : i < n - 1) :
    below n i = below n (2 * i + 1) ++ below n (2 * i + 2) := by
  rw [below, if_pos h]

theorem below_leaf {n i : ℕ} (h : n - 1 ≤ i) : below n i = [i] := by
  rw [below, if_neg (by omega)]

/-- The cells `m … 2 m` cut the tree: opening its first cell appends its two children. -/
theorem below_cut {n : ℕ} : ∀ m, m ≤ n - 1 →
    ((List.range' m (m + 1)).flatMap (below n)).Perm (below n 0)
  | 0, _ => by simp
  | m + 1, hm => by
    refine List.Perm.trans ?_ (below_cut m (by omega))
    have hopen : List.range' (m + 1) (m + 2) = List.range' (m + 1) m ++ [2 * m + 1, 2 * m + 2] := by
      rw [List.range'_concat, List.range'_concat, List.append_assoc]
      congr 1
      simp only [List.singleton_append, List.cons.injEq, and_true]
      omega
    have hfirst : (List.range' m (m + 1)).flatMap (below n) =
        (below n (2 * m + 1) ++ below n (2 * m + 2)) ++
          (List.range' (m + 1) m).flatMap (below n) := by
      rw [List.range'_succ, List.flatMap_cons, below_inner (by omega)]
    have hlast : [2 * m + 1, 2 * m + 2].flatMap (below n) =
        below n (2 * m + 1) ++ below n (2 * m + 2) := by simp
    rw [hopen, hfirst, List.flatMap_append, hlast]
    exact List.perm_append_comm

/-- Under the root every leaf cell stands exactly once. -/
theorem below_root {n : ℕ} (hn : 0 < n) : (below n 0).Perm (List.range' (n - 1) n) := by
  have hcut := (below_cut (n := n) (n - 1) le_rfl).symm
  rw [show n - 1 + 1 = n by omega] at hcut
  have hall : ∀ i ∈ List.range' (n - 1) n, below n i = [i] := fun i hi => by
    rw [List.mem_range'_1] at hi
    exact below_leaf hi.1
  have hflat : (List.range' (n - 1) n).flatMap (below n) = List.range' (n - 1) n := by
    rw [List.flatMap_congr hall]
    simp
  rwa [hflat] at hcut

theorem Shaped.map_leaves {k : ℕ} (h : Shaped op z leaves k t) :
    (List.range' (leaves.length - 1) leaves.length).map (fun i => t.getD i z) = leaves := by
  have hlen := h.length_eq
  refine List.ext_getElem (by simp) fun i hi hi' => ?_
  have hcell : (leaves.length - 1) + i < t.length := by omega
  have hget : leaves[i] = t[(leaves.length - 1) + i] := by
    have h1 : (t.drop (leaves.length - 1))[i]? = leaves[i]? := by rw [h.leaves_eq]
    rw [List.getElem?_drop, List.getElem?_eq_getElem hcell, List.getElem?_eq_getElem hi'] at h1
    exact (Option.some.inj h1).symm
  simp only [List.getElem_map, List.getElem_range', Nat.one_mul, hget]
  exact List.getD_eq_getElem t z hcell

/-- The array covers every leaf exactly once. -/
theorem Shaped.covers (h : Shaped op z leaves 0 t) (hne : leaves ≠ []) :
    ((below leaves.length 0).map fun i => t.getD i z).Perm leaves := by
  have hperm := (below_root (List.length_pos_iff.mpr hne)).map fun i => t.getD i z
  rwa [h.map_leaves] at hperm

end FlatTree

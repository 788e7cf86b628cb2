import Mathlib.Data.List.Sort
import Clif.FlatTree
import Clif.Hex
import Clif.Merkle

/-!
# MerkleHash — the functions of `merkle.py` on the hashes their texts stand for

`node` on texts of hashes is one total commutative operation on hashes (`nodeHash`), the builder's
array is `FlatTree.build` of it (`buildTree_map`), and `verifyProof` compares the end of
`FlatTree.climb` with the root (`verifyProof_isHash`).
-/

namespace Clif

/-! ## The claim tuple and its encoding -/

/-- What a leaf commits to, every field in the range of its ABI type. -/
structure ClaimTuple where
  rewardEpochId : Int
  beneficiary : Bytes
  amount : Int
  claimType : Int
  rewardEpochId_ok : 0 ≤ rewardEpochId ∧ rewardEpochId < 2 ^ 24
  beneficiary_ok : beneficiary.length = 20
  amount_ok : 0 ≤ amount ∧ amount < 2 ^ 120
  claimType_ok : 0 ≤ claimType ∧ claimType < 2 ^ 8

def ClaimTuple.value (t : ClaimTuple) : AbiValue :=
  .list [.int t.rewardEpochId, .bytes t.beneficiary, .int t.amount, .int t.claimType]

def leafTypes : List AbiType := [.tuple [.uint 24, .bytesN 20, .uint 120, .uint 8]]

def pairTypes : List AbiType := [.bytesN 32, .bytesN 32]

/-- The four arguments of `compute_leaf` stand for the tuple. -/
structure ReadsAs (rewardEpochId : Int) (beneficiary : String) (amount claimType : Int)
    (t : ClaimTuple) : Prop where
  rewardEpochId_eq : t.rewardEpochId = rewardEpochId
  beneficiary_eq :
    Py.fromHex (Py.removePrefix (Py.lower beneficiary) "0x") = some t.beneficiary
  amount_eq : t.amount = amount
  claimType_eq : t.claimType = claimType

/-- A claim body with fields in range, and the tuple it stands for. -/
def RewardClaimBodyDict.Reads (c : RewardClaimBodyDict) (t : ClaimTuple) : Prop :=
  ∃ amount, Py.int? c.amount = some amount ∧
    ReadsAs c.rewardEpochId c.beneficiary amount c.claimType t

def InRange (claims : List RewardClaimBodyDict) : Prop := ∀ c ∈ claims, ∃ t, c.Reads t

/-! ## Hashes and their texts -/

/-- The encoding of a sorted pair of hashes. -/
def pairBytes (a b : Bytes) : Bytes := if hashHex a ≤ hashHex b then a ++ b else b ++ a

def nodeHash (a b : Bytes) : Bytes := keccak256 (pairBytes a b)

theorem nodeHash_comm (a b : Bytes) : nodeHash a b = nodeHash b a := by
  unfold nodeHash pairBytes
  by_cases hab : hashHex a ≤ hashHex b
  · by_cases hba : hashHex b ≤ hashHex a
    · rw [hashHex_inj (le_antisymm hab hba)]
    · rw [if_pos hab, if_neg hba]
  · rw [if_neg hab, if_pos ((le_total _ _).resolve_left hab)]

theorem length_pairBytes {a b : Bytes} (ha : a.length = 32) (hb : b.length = 32) :
    (pairBytes a b).length = 64 := by
  unfold pairBytes
  split_ifs <;> simp [ha, hb]

/-- The encoding of a pair determines the pair, up to its order. -/
theorem pairBytes_inj {a b c d : Bytes} (ha : a.length = 32) (hb : b.length = 32)
    (hc : c.length = 32) (hd : d.length = 32) (heq : pairBytes a b = pairBytes c d) :
    (a = c ∧ b = d) ∨ (a = d ∧ b = c) := by
  unfold pairBytes at heq
  split_ifs at heq
  · exact .inl (List.append_inj heq (by rw [ha, hc]))
  · exact .inr (List.append_inj heq (by rw [ha, hd]))
  · obtain ⟨hbc, had⟩ := List.append_inj heq (by rw [hb, hc])
    exact .inr ⟨had, hbc⟩
  · obtain ⟨hbd, hac⟩ := List.append_inj heq (by rw [hb, hd])
    exact .inl ⟨hac, hbd⟩

/-- The hash a text stands for. -/
def digestOf (x : String) : Bytes := (Py.fromHex (Py.sliceFrom x 2)).getD []

theorem IsHash.digestOf_eq {x : String} {b : Bytes} (hx : IsHash x b) : digestOf x = b := by
  rw [digestOf, hx.fromHex_slice]
  rfl

/-- The placeholder of the cells not filled yet. -/
def zeroHash : Bytes := List.replicate 32 0

theorem zeroBytes32_eq : zeroBytes32 = hashHex zeroHash := by decide

/-- The hashes of an array of texts. -/
def AllHashes (t : List Bytes) : Prop := ∀ b ∈ t, b.length = 32

theorem AllHashes.getD {t : List Bytes} (ht : AllHashes t) (i : Nat) :
    (t.getD i zeroHash).length = 32 := by
  by_cases hi : i < t.length
  · rw [List.getD_eq_getElem t zeroHash hi]
    exact ht _ (List.getElem_mem hi)
  · rw [List.getD_eq_default _ _ (by omega)]
    rfl

theorem getD_map_hashHex {t : List Bytes} {i : Nat} (hi : i < t.length) :
    (t.map hashHex).getD i "" = hashHex (t.getD i zeroHash) := by
  simp [List.getD_eq_getElem?_getD, hi]

theorem allHashes_step {t : List Bytes} (ht : AllHashes t) (i : Nat) :
    AllHashes (FlatTree.step nodeHash zeroHash t i) := by
  intro b hb
  rcases List.mem_or_eq_of_mem_set hb with hmem | rfl
  · exact ht b hmem
  · exact length_keccak256 _

/-! ## Sorted leaves without repetitions -/

theorem mem_sortedUnique {leaves : List String} {x : String} :
    x ∈ sortedUnique leaves ↔ x ∈ leaves := by
  simp [sortedUnique]

theorem nodup_sortedUnique (leaves : List String) : (sortedUnique leaves).Nodup :=
  (List.mergeSort_perm _ _).nodup_iff.mpr (List.nodup_dedup leaves)

theorem sortedUnique_sorted (leaves : List String) :
    (sortedUnique leaves).Pairwise (· ≤ ·) := by
  have hsort := @List.pairwise_mergeSort _ (fun a b : String => decide (a ≤ b))
    (fun a b c hab hbc => by simp only [decide_eq_true_eq] at *; exact le_trans hab hbc)
    (fun a b => by simpa using le_total a b) leaves.dedup
  simpa only [sortedUnique, decide_eq_true_eq] using hsort

/-- The sorted array is a function of the set of leaves. -/
theorem sortedUnique_congr {leaves leaves' : List String} (h : ∀ x, x ∈ leaves' ↔ x ∈ leaves) :
    sortedUnique leaves' = sortedUnique leaves := by
  have hperm : (sortedUnique leaves').Perm (sortedUnique leaves) :=
    (List.perm_ext_iff_of_nodup (nodup_sortedUnique _) (nodup_sortedUnique _)).mpr fun x => by
      rw [mem_sortedUnique, mem_sortedUnique, h]
  exact hperm.eq_of_pairwise (fun _ _ _ _ hab hba => le_antisymm hab hba)
    (sortedUnique_sorted _) (sortedUnique_sorted _)

theorem exists_hashes : ∀ {xs : List String}, (∀ x ∈ xs, ∃ b, b.length = 32 ∧ x = hashHex b) →
    ∃ bs, AllHashes bs ∧ xs = bs.map hashHex
  | [], _ => ⟨[], by simp [AllHashes], rfl⟩
  | x :: xs, hx => by
    obtain ⟨b, hb, rfl⟩ := hx x (List.mem_cons_self ..)
    obtain ⟨bs, hbs, rfl⟩ := exists_hashes fun y hy => hx y (List.mem_cons_of_mem _ hy)
    refine ⟨b :: bs, fun c hc => ?_, rfl⟩
    rcases List.mem_cons.mp hc with rfl | hc
    · exact hb
    · exact hbs c hc

theorem IsHash.hexTail {x : String} {b : Bytes} (hx : IsHash x b) : hexTail x = .ok b := by
  rw [Clif.hexTail, hx.fromHex_slice]

/-- Texts that lower to texts of hashes are texts of these hashes. -/
theorem map_digestOf_of_lower {siblings : List String} {bs : List Bytes} (hbs : AllHashes bs)
    (heq : siblings.map Py.lower = (bs.map hashHex).map Py.lower) :
    (∀ p ∈ siblings, ∃ s, IsHash p s) ∧ siblings.map digestOf = bs := by
  induction siblings generalizing bs with
  | nil =>
    have hnil : bs = [] := by simpa using heq.symm
    exact ⟨by simp, hnil.symm⟩
  | cons p siblings ih =>
    cases bs with
    | nil => simp at heq
    | cons b bs =>
      simp only [List.map_cons, List.cons.injEq] at heq
      have hp : IsHash p b := ⟨hbs b (List.mem_cons_self ..), by rw [heq.1, lower_hashHex]⟩
      obtain ⟨hall, hmap⟩ := ih (fun c hc => hbs c (List.mem_cons_of_mem _ hc)) heq.2
      refine ⟨fun q hq => ?_, by rw [List.map_cons, hp.digestOf_eq, hmap]⟩
      rcases List.mem_cons.mp hq with rfl | hq
      · exact ⟨b, hp⟩
      · exact hall q hq

variable [External]

/-! ## Leaves -/

/-- The ABI encoding of the two shapes `merkle.py` encodes: four words that determine the tuple, and
two hashes one after the other. -/
structure LawfulAbi : Prop where
  leaf : ∀ t : ClaimTuple, ∃ b, abiEncode leafTypes [t.value] = .ok b ∧ b.length = 128
  leaf_inj : ∀ (t u : ClaimTuple), abiEncode leafTypes [t.value] = abiEncode leafTypes [u.value] →
    t = u
  pair : ∀ a b : Bytes, a.length = 32 → b.length = 32 →
    abiEncode pairTypes [.bytes a, .bytes b] = .ok (a ++ b)

/-- The bytes whose hash is the leaf. -/
def leafBytes (t : ClaimTuple) : Bytes :=
  match abiEncode leafTypes [t.value] with
  | .ok b => b
  | .error _ => []

def leafHash (t : ClaimTuple) : Bytes := keccak256 (leafBytes t)

theorem isHash_leaf (t : ClaimTuple) : IsHash (hashHex (leafHash t)) (leafHash t) :=
  isHash_hashHex (length_keccak256 _)

section Leaves

variable (h : LawfulAbi)
include h

theorem abiEncode_leaf (t : ClaimTuple) : abiEncode leafTypes [t.value] = .ok (leafBytes t) := by
  obtain ⟨b, hb, -⟩ := h.leaf t
  rw [leafBytes, hb]

theorem length_leafBytes (t : ClaimTuple) : (leafBytes t).length = 128 := by
  obtain ⟨b, hb, hlen⟩ := h.leaf t
  rw [leafBytes, hb]
  exact hlen

theorem leafBytes_inj {t u : ClaimTuple} (heq : leafBytes t = leafBytes u) : t = u :=
  h.leaf_inj t u (by rw [abiEncode_leaf h, abiEncode_leaf h, heq])

theorem computeLeaf_reads {rewardEpochId : Int} {beneficiary : String} {amount claimType : Int}
    {t : ClaimTuple} (ht : ReadsAs rewardEpochId beneficiary amount claimType t) :
    computeLeaf rewardEpochId beneficiary amount claimType = .ok (hashHex (leafHash t)) := by
  have henc := abiEncode_leaf h t
  simp only [leafTypes, ClaimTuple.value, ht.rewardEpochId_eq, ht.amount_eq, ht.claimType_eq] at henc
  simp only [computeLeaf, ht.beneficiary_eq, t.beneficiary_ok, ne_eq, not_true_eq_false, if_false,
    henc]
  rfl

theorem leafFromClaim_reads {c : RewardClaimBodyDict} {t : ClaimTuple} (ht : c.Reads t) :
    leafFromClaim c = .ok (hashHex (leafHash t)) := by
  obtain ⟨amount, hamount, hread⟩ := ht
  simp only [leafFromClaim, hamount]
  exact computeLeaf_reads h hread

/-- The leaves of claims in range, each with a tuple behind it. -/
theorem leavesOf_inRange : ∀ {claims : List RewardClaimBodyDict}, InRange claims →
    ∃ ts : List ClaimTuple, leavesOf claims = .ok (ts.map fun t => hashHex (leafHash t)) ∧
      (∀ c ∈ claims, ∃ t ∈ ts, c.Reads t) ∧ ∀ t ∈ ts, ∃ c ∈ claims, c.Reads t
  | [], _ => ⟨[], rfl, by simp, by simp⟩
  | c :: claims, hin => by
    obtain ⟨t, ht⟩ := hin c (List.mem_cons_self ..)
    obtain ⟨ts, hleaves, hto, hof⟩ :=
      leavesOf_inRange fun c' hc' => hin c' (List.mem_cons_of_mem _ hc')
    refine ⟨t :: ts, ?_, fun c' hc' => ?_, fun u hu => ?_⟩
    · rw [leavesOf, leafFromClaim_reads h ht, hleaves]
      rfl
    · rcases List.mem_cons.mp hc' with rfl | hc'
      · exact ⟨t, List.mem_cons_self .., ht⟩
      · obtain ⟨u, hu, hread⟩ := hto c' hc'
        exact ⟨u, List.mem_cons_of_mem _ hu, hread⟩
    · rcases List.mem_cons.mp hu with rfl | hu
      · exact ⟨c, List.mem_cons_self .., ht⟩
      · obtain ⟨c', hc', hread⟩ := hof u hu
        exact ⟨c', List.mem_cons_of_mem _ hc', hread⟩

end Leaves

/-! ## Nodes -/

/-- The bytes a node is the hash of: the encoding of the sorted pair. -/
def nodePreimage (x y : String) : Except Exc Bytes := do
  let p := if Py.lower x ≤ Py.lower y then (x, y) else (y, x)
  let a ← hexTail p.1
  let b ← hexTail p.2
  abiEncode pairTypes [.bytes a, .bytes b]

theorem node_eq (x y : String) :
    node x y = (nodePreimage x y).map fun b => hashHex (keccak256 b) := by
  unfold node nodePreimage
  simp only [bind, Except.bind]
  cases hexTail (if Py.lower x ≤ Py.lower y then (x, y) else (y, x)).1 with
  | error e => rfl
  | ok a =>
    cases hexTail (if Py.lower x ≤ Py.lower y then (x, y) else (y, x)).2 with
    | error e => rfl
    | ok b =>
      simp only [pairTypes]
      cases abiEncode [.bytesN 32, .bytesN 32] [.bytes a, .bytes b] <;> rfl

/-- The pair is sorted before it is encoded, so the order of the arguments does not matter: also for
texts that are no hashes, and for two texts of one hash in different letter case. -/
theorem nodePreimage_comm (x y : String) : nodePreimage x y = nodePreimage y x := by
  by_cases heq : Py.lower x = Py.lower y
  · -- nothing is swapped, but the two texts read alike
    have hxy : Py.lower x ≤ Py.lower y := le_of_eq heq
    have hyx : Py.lower y ≤ Py.lower x := le_of_eq heq.symm
    simp only [nodePreimage, if_pos hxy, if_pos hyx, hexTail]
    cases ha : Py.fromHex (Py.sliceFrom x 2) with
    | none => cases hb : Py.fromHex (Py.sliceFrom y 2) <;> rfl
    | some a =>
      cases hb : Py.fromHex (Py.sliceFrom y 2) with
      | none => rfl
      | some b =>
        rw [Py.fromHex_slice_unique heq ha hb]
  · by_cases hxy : Py.lower x ≤ Py.lower y
    · have hyx : ¬Py.lower y ≤ Py.lower x := fun hyx => heq (le_antisymm hxy hyx)
      simp only [nodePreimage, if_pos hxy, if_neg hyx]
    · have hyx : Py.lower y ≤ Py.lower x := (le_total _ _).resolve_left hxy
      simp only [nodePreimage, if_neg hxy, if_pos hyx]

theorem node_comm (x y : String) : node x y = node y x := by
  rw [node_eq, node_eq, nodePreimage_comm]

section Nodes

variable (h : LawfulAbi)
include h

theorem nodePreimage_isHash {x y : String} {a b : Bytes} (hx : IsHash x a) (hy : IsHash y b) :
    nodePreimage x y = .ok (pairBytes a b) := by
  unfold nodePreimage pairBytes
  rw [hx.lower_eq, hy.lower_eq]
  by_cases hab : hashHex a ≤ hashHex b
  · simp only [if_pos hab, hx.hexTail, hy.hexTail]
    exact h.pair a b hx.length_eq hy.length_eq
  · simp only [if_neg hab, hx.hexTail, hy.hexTail]
    exact h.pair b a hy.length_eq hx.length_eq

theorem node_isHash {x y : String} {a b : Bytes} (hx : IsHash x a) (hy : IsHash y b) :
    node x y = .ok (hashHex (nodeHash a b)) := by
  rw [node_eq, nodePreimage_isHash h hx hy]
  rfl

/-- The verifier's loop is the climb of the library. -/
theorem foldlM_node : ∀ {proof : List String} {x : String} {a : Bytes}, IsHash x a →
    (∀ p ∈ proof, ∃ s, IsHash p s) →
    ∃ y, proof.foldlM (fun h p => node p h) x = .ok y ∧
      IsHash y (FlatTree.climb nodeHash a (proof.map digestOf))
  | [], x, _, hx, _ => ⟨x, rfl, hx⟩
  | p :: proof, x, a, hx, hp => by
    obtain ⟨s, hs⟩ := hp p (List.mem_cons_self ..)
    have hnode := node_isHash h hs hx
    obtain ⟨y, hy, hclimb⟩ := foldlM_node
      (isHash_hashHex (length_keccak256 (pairBytes s a)))
      (fun q hq => hp q (List.mem_cons_of_mem _ hq))
    refine ⟨y, ?_, ?_⟩
    · rw [List.foldlM_cons, hnode]
      exact hy
    · rw [List.map_cons, hs.digestOf_eq]
      exact hclimb

/-- `verify_proof` compares the end of the climb with the root, whatever their letter case. -/
theorem verifyProof_isHash {leaf root : String} {proof : List String} {a r : Bytes}
    (hleaf : IsHash leaf a) (hproof : ∀ p ∈ proof, ∃ s, IsHash p s) (hroot : IsHash root r) :
    verifyProof leaf proof root =
      .ok (FlatTree.climb nodeHash a (proof.map digestOf) == r) := by
  obtain ⟨y, hy, hclimb⟩ := foldlM_node h hleaf hproof
  unfold verifyProof
  rw [hy]
  simp only [bind, Except.bind, pure, Except.pure, hclimb.lower_eq, hroot.lower_eq, Except.ok.injEq]
  by_cases heq : FlatTree.climb nodeHash a (proof.map digestOf) = r
  · simp [heq]
  · have hne : hashHex (FlatTree.climb nodeHash a (proof.map digestOf)) ≠ hashHex r :=
      fun hc => heq (hashHex_inj hc)
    rw [beq_eq_false_iff_ne.mpr hne, beq_eq_false_iff_ne.mpr heq]

end Nodes

/-! ## The builder -/

section Build

variable (h : LawfulAbi)
include h

theorem treeStep_map {t : List Bytes} (ht : AllHashes t) {i : Nat} (hi : 2 * i + 2 < t.length) :
    treeStep (t.map hashHex) i = .ok ((FlatTree.step nodeHash zeroHash t i).map hashHex) := by
  have hl := isHash_hashHex (ht.getD (2 * i + 1))
  have hr := isHash_hashHex (ht.getD (2 * i + 2))
  unfold treeStep
  rw [getD_map_hashHex (by omega), getD_map_hashHex hi, node_isHash h hl hr]
  simp only [bind, Except.bind, pure, Except.pure, FlatTree.step, List.map_set]

theorem foldlM_treeStep : ∀ (m : Nat) {t : List Bytes}, AllHashes t → 2 * m < t.length →
    (List.range m).reverse.foldlM treeStep (t.map hashHex) =
      .ok (((List.range m).reverse.foldl (FlatTree.step nodeHash zeroHash) t).map hashHex) ∧
    AllHashes ((List.range m).reverse.foldl (FlatTree.step nodeHash zeroHash) t)
  | 0, _, ht, _ => ⟨rfl, ht⟩
  | m + 1, t, ht, hm => by
    have hstep := treeStep_map h ht (i := m) (by omega)
    have hlen : (FlatTree.step nodeHash zeroHash t m).length = t.length := by
      simp [FlatTree.step]
    obtain ⟨hrun, hall⟩ := foldlM_treeStep m (allHashes_step ht m) (by omega)
    rw [List.range_succ, List.reverse_append, List.reverse_singleton, List.singleton_append,
      List.foldlM_cons, List.foldl_cons, hstep]
    exact ⟨hrun, hall⟩

/-- The builder's array is the tree of the library. -/
theorem buildTree_map {leaves : List Bytes} (hl : AllHashes leaves) :
    buildTree (leaves.map hashHex) =
      .ok ((FlatTree.build nodeHash zeroHash leaves).map hashHex) ∧
    AllHashes (FlatTree.build nodeHash zeroHash leaves) := by
  have hstart : AllHashes (FlatTree.start zeroHash leaves) := fun b hb => by
    rcases List.mem_append.mp hb with hz | hb
    · rw [List.eq_of_mem_replicate hz]
      rfl
    · exact hl b hb
  by_cases hne : leaves = []
  · subst hne
    exact ⟨rfl, hstart⟩
  · have hpos := List.length_pos_iff.mpr hne
    have hlen : 2 * (leaves.length - 1) < (FlatTree.start zeroHash leaves).length := by
      rw [(@FlatTree.shaped_start _ nodeHash _ _ hne).length_eq]
      omega
    have hmap : List.replicate (leaves.length - 1) zeroBytes32 ++ leaves.map hashHex =
        (FlatTree.start zeroHash leaves).map hashHex := by
      rw [zeroBytes32_eq, FlatTree.start, List.map_append, List.map_replicate]
    unfold buildTree
    rw [List.length_map, hmap]
    exact foldlM_treeStep h _ hstart hlen

end Build

theorem buildRewardMerkleRoot_congr {claims claims' : List RewardClaimBodyDict}
    {leaves leaves' : List String} (hl : leavesOf claims = .ok leaves)
    (hl' : leavesOf claims' = .ok leaves') (h : ∀ x, x ∈ leaves' ↔ x ∈ leaves) :
    buildRewardMerkleRoot claims' = buildRewardMerkleRoot claims := by
  unfold buildRewardMerkleRoot
  rw [hl, hl']
  simp only [bind, Except.bind, sortedUnique_congr h]

theorem buildRewardMerkleRoot_eq {claims : List RewardClaimBodyDict} {leaves : List String}
    {tree : List String} (hl : leavesOf claims = .ok leaves) (hne : leaves ≠ [])
    (ht : buildTree (sortedUnique leaves) = .ok tree) :
    buildRewardMerkleRoot claims = .ok (tree.getD 0 "") := by
  unfold buildRewardMerkleRoot
  rw [hl]
  simp only [bind, Except.bind]
  cases hsu : sortedUnique leaves with
  | nil =>
    obtain ⟨x, hx⟩ := List.exists_mem_of_ne_nil _ hne
    rw [← mem_sortedUnique, hsu] at hx
    simp at hx
  | cons x xs =>
    cases xs with
    | nil =>
      rw [hsu] at ht
      have hone : [x] = tree := Except.ok.inj ht
      rw [← hone]
      rfl
    | cons y ys =>
      rw [hsu] at ht
      simp only [ht]
      rfl

end Clif

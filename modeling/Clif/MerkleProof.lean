import Clif.MerkleHash

/-!
# MerkleProof — what a proof against the reward root shows

* `merkle_complete`: the root is a function of the set of leaves, the array covers every leaf once,
  and the siblings of every listed claim verify it.
* `merkle_sound`: a claim that some list of siblings verifies is a listed one, as long as Keccak
  does not collide on the byte strings that were hashed.  Leaves are hashes of 128 bytes and nodes
  hashes of 64, which keeps a node from passing as a leaf.
-/

namespace Clif

variable [External]

/-! ## The encoding of whole words

The concrete encoding of `External.static` is as `LawfulAbi` asks. -/

section Words

open External

omit [External]

theorem length_word (n : Nat) : (word n).length = 32 := by simp [word]

theorem mod_pow_congr {n m b : Nat} : ∀ j, (∀ k < j, n / b ^ k % b = m / b ^ k % b) →
    n % b ^ j = m % b ^ j
  | 0, _ => by simp [Nat.mod_one]
  | j + 1, h => by
    rw [Nat.mod_pow_succ, Nat.mod_pow_succ, mod_pow_congr j fun k hk => h k (by omega),
      h j (by omega)]

theorem word_inj {n m : Nat} (hn : n < 256 ^ 32) (hm : m < 256 ^ 32) (h : word n = word m) :
    n = m := by
  have hbytes : ∀ k < 32, n / 256 ^ k % 256 = m / 256 ^ k % 256 := fun k hk => by
    have hat : (word n)[31 - k]? = (word m)[31 - k]? := by rw [h]
    have hlt : 31 - k < 32 := by omega
    simp only [word, List.getElem?_map, List.getElem?_range hlt, Option.map_some, Option.some.injEq,
      show 31 - (31 - k) = k by omega] at hat
    simpa using congrArg UInt8.toNat hat
  have hmod := mod_pow_congr 32 hbytes
  rwa [Nat.mod_eq_of_lt hn, Nat.mod_eq_of_lt hm] at hmod

theorem encode_leaf_static (t : ClaimTuple) :
    encodeStatics leafTypes [t.value] =
      .ok (word t.rewardEpochId.toNat ++ (t.beneficiary ++ List.replicate 12 0 ++
        (word t.amount.toNat ++ word t.claimType.toNat))) := by
  simp only [leafTypes, ClaimTuple.value, encodeStatics, encodeStatic, if_pos t.rewardEpochId_ok,
    if_pos t.amount_ok, if_pos t.claimType_ok, t.beneficiary_ok, Nat.le_refl, if_true,
    List.append_nil]

theorem word_toNat_inj {n m : Int} {j : Nat} (hj : j ≤ 120) (hn : 0 ≤ n ∧ n < 2 ^ j)
    (hm : 0 ≤ m ∧ m < 2 ^ j) (h : word n.toNat = word m.toNat) : n = m := by
  have hpow : (2 : Int) ^ j ≤ 2 ^ 120 := pow_le_pow_right₀ (by norm_num) hj
  have heq := word_inj (by omega) (by omega) h
  omega

theorem lawfulAbi_static : @LawfulAbi External.static := by
  refine @LawfulAbi.mk External.static (fun t => ⟨_, encode_leaf_static t, ?_⟩) (fun t u heq => ?_)
    fun a b ha hb => ?_
  · simp [length_word, t.beneficiary_ok]
  · have hall :=
      Except.ok.inj ((encode_leaf_static t).symm.trans (heq.trans (encode_leaf_static u)))
    obtain ⟨he, hall⟩ := List.append_inj hall (by rw [length_word, length_word])
    obtain ⟨hb, hall⟩ := List.append_inj hall (by simp [t.beneficiary_ok, u.beneficiary_ok])
    obtain ⟨ha, hc⟩ := List.append_inj hall (by rw [length_word, length_word])
    have hepoch := word_toNat_inj (by omega) t.rewardEpochId_ok u.rewardEpochId_ok he
    have hamount := word_toNat_inj (by omega) t.amount_ok u.amount_ok ha
    have htype := word_toNat_inj (by omega) t.claimType_ok u.claimType_ok hc
    have hbeneficiary := List.append_cancel_right hb
    cases t
    cases u
    simp only at hepoch hamount htype hbeneficiary
    subst hepoch hamount htype hbeneficiary
    rfl
  · show encodeStatics pairTypes [.bytes a, .bytes b] = .ok (a ++ b)
    simp [pairTypes, encodeStatics, encodeStatic, ha, hb]

end Words

/-! ### Two claims

A tree of two leaves under the concrete encoding, for the witnesses below. -/

section TwoClaims

omit [External]

def firstClaim : RewardClaimBodyDict := ⟨1, "0x0000000000000000000000000000000000000001", "5", 1⟩

def secondClaim : RewardClaimBodyDict := ⟨1, "0x0000000000000000000000000000000000000002", "7", 2⟩

def firstTuple : ClaimTuple where
  rewardEpochId := 1
  beneficiary := List.replicate 19 0 ++ [1]
  amount := 5
  claimType := 1
  rewardEpochId_ok := by decide
  beneficiary_ok := by decide
  amount_ok := by decide
  claimType_ok := by decide

def secondTuple : ClaimTuple where
  rewardEpochId := 1
  beneficiary := List.replicate 19 0 ++ [2]
  amount := 7
  claimType := 2
  rewardEpochId_ok := by decide
  beneficiary_ok := by decide
  amount_ok := by decide
  claimType_ok := by decide

/-- The leaf hashes of the two tuples under the concrete encoding, and the hash of their node. -/
def firstLeaf : Bytes :=
  [115, 184, 114, 171, 220, 251, 78, 27, 191, 26, 165, 162, 161, 242, 58, 35, 184, 18, 61, 1, 15,
    232, 159, 171, 202, 51, 188, 215, 217, 149, 176, 149]

def secondLeaf : Bytes :=
  [220, 44, 144, 32, 186, 131, 229, 174, 30, 23, 198, 124, 235, 62, 195, 105, 186, 244, 211, 238,
    238, 57, 43, 232, 74, 245, 220, 128, 93, 231, 35, 9]

def rootHash : Bytes :=
  [241, 93, 74, 168, 68, 116, 85, 78, 162, 197, 155, 61, 100, 192, 95, 174, 172, 177, 252, 84, 239,
    62, 87, 201, 132, 4, 98, 175, 230, 253, 91, 134]

theorem hashes_two : @leafHash External.static firstTuple = firstLeaf ∧
    @leafHash External.static secondTuple = secondLeaf ∧ nodeHash firstLeaf secondLeaf = rootHash ∧
    hashHex firstLeaf < hashHex secondLeaf := by
  decide +kernel

theorem leafHash_first : @leafHash External.static firstTuple = firstLeaf := hashes_two.1

theorem leafHash_second : @leafHash External.static secondTuple = secondLeaf := hashes_two.2.1

theorem nodeHash_two : nodeHash firstLeaf secondLeaf = rootHash := hashes_two.2.2.1

theorem claims_read : firstClaim.Reads firstTuple ∧ secondClaim.Reads secondTuple :=
  ⟨⟨5, by decide +kernel, rfl, by decide +kernel, rfl, rfl⟩,
    ⟨7, by decide +kernel, rfl, by decide +kernel, rfl, rfl⟩⟩

theorem RewardClaimBodyDict.Reads.unique {c : RewardClaimBodyDict} {t u : ClaimTuple}
    (ht : c.Reads t)
    (hu : c.Reads u) : t = u := by
  obtain ⟨a, ha, ht⟩ := ht
  obtain ⟨b, hb, hu⟩ := hu
  have hab : a = b := Option.some.inj (ha.symm.trans hb)
  have hepoch := ht.rewardEpochId_eq.trans hu.rewardEpochId_eq.symm
  have hbeneficiary := Option.some.inj (ht.beneficiary_eq.symm.trans hu.beneficiary_eq)
  have hamount := ht.amount_eq.trans (hab.trans hu.amount_eq.symm)
  have htype := ht.claimType_eq.trans hu.claimType_eq.symm
  cases t
  cases u
  simp only at hepoch hamount htype hbeneficiary
  subst hepoch hamount htype hbeneficiary
  rfl

theorem twoClaims_inRange : InRange [firstClaim, secondClaim] := by
  intro c hc
  simp only [List.mem_cons, List.not_mem_nil, or_false] at hc
  rcases hc with rfl | rfl
  · exact ⟨firstTuple, claims_read.1⟩
  · exact ⟨secondTuple, claims_read.2⟩

theorem leafFromClaim_first :
    @leafFromClaim External.static firstClaim = .ok (hashHex firstLeaf) := by
  rw [← leafHash_first]
  exact @leafFromClaim_reads External.static lawfulAbi_static _ _ claims_read.1

theorem leafFromClaim_second :
    @leafFromClaim External.static secondClaim = .ok (hashHex secondLeaf) := by
  rw [← leafHash_second]
  exact @leafFromClaim_reads External.static lawfulAbi_static _ _ claims_read.2

theorem leavesOf_two : @leavesOf External.static [firstClaim, secondClaim] =
    .ok [hashHex firstLeaf, hashHex secondLeaf] := by
  simp only [leavesOf, leafFromClaim_first, leafFromClaim_second]
  rfl

theorem sortedUnique_two : sortedUnique [hashHex firstLeaf, hashHex secondLeaf] =
    [firstLeaf, secondLeaf].map hashHex := by
  have hlt := hashes_two.2.2.2
  have hded : [hashHex firstLeaf, hashHex secondLeaf].dedup =
      [hashHex firstLeaf, hashHex secondLeaf] :=
    List.dedup_eq_self.mpr (by simp [hlt.ne])
  rw [sortedUnique, hded, List.mergeSort_of_pairwise (by simp [hlt.le])]
  rfl

theorem isHash_firstLeaf : IsHash (hashHex firstLeaf) firstLeaf :=
  isHash_hashHex rfl

theorem isHash_secondLeaf : IsHash (hashHex secondLeaf) secondLeaf :=
  isHash_hashHex rfl

theorem buildTree_two : @buildTree External.static ([firstLeaf, secondLeaf].map hashHex) =
    .ok ([rootHash, firstLeaf, secondLeaf].map hashHex) := by
  have hall : AllHashes [firstLeaf, secondLeaf] := by
    intro b hb
    simp only [List.mem_cons, List.not_mem_nil, or_false] at hb
    rcases hb with rfl | rfl
    · exact isHash_firstLeaf.length_eq
    · exact isHash_secondLeaf.length_eq
  rw [← nodeHash_two]
  exact (@buildTree_map External.static lawfulAbi_static _ hall).1

theorem root_two : @buildRewardMerkleRoot External.static [firstClaim, secondClaim] =
    .ok (hashHex rootHash) := by
  have htree := buildTree_two
  rw [← sortedUnique_two] at htree
  exact @buildRewardMerkleRoot_eq External.static _ _ _ leavesOf_two (by simp) htree

end TwoClaims

/-! ## Completeness -/

/-- The texts of the siblings met on the way from a cell to the root. -/
def siblingsOf (tree : List String) (i : Nat) : List String :=
  (FlatTree.path i).map fun j => tree.getD j ""

/-- The siblings verify the leaf, in any letter case of the siblings and the root. -/
def Verifies (leaf : String) (siblings : List String) (root : String) : Prop :=
  ∀ (siblings' : List String) (root' : String), siblings'.map Py.lower = siblings.map Py.lower →
    Py.lower root' = Py.lower root → verifyProof leaf siblings' root' = .ok true

/-- The array of a list of leaves, and what stands in it. -/
structure TreeOver (leaves tree : List String) : Prop where
  build_eq : buildTree (sortedUnique leaves) = .ok tree
  /-- The leaves under the root, from left to right: each leaf of the list once. -/
  covers : leaves ≠ [] →
    ((FlatTree.below (sortedUnique leaves).length 0).map fun i => tree.getD i "").Perm
      (sortedUnique leaves)
  /-- Every leaf has its cell behind the inner ones. -/
  cell : ∀ leaf ∈ leaves, ∃ i, (sortedUnique leaves).length - 1 ≤ i ∧ i < tree.length ∧
    tree.getD i "" = leaf

section Complete

variable (h : LawfulAbi)
include h

/-- The hashes of the array of listed claims. -/
theorem exists_tree {claims : List RewardClaimBodyDict} (hin : InRange claims) :
    ∃ leaves bs, leavesOf claims = .ok leaves ∧ AllHashes bs ∧
      sortedUnique leaves = bs.map hashHex ∧
      buildTree (sortedUnique leaves) =
        .ok ((FlatTree.build nodeHash zeroHash bs).map hashHex) ∧
      AllHashes (FlatTree.build nodeHash zeroHash bs) ∧ (leaves = [] ↔ bs = []) := by
  obtain ⟨ts, hleaves, -, -⟩ := leavesOf_inRange h hin
  have hsu : ∀ x ∈ sortedUnique (ts.map fun t => hashHex (leafHash t)),
      ∃ b, b.length = 32 ∧ x = hashHex b := fun x hx => by
    rw [mem_sortedUnique, List.mem_map] at hx
    obtain ⟨t, -, rfl⟩ := hx
    exact ⟨leafHash t, length_keccak256 _, rfl⟩
  obtain ⟨bs, hbs, hmap⟩ := exists_hashes hsu
  obtain ⟨hbuild, hall⟩ := buildTree_map h hbs
  refine ⟨_, bs, hleaves, hbs, hmap, by rw [hmap, hbuild], hall, ?_⟩
  have hnil : sortedUnique (ts.map fun t => hashHex (leafHash t)) = [] ↔
      (ts.map fun t => hashHex (leafHash t)) = [] := by
    rw [List.eq_nil_iff_forall_not_mem, List.eq_nil_iff_forall_not_mem]
    simp only [mem_sortedUnique]
  rw [← hnil, hmap, List.map_eq_nil_iff]

/-- The siblings of a cell verify what stands in it against what stands in the first cell. -/
theorem verifies_cell {bs : List Bytes} (hne : bs ≠ [])
    (hall : AllHashes (FlatTree.build nodeHash zeroHash bs)) {i : Nat}
    (hi : i < (FlatTree.build nodeHash zeroHash bs).length) :
    Verifies (((FlatTree.build nodeHash zeroHash bs).map hashHex).getD i "")
      (siblingsOf ((FlatTree.build nodeHash zeroHash bs).map hashHex) i)
      (((FlatTree.build nodeHash zeroHash bs).map hashHex).getD 0 "") := by
  intro siblings' root' hsib hroot
  have hshape := @FlatTree.shaped_build _ nodeHash zeroHash _ hne
  set t := FlatTree.build nodeHash zeroHash bs with ht
  have hpath : siblingsOf (t.map hashHex) i =
      ((FlatTree.path i).map fun j => t.getD j zeroHash).map hashHex := by
    rw [siblingsOf, List.map_map]
    refine List.map_congr_left fun j hj => ?_
    exact getD_map_hashHex (hshape.path_lt hi j hj)
  have hhashes : AllHashes ((FlatTree.path i).map fun j => t.getD j zeroHash) := fun b hb => by
    obtain ⟨j, -, rfl⟩ := List.mem_map.mp hb
    exact hall.getD j
  rw [hpath] at hsib
  obtain ⟨hproof, hdigest⟩ := map_digestOf_of_lower hhashes hsib
  rw [getD_map_hashHex (by omega), lower_hashHex] at hroot
  rw [getD_map_hashHex hi, verifyProof_isHash h (isHash_hashHex (hall.getD i)) hproof
    ⟨hall.getD 0, hroot⟩, hdigest, FlatTree.climb_path hshape nodeHash_comm hi, beq_self_eq_true]

/-- The array of listed claims, their root, and the proofs of all leaves. -/
theorem treeOver_claims {claims : List RewardClaimBodyDict} {leaves : List String}
    (hin : InRange claims) (hl : leavesOf claims = .ok leaves) :
    ∃ tree root, TreeOver leaves tree ∧ buildRewardMerkleRoot claims = .ok root ∧
      (leaves ≠ [] → ∀ i < tree.length, Verifies (tree.getD i "") (siblingsOf tree i) root) := by
  obtain ⟨leaves', bs, hl', hbs, hsu, hbuild, hall, hnil⟩ := exists_tree h hin
  have hsame : leaves = leaves' := Except.ok.inj (hl.symm.trans hl')
  subst hsame
  by_cases hne : leaves = []
  · subst hne
    have hsunil : sortedUnique [] = [] := by simp [sortedUnique]
    refine ⟨_, zeroBytes32, ⟨hbuild, fun hc => absurd rfl hc, by simp⟩, ?_, fun hc => absurd rfl hc⟩
    simp only [buildRewardMerkleRoot, hl, bind, Except.bind, hsunil, pure, Except.pure]
  · have hbne : bs ≠ [] := fun hc => hne (hnil.mpr hc)
    have hshape := @FlatTree.shaped_build _ nodeHash zeroHash _ hbne
    have hlen : (sortedUnique leaves).length = bs.length := by rw [hsu, List.length_map]
    have htlen := hshape.length_eq
    have hbpos := List.length_pos_iff.mpr hbne
    set t := FlatTree.build nodeHash zeroHash bs with ht
    refine ⟨t.map hashHex, (t.map hashHex).getD 0 "", ⟨hbuild, fun _ => ?_, fun leaf hleaf => ?_⟩,
      buildRewardMerkleRoot_eq hl hne hbuild, fun _ i hi => ?_⟩
    · have hcov := (hshape.covers hbne).map hashHex
      rw [hlen, hsu]
      refine (List.Perm.of_eq ?_).trans hcov
      rw [List.map_map]
      refine List.map_congr_left fun j hj => getD_map_hashHex ?_
      have hmem := (FlatTree.below_root hbpos).mem_iff.mp hj
      rw [List.mem_range'_1] at hmem
      omega
    · rw [← mem_sortedUnique, hsu] at hleaf
      obtain ⟨b, hb, rfl⟩ := List.mem_map.mp hleaf
      obtain ⟨i, hlo, hhi, hcell⟩ := hshape.exists_cell hb
      refine ⟨i, by omega, by rwa [List.length_map], ?_⟩
      rw [getD_map_hashHex hhi, hcell]
    · rw [List.length_map] at hi
      exact verifies_cell h hbne hall hi

end Complete

/-- **Completeness.**  The root depends on the set of leaves only, the array covers every leaf once,
and the siblings of each listed claim verify it. -/
theorem merkle_complete (h : LawfulAbi) (claims : List RewardClaimBodyDict)
    (hin : InRange claims) :
    ∃ leaves tree root, leavesOf claims = .ok leaves ∧ TreeOver leaves tree ∧
      buildRewardMerkleRoot claims = .ok root ∧
      (∀ claims' leaves', leavesOf claims' = .ok leaves' → (∀ x, x ∈ leaves' ↔ x ∈ leaves) →
        buildRewardMerkleRoot claims' = .ok root) ∧
      (∀ c ∈ claims, ∃ leaf i, leafFromClaim c = .ok leaf ∧
        (sortedUnique leaves).length - 1 ≤ i ∧ i < tree.length ∧ tree.getD i "" = leaf ∧
        Verifies leaf (siblingsOf tree i) root) ∧
      (∀ n, 0 < n → (FlatTree.below n 0).Perm (List.range' (n - 1) n)) ∧
      ∀ x y, node x y = node y x := by
  obtain ⟨ts, hl, hts, -⟩ := leavesOf_inRange h hin
  obtain ⟨tree, root, htree, hroot, hver⟩ := treeOver_claims h hin hl
  refine ⟨_, tree, root, hl, htree, hroot, fun claims' leaves' hl' hsame => ?_, fun c hc => ?_,
    fun n hn => FlatTree.below_root hn, node_comm⟩
  · rw [buildRewardMerkleRoot_congr hl hl' hsame, hroot]
  · obtain ⟨t, ht, hread⟩ := hts c hc
    have hleaf := List.mem_map_of_mem (f := fun t => hashHex (leafHash t)) ht
    obtain ⟨i, hlo, hhi, hcell⟩ := htree.cell _ hleaf
    refine ⟨_, i, leafFromClaim_reads h hread, hlo, hhi, hcell, ?_⟩
    rw [← hcell]
    exact hver (List.ne_nil_of_mem hleaf) i hhi

omit [External] in
theorem merkle_complete_two : ∃ leaves tree root,
    @leavesOf External.static [firstClaim, secondClaim] = .ok leaves ∧
      @TreeOver External.static leaves tree ∧
      @buildRewardMerkleRoot External.static [firstClaim, secondClaim] = .ok root ∧
      ∃ i, tree.getD i "" = hashHex firstLeaf ∧
        @Verifies External.static (hashHex firstLeaf) (siblingsOf tree i) root := by
  obtain ⟨leaves, tree, root, hl, htree, hroot, -, hver, -⟩ :=
    @merkle_complete External.static lawfulAbi_static _ twoClaims_inRange
  obtain ⟨leaf, i, hleaf, -, -, hcell, hok⟩ := hver firstClaim (by simp)
  rw [leafFromClaim_first] at hleaf
  have heq : hashHex firstLeaf = leaf := Except.ok.inj hleaf
  rw [heq]
  exact ⟨leaves, tree, root, hl, htree, hroot, i, hcell, hok⟩

/-! ## Soundness -/

/-- The byte strings `keccak256` is applied to when the root of `claims` is built and `proof` is
climbed from the leaf of `t`. -/
inductive HashInput (claims : List RewardClaimBodyDict) (t : ClaimTuple) (leaf : String)
    (proof : List String) : Bytes → Prop
  | own {b : Bytes} (hb : abiEncode leafTypes [t.value] = .ok b) : HashInput claims t leaf proof b
  | listed {c : RewardClaimBodyDict} {u : ClaimTuple} {b : Bytes} (hc : c ∈ claims)
    (hu : c.Reads u) (hb : abiEncode leafTypes [u.value] = .ok b) : HashInput claims t leaf proof b
  | tree {leaves tree : List String} {i : Nat} {b : Bytes} (hl : leavesOf claims = .ok leaves)
    (ht : buildTree (sortedUnique leaves) = .ok tree) (hi : i < (sortedUnique leaves).length - 1)
    (hb : nodePreimage (tree.getD (2 * i + 1) "") (tree.getD (2 * i + 2) "") = .ok b) :
    HashInput claims t leaf proof b
  | climb {ps qs : List String} {p x : String} {b : Bytes} (hp : proof = ps ++ p :: qs)
    (hx : ps.foldlM (fun h p => node p h) leaf = .ok x) (hb : nodePreimage p x = .ok b) :
    HashInput claims t leaf proof b

/-- `keccak256` has no collision on the byte strings of `P`. -/
def NoCollision (P : Bytes → Prop) : Prop :=
  ∀ a b, P a → P b → keccak256 a = keccak256 b → a = b

/-- The pairs of hashes whose encoding is among the byte strings. -/
def PairOf (P : Bytes → Prop) (a b : Bytes) : Prop :=
  a.length = 32 ∧ b.length = 32 ∧ P (pairBytes a b)

/-- The leaf hashes whose tuple's encoding is among the byte strings. -/
def LeafOf (P : Bytes → Prop) (v : Bytes) : Prop := ∃ u, v = leafHash u ∧ P (leafBytes u)

omit [External] in
theorem NoCollision.injOn {P : Bytes → Prop} (hnc : NoCollision P) :
    FlatTree.InjOn nodeHash (PairOf P) := by
  rintro a b c d ⟨ha, hb, hab⟩ ⟨hc, hd, hcd⟩ heq
  exact pairBytes_inj ha hb hc hd (hnc _ _ hab hcd heq)

section Sound

variable (h : LawfulAbi)
include h

/-- A node is the hash of 64 bytes, a leaf the hash of 128. -/
theorem NoCollision.apart {P : Bytes → Prop} (hnc : NoCollision P) :
    FlatTree.Apart nodeHash (PairOf P) (LeafOf P) := by
  rintro a b c ⟨ha, hb, hab⟩ ⟨u, rfl, hu⟩ heq
  have hbytes := hnc _ _ hab hu heq
  have hlen := congrArg List.length hbytes
  rw [length_pairBytes ha hb, length_leafBytes h] at hlen
  omega

theorem combined_pairOf {claims : List RewardClaimBodyDict} {t : ClaimTuple} {leaf : String}
    {proof leaves : List String} {bs : List Bytes} (hl : leavesOf claims = .ok leaves)
    (hsu : sortedUnique leaves = bs.map hashHex)
    (hbuild : buildTree (sortedUnique leaves) =
      .ok ((FlatTree.build nodeHash zeroHash bs).map hashHex))
    (hall : AllHashes (FlatTree.build nodeHash zeroHash bs)) (hne : bs ≠ []) {a b : Bytes}
    (hab : FlatTree.Combined zeroHash bs (FlatTree.build nodeHash zeroHash bs) a b) :
    PairOf (HashInput claims t leaf proof) a b := by
  obtain ⟨hi⟩ := hab
  rename_i i
  have hlen := (@FlatTree.shaped_build _ nodeHash zeroHash _ hne).length_eq
  refine ⟨hall.getD _, hall.getD _, .tree hl hbuild (i := i) ?_ ?_⟩
  · rwa [hsu, List.length_map]
  · rw [getD_map_hashHex (by omega), getD_map_hashHex (by omega)]
    exact nodePreimage_isHash h (isHash_hashHex (hall.getD _)) (isHash_hashHex (hall.getD _))

theorem climbed_pairOf {claims : List RewardClaimBodyDict} {t : ClaimTuple}
    {proof : List String} (hproof : ∀ p ∈ proof, ∃ s, IsHash p s) {a b : Bytes}
    (hab : FlatTree.Climbed nodeHash (leafHash t) (proof.map digestOf) a b) :
    PairOf (HashInput claims t (hashHex (leafHash t)) proof) a b := by
  obtain ⟨hsplit⟩ := hab
  rename_i bs cs
  obtain ⟨ps, rest, rfl, hps, hrest⟩ := List.map_eq_append_iff.mp hsplit
  obtain ⟨p, qs, rfl, hp, -⟩ := List.map_eq_cons_iff.mp hrest
  obtain ⟨s, hs⟩ := hproof p (by simp)
  have has : a = s := hp.symm.trans hs.digestOf_eq
  obtain ⟨x, hx, hclimb⟩ := foldlM_node h (isHash_leaf t) fun q hq =>
    hproof q (List.mem_append_left _ hq)
  rw [hps] at hclimb
  subst has
  exact ⟨hs.length_eq, hclimb.length_eq, .climb rfl hx (nodePreimage_isHash h hs hclimb)⟩

end Sound

/-- **Soundness.**  The claim of an accepted proof is one of the listed ones: no node of the tree
passes as a leaf, whatever the length of the proof. -/
theorem merkle_sound (h : LawfulAbi) (claims : List RewardClaimBodyDict) (hne : claims ≠ [])
    (hin : InRange claims) (rewardEpochId : Int) (beneficiary : String) (amount claimType : Int)
    (t : ClaimTuple) (ht : ReadsAs rewardEpochId beneficiary amount claimType t)
    (proof : List String) (hproof : ∀ p ∈ proof, ∃ s, IsHash p s) (leaf root : String)
    (hleaf : computeLeaf rewardEpochId beneficiary amount claimType = .ok leaf)
    (hroot : buildRewardMerkleRoot claims = .ok root)
    (hnc : NoCollision (HashInput claims t leaf proof))
    (hver : verifyProof leaf proof root = .ok true) :
    ∃ c ∈ claims, c.Reads t := by
  have hleaf' : hashHex (leafHash t) = leaf :=
    Except.ok.inj ((computeLeaf_reads h ht).symm.trans hleaf)
  subst hleaf'
  obtain ⟨leaves, bs, hl, hbs, hsu, hbuild, hall, hnil⟩ := exists_tree h hin
  obtain ⟨ts, hl', hto, hof⟩ := leavesOf_inRange h hin
  have hleaves : leaves = ts.map fun t => hashHex (leafHash t) :=
    Except.ok.inj (hl.symm.trans hl')
  have hlne : leaves ≠ [] := by
    obtain ⟨c, hc⟩ := List.exists_mem_of_ne_nil _ hne
    obtain ⟨u, hu, -⟩ := hto c hc
    rw [hleaves]
    exact List.ne_nil_of_mem (List.mem_map_of_mem hu)
  have hbne : bs ≠ [] := fun hc => hlne (hnil.mpr hc)
  have hshape := @FlatTree.shaped_build _ nodeHash zeroHash _ hbne
  have hpos : 0 < (FlatTree.build nodeHash zeroHash bs).length := by
    have hlen := hshape.length_eq
    have hbpos := List.length_pos_iff.mpr hbne
    omega
  have hroot' := Except.ok.inj ((buildRewardMerkleRoot_eq hl hlne hbuild).symm.trans hroot)
  rw [getD_map_hashHex hpos] at hroot'
  subst hroot'
  -- the accepted climb ends in the first cell
  rw [verifyProof_isHash h (isHash_leaf t) hproof (isHash_hashHex (hall.getD 0)),
    Except.ok.injEq, beq_iff_eq] at hver
  -- the leaf hashes of the array are those of listed claims
  have hlisted : ∀ v ∈ bs, ∃ u ∈ ts, v = leafHash u := fun v hv => by
    have hmem : hashHex v ∈ leaves := by
      rw [← mem_sortedUnique, hsu]
      exact List.mem_map_of_mem hv
    rw [hleaves, List.mem_map] at hmem
    obtain ⟨u, hu, heq⟩ := hmem
    exact ⟨u, hu, (hashHex_inj heq).symm⟩
  have hown : LeafOf (HashInput claims t (hashHex (leafHash t)) proof) (leafHash t) :=
    ⟨t, rfl, .own (abiEncode_leaf h t)⟩
  have hmem := FlatTree.climb_leaf hshape hnc.injOn (hnc.apart h)
    (fun a b hab => combined_pairOf h hl hsu hbuild hall hbne hab)
    (fun v hv => by
      obtain ⟨u, hu, rfl⟩ := hlisted v hv
      obtain ⟨c, hc, hread⟩ := hof u hu
      exact ⟨u, rfl, .listed hc hread (abiEncode_leaf h u)⟩)
    hown (proof.map digestOf) (fun a b hab => climbed_pairOf h hproof hab) 0 hpos hver
  obtain ⟨u, hu, heq⟩ := hlisted _ hmem
  obtain ⟨c, hc, hread⟩ := hof u hu
  have hbytes : leafBytes t = leafBytes u :=
    hnc _ _ (.own (abiEncode_leaf h t)) (.listed hc hread (abiEncode_leaf h u)) heq
  exact ⟨c, hc, by rw [leafBytes_inj h hbytes]; exact hread⟩

/-- The three byte strings hashed for a proof in the tree of the two claims. -/
def twoInputs : List Bytes :=
  [@leafBytes External.static firstTuple, @leafBytes External.static secondTuple,
    pairBytes firstLeaf secondLeaf]

omit [External] in
theorem hashInput_two {b : Bytes}
    (hb : @HashInput External.static [firstClaim, secondClaim] firstTuple (hashHex firstLeaf)
      [hashHex secondLeaf] b) : b ∈ twoInputs := by
  have hpair := @nodePreimage_isHash External.static lawfulAbi_static _ _ _ _ isHash_firstLeaf
    isHash_secondLeaf
  cases hb with
  | own hb =>
    have heq := Except.ok.inj
      ((@abiEncode_leaf External.static lawfulAbi_static firstTuple).symm.trans hb)
    simp [twoInputs, ← heq]
  | listed hc hu hb =>
    have heq := Except.ok.inj ((@abiEncode_leaf External.static lawfulAbi_static _).symm.trans hb)
    simp only [List.mem_cons, List.not_mem_nil, or_false] at hc
    rcases hc with rfl | rfl
    · rw [hu.unique claims_read.1] at heq
      simp [twoInputs, ← heq]
    · rw [hu.unique claims_read.2] at heq
      simp [twoInputs, ← heq]
  | @tree leaves tree i _ hl ht hi hb =>
    have hleaves := Except.ok.inj (leavesOf_two.symm.trans hl)
    subst hleaves
    rw [sortedUnique_two] at ht hi
    have htree := Except.ok.inj (buildTree_two.symm.trans ht)
    have hi0 : i = 0 := by simpa using hi
    subst hi0
    rw [← htree] at hb
    have heq := Except.ok.inj (hpair.symm.trans hb)
    simp [twoInputs, ← heq]
  | @climb ps qs p x _ hp hx hb =>
    cases ps with
    | cons q ps => simp at hp
    | nil =>
      obtain ⟨rfl, -⟩ := List.cons.inj hp
      have hx' : hashHex firstLeaf = x := Except.ok.inj hx
      subst hx'
      rw [@nodePreimage_comm External.static] at hb
      have heq := Except.ok.inj (hpair.symm.trans hb)
      simp [twoInputs, ← heq]

omit [External] in
theorem noCollision_two : NoCollision (@HashInput External.static [firstClaim, secondClaim]
    firstTuple (hashHex firstLeaf) [hashHex secondLeaf]) := by
  have hhashes : twoInputs.map keccak256 = [firstLeaf, secondLeaf, rootHash] := by
    have h1 : keccak256 (@leafBytes External.static firstTuple) = firstLeaf := leafHash_first
    have h2 : keccak256 (@leafBytes External.static secondTuple) = secondLeaf := leafHash_second
    have h3 : keccak256 (pairBytes firstLeaf secondLeaf) = rootHash := nodeHash_two
    simp only [twoInputs, List.map_cons, List.map_nil, h1, h2, h3]
  have hall : (twoInputs.map keccak256).Nodup := by
    rw [hhashes]
    decide
  exact fun a b ha hb => List.inj_on_of_nodup_map hall (hashInput_two ha) (hashInput_two hb)

omit [External] in
theorem merkle_sound_two : ∃ c ∈ [firstClaim, secondClaim], c.Reads firstTuple := by
  have hproof : ∀ p ∈ [hashHex secondLeaf], ∃ s, IsHash p s := fun p hp =>
    ⟨secondLeaf, by rw [List.mem_singleton.mp hp]; exact isHash_secondLeaf⟩
  have hver : @verifyProof External.static (hashHex firstLeaf) [hashHex secondLeaf]
      (hashHex rootHash) = .ok true := by
    rw [@verifyProof_isHash External.static lawfulAbi_static _ _ _ _ _ isHash_firstLeaf hproof
      (isHash_hashHex rfl)]
    simp [isHash_secondLeaf.digestOf_eq, nodeHash_comm secondLeaf firstLeaf, nodeHash_two]
  obtain ⟨amount, hamount, hread⟩ := claims_read.1
  have hleaf := @computeLeaf_reads External.static lawfulAbi_static _ _ _ _ _ hread
  rw [leafHash_first] at hleaf
  exact @merkle_sound External.static lawfulAbi_static _ (by simp) twoClaims_inRange _ _ _ _ _ hread
    _ hproof _ _ hleaf root_two noCollision_two hver

end Clif

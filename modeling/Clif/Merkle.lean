import Mathlib.Data.List.Dedup
import Mathlib.Data.String.Basic
import Clif.Keccak
import Clif.Models

/-!
# Merkle — the reward tree of `merkle.py` and the calldata built from its claims

  leaf = keccak256(abi.encode((uint24, bytes20, uint120, uint8)))
  node = keccak256(abi.encode(sorted pair)), sorted on the lower-case hex string
  root = index 0 of a flat array over the sorted leaves without repetitions
-/

namespace Clif

variable [External]

/-! ## Leaves and nodes -/

def computeLeaf (rewardEpochId : Int) (beneficiary : String) (amount claimType : Int) :
    Except Exc String :=
  match Py.fromHex (Py.removePrefix (Py.lower beneficiary) "0x") with
  | none => .error (.valueError
      s!"compute_leaf: malformed beneficiary address {beneficiary}: non-hexadecimal number found")
  | some b =>
    if b.length ≠ 20 then .error (.valueError
      (s!"compute_leaf: malformed beneficiary address {beneficiary}: beneficiary must be a " ++
        s!"40-hex address (got {b.length * 2} hex chars)"))
    else do
      let encoded ← abiEncode [.tuple [.uint 24, .bytesN 20, .uint 120, .uint 8]]
        [.list [.int rewardEpochId, .bytes b, .int amount, .int claimType]]
      return "0x" ++ Py.toHex (keccak256 encoded)

def hexTail (x : String) : Except Exc Bytes :=
  match Py.fromHex (Py.sliceFrom x 2) with
  | some b => .ok b
  | none => .error (.valueError "non-hexadecimal number found in fromhex() arg")

def node (x y : String) : Except Exc String := do
  let p := if Py.lower x ≤ Py.lower y then (x, y) else (y, x)
  let a ← hexTail p.1
  let b ← hexTail p.2
  let encoded ← abiEncode [.bytesN 32, .bytesN 32] [.bytes a, .bytes b]
  return "0x" ++ Py.toHex (keccak256 encoded)

/-- `_leaf_from_claim` on the body of a `reward-distribution-data.json` claim. -/
def leafFromClaim (b : RewardClaimBodyDict) : Except Exc String :=
  match Py.int? b.amount with
  | none => .error (.valueError s!"invalid literal for int() with base 10: {b.amount}")
  | some amount => computeLeaf b.rewardEpochId b.beneficiary amount b.claimType

/-! ## The tree -/

def leavesOf : List RewardClaimBodyDict → Except Exc (List String)
  | [] => .ok []
  | b :: bs => do
    let leaf ← leafFromClaim b
    let leaves ← leavesOf bs
    return leaf :: leaves

/-- `sorted(set(leaves))`. -/
def sortedUnique (leaves : List String) : List String :=
  leaves.dedup.mergeSort (fun a b => decide (a ≤ b))

/-- One pass of the bottom-up loop. -/
def treeStep (tree : List String) (i : Nat) : Except Exc (List String) := do
  let h ← node (tree.getD (2 * i + 1) "") (tree.getD (2 * i + 2) "")
  return tree.set i h

/-- Internal nodes at `0 … n - 2`, leaves at `n - 1 … 2 n - 2`; filled from the bottom. -/
def buildTree (leaves : List String) : Except Exc (List String) :=
  (List.range (leaves.length - 1)).reverse.foldlM treeStep
    (List.replicate (leaves.length - 1) zeroBytes32 ++ leaves)

def buildRewardMerkleRoot (claims : List RewardClaimBodyDict) : Except Exc String := do
  let leaves ← leavesOf claims
  let su := sortedUnique leaves
  match su with
  | [] => return zeroBytes32
  | [leaf] => return leaf
  | _ =>
    let tree ← buildTree su
    return tree.getD 0 ""

def verifyProof (leaf : String) (proof : List String) (root : String) : Except Exc Bool := do
  let h ← proof.foldlM (fun h p => node p h) leaf
  return Py.lower h == Py.lower root

/-- The root the source documents for an empty claim list. -/
theorem buildRewardMerkleRoot_nil : buildRewardMerkleRoot [] = .ok zeroBytes32 := by
  have hs : sortedUnique [] = [] := by simp [sortedUnique]
  simp [buildRewardMerkleRoot, leavesOf, hs, bind, Except.bind, pure, Except.pure]

/-- A single claim is its own tree. -/
theorem buildRewardMerkleRoot_singleton {b : RewardClaimBodyDict} {leaf : String}
    (h : leafFromClaim b = .ok leaf) : buildRewardMerkleRoot [b] = .ok leaf := by
  have hs : sortedUnique [leaf] = [leaf] := by simp [sortedUnique]
  simp [buildRewardMerkleRoot, leavesOf, h, hs, bind, Except.bind, pure, Except.pure]

/-! ## Calldata -/

/-- `_fixed_bytes`. -/
def fixedBytes (hexstr : String) (n : Nat) : Except Exc Bytes :=
  let digits := if Py.startsWith hexstr "0x" || Py.startsWith hexstr "0X" then
    Py.sliceFrom hexstr 2 else hexstr
  match Py.fromHex digits with
  | none => .error (.valueError "non-hexadecimal number found in fromhex() arg")
  | some b =>
    if b.length ≠ n then
      .error (.valueError s!"expected {n} bytes, got {b.length} from {hexstr}")
    else .ok b

/-- The selectors, asserted at import to be those of the vendored ABI. -/
def claimSelector : String := "8e33aba5"
def signUptimeSelector : String := "dc5a4225"
def signRewardsSelector : String := "c00a1a97"

/-- `keccak256` of 32 zero bytes, asserted at import. -/
def uptimeVoteHash : String := "0x290decd9548b62a8d60345a988386fc84ba6bc95484008f6362f93160ef3e563"

def encodeProof (proof : RewardClaimWithProof) : Except Exc AbiValue := do
  let siblings ← proof.merkleProof.mapM (fun p => fixedBytes p 32)
  let b ← fixedBytes proof.body.beneficiary 20
  return .list [.list (siblings.map .bytes),
    .list [.int proof.body.rewardEpochId, .bytes b, .int proof.body.amount,
      .int proof.body.claimType]]

def buildClaimCalldata (rewardOwner recipient : String) (lastEpochId : Int) (wrap : Bool)
    (proofs : List RewardClaimWithProof) : Except Exc String := do
  let encodedProofs ← proofs.mapM encodeProof
  let args ← abiEncode
    [.address, .address, .uint 24, .bool,
      .array (.tuple [.array (.bytesN 32), .tuple [.uint 24, .bytesN 20, .uint 120, .uint 8]])]
    [.str rewardOwner, .str recipient, .int lastEpochId, .bool wrap, .list encodedProofs]
  return "0x" ++ claimSelector ++ Py.toHex args

def buildSignUptimeCalldata (rewardEpochId v : Int) (r s : String) : Except Exc String := do
  let h ← fixedBytes uptimeVoteHash 32
  let r' ← fixedBytes r 32
  let s' ← fixedBytes s 32
  let args ← abiEncode [.uint 24, .bytesN 32, .tuple [.uint 8, .bytesN 32, .bytesN 32]]
    [.int rewardEpochId, .bytes h, .list [.int v, .bytes r', .bytes s']]
  return "0x" ++ signUptimeSelector ++ Py.toHex args

def buildSignRewardsCalldata (rewardEpochId rewardManagerId noOfWeightBasedClaims : Int)
    (rewardsHash : String) (v : Int) (r s : String) : Except Exc String := do
  let h ← fixedBytes rewardsHash 32
  let r' ← fixedBytes r 32
  let s' ← fixedBytes s 32
  let args ← abiEncode
    [.uint 24, .array (.tuple [.uint 256, .uint 256]), .bytesN 32,
      .tuple [.uint 8, .bytesN 32, .bytesN 32]]
    [.int rewardEpochId, .list [.list [.int rewardManagerId, .int noOfWeightBasedClaims]],
      .bytes h, .list [.int v, .bytes r', .bytes s']]
  return "0x" ++ signRewardsSelector ++ Py.toHex args

end Clif

import Clif.Merkle

/-!
# Discovery — the keyless read half of a claim, `discovery.py`

Views of the two contracts plus the public reward files; the result is what `buildClaimCalldata`
consumes.
-/

namespace Clif

open Effect

/-! ## The entry of one stream in one file -/

/-- The stream `(beneficiary, claimType)` an entry belongs to. -/
def RawRewardClaim.isFor (beneficiary : String) (claimType : Int) (c : RawRewardClaim) : Bool :=
  Py.lower c.beneficiary == Py.lower beneficiary && c.claimType == claimType

/-- The first entry of the stream: the loop of `reward_claim_for` returns at it. -/
def RewardsData.entryFor (d : RewardsData) (beneficiary : String) (claimType : Int) :
    Option RawRewardClaim :=
  d.rewardClaims.find? (RawRewardClaim.isFor beneficiary claimType)

section

variable [External]

/-- The entry with its proof checked against the published root; `none` when the proof fails. -/
def provenClaim (merkleRoot : String) (c : RawRewardClaim) :
    Except Exc (Option RewardClaimWithProof) :=
  match Py.int? c.amount with
  | none => .error (.valueError s!"invalid literal for int() with base 10: {c.amount}")
  | some amount => do
    let leaf ← computeLeaf c.epochId c.beneficiary amount c.claimType
    if ← verifyProof leaf c.merkleProof merkleRoot then
      return some ⟨c.merkleProof, ⟨c.epochId, c.beneficiary, amount, c.claimType⟩⟩
    else return none

/-- `reward_claim_for`. -/
def rewardClaimFor (s : Settings) (epoch : Int) (beneficiary : String) (claimType : Int) :
    Py (Option RewardClaimWithProof) := do
  match ← getRewardCalculationData s epoch with
  | none => return none
  | some data =>
    let onChainHash ← rpc (.rewardsHash s.net.flareSystemsManager epoch)
    if Py.lower data.merkleRoot != Py.lower onChainHash then return none
    else
      match data.entryFor beneficiary claimType with
      | none => return none
      | some c => fromExcept (provenClaim data.merkleRoot c)

end

/-! ## The claimable window -/

/-- The epochs of `epoch, …, epoch + n - 1` whose rewards hash has been signed. -/
def signedEpochs (s : Settings) : Int → Nat → Py (List Int)
  | _, 0 => return []
  | epoch, n + 1 => do
    let h ← rpc (.rewardsHash s.net.flareSystemsManager epoch)
    let ids ← signedEpochs s (epoch + 1) n
    return if h != zeroBytes32 then epoch :: ids else ids

/-- `claimable_epoch_ids`. -/
def claimableEpochIds (s : Settings) (beneficiary : String) : Py (List Int) := do
  let start ← rpc (.nextClaimableRewardEpochId s.net.rewardManager beneficiary)
  let range ← rpc (.rewardEpochIdRange s.net.rewardManager)
  if range.2 < start then return []
  else signedEpochs s start (range.2 + 1 - start).toNat

/-- The epochs `collect_reward_claims` looks at: the window, or the one epoch asked for if it lies
in the window and is signed. -/
def epochsToCollect (s : Settings) (beneficiary : String) : Option Int → Py (List Int)
  | some epoch => do
    let start ← rpc (.nextClaimableRewardEpochId s.net.rewardManager beneficiary)
    let range ← rpc (.rewardEpochIdRange s.net.rewardManager)
    if ¬ (start ≤ epoch ∧ epoch ≤ range.2) then return []
    else
      let h ← rpc (.rewardsHash s.net.flareSystemsManager epoch)
      if h == zeroBytes32 then return [] else return [epoch]
  | none => claimableEpochIds s beneficiary

variable [External]

def claimsOf (s : Settings) (beneficiary : String) (claimType : Int) :
    List Int → Py (List RewardClaimWithProof)
  | [] => return []
  | epoch :: epochs => do
    let rc ← rewardClaimFor s epoch beneficiary claimType
    let rcs ← claimsOf s beneficiary claimType epochs
    return rc.toList ++ rcs

/-- `collect_reward_claims`. -/
def collectRewardClaims (s : Settings) (beneficiary : String) (claimType : Int)
    (onlyEpoch : Option Int) : Py (List RewardClaimWithProof) := do
  let epochs ← epochsToCollect s beneficiary onlyEpoch
  claimsOf s beneficiary claimType epochs

/-! ## Why an epoch is not claimable -/

/-- `_reason_from_state`. -/
def reasonFromState (epoch : Int) (beneficiary : String) (nxt last : Int) (signed : Bool) :
    Option String :=
  if epoch < nxt then some s!"already claimed for {beneficiary} (next claimable = {nxt})"
  else if last < epoch then
    some s!"not in claimable range (max signed-rewards epoch = {last})"
  else if !signed then some "rewards not yet signed (>50% claim gate not reached)"
  else none

/-- `epoch <= end and rewards_hash(epoch) != ZERO_BYTES32`: the view is read in the range only. -/
def signedInRange (s : Settings) (epoch last : Int) : Py Bool :=
  if epoch ≤ last then do
    let h ← rpc (.rewardsHash s.net.flareSystemsManager epoch)
    return h != zeroBytes32
  else return false

/-- `unclaimable_reason`. -/
def unclaimableReason (s : Settings) (beneficiary : String) (epoch : Int) : Py (Option String) := do
  let nxt ← rpc (.nextClaimableRewardEpochId s.net.rewardManager beneficiary)
  let range ← rpc (.rewardEpochIdRange s.net.rewardManager)
  let signed ← signedInRange s epoch range.2
  return reasonFromState epoch beneficiary nxt range.2 signed

/-- `sorted({nxt - 1, nxt, end, end + 1})` without the epochs below the range. -/
def frontierCandidates (nxt first last : Int) : List Int :=
  (([nxt - 1, nxt, last, last + 1].filter fun e => max first 0 ≤ e).dedup).mergeSort
    (fun a b => decide (a ≤ b))

def frontierReason (s : Settings) (beneficiary : String) (claimType nxt last epoch : Int) :
    Py String := do
  let signed ← signedInRange s epoch last
  match reasonFromState epoch beneficiary nxt last signed with
  | some reason => return reason
  | none =>
    match ← rewardClaimFor s epoch beneficiary claimType with
    | some rc => return s!"claimable: {rc.body.amount} wei"
    | none => return "no rewards accrued for this beneficiary"

def frontierReasons (s : Settings) (beneficiary : String) (claimType nxt last : Int) :
    List Int → Py (List (Int × String))
  | [] => return []
  | epoch :: epochs => do
    let reason ← frontierReason s beneficiary claimType nxt last epoch
    let rest ← frontierReasons s beneficiary claimType nxt last epochs
    return (epoch, reason) :: rest

/-- `classify_claim_frontier`. -/
def classifyClaimFrontier (s : Settings) (beneficiary : String) (claimType : Int) :
    Py (List (Int × String)) := do
  let nxt ← rpc (.nextClaimableRewardEpochId s.net.rewardManager beneficiary)
  let range ← rpc (.rewardEpochIdRange s.net.rewardManager)
  frontierReasons s beneficiary claimType nxt range.2 (frontierCandidates nxt range.1 range.2)

end Clif

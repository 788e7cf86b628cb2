import Clif.Rpc

/-!
# Models — claim types, outcomes and the validated reward files
-/

namespace Clif

open Effect

/-! ## Claim types -/

inductive ClaimType where
  | direct
  | fee
  | wnat
  | mirror
  | cchain
deriving DecidableEq

def ClaimType.name : ClaimType → String
  | .direct => "DIRECT"
  | .fee => "FEE"
  | .wnat => "WNAT"
  | .mirror => "MIRROR"
  | .cchain => "CCHAIN"

/-- `ClaimType(n)`. -/
def claimTypeOf (n : Int) : Except Exc ClaimType :=
  if n = 0 then .ok .direct
  else if n = 1 then .ok .fee
  else if n = 2 then .ok .wnat
  else if n = 3 then .ok .mirror
  else if n = 4 then .ok .cchain
  else .error (.valueError s!"{n} is not a valid ClaimType")

/-! ## Outcomes -/

inductive OutcomeStatus where
  | nothingClaimable
  | submittedMined
  | submittedPending
  | minedNoop
  | alreadyFinalized
  | alreadySigned
  | failedRetryable
  | failedTerminal
deriving DecidableEq

def OutcomeStatus.value : OutcomeStatus → String
  | .nothingClaimable => "nothing-claimable"
  | .submittedMined => "submitted-mined"
  | .submittedPending => "submitted-pending"
  | .minedNoop => "mined-noop"
  | .alreadyFinalized => "already-finalized"
  | .alreadySigned => "already-signed"
  | .failedRetryable => "failed-retryable"
  | .failedTerminal => "failed-terminal"

/-! ## Reward files -/

/-- `_MERKLE_ROOT_RE.match`, that is `^0x[0-9a-fA-F]{64}$`; the `$` also matches before a final
newline. -/
def merkleRootRe (s : String) : Bool :=
  match s.toList with
  | '0' :: 'x' :: rest =>
    (rest.take 64).all (fun c => (Py.hexDigit? c).isSome) &&
      (rest.length == 64 || (rest.length == 65 && rest.getLast? == some '\n'))
  | _ => false

/-- A `reward-distribution-data.json` the pydantic model accepted. -/
structure RewardDistributionData where
  rewardEpochId : Int
  merkleRoot : String
  noOfWeightBasedClaims : Int
  rewardClaims : List RewardClaimWithProofDict
  merkleRoot_ok : merkleRootRe merkleRoot = true
  noOfWeightBasedClaims_ok : 0 ≤ noOfWeightBasedClaims

def RewardDistributionFields.validate (f : RewardDistributionFields) :
    Option RewardDistributionData :=
  if hr : merkleRootRe f.merkleRoot = true then
    if hn : 0 ≤ f.noOfWeightBasedClaims then
      some ⟨f.rewardEpochId, f.merkleRoot, f.noOfWeightBasedClaims, f.rewardClaims.getD [], hr, hn⟩
    else none
  else none

/-- The fields a validated file was read from. -/
def RewardDistributionData.fields (d : RewardDistributionData) : RewardDistributionFields :=
  ⟨d.rewardEpochId, d.merkleRoot, d.noOfWeightBasedClaims, some d.rewardClaims⟩

@[simp] theorem RewardDistributionData.validate_fields (d : RewardDistributionData) :
    d.fields.validate = some d := by
  simp [RewardDistributionFields.validate, RewardDistributionData.fields, d.merkleRoot_ok,
    d.noOfWeightBasedClaims_ok]

/-- The inner struct `(uint24, bytes20, uint120, uint8)` of a claim. -/
structure RewardClaimBody where
  rewardEpochId : Int
  beneficiary : String
  amount : Int
  claimType : Int
deriving DecidableEq

structure RewardClaimWithProof where
  merkleProof : List String
  body : RewardClaimBody
deriving DecidableEq

/-- `get_reward_distribution_data`: `None` for a file that is missing or does not validate. -/
def getRewardDistributionData (s : Settings) (epoch : Int) : Py (Option RewardDistributionData) := do
  let f ← io (.readRewardDistributionData s.network epoch)
  return f.bind RewardDistributionFields.validate

/-- `get_reward_calculation_data`: the tuples variant. -/
def getRewardCalculationData (s : Settings) (epoch : Int) : Py (Option RewardsData) :=
  io (.readRewardCalculationData s.network epoch)

theorem runs_getRewardDistributionData {s : Settings} {epoch : Int} {t : Trace}
    {r : Except Exc (Option RewardDistributionData)} :
    Runs (getRewardDistributionData s epoch) t r ↔
      ∃ f, t = [⟨.readRewardDistributionData s.network epoch, f⟩] ∧
        r = .ok (f.bind RewardDistributionFields.validate) := by
  unfold getRewardDistributionData
  rw [runs_bind]
  constructor
  · rintro (⟨f, t₁, t₂, rfl, h₁, h₂⟩ | ⟨e, h, -⟩)
    · obtain ⟨ans, rfl, hans⟩ := runs_ask.mp h₁
      obtain ⟨rfl, rfl⟩ := runs_pure.mp h₂
      cases hans
      exact ⟨f, by simp, rfl⟩
    · obtain ⟨ans, -, h⟩ := runs_ask.mp h
      cases h
  · rintro ⟨f, rfl, rfl⟩
    exact Or.inl ⟨f, _, [], (List.append_nil _).symm, runs_ask.mpr ⟨f, rfl, rfl⟩, rfl, rfl⟩

end Clif

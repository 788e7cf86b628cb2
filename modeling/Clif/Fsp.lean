import Clif.Claimer

/-!
# Fsp — `fsp.py`: leg 1 signs the protocol message, leg 2 signs and submits the transaction

The two signers share their legs; `signAndSubmit` is that shared part, and `runSignUptime` and
`runSignRewards` are what each does before it.
-/

namespace Clif

open Effect

/-! ## Benign reverts -/

/-- `_FSP_FINALIZATION_REVERTS`. -/
def fspFinalizationReverts : MessageType → String
  | .rewardDistribution => "rewards hash already signed"
  | .uptime => "uptime vote hash already signed"

def fspAlreadySignedRevert : String := "voter already signed"

/-- `_is_finalization_revert`. -/
def isFinalizationRevert (mt : MessageType) : Option String → Bool
  | none => false
  | some reason => Py.isIn (Py.lower (fspFinalizationReverts mt)) (Py.lower reason)

/-- `_is_already_signed_revert`. -/
def isAlreadySignedRevert : Option String → Bool
  | none => false
  | some reason => Py.isIn fspAlreadySignedRevert (Py.lower reason)

/-! ## Outcomes and configuration -/

def operatorProvisionHint : String :=
  "operator must provision TWO fwd FSP callers (fwd cross-domain policy_path " ++
  "rule: one caller cannot span both fsp_permissions and permissions): " ++
  "clif-fsp-sign → fsp_permissions (Leg-1 /v1/sign-fsp-message); " ++
  "clif-fsp-submit → permissions for FlareSystemsManager (Leg-2 /v1/sign-transaction). " ++
  "Also: FSP wallets, FlareSystemsManager ABI+policy — clif never authors fwd policy"

structure FspOutcome where
  messageType : MessageType
  rewardEpochId : Int
  status : OutcomeStatus
  detail : String
  messageHash : Option String := none
  leg1Sig : Option (Int × String × String) := none
  txId : Option String := none
  txHash : Option String := none
deriving DecidableEq

/-- The four settings of a message type, by the name of their environment variable. -/
def fspConfig (s : Settings) : MessageType → List (String × Option String)
  | .uptime =>
    [("FSP_UPTIME_SIGN_CALLER_TOKEN", s.fspUptimeSignCallerToken),
      ("FSP_UPTIME_SUBMIT_CALLER_TOKEN", s.fspUptimeSubmitCallerToken),
      ("FSP_SIGNING_WALLET_NAME", s.fspSigningWalletName),
      ("FSP_SENDER_WALLET_NAME", s.fspSenderWalletName)]
  | .rewardDistribution =>
    [("FSP_REWARD_SIGN_CALLER_TOKEN", s.fspRewardSignCallerToken),
      ("FSP_REWARD_SUBMIT_CALLER_TOKEN", s.fspRewardSubmitCallerToken),
      ("FSP_SIGNING_WALLET_NAME", s.fspSigningWalletName),
      ("FSP_SENDER_WALLET_NAME", s.fspSenderWalletName)]

def missingFspConfig (s : Settings) (mt : MessageType) : List String :=
  ((fspConfig s mt).filter fun nv => !Py.truthy nv.2).map Prod.fst

/-- `_check_fsp_config`. -/
def checkFspConfig (s : Settings) (mt : MessageType) (epoch : Int) : Option FspOutcome :=
  if (missingFspConfig s mt).isEmpty then none
  else some
    { messageType := mt, rewardEpochId := epoch, status := .failedTerminal
      detail := "missing FSP config: " ++ ", ".intercalate (missingFspConfig s mt) ++ " — " ++
        operatorProvisionHint }

theorem checkFspConfig_status {s : Settings} {mt : MessageType} {epoch : Int} {err : FspOutcome}
    (h : checkFspConfig s mt epoch = some err) : err.status = .failedTerminal := by
  unfold checkFspConfig at h
  split at h
  · cases h
  · cases h
    rfl

/-- The hint after a denial: an operator has not provisioned the caller. -/
def denialHint (status : Int) : String :=
  if status = 403 ∨ status = 404 then " — " ++ operatorProvisionHint else ""

/-! ## Broadcast and confirmation -/

/-- The outcome of a transaction that reverted, by the reason of the revert. -/
def classifyRevert (mt : MessageType) (epoch : Int) (reason : Option String) :
    OutcomeStatus × String :=
  if isFinalizationRevert mt reason then
    (.alreadyFinalized, match mt with
      | .rewardDistribution => s!"epoch {epoch} rewards finalized by the network " ++
          "(>threshold) before our signature — too late this round (not a fault)"
      | .uptime => s!"epoch {epoch} uptime finalized by the network " ++
          "(>threshold) before our signature — too late this round (not a fault)")
  else if isAlreadySignedRevert reason then
    (.alreadySigned, s!"epoch {epoch} already signed by us — our vote is on-chain " ++
      "(duplicate refused); awaiting network finalization (not a fault)")
  else (.failedTerminal, "tx reverted on-chain: " ++ orElse reason "unknown")

section

variable [External]

/-- The part of `_broadcast_and_confirm` after the receipt was polled. -/
def confirmFsp (caller : Option String) (mt : MessageType) (epoch : Int)
    (resp : SignTransactionResponse) (broadcastHash : String)
    (out : OutcomeStatus → String → FspOutcome) (receipt : Receipt) : Py FspOutcome := do
  let blockNumber ← fromExcept (receiptInt receipt.blockNumber)
  let status ← fromExcept (receiptInt receipt.status)
  reportQuietly caller (.reportReceipt resp.txId broadcastHash
    (if status == 1 then .minedSuccess else .minedReverted) blockNumber)
  if status != 1 then
    let reason ← getRevertReason broadcastHash
    return out (classifyRevert mt epoch reason).1 (classifyRevert mt epoch reason).2
  else return out .submittedMined "mined"

/-- `_broadcast_and_confirm`. -/
def broadcastAndConfirm (caller : Option String) (hasRpc : Bool) (resp : SignTransactionResponse)
    (mt : MessageType) (epoch : Int) (sig : SignFspMessageResponse) (waitTimeout : Nat) :
    Py FspOutcome := do
  let out (txHash : String) (status : OutcomeStatus) (detail : String) : FspOutcome :=
    { messageType := mt, rewardEpochId := epoch, status := status, detail := detail,
      messageHash := some sig.messageHash, leg1Sig := some (sig.v, sig.r, sig.s),
      txId := some resp.txId, txHash := some txHash }
  if !hasRpc then return out resp.hash .submittedPending "signed (no rpc — cannot broadcast)"
  else
    broadcastSigned caller resp (out resp.hash) fun broadcastHash => do
      match ← pollReceipt broadcastHash waitTimeout with
      | none => return out broadcastHash .submittedPending "submitted; receipt poll timed out"
      | some receipt => confirmFsp caller mt epoch resp broadcastHash (out broadcastHash) receipt

/-! ## The two legs -/

/-- What the two signers do differently in their legs. -/
structure LegPlan where
  messageType : MessageType
  signToken : Option String
  submitToken : Option String
  /-- Leg 1's request under an idempotency key. -/
  request : String → SignFspRequest
  /-- Leg 2's calldata for leg 1's signature. -/
  calldata : SignFspMessageResponse → Except Exc String

def fspTxBody (s : Settings) (data : String) (fees : Int × Int) : TxBody :=
  { wallet := s.fspSenderWalletName
    chain := s.net.chainId
    toAddr := s.net.flareSystemsManager
    data := data
    valueWei := "0"
    gas := s.fspSubmitGas
    maxFeePerGas := fees.1
    maxPriorityFeePerGas := fees.2 }

/-- How a refusal of leg 2 ends; a conflict of idempotency keys is no fault. -/
def leg2Refusal (status : Int) (errorCode text : String) : OutcomeStatus × String :=
  if errorCode = "idempotency_conflict" then
    (.failedRetryable,
      s!"fwd leg-2 already submitted (idempotency_conflict; awaiting prior result): {text}")
  else (.failedTerminal, s!"fwd leg-2 denied: {text}{denialHint status}")

/-- Leg 2, from leg 1's signature on. -/
def submitLeg (s : Settings) (plan : LegPlan) (epoch : Int) (wait : Bool) (waitTimeout : Nat)
    (token : Option String) (hasRpc : Bool) (sig : SignFspMessageResponse) : Py FspOutcome := do
  let out (status : OutcomeStatus) (detail : String) : FspOutcome :=
    { messageType := plan.messageType, rewardEpochId := epoch, status := status, detail := detail,
      messageHash := some sig.messageHash, leg1Sig := some (sig.v, sig.r, sig.s) }
  let data ← fromExcept (plan.calldata sig)
  let leg2Key := makeFspIdempotencyKey s.network plan.messageType epoch .submit token
  match ← feesOr hasRpc with
  | .error msg => return out .failedRetryable s!"fee suggestion rpc failure: {msg}"
  | .ok fees =>
    match ← attempt (fwd plan.submitToken (.signTransaction (fspTxBody s data fees) leg2Key)) with
    | .error (.fwdTerminal status code text) =>
      return out (leg2Refusal status code text).1 (leg2Refusal status code text).2
    | .error (.fwdRetryable _ _ text) =>
      return out .failedRetryable s!"fwd leg-2 transient: {text}"
    | .error e => throw e
    | .ok resp =>
      if !wait then
        return { out .submittedPending "submitted (no wait)" with
          txId := some resp.txId, txHash := some resp.hash }
      else
        broadcastAndConfirm plan.submitToken hasRpc resp plan.messageType epoch sig waitTimeout

/-- Both legs, as `run_sign_uptime` and `run_sign_rewards` share them. -/
def signAndSubmit (s : Settings) (plan : LegPlan) (epoch : Int) (wait : Bool) (waitTimeout : Nat)
    (token : Option String) (hasRpc : Bool) : Py FspOutcome := do
  let out (status : OutcomeStatus) (detail : String) : FspOutcome :=
    { messageType := plan.messageType, rewardEpochId := epoch, status := status, detail := detail }
  let leg1Key := makeFspIdempotencyKey s.network plan.messageType epoch .sign token
  match ← attempt (fwd plan.signToken (.signFspMessage (plan.request leg1Key))) with
  | .error (.fwdTerminal status _ text) =>
    return out .failedTerminal s!"fwd leg-1 denied: {text}{denialHint status}"
  | .error (.fwdRetryable _ _ text) =>
    return out .failedRetryable s!"fwd leg-1 transient: {text}"
  | .error e => throw e
  | .ok sig => submitLeg s plan epoch wait waitTimeout token hasRpc sig

/-! ## Uptime -/

def uptimePlan (s : Settings) (epoch : Int) : LegPlan :=
  { messageType := .uptime
    signToken := s.fspUptimeSignCallerToken
    submitToken := s.fspUptimeSubmitCallerToken
    request := fun key =>
      { wallet := s.fspSigningWalletName, messageType := .uptime, rewardEpochId := epoch,
        idempotencyKey := key }
    calldata := fun sig => buildSignUptimeCalldata epoch sig.v sig.r sig.s }

/-- The pre-flight of the two signers: whether the view reads a hash that is not zero.  A failing
read is logged and passed over. -/
def finalizedAlready (hasRpc : Bool) (read : Py String) : Py Bool := do
  if hasRpc then
    match ← attempt read with
    | .ok h => return h != zeroBytes32
    | .error (.rpcError _) => return false
    | .error e => throw e
  else return false

/-- `run_sign_uptime`. -/
def runSignUptime (s : Settings) (epoch : Int) (wait : Bool) (waitTimeout : Nat)
    (retry : Option String) (hasRpc : Bool) : Py FspOutcome := do
  enter (.runSignUptime epoch)
  match checkFspConfig s .uptime epoch with
  | some err => return err
  | none =>
    if ← finalizedAlready hasRpc (rpc (.uptimeVoteHash s.net.flareSystemsManager epoch)) then
      return { messageType := .uptime, rewardEpochId := epoch, status := .alreadyFinalized
               detail := s!"epoch {epoch} uptime already finalized by the network " ++
                "(>threshold) — nothing to sign this round" }
    else
      signAndSubmit s (uptimePlan s epoch) epoch wait waitTimeout
        (retryToken retry s.fspIdempotencyRetry) hasRpc

/-! ## Rewards -/

def rewardsPlan (s : Settings) (epoch : Int) (rdd : RewardDistributionData) : LegPlan :=
  { messageType := .rewardDistribution
    signToken := s.fspRewardSignCallerToken
    submitToken := s.fspRewardSubmitCallerToken
    request := fun key =>
      { wallet := s.fspSigningWalletName, messageType := .rewardDistribution, rewardEpochId := epoch,
        chainId := some s.net.chainId, noOfWeightBasedClaims := some rdd.noOfWeightBasedClaims,
        rewardsHash := some rdd.merkleRoot, idempotencyKey := key }
    calldata := fun sig => buildSignRewardsCalldata epoch s.net.chainId rdd.noOfWeightBasedClaims
      rdd.merkleRoot sig.v sig.r sig.s }

/-- The recomputation of the root, skipped for a file without claims: the text of the refusal. -/
def rootRefusal (rdd : RewardDistributionData) : Except Exc (Option String) :=
  if rdd.rewardClaims.isEmpty then .ok none
  else do
    let recomputed ← buildRewardMerkleRoot (rdd.rewardClaims.map fun c => c.body)
    return if Py.lower recomputed != Py.lower rdd.merkleRoot then
      some (s!"recomputed merkle root != published merkleRoot — refusing to sign: " ++
        s!"recomputed={recomputed} published={rdd.merkleRoot}")
    else none

def epochMismatch (rdd : RewardDistributionData) (epoch : Int) : String :=
  "reward-distribution-data epoch mismatch: file rewardEpochId=" ++
  s!"{rdd.rewardEpochId} != signing epoch {epoch} — " ++
  "refusing to sign a rewardsHash bound to a different epoch " ++
  "(stale cache / wrong operator file / wrong-epoch payload)"

/-- `run_sign_rewards` after its checks of the file: the pre-flight and the two legs. -/
def signCheckedRewards (s : Settings) (epoch : Int) (rdd : RewardDistributionData) (wait : Bool)
    (waitTimeout : Nat) (retry : Option String) (hasRpc : Bool) : Py FspOutcome := do
  if ← finalizedAlready hasRpc (rpc (.rewardsHash s.net.flareSystemsManager epoch)) then
    return { messageType := .rewardDistribution, rewardEpochId := epoch, status := .alreadyFinalized
             detail := s!"epoch {epoch} rewards already finalized by the network " ++
              "(>threshold) — nothing to sign this round" }
  else
    signAndSubmit s (rewardsPlan s epoch rdd) epoch wait waitTimeout
      (retryToken retry s.fspIdempotencyRetry) hasRpc

/-- `run_sign_rewards`. -/
def runSignRewards (s : Settings) (epoch : Int) (wait : Bool) (waitTimeout : Nat)
    (retry : Option String) (hasRpc : Bool) : Py FspOutcome := do
  enter (.runSignRewards epoch)
  let refuse (detail : String) : FspOutcome :=
    { messageType := .rewardDistribution, rewardEpochId := epoch, status := .failedTerminal,
      detail := detail }
  match checkFspConfig s .rewardDistribution epoch with
  | some err => return err
  | none =>
    match ← getRewardDistributionData s epoch with
    | none =>
      return refuse "reward-distribution-data unavailable — refusing to sign unverified rewardsHash"
    | some rdd =>
      if rdd.rewardEpochId ≠ epoch then return refuse (epochMismatch rdd epoch)
      else
        match ← fromExcept (rootRefusal rdd) with
        | some refusal => return refuse refusal
        | none => signCheckedRewards s epoch rdd wait waitTimeout retry hasRpc

end

end Clif

import Clif.Discovery

/-!
# Claimer — `claimer.py`: calldata, `fwd` signs, `clif` broadcasts, confirm by effect
-/

namespace Clif

open Effect

/-! ## Broadcast errors -/

def nonceTooLowMarkers : List String := ["nonce too low", "nonce too small", "tx nonce too low"]

/-- `_classify_broadcast_error`, on the text of the `RpcError`. -/
def classifyBroadcastError (msg : String) : BroadcastOutcome :=
  if nonceTooLowMarkers.any fun marker => Py.isIn marker (Py.lower msg) then .rejectedNonceTooLow
  else .rejectedReleaseable

/-- A report to `fwd` whose own failure is swallowed, as the source's
`except (FwdRetryableError, FwdTerminalError, FwdError)` does. -/
def reportQuietly (caller : Option String) (o : FwdOp) : Py Unit := do
  match ← attempt (fwd caller o) with
  | .ok _ => return ()
  | .error e => if e.isFwd then return () else throw e

/-- What is left of the answer to a report. -/
def swallow {α : Type} : Except Exc α → Except Exc Unit
  | .ok _ => .ok ()
  | .error e => if e.isFwd then .ok () else .error e

theorem runs_reportQuietly {caller : Option String} {o : FwdOp} {t : Trace}
    {r : Except Exc Unit} :
    Runs (reportQuietly caller o) t r ↔ ∃ ans, t = [⟨.fwd caller o, ans⟩] ∧ r = swallow ans := by
  unfold reportQuietly
  rw [runs_attempt_fwd_bind]
  constructor
  · rintro ⟨x, t', rfl, h⟩
    cases x with
    | ok a =>
      obtain ⟨rfl, rfl⟩ := runs_pure.mp h
      exact ⟨.ok a, rfl, rfl⟩
    | error e =>
      by_cases he : e.isFwd = true
      · obtain ⟨rfl, rfl⟩ := runs_pure.mp (by simpa [he] using h)
        exact ⟨.error e, rfl, by simp [swallow, he]⟩
      · obtain ⟨rfl, rfl⟩ := runs_throw.mp (by simpa [he] using h)
        exact ⟨.error e, rfl, by simp [swallow, he]⟩
  · rintro ⟨ans, rfl, rfl⟩
    refine ⟨ans, [], rfl, ?_⟩
    cases ans with
    | ok a => exact ⟨rfl, rfl⟩
    | error e => by_cases he : e.isFwd = true <;> simp [swallow, he]

theorem runs_reportQuietly_bind {α : Type} {caller : Option String} {o : FwdOp} {f : Unit → Py α}
    {t : Trace} {r : Except Exc α} :
    Runs (reportQuietly caller o >>= f) t r ↔ ∃ ans t', t = ⟨.fwd caller o, ans⟩ :: t' ∧
      ((swallow ans = .ok () ∧ Runs (f ()) t' r) ∨
        ∃ e, swallow ans = .error e ∧ t' = [] ∧ r = .error e) := by
  rw [runs_bind]
  constructor
  · rintro (⟨u, t₁, t₂, rfl, h₁, h₂⟩ | ⟨e, h₁, rfl⟩)
    · obtain ⟨ans, rfl, hans⟩ := runs_reportQuietly.mp h₁
      exact ⟨ans, t₂, rfl, Or.inl ⟨hans.symm, h₂⟩⟩
    · obtain ⟨ans, rfl, hans⟩ := runs_reportQuietly.mp h₁
      exact ⟨ans, [], rfl, Or.inr ⟨e, hans.symm, rfl, rfl⟩⟩
  · rintro ⟨ans, t', rfl, ⟨hans, h⟩ | ⟨e, hans, rfl, rfl⟩⟩
    · exact Or.inl ⟨(), [_], t', rfl, runs_reportQuietly.mpr ⟨ans, rfl, hans.symm⟩, h⟩
    · exact Or.inr ⟨e, runs_reportQuietly.mpr ⟨ans, rfl, hans.symm⟩, rfl⟩

/-- The broadcast of a signed blob, which `submit_claims` and `_broadcast_and_confirm` write alike:
a failure is classified, reported and ends the submission; an accepted blob is reported and `go`
goes on with the hash the node answered. -/
def broadcastSigned {α : Type} (caller : Option String) (resp : SignTransactionResponse)
    (out : OutcomeStatus → String → α) (go : String → Py α) : Py α := do
  match ← attempt (rpc (.sendRawTransaction resp.signedRawTx)) with
  | .error (.rpcError msg) =>
    reportQuietly caller (.reportBroadcastResult resp.txId resp.hash
      (classifyBroadcastError msg) (some "RpcError"))
    match classifyBroadcastError msg with
    | .rejectedNonceTooLow =>
      return out .failedRetryable s!"broadcast rejected (nonce too low): {msg}"
    | _ => return out .failedTerminal s!"broadcast rejected (RpcError): {msg}"
  | .error e => throw e
  | .ok broadcastHash =>
    reportQuietly caller (.reportBroadcastResult resp.txId broadcastHash .accepted none)
    go broadcastHash

/-! ## Effect of a mined claim -/

def Receipt.hasLogOf (receipt : Receipt) (rewardManager : String) : Bool :=
  receipt.logs.any fun lg => Py.lower lg.address == Py.lower rewardManager

/-- `_claim_took_effect`: a mined receipt counts by its log of the reward manager, never by its
status alone. -/
def claimTookEffect (rewardManager txHash : String) : Py Bool := do
  match ← attempt (rpc (.getTransactionReceipt txHash)) with
  | .ok (some receipt) => return receipt.hasLogOf rewardManager
  | .ok none => return false
  | .error (.rpcError _) => return false
  | .error e => throw e

/-! ## Outcomes -/

structure ClaimOutcome where
  claimType : Int
  claimTypeName : String
  beneficiary : String
  status : OutcomeStatus
  detail : String
  epochs : List Int := []
  lastEpoch : Option Int := none
  txId : Option String := none
  txHash : Option String := none
deriving DecidableEq

variable [External]

/-! ## Broadcast and confirmation of a signed claim -/

/-- The part of `submit_claims` after the receipt was polled. -/
def confirmClaim (s : Settings) (resp : SignTransactionResponse) (broadcastHash : String)
    (out : OutcomeStatus → String → ClaimOutcome) (receipt : Receipt) : Py ClaimOutcome := do
  let blockNumber ← fromExcept (receiptInt receipt.blockNumber)
  let status ← fromExcept (receiptInt receipt.status)
  reportQuietly s.fwdCallerToken (.reportReceipt resp.txId broadcastHash
    (if status == 1 then .minedSuccess else .minedReverted) blockNumber)
  if status != 1 then return out .failedTerminal "tx reverted on-chain"
  else if ← claimTookEffect s.net.rewardManager broadcastHash then
    return out .submittedMined "mined"
  else
    return out .minedNoop ("mined but claimed nothing — epoch already claimed " ++
      "(no RewardManager event in receipt)")

/-- The part of `submit_claims` after `fwd` signed, with an `RpcClient` and `wait=True`. -/
def broadcastClaim (s : Settings) (waitTimeout : Nat) (resp : SignTransactionResponse)
    (out : String → OutcomeStatus → String → ClaimOutcome) : Py ClaimOutcome :=
  broadcastSigned s.fwdCallerToken resp (out resp.hash) fun broadcastHash => do
    match ← pollReceipt broadcastHash waitTimeout with
    | none => return out broadcastHash .submittedPending "submitted; receipt poll timed out"
    | some receipt => confirmClaim s resp broadcastHash (out broadcastHash) receipt

/-! ## Submission -/

/-- `(max_fee_per_gas, max_priority_fee_per_gas)` of a submission without an `RpcClient`. -/
def offlineFees : Int × Int := (100000000000, 1000000000)

/-- The fees of a submission; an `RpcError` is handed over. -/
def feesOr (hasRpc : Bool) : Py (Except String (Int × Int)) := do
  if hasRpc then
    match ← attempt suggestFees with
    | .ok fees => return .ok fees
    | .error (.rpcError msg) => return .error msg
    | .error e => throw e
  else return .ok offlineFees

def claimTxBody (s : Settings) (data : String) (fees : Int × Int) : TxBody :=
  { wallet := s.fwdWalletName
    chain := s.net.chainId
    toAddr := s.net.rewardManager
    data := data
    valueWei := "0"
    gas := s.fspSubmitGas
    maxFeePerGas := fees.1
    maxPriorityFeePerGas := fees.2 }

/-- `retry if retry is not None else settings_retry`. -/
def retryToken (retry settingsRetry : Option String) : Option String :=
  match retry with
  | some r => some r
  | none => settingsRetry

/-- `submit_claims`.  `hasRpc` says whether an `RpcClient` was passed. -/
def submitClaims (s : Settings) (claimType : Int) (beneficiary : String)
    (claims : List RewardClaimWithProof) (wait : Bool) (waitTimeout : Nat) (retry : Option String)
    (hasRpc : Bool) : Py ClaimOutcome := do
  let ct ← fromExcept (claimTypeOf claimType)
  let out (status : OutcomeStatus) (detail : String) : ClaimOutcome :=
    { claimType := claimType, claimTypeName := ct.name, beneficiary := beneficiary,
      status := status, detail := detail }
  if !Py.truthy s.fwdWalletName || !Py.truthy s.fwdCallerToken then
    return out .failedTerminal "FWD_WALLET_NAME / FWD_CALLER_TOKEN not set"
  else if !Py.truthy s.claimRecipientAddress then
    return out .failedTerminal "CLAIM_RECIPIENT_ADDRESS not set"
  else
    let epochs := claims.map fun c => c.body.rewardEpochId
    match epochs.getLast? with
    | none => return out .nothingClaimable "no claimable rewards"
    | some lastEpoch =>
      let data ← fromExcept (buildClaimCalldata beneficiary (s.claimRecipientAddress.getD "")
        lastEpoch s.wrapRewards claims)
      let idem := makeIdempotencyKey s.network claimType beneficiary lastEpoch
        (retryToken retry s.idempotencyRetry)
      let out (status : OutcomeStatus) (detail : String) : ClaimOutcome :=
        { out status detail with epochs := epochs, lastEpoch := some lastEpoch }
      match ← feesOr hasRpc with
      | .error msg => return out .failedRetryable s!"fee estimation rpc failure: {msg}"
      | .ok fees =>
        match ← attempt (fwd s.fwdCallerToken (.signTransaction (claimTxBody s data fees) idem)) with
        | .error (.fwdTerminal _ _ text) => return out .failedTerminal s!"fwd denied/failed: {text}"
        | .error (.fwdRetryable _ _ text) => return out .failedRetryable s!"fwd transient: {text}"
        | .error e => throw e
        | .ok resp =>
          let out (txHash : String) (status : OutcomeStatus) (detail : String) : ClaimOutcome :=
            { out status detail with txId := some resp.txId, txHash := some txHash }
          if !hasRpc then
            return out resp.hash .submittedPending "signed (no rpc — cannot broadcast)"
          else if !wait then return out resp.hash .submittedPending "submitted (no wait)"
          else broadcastClaim s waitTimeout resp out

/-! ## Discovery and submission -/

/-- The text of the outcome when discovery found nothing and no epoch was asked for. -/
def frontierDetail (frontier : List (Int × String)) : String :=
  if frontier.isEmpty then "no claimable rewards"
  else "nothing pending — " ++
    "; ".intercalate (frontier.map fun er => s!"epoch {er.1}: {er.2}")

/-- What the pre-flight of `run_claim` says: the reason the epoch is not claimable. -/
def preflight (s : Settings) (beneficiary : String) : Option Int → Py (Option String)
  | none => return none
  | some epoch => unclaimableReason s beneficiary epoch

/-- `run_claim`. -/
def runClaim (s : Settings) (claimType : Int) (beneficiary : String) (onlyEpoch : Option Int)
    (wait : Bool) (waitTimeout : Nat) (retry : Option String) : Py ClaimOutcome := do
  enter (.runClaim claimType beneficiary onlyEpoch)
  let ct ← fromExcept (claimTypeOf claimType)
  let out (status : OutcomeStatus) (detail : String) : ClaimOutcome :=
    { claimType := claimType, claimTypeName := ct.name, beneficiary := beneficiary,
      status := status, detail := detail, lastEpoch := onlyEpoch }
  match ← attempt (preflight s beneficiary onlyEpoch) with
  | .error (.rpcError msg) => return out .failedRetryable s!"discovery rpc failure: {msg}"
  | .error e => throw e
  | .ok (some reason) =>
    return out .nothingClaimable s!"epoch {onlyEpoch.getD 0} {reason}"
  | .ok none =>
    match ← attempt (collectRewardClaims s beneficiary claimType onlyEpoch) with
    | .error (.rpcError msg) => return out .failedRetryable s!"discovery rpc failure: {msg}"
    | .error e => throw e
    | .ok [] =>
      match onlyEpoch with
      | some epoch =>
        return out .nothingClaimable s!"epoch {epoch} no rewards accrued for this beneficiary"
      | none =>
        match ← attempt (classifyClaimFrontier s beneficiary claimType) with
        | .error (.rpcError msg) => return out .failedRetryable s!"discovery rpc failure: {msg}"
        | .error e => throw e
        | .ok frontier => return out .nothingClaimable (frontierDetail frontier)
    | .ok claims => submitClaims s claimType beneficiary claims wait waitTimeout retry true

end Clif

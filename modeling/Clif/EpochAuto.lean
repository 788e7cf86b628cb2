import Clif.AutoState
import Clif.Fsp
import Clif.SigningProgress

/-!
# EpochAuto — the epoch-anchored sign → claim state machine, `epoch_auto.py`

`driveEpoch` advances one closed epoch by one cycle, `runCycle` drives every epoch of the cycle.
`runCycleWith` is `run_cycle` with the drive of one epoch as a parameter.
-/

namespace Clif

open Effect

def maxCatchup : Int := 8

/-- `_CLAIM_DONE`: nothing left to do for this epoch and stream. -/
def claimDone : List OutcomeStatus := [.submittedMined, .minedNoop, .nothingClaimable]

def maxRewardSignRetries : Int := 3

/-- `_sign_retry_token`: the idempotency discriminator of the reward-sign legs. -/
def signRetryToken (base : Option String) (count : Int) : Option String :=
  if count ≤ 0 then base
  else if Py.truthy base then
    let b := base.getD ""
    some s!"{b}-r{count}"
  else some s!"r{count}"

inductive Phase where
  | rewardWait
  | rewardSign
  | claimWait
  | claim
  | done
deriving DecidableEq

def Phase.value : Phase → String
  | .rewardWait => "reward-wait"
  | .rewardSign => "reward-sign"
  | .claimWait => "claim-wait"
  | .claim => "claim"
  | .done => "done"

abbrev Action := String × String × String

structure EpochObs where
  epoch : Int
  phase : Phase
  detail : String
  done : Bool := false
  terminal : Bool := false
  /-- When the epoch becomes actionable. -/
  waitUntil : Option ℚ := none
  actions : List Action := []
deriving DecidableEq

/-- The maps a daemon keeps for its lifetime: `retry_counts` and `prog_cache`. -/
structure Mem where
  retryCounts : Dict Int Int := Dict.empty
  progCache : ProgCache := Dict.empty

/-- The retries counted for an epoch so far. -/
def Mem.retries (m : Mem) (epoch : Int) : Int := (m.retryCounts.get? epoch).getD 0

def Mem.bump (m : Mem) (epoch : Int) : Mem :=
  { m with retryCounts := m.retryCounts.set epoch (m.retries epoch + 1) }

/-- A step of the daemon: it may read and change the daemon's maps. -/
abbrev Daemon (α : Type) := StAct sig Exc Mem α

/-- What one call of `drive_epoch` is given besides the epoch. -/
structure DriveArgs where
  settings : Settings
  voter : String
  claimers : List (Int × String)
  now : ℚ
  uptimeEnabled : Bool
  initialDelay : Int
  epochEndTs : Int → Int
  ourSignedFn : Option (Int → Daemon Bool)

section

variable [External]

/-! ## The phases of one epoch -/

/-- The uptime phase, gated off by default. -/
def uptimePhase (a : DriveArgs) (epoch : Int) : Py (List Action) := do
  if a.uptimeEnabled then
    let h ← rpc (.uptimeVoteHash a.settings.net.flareSystemsManager epoch)
    if h == zeroBytes32 then
      let info ← rpc (.voterUptimeVoteSignInfo a.settings.net.flareSystemsManager epoch a.voter)
      if info.1 == 0 then
        let uo ← runSignUptime a.settings epoch true 600 none true
        return [("uptime", uo.status.value, uo.detail)]
      else return []
    else return []
  else return []

/-- The two views of the reward phase: `(finalized, signed_rewards)`. -/
def rewardViews (a : DriveArgs) (epoch : Int) : Py (Bool × Bool) := do
  let h ← rpc (.rewardsHash a.settings.net.flareSystemsManager epoch)
  let info ← rpc (.voterRewardsSignInfo a.settings.net.flareSystemsManager epoch a.voter)
  return (h != zeroBytes32, info.1 != 0)

/-- Both views revert with "not signed yet" before the first signature lands; then the events
tell whether we signed, if there is a way to ask. -/
def rewardState (a : DriveArgs) (epoch : Int) : Daemon (Bool × Bool) := do
  match ← lift (attempt (rewardViews a epoch)) with
  | .ok fs => return fs
  | .error (.rpcError msg) =>
    if Py.isIn "not signed yet" (Py.lower msg) then
      match a.ourSignedFn with
      | none => return (false, false)
      | some ourSigned =>
        let signed ← ourSigned epoch
        return (false, signed)
    else throw (.rpcError msg)
  | .error e => throw e

/-- What `drive_epoch` does with the outcome of the reward signature: it returns an observation,
or, when the network finalized before us, goes on to the claims. -/
def afterSign (epoch : Int) (network : Network) (actions : List Action) (ro : FspOutcome) :
    Daemon (Except EpochObs (List Action)) := do
  let actions := actions ++ [("rewards", ro.status.value, ro.detail)]
  match ro.status with
  | .failedTerminal =>
    return .error { epoch := epoch, phase := .rewardSign
                    detail := s!"reward sign TERMINAL: {ro.detail}"
                    terminal := true, actions := actions }
  | .alreadyFinalized => return .ok actions
  | .failedRetryable =>
    modify fun m => m.bump epoch
    let m ← get
    let n := m.retries epoch
    if maxRewardSignRetries ≤ n then
      return .error { epoch := epoch, phase := .rewardSign
                      detail := s!"reward sign failed-retryable x{n} despite fresh " ++
                        "idempotency keys — likely fwd nonce drift; run " ++
                        "`clifctl nonce-sync " ++ network.str ++ "`"
                      terminal := true, actions := actions }
    else
      return .error { epoch := epoch, phase := .rewardSign
                      detail := s!"reward sign {ro.status.value}; awaiting finalization"
                      actions := actions }
  | _ =>
    return .error { epoch := epoch, phase := .rewardSign
                    detail := s!"reward sign {ro.status.value}; awaiting finalization"
                    actions := actions }

/-- The reward phase of an epoch that is neither finalized nor signed by us. -/
def rewardSignPhase (a : DriveArgs) (epoch : Int) (actions : List Action) :
    Daemon (Except EpochObs (List Action)) := do
  let endTs := a.epochEndTs epoch
  if a.now < endTs + a.initialDelay then
    return .error { epoch := epoch, phase := .rewardWait
                    detail := s!"holding until epoch_end+{a.initialDelay}s (end_ts={endTs})"
                    waitUntil := some (endTs + a.initialDelay : ℚ), actions := actions }
  else
    match ← lift (getRewardDistributionData a.settings epoch) with
    | none =>
      return .error { epoch := epoch, phase := .rewardWait, detail := "rewards not yet published"
                      actions := actions }
    | some _ =>
      let m ← get
      let ro ← lift (runSignRewards a.settings epoch true 600
        (signRetryToken a.settings.fspIdempotencyRetry (m.retries epoch)) true)
      afterSign epoch a.settings.network actions ro

/-- The reward phase. -/
def rewardPhase (a : DriveArgs) (epoch : Int) (actions : List Action) :
    Daemon (Except EpochObs (List Action)) := do
  let st ← rewardState a epoch
  if st.1 then return .ok actions
  else if st.2 then
    return .error { epoch := epoch, phase := .claimWait
                    detail := "signed; awaiting network finalization (>threshold)"
                    actions := actions }
  else rewardSignPhase a epoch actions

/-- `run_claim` for every stream, this epoch only. -/
def claimStreams (s : Settings) (epoch : Int) : List (Int × String) → Py (List ClaimOutcome)
  | [] => return []
  | (ct, benef) :: rest => do
    let co ← runClaim s ct benef (some epoch) true 600 none
    let cos ← claimStreams s epoch rest
    return co :: cos

/-- The observation of the claim phase. -/
def claimObs (epoch : Int) (actions : List Action) (cos : List ClaimOutcome) : EpochObs :=
  let actions := actions ++
    cos.map fun co => ("claim:" ++ co.claimTypeName, co.status.value, co.detail)
  if cos.all fun co => claimDone.contains co.status then
    { epoch := epoch, phase := .done, detail := "claimed (only this epoch)", done := true,
      actions := actions }
  else
    { epoch := epoch, phase := .claim, detail := "claim incomplete; retry next cycle",
      terminal := cos.any fun co => co.status == .failedTerminal, actions := actions }

/-- `drive_epoch`. -/
def driveEpoch (a : DriveArgs) (epoch : Int) : Daemon EpochObs := do
  lift (enter (.driveEpoch epoch))
  let actions ← lift (uptimePhase a epoch)
  match ← rewardPhase a epoch actions with
  | .error obs => return obs
  | .ok actions =>
    let cos ← lift (claimStreams a.settings epoch a.claimers)
    return claimObs epoch actions cos

end

/-! ## One cycle -/

/-- `range(a, b)`. -/
def pyRange (a b : Int) : List Int := (List.range (b - a).toNat).map fun i : Nat => a + i

def cooldownObs (epoch : Int) : EpochObs :=
  { epoch := epoch, phase := .claim, detail := "in terminal cooldown — skipping", terminal := true }

section

variable {σ : Type}

/-- The loop of `run_cycle` over the closed epochs; `w` is `new_last_done`. -/
def cycleLoop (drive : Int → StAct sig Exc σ EpochObs) (key : String) (now : ℚ)
    (terminalCooldown : Int) :
    List Int → Int → Bool → StAct sig Exc (σ × AutoState) (Int × List EpochObs)
  | [], w, _ => return (w, [])
  | epoch :: rest, w, advancing => do
    let st ← get
    if st.2.inCooldown key epoch now then
      let r ← cycleLoop drive key now terminalCooldown rest w false
      return (r.1, cooldownObs epoch :: r.2)
    else
      let obs ← focus Prod.fst (fun m st => (m, st.2)) (drive epoch)
      modify fun st =>
        if obs.terminal then (st.1, st.2.recordTerminal key epoch now terminalCooldown) else st
      let r ← cycleLoop drive key now terminalCooldown rest
        (if obs.done && advancing then epoch else w) (obs.done && advancing)
      return (r.1, obs :: r.2)

/-- What `run_cycle` records in the state after the loop. -/
def recordCycle (key : String) (now : ℚ) (observations : List EpochObs) (st : AutoState) :
    AutoState :=
  let st := st.observe key ((observations.filter fun o => !o.done).map fun o => o.epoch) now
  match observations.getLast? with
  | none => st
  | some o =>
    let st := st.recordAttempt key now o.phase.value
    if observations.any fun o => o.done then st.recordSuccess key now else st

/-- The watermark a cycle starts from. -/
def startWatermark (lastDone : Option Int) (current : Int) : Int := lastDone.getD (current - 2)

/-- The first epoch of a cycle that starts from the watermark `w`. -/
def cycleStart (w current : Int) : Int := max (max (w + 1) (current - maxCatchup)) 0

def stateKey (network : Network) : String := network.str ++ ":epoch"

/-- `run_cycle`: `(new_last_done, current, observations)`. -/
def runCycleWith (drive : Int → StAct sig Exc σ EpochObs) (s : Settings) (lastDone : Option Int)
    (now : ℚ) (terminalCooldown : Int) :
    StAct sig Exc (σ × AutoState) (Int × Int × List EpochObs) := do
  let current ← lift (rpc (.currentRewardEpochId s.net.flareSystemsManager))
  let w := startWatermark lastDone current
  let r ← cycleLoop drive (stateKey s.network) now terminalCooldown
    (pyRange (cycleStart w current) current) w true
  modify fun st => (st.1, recordCycle (stateKey s.network) now r.2 st.2)
  return (r.1, current, r.2)

end

def runCycle [External] (a : DriveArgs) (lastDone : Option Int) (terminalCooldown : Int) :
    StAct sig Exc (Mem × AutoState) (Int × Int × List EpochObs) :=
  runCycleWith (driveEpoch a) a.settings lastDone a.now terminalCooldown

end Clif

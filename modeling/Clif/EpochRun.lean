import Clif.EpochAuto

/-!
# EpochRun — the daemon `clif epoch run` and its status file

A process is started enabled or disabled.  An enabled one resumes the watermark from the status
file and then cycles, writing a report after each cycle; a disabled one only writes its idle
report.  `FleetStep` is one such event, and a run is any sequence of them.
-/

namespace Clif

open Effect

/-! ## Reports -/

structure EpochView where
  epoch : Int
  phase : String
  detail : String
  done : Bool
  actions : List Action
deriving DecidableEq

/-- The status file.  `lastDoneEpoch` is `none` when the key is absent or null. -/
structure Report where
  updatedAtTs : ℚ
  network : Network
  pollIntervalSec : Int
  staleAfterSec : Option Int := none
  lastDoneEpoch : Option Int := none
  currentEpoch : Option Int := none
  disabled : Bool := false
  degraded : Bool := false
  reasons : List String := []
  epochs : List EpochView := []
deriving DecidableEq

def EpochObs.view (o : EpochObs) : EpochView :=
  ⟨o.epoch, o.phase.value, o.detail, o.done, o.actions⟩

/-- `build_epoch_report`. -/
def buildEpochReport (state : AutoState) (network : Network) (pollIntervalSec staleAfterSec : Int)
    (lastDoneEpoch currentEpoch : Option Int) (observations : List EpochObs) (now : ℚ) : Report :=
  { updatedAtTs := now
    network := network
    pollIntervalSec := pollIntervalSec
    staleAfterSec := some staleAfterSec
    lastDoneEpoch := lastDoneEpoch
    currentEpoch := currentEpoch
    degraded := (state.evaluate now staleAfterSec).1
    reasons := (state.evaluate now staleAfterSec).2
    epochs := observations.map EpochObs.view }

/-- `build_disabled_report`. -/
def buildDisabledReport (network : Network) (pollIntervalSec : Int) (now : ℚ) : Report :=
  { updatedAtTs := now
    network := network
    pollIntervalSec := pollIntervalSec
    disabled := true }

/-- `epoch_end_ts`, as `make_epoch_end_ts` closes it over the two timing constants. -/
def epochEndTs (timing : Int × Int) (epoch : Int) : Int := timing.1 + (epoch + 1) * timing.2

/-! ## One cycle of the daemon -/

/-- What an enabled process keeps between its cycles. -/
structure Process where
  lastDone : Option Int
  auto : AutoState := {}
  mem : Mem := {}
  timing : Option (Int × Int) := none

/-- `--from-epoch`, else the prior status file, else none. -/
def resumeWatermark (fromEpoch : Option Int) (status : Option Report) : Option Int :=
  match fromEpoch with
  | some e => some (e - 1)
  | none => status.bind Report.lastDoneEpoch

def Process.start (fromEpoch : Option Int) (status : Option Report) : Process :=
  { lastDone := resumeWatermark fromEpoch status }

section

variable [External]

/-- `rpc.reward_epoch_timing`, read once. -/
def timingOf (s : Settings) : Option (Int × Int) → Py (Int × Int)
  | some timing => return timing
  | none => do
    let first ← rpc (.firstRewardEpochStartTs s.net.flareSystemsManager)
    let duration ← rpc (.rewardEpochDurationSeconds s.net.flareSystemsManager)
    return (first, duration)

/-- Whether the daemon may ask the event log at all. -/
def logsConfigured (s : Settings) : Bool := s.logsRpc != s.rpcUrl && s.net.voterRegistry != ""

def Mem.onCache {α : Type} (p : StAct sig Exc ProgCache α) : Daemon α :=
  focus Mem.progCache (fun c m => { m with progCache := c }) p

/-- `_our_signed`: have we already signed rewards for the epoch, by the event log. -/
def ourSigned (s : Settings) (voter : String) (timing : Int × Int) (epoch : Int) : Daemon Bool := do
  lift (enter (.ourSigned epoch))
  if logsConfigured s then
    match ← attemptOn (Mem.onCache
        (refreshSigningProgress s.net epoch (some voter) (epochEndTs timing epoch) .rewards)) with
    | .ok progress => return progress.ourSigned
    | .error (.rpcError _) => return false
    | .error e => throw e
  else return false

/-- The signing progress of the active epochs, logged every cycle: only the cache changes. -/
def narrateEach (s : Settings) (voter : String) (timing : Int × Int) :
    List (Int × SigningKind) → StAct sig Exc ProgCache Unit
  | [] => return ()
  | (epoch, kind) :: rest => do
    let _ ← refreshSigningProgress s.net epoch (some voter) (epochEndTs timing epoch) kind
    narrateEach s voter timing rest

def narrate (s : Settings) (voter : String) (timing : Int × Int) (active : List Int) :
    Daemon Unit := do
  if !active.isEmpty && logsConfigured s then
    match ← attemptOn (Mem.onCache (narrateEach s voter timing
        (active.flatMap fun e => [(e, .uptime), (e, .rewards)]))) with
    | .ok _ => return ()
    | .error (.rpcError _) => return ()
    | .error e => throw e
  else return ()

/-- What `drive_epoch` is given by the daemon. -/
def daemonArgs (s : Settings) (voter : String) (claimers : List (Int × String)) (now : ℚ)
    (timing : Int × Int) : DriveArgs :=
  { settings := s
    voter := voter
    claimers := claimers
    now := now
    uptimeEnabled := s.uptimeAutoEnabled
    initialDelay := s.epochRewardInitialDelaySec
    epochEndTs := epochEndTs timing
    ourSignedFn := some (ourSigned s voter timing) }

/-- The body of the `try` of the loop: the observations with the current epoch. -/
def cycleBody (s : Settings) (voter : String) (claimers : List (Int × String)) (now : ℚ) :
    StAct sig Exc Process (List EpochObs × Int) := do
  let p ← get
  let timing ← lift (timingOf s p.timing)
  modify fun p => { p with timing := some timing }
  let r ← focus (fun p => (p.mem, p.auto)) (fun ma p => { p with mem := ma.1, auto := ma.2 })
    (runCycle (daemonArgs s voter claimers now timing) p.lastDone s.epochTerminalCooldownSec)
  modify fun p => { p with lastDone := some r.1 }
  focus Process.mem (fun m p => { p with mem := m })
    (narrate s voter timing ((r.2.2.filter fun o => !o.done).map fun o => o.epoch))
  return (r.2.2, r.2.1)

/-- Build the report; the evaluation prunes the cooldowns that expired. -/
def Process.report (s : Settings) (interval : Int) (reportNow : ℚ) (current : Option Int)
    (observations : List EpochObs) : StAct sig Exc Process Report := do
  let p ← get
  modify fun p => { p with auto := p.auto.pruned reportNow }
  return buildEpochReport p.auto s.network interval s.epochStaleAfterSec p.lastDone current
    observations reportNow

/-- One pass of the loop up to the report: a failing cycle reports without observations. -/
def daemonCycle (s : Settings) (voter : String) (claimers : List (Int × String)) (interval : Int)
    (now reportNow : ℚ) : StAct sig Exc Process Report := do
  match ← attemptOn (cycleBody s voter claimers now) with
  | .ok r => Process.report s interval reportNow (some r.2) r.1
  | .error (.rpcError _) => Process.report s interval reportNow none []
  | .error (.fwdRetryable ..) => Process.report s interval reportNow none []
  | .error e => throw e

end

end Clif

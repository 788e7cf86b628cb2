import Clif.Alert
import Clif.Observe.Closeout

/-!
# Observe.Health — `ObserveHealth` of `observe/health.py`: the severity of a snapshot, and its verdict

A snapshot is read at one moment, `now`.  A reason is the constructor with the values that its text
shows; the actions are texts.  `verdict_explains_iff` and `recovering_iff` compare the two lists of
cases.
-/

namespace Clif.Observe

/-! ## A snapshot -/

/-- One fact of the cross-check. -/
structure QuorumFact where
  status : Option String

/-- The keys of `budget` that are read. -/
structure BudgetStatus where
  severity : Option String := none
  ratePct : Option ℚ := none
  etaRoundsToBreach : Option Int := none

/-- The keys of `mincond` that are read. -/
structure MincondStatus where
  fdcExpected : Option Int := none
  fdcPct : Option ℚ := none
  missingInSpan : Option Int := none

structure ObserveHealth where
  network : String
  enabled : Bool
  writtenAt : Option Int := none
  lastBlock : Option Int := none
  head : Option Int := none
  liveLagBlocks : Int := 8
  budget : Option BudgetStatus := none
  mincond : Option MincondStatus := none
  windowRounds : Int := 0
  trailingClean : Int := 0
  complete : Int := 0
  missingSubmit1 : Int := 0
  missingSubmit2 : Int := 0
  revealOffences : Int := 0
  offWindow : Int := 0
  fdcRequestRounds : Int := 0
  fdcParticipated : Int := 0
  fdcMissing : Int := 0
  uptimePct : Option ℚ := none
  validatorNode : Option String := none
  quorum : Option (Dict String (Option QuorumFact)) := none
  quorumCrit : Bool := false
  registered : Option Bool := none
  rewardEpoch : Option Int := none
  error : Option String := none

inductive StreamState where
  | unknown
  | live
  | catchingUp
deriving DecidableEq

/-- The counters of isolated misses. -/
inductive Miss where
  | submit1
  | submit2
  | offWindow
  | fdc
deriving DecidableEq

/-- `_STALE_AFTER_SEC`. -/
def staleAfterSec : ℚ := 300

/-- `_PARTICIPATION_CRIT_PCT`, `_FDC_CRIT_PCT`. -/
def participationCritPct : ℚ := 90

def fdcCritPct : ℚ := 80

/-- `_RECOVERED_CLEAN_ROUNDS`. -/
def recoveredCleanRounds : Int := 3

/-- The figure is there, and below the floor. -/
def below (figure : Option ℚ) (floor : ℚ) : Bool :=
  match figure with
  | some x => decide (x < floor)
  | none => false

/-- `round(100.0 * part / whole, 1)`, of a positive whole. -/
def ratePct (part whole : Int) : Option ℚ :=
  if whole ≤ 0 then none else some (Py.percent part whole 1)

namespace ObserveHealth

variable (h : ObserveHealth) (now : ℚ)

def ageSec : Option ℚ := h.writtenAt.map fun t => max 0 (now - t)

def stale : Bool :=
  match h.ageSec now with
  | some age => decide (staleAfterSec < age)
  | none => false

def participationPct : Option ℚ := ratePct h.complete h.windowRounds

def fdcParticipationPct : Option ℚ := ratePct h.fdcParticipated h.fdcRequestRounds

def lagBlocks : Option Int :=
  match h.head, h.lastBlock with
  | some head, some lastBlock => some (max 0 (head - lastBlock))
  | _, _ => none

def streamState : StreamState :=
  match h.lagBlocks with
  | none => .unknown
  | some lag => if lag ≤ h.liveLagBlocks then .live else .catchingUp

/-- The facts that the other node disputes. -/
def disputedFacts : List String :=
  ((h.quorum.getD Dict.empty).entries.filter fun kv =>
    (kv.2.bind QuorumFact.status) == some "dispute").map Prod.fst

/-! ### The conditions -/

def disputed : Bool := !h.disputedFacts.isEmpty

def unregistered : Bool := h.registered == some false

def budgetCrit : Bool := (h.budget.bind BudgetStatus.severity) == some "CRIT"

def offended : Bool := decide (0 < h.revealOffences)

def participationLow : Bool := below h.participationPct participationCritPct

def fdcLow : Bool := decide (10 ≤ h.fdcRequestRounds) && below h.fdcParticipationPct fdcCritPct

/-- The ledger of the epoch is below the floor of the FDC. -/
def epochFdcLow : Bool :=
  decide (10 ≤ (h.mincond.bind MincondStatus.fdcExpected).getD 0) &&
    below (h.mincond.bind MincondStatus.fdcPct) fdcMinPct

def uptimeLow : Bool := Py.truthy h.validatorNode && below h.uptimePct uptimeMinPct

/-- A hole in the ledger of the epoch. -/
def hole : Bool := decide (0 < (h.mincond.bind MincondStatus.missingInSpan).getD 0)

def liveHole : Bool := h.streamState == .live && h.hole

def misses : List (Miss × Int) :=
  [(.submit1, h.missingSubmit1), (.submit2, h.missingSubmit2), (.offWindow, h.offWindow),
    (.fdc, h.fdcMissing)].filter fun m => m.2 != 0

def isolatedMiss : Bool :=
  h.missingSubmit1 != 0 || h.missingSubmit2 != 0 || h.offWindow != 0 || h.fdcMissing != 0

/-! ### Severity -/

def severity : Severity :=
  if h.error.isSome then .crit
  else if !h.enabled then .ok
  else if h.disputed && h.quorumCrit then .crit
  else if h.stale now then .crit
  else if h.unregistered then .crit
  else if h.budgetCrit then .crit
  else if h.windowRounds = 0 then .warn
  else if h.offended then .crit
  else if h.participationLow then .crit
  else if h.fdcLow then .crit
  else if h.epochFdcLow then .crit
  else if h.uptimeLow then .crit
  else if h.liveHole then .warn
  else if h.isolatedMiss then .warn
  else if h.disputed then .warn
  else .ok

def recovering : Bool :=
  if h.severity now ≠ .warn ∨ h.windowRounds = 0 then false
  else if (h.mincond.bind MincondStatus.missingInSpan).getD 0 ≠ 0 then false
  else h.isolatedMiss && decide (recoveredCleanRounds ≤ h.trailingClean)

end ObserveHealth

/-! ## The verdict -/

inductive HealthReason where
  | readError (error : String)
  | stale (ageSec : Int)
  | disputes (facts : List String)
  | notRegistered (rewardEpoch : Option Int)
  | budget (ratePct : Option ℚ) (etaRoundsToBreach : Option Int)
  | revealOffence (offences : Int)
  | participation (pct : Option ℚ)
  | fdcParticipation (pct : Option ℚ)
  | warmingUp
  | isolatedMiss (misses : List (Miss × Int))

inductive Headline where
  | disabled (network : String)
  | catchingUp (network : String)
  | healthy (network : String)
  | recovering (network : String) (reasons : List HealthReason) (trailingClean : Int)
  /-- The label is that of the level. -/
  | system (level : Severity) (network : String) (reasons : List HealthReason)

/-- The causes that a headline names. -/
def Headline.reasons : Headline → List HealthReason
  | .recovering _ reasons _ => reasons
  | .system _ _ reasons => reasons
  | _ => []

structure HealthVerdict where
  level : Severity
  headline : Headline
  actions : List String

namespace ObserveHealth

variable (h : ObserveHealth) (now : ℚ)

/-- A reason with its actions, if the condition holds. -/
def cause (condition : Bool) (reason : HealthReason) (actions : List String) :
    List (HealthReason × List String) :=
  if condition then [(reason, actions)] else []

/-- The causes that are looked for in every snapshot. -/
def causes : List (HealthReason × List String) :=
  let net := h.network
  cause h.error.isSome (.readError (h.error.getD ""))
      [s!"check the observe RPC, then restart clif-observe-{net} — monitoring is BLIND"] ++
    cause (h.stale now) (.stale ⌊(h.ageSec now).getD 0⌋)
      [s!"restart clif-observe-{net}; the engine stopped writing (flying blind)"] ++
    cause h.disputed (.disputes h.disputedFacts)
      (if h.quorumCrit then ["reconcile against a third source before trusting these numbers"]
        else []) ++
    cause h.unregistered (.notRegistered h.rewardEpoch)
      [s!"check Submit gas + registerVoter NOW (REG line / clif-registration-{net})"] ++
    cause h.budgetCrit
      (.budget (h.budget.bind BudgetStatus.ratePct)
        ((h.budget.bind BudgetStatus.etaRoundsToBreach).filter (· != 0)))
      ["investigate missed rounds immediately — the 20% floor is in play"] ++
    cause h.offended (.revealOffence h.revealOffences)
      ["investigate the value-provider / submit pipeline"] ++
    cause h.participationLow (.participation h.participationPct)
      [s!"confirm the voter is submitting on {net}"] ++
    cause h.fdcLow (.fdcParticipation h.fdcParticipationPct) ["check the FDC bitvote path"]

/-- The causes that are looked for in a snapshot of severity WARN. -/
def warnCauses : List (HealthReason × List String) :=
  cause (decide (h.windowRounds = 0)) .warmingUp [] ++
    cause (!h.misses.isEmpty) (.isolatedMiss h.misses)
      ["watch the next few rounds — not yet systemic"]

def verdict : HealthVerdict :=
  if !h.enabled then ⟨.ok, .disabled h.network, []⟩
  else
    let sev := h.severity now
    let found := h.causes now ++ (if sev = .warn then h.warnCauses else [])
    let reasons := found.map Prod.fst
    let actions := found.flatMap Prod.snd
    if sev = .ok then
      if h.streamState = .catchingUp then ⟨.ok, .catchingUp h.network, []⟩
      else ⟨.ok, .healthy h.network, []⟩
    else if h.recovering now then ⟨sev, .recovering h.network reasons h.trailingClean, []⟩
    else ⟨sev, .system sev h.network reasons, actions⟩

end ObserveHealth

/-! ## The report of the engine -/

/-- `report_interval`. -/
def reportInterval (severity : Severity) (healthySec degradedSec : ℚ) (recovering : Bool) : ℚ :=
  if severity ≠ .ok ∧ recovering = false then degradedSec else healthySec

inductive LogLevel where
  | info
  | warning
  | error
deriving DecidableEq

/-- The level at which `_maybe_log_status` writes a snapshot. -/
def statusLogLevel (h : ObserveHealth) (now : ℚ) : LogLevel :=
  if h.severity now = .crit then .error
  else if h.severity now = .warn ∧ h.recovering now = false then .warning
  else .info

end Clif.Observe

import Clif.Observe.Mincond

/-!
# Observe.Closeout — `observe/budget.py` and the close-out of a reward epoch in `observe/health.py`

`render_epoch_closeout` is modelled by the verdict it ends with, and what that verdict shows.
-/

namespace Clif.Observe

/-! ## The FTSO budget -/

/-- The part of `read_ftso_budget`'s answer that the close-out reads. -/
structure Budget where
  epoch : Int
  roundsElapsed : Int
  roundsTotal : Int
  ftsoSubmitted : Int
  ratePct : Option ℚ
deriving DecidableEq

/-- `rate_pct` of `budget_status`. -/
def budgetRatePct (rate : ℚ) (elapsed : Int) : Option ℚ :=
  if elapsed ≤ 0 then none else some (Py.round (Py.double (100 * rate)) 2)

/-- `read_ftso_budget`, from the current round and the two nonces. -/
def readFtsoBudget (nowRound nonceStart nonceNow : Int) : Budget :=
  let epoch := epochOf nowRound
  let elapsed := max 0 (nowRound - epoch * vrsPerRewardEpoch)
  let submitted := max 0 ((nonceNow - nonceStart).fdiv 2)
  let rate := if elapsed = 0 then 1 else Py.double (submitted / elapsed)
  { epoch := epoch
    roundsElapsed := elapsed
    roundsTotal := vrsPerRewardEpoch
    ftsoSubmitted := submitted
    ratePct := budgetRatePct rate elapsed }

/-- The uptime that the P-chain answered.  The source keeps the figure alone; `epoch` is the reward
epoch in which it was read. -/
structure UptimeReading where
  pct : ℚ
  epoch : Int
deriving DecidableEq

/-! ## The verdict -/

/-- `_FTSO_MIN_PCT`, `_FDC_MIN_PCT`, `_UPTIME_MIN_PCT`. -/
def ftsoMinPct : ℚ := 80

def fdcMinPct : ℚ := 60

def uptimeMinPct : ℚ := 80

/-- The third value of `gate`: the figure is there, and below its floor. -/
def gateBad (figure : Option ℚ) (floor : ℚ) : Bool :=
  match figure with
  | none => false
  | some figure => !decide (floor ≤ figure)

inductive Verdict where
  /-- `BREACHED`, with the gates that are. -/
  | breached (gates : List String)
  /-- `PROVISIONAL`, with the unaccounted rounds and the coverage that it gives as its reasons. -/
  | provisional (missing : Option Int) (coverage : Option ℚ)
  /-- `ALL MINIMAL CONDITIONS MET`. -/
  | certified
deriving DecidableEq

/-- `ftso_pct` of the close-out: the budget's, or the tally's. -/
def ftsoFigure (tally : Tally) (ftso : Option Budget) : Option ℚ :=
  match ftso.bind Budget.ratePct with
  | some rate => some rate
  | none => tally.ftsoPct

/-- `breached` of `render_epoch_closeout`. -/
def breachedGates (tally : Tally) (uptimePct : Option ℚ) (ftso : Option Budget) : List String :=
  [("FTSO", gateBad (ftsoFigure tally ftso) ftsoMinPct), ("FDC", gateBad tally.fdcPct fdcMinPct),
    ("uptime", gateBad uptimePct uptimeMinPct)].filterMap fun (name, bad) =>
      if bad then some name else none

/-- `partial` of `render_epoch_closeout`. -/
def Tally.partly (tally : Tally) : Bool := decide (tally.coveragePct < 99)

/-- `render_epoch_closeout`. -/
def renderEpochCloseout (tally : Tally) (uptimePct : Option ℚ) (ftso : Option Budget) : Verdict :=
  let breached := breachedGates tally uptimePct ftso
  let missing := tally.missingInSpan
  if breached ≠ [] then .breached breached
  else if missing ≠ 0 ∨ tally.partly = true then
    .provisional (if missing ≠ 0 then some missing else none)
      (if tally.partly then some tally.coveragePct else none)
  else .certified

end Clif.Observe

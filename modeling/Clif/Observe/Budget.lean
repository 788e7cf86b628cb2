import Clif.Alert
import Clif.Observe.Certified

/-!
# Observe.Budget — `observe/budget.py`: the rounds that may still be missed in a reward epoch

The figures of one reading come from two nonces.  `budget_told` is about every reading of an epoch:
what an alarm means for the rate at its end, and which readings are alarms.
-/

namespace Clif.Observe

/-! ## The frame of a rate -/

/-- 80% of the rounds. -/
def ftsoFloor : ℚ := 8 / 10

/-- `FTSO_MIN`. -/
def ftsoMin : ℚ := Py.double ftsoFloor

/-- The answer of `budget_status`. -/
structure BudgetReport where
  ratePct : ℚ
  thresholdPct : Int
  missBudget : Int
  missed : Int
  budgetLeft : Int
  budgetLeftPct : Option ℚ
  projectedFinalPct : ℚ
  etaRoundsToBreach : Option Int
  severity : Severity
deriving DecidableEq

/-- `budget_status`; `none`: the severity is `unknown`. -/
def budgetStatus (rate : Option ℚ) (elapsed total : Int) (threshold : ℚ) : Option BudgetReport :=
  match rate with
  | none => none
  | some rate =>
    if elapsed ≤ 0 then none
    else
      let missBudget := Py.roundInt (Py.double (Py.double (1 - threshold) * total))
      let missed := max 0 (Py.roundInt (Py.double (Py.double (1 - rate) * elapsed)))
      let left := missBudget - missed
      let missRate := Py.double (missed / elapsed)
      let projectedFinal := Py.double (1 - missRate)
      some
        { ratePct := Py.round (Py.double (100 * rate)) 2
          thresholdPct := Py.roundInt (Py.double (100 * threshold))
          missBudget := missBudget
          missed := missed
          budgetLeft := left
          budgetLeftPct :=
            if missBudget ≠ 0 then
              some (Py.round (Py.double ((100 * max 0 left : Int) / missBudget)) 1)
            else none
          projectedFinalPct := Py.round (Py.double (100 * projectedFinal)) 2
          etaRoundsToBreach :=
            if 0 < missRate ∧ 0 < left then some ⌊Py.double (left / missRate)⌋ else none
          severity :=
            if left ≤ 0 ∨ projectedFinal < threshold then .crit
            else if (left : ℚ) < Py.double (Py.double (4 / 10) * missBudget) then .warn
            else .ok }

namespace Budget

/-- `rate` of `read_ftso_budget`. -/
def rate (b : Budget) : ℚ :=
  if b.roundsElapsed = 0 then 1 else Py.double (b.ftsoSubmitted / b.roundsElapsed)

/-- The part of `read_ftso_budget`'s answer that `budget_status` gives. -/
def report (b : Budget) : Option BudgetReport :=
  budgetStatus (some b.rate) b.roundsElapsed b.roundsTotal ftsoMin

/-- The rounds that were missed so far. -/
def missed (b : Budget) : Int := max 0 (b.roundsElapsed - b.ftsoSubmitted)

end Budget

/-! ## The readings of an epoch -/

def epochStart (epoch : Int) : Int := epoch * vrsPerRewardEpoch

/-- The nonce of the submission account at the start of each round.  A round adds two at most. -/
structure SubmitNonce where
  atStart : Int → Int
  step : ∀ r, atStart r ≤ atStart (r + 1) ∧ atStart (r + 1) ≤ atStart r + 2

/-- A reading of the budget in a round of the epoch. -/
structure BudgetReading (nonce : SubmitNonce) (epoch : Int) where
  round : Int
  nonceNow : Int
  after : epochStart epoch ≤ round
  before : round < epochStart (epoch + 1)
  during : nonce.atStart round ≤ nonceNow ∧ nonceNow ≤ nonce.atStart (round + 1)

section

variable {nonce : SubmitNonce} {epoch : Int}

/-- `read_ftso_budget`. -/
def BudgetReading.budget (x : BudgetReading nonce epoch) : Budget :=
  readFtsoBudget x.round (nonce.atStart (epochStart epoch)) x.nonceNow

/-- The rounds of the epoch that were submitted, at its end. -/
def SubmitNonce.submitted (nonce : SubmitNonce) (epoch : Int) : Int :=
  (nonce.atStart (epochStart (epoch + 1)) - nonce.atStart (epochStart epoch)).fdiv 2

/-- No round is missed from `round + 1` to the end of the epoch. -/
def SubmitNonce.FullAfter (nonce : SubmitNonce) (epoch round : Int) : Prop :=
  ∀ r, round < r → r < epochStart (epoch + 1) → nonce.atStart (r + 1) = nonce.atStart r + 2

/-- What the alarm of the budget tells. -/
structure BudgetTold (nonce : SubmitNonce) (epoch : Int) : Prop where
  /-- A budget that is overdrawn: the epoch ends below the floor, and the alarm stays. -/
  overdrawn : ∀ (x : BudgetReading nonce epoch) (b : BudgetReport), x.budget.report = some b →
    b.budgetLeft < 0 → (nonce.submitted epoch : ℚ) / vrsPerRewardEpoch < ftsoFloor ∧
      ∀ (y : BudgetReading nonce epoch) (b' : BudgetReport), x.round ≤ y.round →
        y.budget.report = some b' → b'.severity = .crit
  /-- An epoch that ends below the floor is an alarm in its last round. -/
  loud : (nonce.submitted epoch : ℚ) / vrsPerRewardEpoch < ftsoFloor →
    ∀ (x : BudgetReading nonce epoch) (b : BudgetReport), x.round + 1 = epochStart (epoch + 1) →
      x.budget.report = some b → b.severity = .crit
  /-- Without an alarm the floor can still be met. -/
  reachable : ∀ (x : BudgetReading nonce epoch) (b : BudgetReport), x.budget.report = some b →
    b.severity ≠ .crit → nonce.FullAfter epoch x.round →
      ftsoFloor ≤ (nonce.submitted epoch : ℚ) / vrsPerRewardEpoch

/-! ### What a reading shows -/

theorem epochStart_succ : epochStart (epoch + 1) = epochStart epoch + 3360 := by
  unfold epochStart vrsPerRewardEpoch
  omega

/-- Nonces over a stretch of rounds. -/
theorem SubmitNonce.between {r r' : Int} (h : r ≤ r') :
    nonce.atStart r ≤ nonce.atStart r' ∧ nonce.atStart r' ≤ nonce.atStart r + 2 * (r' - r) := by
  induction r', h using Int.leInduction with
  | base => omega
  | succ k hk ih =>
    have hstep := nonce.step k
    omega

theorem SubmitNonce.FullAfter.adds {round : Int} (h : nonce.FullAfter epoch round) {r : Int}
    (hlo : round + 1 ≤ r) (hhi : r ≤ epochStart (epoch + 1)) :
    nonce.atStart r = nonce.atStart (round + 1) + 2 * (r - (round + 1)) := by
  induction r, hlo using Int.leInduction with
  | base => omega
  | succ k hk ih =>
    have hstep := h k (by omega) (by omega)
    have hprev := ih (by omega)
    omega

/-- The doubles of the share that was missed. -/
theorem share_near {q : ℚ} (h : 0 ≤ q) (h' : q ≤ 2) :
    |Py.double (1 - Py.double q) - (1 - q)| ≤ 4 / 2 ^ 53 := by
  have hdiv := Py.double_relative q
  rw [abs_of_nonneg h, abs_le] at hdiv
  have hrest : |1 - Py.double q| ≤ 2 := abs_le.mpr ⟨by linarith, by linarith⟩
  have hsub := (Py.double_relative (1 - Py.double q)).trans
    (div_le_div_of_nonneg_right hrest (by norm_num))
  rw [abs_le] at hsub ⊢
  constructor <;> linarith

/-- They do not lose a round. -/
theorem missed_rounded {b : Budget} (hpos : 0 < b.roundsElapsed) (hlt : b.roundsElapsed < 3360)
    (hlow : 0 ≤ b.ftsoSubmitted) (hhigh : b.ftsoSubmitted ≤ b.roundsElapsed + 1) :
    Py.roundInt (Py.double (Py.double (1 - b.rate) * b.roundsElapsed)) =
      b.roundsElapsed - b.ftsoSubmitted := by
  have hrate : b.rate = Py.double (b.ftsoSubmitted / b.roundsElapsed) := if_neg hpos.ne'
  have he : (1 : ℚ) ≤ b.roundsElapsed := by exact_mod_cast hpos
  have he' : (b.roundsElapsed : ℚ) ≤ 3360 := by exact_mod_cast hlt.le
  have hs : (0 : ℚ) ≤ b.ftsoSubmitted := by exact_mod_cast hlow
  have hs' : (b.ftsoSubmitted : ℚ) ≤ b.roundsElapsed + 1 := by exact_mod_cast hhigh
  have hoff := share_near (q := b.ftsoSubmitted / b.roundsElapsed) (div_nonneg hs (by linarith))
    (by rw [div_le_iff₀ (by linarith)]; linarith)
  rw [← hrate] at hoff
  -- the share of the elapsed rounds is near their number, and stays so
  have hprod : |Py.double (1 - b.rate) * b.roundsElapsed - (b.roundsElapsed - b.ftsoSubmitted)| ≤
      4 / 2 ^ 53 * 3360 := by
    have hfactor : Py.double (1 - b.rate) * b.roundsElapsed - (b.roundsElapsed - b.ftsoSubmitted) =
        (Py.double (1 - b.rate) - (1 - b.ftsoSubmitted / b.roundsElapsed)) * b.roundsElapsed := by
      rw [sub_mul, sub_mul, one_mul, div_mul_cancel₀ _ (by linarith)]
    rw [hfactor, abs_mul, abs_of_pos (by linarith : (0 : ℚ) < b.roundsElapsed)]
    exact mul_le_mul hoff he' (by linarith) (by norm_num)
  have hmul := Py.double_relative (Py.double (1 - b.rate) * b.roundsElapsed)
  refine Py.roundInt_eq ?_
  push_cast
  generalize Py.double (1 - b.rate) * b.roundsElapsed = m at hprod hmul ⊢
  rw [abs_le] at hprod hmul
  have hm : |m| ≤ 4000 := abs_le.mpr ⟨by linarith, by linarith⟩
  rw [abs_lt]
  constructor <;> linarith

namespace BudgetReading

variable (x : BudgetReading nonce epoch)

theorem epochOf_round : epochOf x.round = epoch := by
  have hafter := x.after
  have hbefore := x.before
  unfold epochStart vrsPerRewardEpoch at hafter hbefore
  unfold epochOf vrsPerRewardEpoch
  omega

theorem elapsed : x.budget.roundsElapsed = x.round - epochStart epoch := by
  have hafter := x.after
  have hepoch := x.epochOf_round
  show max 0 (x.round - epochOf x.round * vrsPerRewardEpoch) = _
  rw [hepoch]
  unfold epochStart at hafter ⊢
  omega

theorem submitted : x.budget.ftsoSubmitted =
    (x.nonceNow - nonce.atStart (epochStart epoch)).fdiv 2 := by
  have hfrom := (@SubmitNonce.between nonce _ _ x.after).1
  have hduring := x.during.1
  show max 0 ((x.nonceNow - nonce.atStart (epochStart epoch)).fdiv 2) = _
  rw [Int.fdiv_eq_ediv_of_nonneg _ (by omega)]
  omega

theorem elapsed_lt : x.budget.roundsElapsed < 3360 := by
  have hbefore := x.before
  have hsucc := @epochStart_succ epoch
  rw [x.elapsed]
  omega

theorem submitted_bounds :
    0 ≤ x.budget.ftsoSubmitted ∧ x.budget.ftsoSubmitted ≤ x.budget.roundsElapsed + 1 := by
  have hafter := x.after
  have hfrom := (@SubmitNonce.between nonce _ _ x.after).1
  have hto := (@SubmitNonce.between nonce (epochStart epoch) (x.round + 1) (by omega)).2
  have hduring := x.during
  rw [x.elapsed, x.submitted, Int.fdiv_eq_ediv_of_nonneg _ (by omega)]
  omega

/-- The report of a reading: the budget is 672 rounds, less those that were missed. -/
theorem report_spec {b : BudgetReport} (h : x.budget.report = some b) :
    b.budgetLeft = 672 - x.budget.missed ∧ (b.budgetLeft ≤ 0 → b.severity = .crit) := by
  have hbudget :
      Py.roundInt (Py.double (Py.double (1 - ftsoMin) * (x.budget.roundsTotal : ℚ))) = 672 := by
    have htotal : x.budget.roundsTotal = 3360 := rfl
    rw [htotal]
    decide +kernel
  unfold Budget.report budgetStatus at h
  dsimp only at h
  split at h
  · cases h
  · rename_i hpos
    have helapsed : 0 < x.budget.roundsElapsed := not_le.mp hpos
    rw [hbudget, missed_rounded helapsed x.elapsed_lt x.submitted_bounds.1 x.submitted_bounds.2,
      Option.some.injEq] at h
    subst h
    exact ⟨rfl, fun hleft => if_pos (Or.inl hleft)⟩

/-- A later reading has missed one round less at most: the round of the reading itself may have been
submitted since. -/
theorem missed_later (y : BudgetReading nonce epoch) (h : x.round ≤ y.round) :
    x.budget.missed ≤ y.budget.missed + 1 := by
  have hbetween := (@SubmitNonce.between nonce x.round (y.round + 1) (by omega)).2
  have hx := x.during.1
  have hy := y.during.2
  unfold Budget.missed
  rw [x.elapsed, y.elapsed, x.submitted, y.submitted, Int.fdiv_eq_ediv_of_nonneg _ (by omega),
    Int.fdiv_eq_ediv_of_nonneg _ (by omega)]
  omega

/-- What was missed at a reading is missed at the end. -/
theorem missed_end : nonce.submitted epoch + x.budget.missed ≤ 3360 ∨ x.budget.missed = 0 := by
  have hbefore := x.before
  have hbetween := (@SubmitNonce.between nonce x.round (epochStart (epoch + 1)) (by omega)).2
  have hx := x.during.1
  have hsucc := @epochStart_succ epoch
  unfold Budget.missed SubmitNonce.submitted
  rw [x.elapsed, x.submitted, Int.fdiv_eq_ediv_of_nonneg _ (by omega),
    Int.fdiv_eq_ediv_of_nonneg _ (by omega)]
  omega

end BudgetReading

/-- The floor in rounds. -/
theorem below_floor_iff {n : Int} : (n : ℚ) / vrsPerRewardEpoch < ftsoFloor ↔ n < 2688 := by
  have hpos : (0 : ℚ) < (vrsPerRewardEpoch : Int) := by norm_num [vrsPerRewardEpoch]
  have hfloor : ftsoFloor * ((vrsPerRewardEpoch : Int) : ℚ) = ((2688 : Int) : ℚ) := by
    norm_num [ftsoFloor, vrsPerRewardEpoch]
  rw [div_lt_iff₀ hpos, hfloor]
  exact_mod_cast Iff.rfl

end

/-- In every epoch in which a round adds at most two to the nonce: an overdrawn budget is a breach,
and stays an alarm; a breach is an alarm in the last round at the latest; and where there is no
alarm, the floor is met if nothing is missed any more. -/
theorem budget_told (nonce : SubmitNonce) (epoch : Int) : BudgetTold nonce epoch := by
  have hsucc := @epochStart_succ epoch
  refine ⟨fun x b hb hleft => ⟨?_, fun y b' hxy hb' => ?_⟩, fun hfinal x b hlast hb => ?_,
    fun x b hb hsev hfull => ?_⟩
  · have hmissed := (x.report_spec hb).1
    have hend := x.missed_end
    rw [below_floor_iff]
    omega
  · have hmissed := (x.report_spec hb).1
    have hlater := x.missed_later y hxy
    obtain ⟨hleft', hcrit⟩ := y.report_spec hb'
    exact hcrit (by omega)
  · rw [below_floor_iff] at hfinal
    obtain ⟨hleft, hcrit⟩ := x.report_spec hb
    -- the nonce of the last reading is that of the end at most
    have hnow := x.during.2
    have hmissed : 672 ≤ x.budget.missed := by
      unfold SubmitNonce.submitted at hfinal
      unfold Budget.missed
      rw [x.elapsed, x.submitted]
      rw [hlast] at hnow
      rw [Int.fdiv_eq_ediv_of_nonneg _ (by omega)] at hfinal ⊢
      omega
    exact hcrit (by omega)
  · obtain ⟨hleft, hcrit⟩ := x.report_spec hb
    have hpos : 0 < b.budgetLeft := by
      by_contra hle
      exact hsev (hcrit (by omega))
    have hbefore := x.before
    have hadds := hfull.adds (r := epochStart (epoch + 1)) (by omega) le_rfl
    have hnow := x.during.2
    rw [← not_lt, below_floor_iff]
    unfold Budget.missed at hleft
    rw [x.elapsed, x.submitted] at hleft
    unfold SubmitNonce.submitted
    rw [Int.fdiv_eq_ediv_of_nonneg _ (by omega)] at hleft ⊢
    omega

/-- Submissions stop after a thousand rounds. -/
def stoppedNonce : SubmitNonce where
  atStart r := 2 * min (max r 0) 1000
  step r := by omega

def stoppedReading (round : Int) (h : 1000 ≤ round ∧ round < 3360) :
    BudgetReading stoppedNonce 0 where
  round := round
  nonceNow := 2000
  after := by simp [epochStart, vrsPerRewardEpoch]; omega
  before := by simp [epochStart, vrsPerRewardEpoch]; omega
  during := by simp [stoppedNonce]; omega

/-- After 700 missed rounds the budget is overdrawn by 28: the epoch is lost, and the alarm is still
there in its last round. -/
theorem budget_told_stopped : ∃ b b',
    (stoppedReading 1700 (by decide)).budget.report = some b ∧ b.budgetLeft = -28 ∧
      (stoppedNonce.submitted 0 : ℚ) / vrsPerRewardEpoch < ftsoFloor ∧
      (stoppedReading 3359 (by decide)).budget.report = some b' ∧ b'.severity = .crit := by
  have hleft : ((stoppedReading 1700 (by decide)).budget.report.map BudgetReport.budgetLeft) =
      some (-28) := by decide +kernel
  obtain ⟨b, hb, hleft⟩ := Option.map_eq_some_iff.mp hleft
  have hlast : (stoppedReading 3359 (by decide)).budget.report.isSome := by decide +kernel
  obtain ⟨b', hb'⟩ := Option.isSome_iff_exists.mp hlast
  obtain ⟨hlost, hcrit⟩ := (budget_told stoppedNonce 0).overdrawn _ b hb (by omega)
  exact ⟨b, b', hb, hleft, hlost, hb', hcrit _ b' (by decide) hb'⟩

end Clif.Observe

import Clif.PyNum
import Clif.Observe.State

/-!
# Observe.Mincond — `observe/mincond.py`: the per-epoch ledger of finalized rounds

One record for each finalized round, under the id of the round.
-/

namespace Clif.Observe

/-- `REVEAL_OFFENCE_PENALTY_ROUNDS`. -/
def revealOffencePenaltyRounds : Int := 30

structure RoundRecord where
  rid : Int
  s1 : Nat := 0
  s2 : Nat := 0
  cl : Nat := 0
  fexp : Nat := 0
  fok : Nat := 0
  fu : Nat := 0
  ro : Nat := 0
deriving DecidableEq

def epochOf (rid : Int) : Int := rid / vrsPerRewardEpoch

/-- `1 if b else 0`. -/
def bit (b : Bool) : Nat := if b then 1 else 0

/-- `from_round`. -/
def fromRound (rs : RoundState) : RoundRecord where
  rid := rs.roundId
  s1 := bit rs.submit1Seen
  s2 := bit rs.submit2Seen
  cl := bit rs.clean
  fexp := bit rs.fdcExpected
  fok := bit (rs.fdcExpected && rs.fdcBitvoteSeen && !rs.fdcGap)
  fu := rs.fuCount
  ro := bit rs.revealOffence

abbrev Ledger := Keyed Int RoundRecord RoundRecord.rid

/-! ## The file -/

/-- Whether the records of the round are retained at the reward epoch. -/
def retained (rewardEpoch : Option Int) (rid : Int) : Bool :=
  match rewardEpoch with
  | none => true
  | some e => decide (e - 1 ≤ epochOf rid)

/-- `load_history`, of the records that the lines of the file hold. -/
def loadHistory (file : List RoundRecord) (rewardEpoch : Option Int) : Ledger :=
  (file.filter fun r => retained rewardEpoch r.rid).foldl Keyed.put Keyed.empty

/-- `prune_history`. -/
def pruneHistory (file : List RoundRecord) (rewardEpoch : Option Int) : List RoundRecord :=
  match rewardEpoch with
  | none => file
  | some e => (loadHistory file (some e)).values.insertionSort fun r r' => r.rid ≤ r'.rid

/-- The prune of the records in memory. -/
def pruneRecs (recs : Ledger) (rewardEpoch : Int) : Ledger :=
  recs.filterKeys fun k => decide (rewardEpoch - 1 ≤ epochOf k)

/-! ## The tally of an epoch -/

structure Tally where
  epoch : Int
  roundsRecorded : Nat
  coveragePct : ℚ
  firstRid : Option Int
  lastRid : Option Int
  span : Int
  missingInSpan : Int
  ftsoRevealed : Nat
  ftsoClean : Nat
  ftsoPct : Option ℚ
  fdcExpected : Nat
  fdcParticipated : Nat
  fdcPct : Option ℚ
  fuUpdates : Nat
  revealOffences : Nat
  penaltyRewardRounds : Int
  penaltyPctOfEpoch : ℚ
deriving DecidableEq

/-- `round(100.0 * part / whole, 1)`, if there is a whole. -/
def pct (part whole : Nat) : Option ℚ :=
  if whole = 0 then none else some (Py.percent part whole 1)

/-- The records of the epoch. -/
def epochRecords (records : List RoundRecord) (epoch : Int) : List RoundRecord :=
  records.filter fun r => epochOf r.rid = epoch

/-- `last_rid - first_rid + 1`. -/
def spanOf (first last : Option Int) : Int :=
  match first, last with
  | some lo, some hi => hi - lo + 1
  | _, _ => 0

/-- `epoch_tally`. -/
def epochTally (records : List RoundRecord) (epoch : Int) : Tally :=
  let ep := epochRecords records epoch
  let n := ep.length
  let rids := ep.map RoundRecord.rid
  let span := spanOf rids.min? rids.max?
  let fdcExp := (ep.map RoundRecord.fexp).sum
  let fdcOk := (ep.map RoundRecord.fok).sum
  let ftsoRev := (ep.map RoundRecord.s2).sum
  let offences := ep.countP fun r => r.s1 ≠ 0 ∧ r.s2 = 0
  { epoch := epoch
    roundsRecorded := n
    coveragePct := (pct n vrsPerRewardEpoch.toNat).getD 0
    firstRid := rids.min?
    lastRid := rids.max?
    span := span
    missingInSpan := max 0 (span - n)
    ftsoRevealed := ftsoRev
    ftsoClean := (ep.map RoundRecord.cl).sum
    ftsoPct := pct ftsoRev n
    fdcExpected := fdcExp
    fdcParticipated := fdcOk
    fdcPct := pct fdcOk fdcExp
    fuUpdates := (ep.map RoundRecord.fu).sum
    revealOffences := offences
    penaltyRewardRounds := min vrsPerRewardEpoch (offences * revealOffencePenaltyRounds)
    penaltyPctOfEpoch :=
      let burned := Py.double (Py.double (100 * offences) * revealOffencePenaltyRounds)
      Py.round (min 100 (Py.double (burned / vrsPerRewardEpoch))) 2 }

/-- The ranges missing between one id and the next. -/
def gapsBetween : List Int → List (Int × Int)
  | lo :: hi :: rids =>
    if lo + 1 < hi then (lo + 1, hi - 1) :: gapsBetween (hi :: rids) else gapsBetween (hi :: rids)
  | _ => []

/-- `l[:n]`. -/
def sliceUpTo {α : Type} (l : List α) (n : Int) : List α :=
  if 0 ≤ n then l.take n.toNat else l.take (l.length - n.natAbs)

/-- `epoch_gap_ranges`. -/
def epochGapRanges (records : List RoundRecord) (epoch : Int) (limit : Int := 6) :
    List (Int × Int) × Nat :=
  let rids := ((epochRecords records epoch).map RoundRecord.rid).insertionSort (· ≤ ·)
  let ranges := gapsBetween rids
  (sliceUpTo ranges limit, ranges.length)

end Clif.Observe

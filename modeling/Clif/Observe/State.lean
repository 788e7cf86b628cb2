import Mathlib.Algebra.Order.Group.Abs
import Mathlib.Algebra.Order.Group.Int
import Mathlib.Data.Finset.Card
import Mathlib.Data.List.Sort
import Clif.Keyed
import Clif.World

/-!
# Observe.State — `observe/state.py`: the voting rounds that are in flight

A round comes to be when something names it, collects what is seen of it, and is finalized once its
windows are closed.  Everything that is written into a round is a `RoundOp`; `perform` is the
lookup of the round together with the write.
-/

namespace Clif.Observe

/-! ## What `py_flare_common` supplies -/

/-- A `VotingEpochFactory`. -/
structure VotingFactory where
  startS : Int → Int
  endS : Int → Int
  revealDeadline : Int → Int
  /-- `from_timestamp(ts).id`. -/
  roundAt : Int → Int

/-- The rounds follow each other, a reveal deadline lies inside its round, and a time belongs to
the round it lies in. -/
structure VotingFactory.Lawful (f : VotingFactory) : Prop where
  next : ∀ r, f.startS r < f.startS (r + 1)
  ends : ∀ r, f.startS r ≤ f.endS r ∧ f.endS r ≤ f.startS (r + 1)
  reveal : ∀ r, f.startS r ≤ f.revealDeadline r ∧ f.revealDeadline r ≤ f.endS r
  inside : ∀ t, f.startS (f.roundAt t) ≤ t ∧ t < f.startS (f.roundAt t + 1)

/-- Rounds of equal length, one after the other. -/
def VotingFactory.grid (first length reveal : Int) : VotingFactory where
  startS r := first + length * r
  endS r := first + length * (r + 1)
  revealDeadline r := first + length * r + reveal
  roundAt t := (t - first) / length

theorem VotingFactory.grid_lawful {first length reveal : Int} (hlength : 0 < length)
    (hreveal : 0 ≤ reveal ∧ reveal ≤ length) : (grid first length reveal).Lawful where
  next r := by
    simp only [grid, Int.mul_add, Int.mul_one]
    omega
  ends r := by
    simp only [grid, Int.mul_add, Int.mul_one]
    omega
  reveal r := by
    simp only [grid, Int.mul_add, Int.mul_one]
    omega
  inside t := by
    have hdiv := Int.mul_ediv_add_emod (t - first) length
    have hnonneg := Int.emod_nonneg (t - first) hlength.ne'
    have hlt := Int.emod_lt_of_pos (t - first) hlength
    simp only [grid, Int.mul_add, Int.mul_one]
    omega

/-- The windows of the round are closed. -/
def VotingFactory.due (f : VotingFactory) (r now : Int) : Bool := decide (f.endS (r + 1) < now)

/-- `(start_s, end_s)`. -/
def VotingFactory.submit1Window (f : VotingFactory) (r : Int) : Int × Int := (f.startS r, f.endS r)

/-- The first half of the next round. -/
def VotingFactory.submit2Window (f : VotingFactory) (r : Int) : Int × Int :=
  (f.startS (r + 1), f.revealDeadline (r + 1))

structure FtsoVote where
  value : Int
  weight : Int
deriving DecidableEq

structure FtsoMedian where
  value : Int
  firstQuartile : Int
  thirdQuartile : Int
deriving DecidableEq

class FtsoRules where
  /-- `commit_hash(voter, round, random, feed_values)`, in hex. -/
  commitHash : String → Int → Int → Bytes → String
  calculateMedian : List FtsoVote → FtsoMedian

export FtsoRules (commitHash calculateMedian)

/-! ## Reward bands -/

/-- `VRS_PER_REWARD_EPOCH`. -/
def vrsPerRewardEpoch : Int := 3360

inductive BandClass where
  | inside
  | boundary
  | outside
deriving DecidableEq

structure Bands where
  bandClass : BandClass
  bandTicks : Int
  pctHit : Bool
deriving DecidableEq

/-- `classify_bands`. -/
def classifyBands (valueRaw q1Raw q3Raw medianRaw secondaryBandWidthPpm : Int) : Bands :=
  let band := (|medianRaw| * secondaryBandWidthPpm).fdiv 1000000
  { bandClass :=
      if q1Raw < valueRaw ∧ valueRaw < q3Raw then .inside
      else if valueRaw = q1Raw ∨ valueRaw = q3Raw then .boundary
      else .outside
    bandTicks := q3Raw - q1Raw
    pctHit := decide (medianRaw - band < valueRaw ∧ valueRaw < medianRaw + band) }

/-- The fields of `OfferParams` that the scoring reads. -/
structure OfferParams where
  feeds : List String
  secondaryBandWidthPpm : Dict String Int

structure IqrTally where
  rid : Int
  ts : Int
  fr : Nat
  ins : Nat
  bnd : Nat
  pct : Nat
  cap : Nat
deriving DecidableEq

/-- `(band, pct_hit, capped)` of a feed. -/
structure FeedResult where
  band : BandClass
  pctHit : Bool
  capped : Bool
deriving DecidableEq

/-! ## One round -/

structure RoundState where
  roundId : Int
  submit1Seen : Bool := false
  submit1Ontime : Bool := false
  submit1Commit : Option Bytes := none
  submit2Seen : Bool := false
  submit2Ontime : Bool := false
  submit2Random : Option Int := none
  submit2FeedBytes : Option Bytes := none
  sigSeen : Bool := false
  fdcRequestCount : Nat := 0
  fdcBitvoteSeen : Bool := false
  fdcBitvoteLen : Option Int := none
  fdcNumRequestsClaimed : Option Int := none
  fdcSigSeen : Bool := false
  fdcGap : Bool := false
  fuCount : Nat := 0
  iqrVotes : Dict Nat (List FtsoVote) := Dict.empty
  iqrApValues : Option (List (Option Int)) := none
  iqrResults : Dict String FeedResult := Dict.empty
  iqrTally : Option IqrTally := none
  iqrTallyNew : Bool := false
  revealOffence : Bool := false
  issues : List String := []

def RoundState.fdcExpected (rs : RoundState) : Bool := decide (0 < rs.fdcRequestCount)

/-- On-time commit and on-time reveal, no offence. -/
def RoundState.clean (rs : RoundState) : Bool :=
  rs.submit1Seen && rs.submit1Ontime && rs.submit2Seen && rs.submit2Ontime && !rs.revealOffence

/-- What one transaction or event writes into a round. -/
inductive RoundOp where
  /-- The round is looked up, and nothing is written. -/
  | named
  | submit1 (ontime : Bool) (commit : Option Bytes)
  | submit2 (ontime : Bool) (random : Option Int) (feedBytes : Option Bytes)
  | signatures
  | bitvote (len numRequests : Option Int)
  | fdcSignature
  /-- The values of a reveal; `weight` is the voter's, if it is registered. -/
  | reveal (own : Bool) (weight : Option Int) (values : List (Option Int))
  | fdcRequest
  | fastUpdate
deriving DecidableEq

/-- `iqr_votes.setdefault(i, []).append(...)` for every value that is there. -/
def addVotes (weight : Int) :
    Nat → List (Option Int) → Dict Nat (List FtsoVote) → Dict Nat (List FtsoVote)
  | _, [], votes => votes
  | i, none :: values, votes => addVotes weight (i + 1) values votes
  | i, some v :: values, votes =>
    addVotes weight (i + 1) values (votes.set i ((votes.get? i).getD [] ++ [⟨v, weight⟩]))

def RoundOp.apply : RoundOp → RoundState → RoundState
  | .named, rs => rs
  | .submit1 ontime commit, rs =>
    { rs with submit1Seen := true, submit1Ontime := ontime, submit1Commit := commit }
  | .submit2 ontime random feedBytes, rs =>
    { rs with submit2Seen := true, submit2Ontime := ontime, submit2Random := random,
              submit2FeedBytes := feedBytes }
  | .signatures, rs => { rs with sigSeen := true }
  | .bitvote len numRequests, rs =>
    { rs with fdcBitvoteSeen := true, fdcBitvoteLen := len, fdcNumRequestsClaimed := numRequests }
  | .fdcSignature, rs => { rs with fdcSigSeen := true }
  | .reveal own weight values, rs =>
    { rs with
      iqrApValues := if own then some values else rs.iqrApValues
      iqrVotes :=
        match weight with
        | some w => if w ≠ 0 then addVotes w 0 values rs.iqrVotes else rs.iqrVotes
        | none => rs.iqrVotes }
  | .fdcRequest, rs => { rs with fdcRequestCount := rs.fdcRequestCount + 1 }
  | .fastUpdate, rs => { rs with fuCount := rs.fuCount + 1 }

/-- The rounds in flight, by id. -/
abbrev InFlight := Keyed Int RoundState RoundState.roundId

@[simp] theorem RoundOp.apply_roundId (op : RoundOp) (rs : RoundState) :
    (op.apply rs).roundId = rs.roundId := by
  cases op <;> rfl

/-! ## The verdict on a round -/

section Verdict

variable [FtsoRules]

/-- The commit and the reveal are there, and do not fit together. -/
def RoundState.mismatch (rs : RoundState) (ourSubmit : String) : Bool :=
  match rs.submit1Commit with
  | some commit => rs.submit1Seen && rs.submit2Seen &&
      Py.toHex commit != commitHash ourSubmit rs.roundId (rs.submit2Random.getD 0)
        (rs.submit2FeedBytes.getD [])
  | none => false

/-- The part of `_finalize` on the commit, the reveal and the bitvote. -/
def RoundState.check (rs : RoundState) (ourSubmit : String) : RoundState :=
  let commitIssues :=
    if !rs.submit1Seen then ["no submit1 (commit)"]
    else if !rs.submit1Ontime then ["submit1 outside window"] else []
  let revealIssues :=
    if !rs.submit2Seen then
      if rs.submit1Seen then ["no submit2 after submit1 — REVEAL OFFENCE"]
      else ["no submit2 (reveal)"]
    else if !rs.submit2Ontime then ["submit2 outside window"] else []
  let mismatch := rs.mismatch ourSubmit
  let gap := rs.fdcExpected && !rs.fdcBitvoteSeen
  { rs with
    revealOffence := rs.revealOffence || (!rs.submit2Seen && rs.submit1Seen) || mismatch
    fdcGap := rs.fdcGap || gap
    issues := rs.issues ++ commitIssues ++ revealIssues ++
      (if mismatch then ["commit/reveal mismatch — REVEAL OFFENCE"] else []) ++
      (if gap then [s!"FDC: no bitvote (~{rs.fdcRequestCount} request(s) this round)"] else []) }

/-- The result of one feed; `none`: the feed is not scored. -/
def scoreFeed (offer : OfferParams) (votes : Dict Nat (List FtsoVote)) (apVals : List (Option Int))
    (i : Nat) (name : String) : Option FeedResult :=
  match votes.get? i, apVals[i]? with
  | some (v :: vs), some (some value) =>
    let m := calculateMedian (v :: vs)
    let cls := classifyBands value m.firstQuartile m.thirdQuartile m.value
      ((offer.secondaryBandWidthPpm.get? name).getD 0)
    some ⟨cls.bandClass, cls.pctHit, decide (cls.bandTicks ≤ 1)⟩
  | _, _ => none

def scoreFeeds (offer : OfferParams) (votes : Dict Nat (List FtsoVote))
    (apVals : List (Option Int)) :
    Nat → List String → Dict String FeedResult → Dict String FeedResult
  | _, [], results => results
  | i, name :: names, results =>
    scoreFeeds offer votes apVals (i + 1) names
      (match scoreFeed offer votes apVals i name with
        | some r => results.set name r
        | none => results)

/-- `_score_iqr`. -/
def RoundState.scoreIqr (rs : RoundState) (offer : Option OfferParams) : RoundState :=
  match offer, rs.iqrApValues with
  | some offer, some apVals =>
    { rs with
      iqrResults := scoreFeeds offer rs.iqrVotes apVals 0 offer.feeds rs.iqrResults
      iqrVotes := Dict.empty }
  | _, _ => { rs with iqrVotes := Dict.empty }

end Verdict

/-- The tally of a round that was scored. -/
def RoundState.tallyOf (rs : RoundState) (ts : Int) : IqrTally :=
  let results := rs.iqrResults.values
  { rid := rs.roundId
    ts := ts
    fr := results.length
    ins := results.countP fun r => r.band = .inside
    bnd := results.countP fun r => r.band = .boundary
    pct := results.countP FeedResult.pctHit
    cap := results.countP FeedResult.capped }

/-! ## The observer -/

structure Decoded where
  kind : String
  roundId : Int
  commitHash : Option Bytes := none
  revealRandom : Option Int := none
  revealFeedBytes : Option Bytes := none
  revealValueCount : Option Int := none
  fdcPresent : Bool := false
  fdcRound : Option Int := none
  fdcBitvoteLen : Option Int := none
  fdcNumRequests : Option Int := none
deriving DecidableEq

/-- `_FUTURE_ROUND_MARGIN`. -/
def futureRoundMargin : Int := 4

/-- `_ROUNDS_CAP`. -/
def roundsCap : Nat := 512

/-- What an observer is set up with. -/
structure ObserverSetup where
  ourSubmit : String
  ourSig : String
  windowRounds : Nat
  observeStartTs : Int
  factory : VotingFactory

def ObserverSetup.submitLc (setup : ObserverSetup) : String := Py.lower setup.ourSubmit

def ObserverSetup.sigLc (setup : ObserverSetup) : String := Py.lower setup.ourSig

structure ObserverState extends ObserverSetup where
  rounds : InFlight := Keyed.empty
  /-- At most `windowRounds`, newest last. -/
  finalized : List RoundState := []
  lastTs : Option Int := none
  lastRoundFinalized : Option Int := none
  iqrOffer : Option OfferParams := none
  iqrWeightMap : Dict String Int := Dict.empty
  /-- At most `VRS_PER_REWARD_EPOCH + 240`. -/
  iqrHistory : List IqrTally := []
  iqrRids : Finset Int := ∅

/-- What a `deque` with a maximal length keeps. -/
def lastOf {α : Type} (n : Nat) (l : List α) : List α := l.drop (l.length - n)

namespace ObserverState

/-- `_current_round`. -/
def currentRound (st : ObserverState) : Option Int := st.lastTs.map st.factory.roundAt

/-- Implausibly far ahead of the last block. -/
def tooFar (st : ObserverState) (rid : Int) : Bool :=
  match st.currentRound with
  | some cur => decide (cur + futureRoundMargin < rid)
  | none => false

/-- `del self.rounds[min(self.rounds)]` above the cap. -/
def evict (rounds : InFlight) : InFlight :=
  if roundsCap < rounds.keys.length then
    match rounds.keys.min? with
    | some rid => rounds.erase rid
    | none => rounds
  else rounds

/-- `_round(rid)` and a write into the round that it returns: into none that is kept, if the round
is too far ahead. -/
def perform (st : ObserverState) (rid : Int) (op : RoundOp) : ObserverState :=
  match st.rounds.get? rid with
  | some rs => { st with rounds := st.rounds.put (op.apply rs) }
  | none =>
    if st.tooFar rid then st
    else { st with rounds := evict (st.rounds.put (op.apply { roundId := rid })) }

def performAll (st : ObserverState) (ops : List (Int × RoundOp)) : ObserverState :=
  ops.foldl (fun st x => st.perform x.1 x.2) st

/-- The bitvote that rides in a `submit2`. -/
def bitvoteOps (d : Decoded) : List (Int × RoundOp) :=
  match d.fdcPresent, d.fdcRound with
  | true, some r => [(r, .bitvote d.fdcBitvoteLen d.fdcNumRequests)]
  | _, _ => []

/-- The FDC signature that rides in a `submitSignatures`. -/
def fdcSignatureOps (d : Decoded) : List (Int × RoundOp) :=
  match d.fdcPresent, d.fdcRound with
  | true, some r => [(r, .fdcSignature)]
  | _, _ => []

/-- What `record` writes, round by round. -/
def recordOps (st : ObserverState) (d : Decoded) (fromAddr : String) (txTs : Int) :
    List (Int × RoundOp) :=
  let frm := Py.lower fromAddr
  let within := fun (w : Int × Int) => decide (w.1 ≤ txTs ∧ txTs ≤ w.2)
  if d.kind = "submit1" ∧ frm = st.submitLc then
    [(d.roundId, .submit1 (within (st.factory.submit1Window d.roundId)) d.commitHash)]
  else if d.kind = "submit2" ∧ frm = st.submitLc then
    (d.roundId, .submit2 (within (st.factory.submit2Window d.roundId)) d.revealRandom
      d.revealFeedBytes) :: bitvoteOps d
  else if d.kind = "signatures" ∧ frm = st.sigLc then
    (d.roundId, .signatures) :: fdcSignatureOps d
  else [(d.roundId, .named)]

/-- `record`. -/
def record (st : ObserverState) (d : Decoded) (fromAddr : String) (txTs : Int) : ObserverState :=
  st.performAll (st.recordOps d fromAddr txTs)

/-- What `record_reveal_values` writes. -/
def revealOp (st : ObserverState) (fromLc : String) (values : List (Option Int)) : RoundOp :=
  .reveal (fromLc == st.submitLc) (st.iqrWeightMap.get? fromLc) values

/-- `record_reveal_values`. -/
def recordRevealValues (st : ObserverState) (roundId : Int) (fromLc : String)
    (values : List (Option Int)) : ObserverState :=
  st.perform roundId (st.revealOp fromLc values)

/-- `record_round_fu`. -/
def recordRoundFu (st : ObserverState) (roundId : Int) : ObserverState :=
  st.perform roundId .fastUpdate

/-- `record_fdc_request`. -/
def recordFdcRequest (st : ObserverState) (roundId : Int) : ObserverState :=
  st.perform roundId .fdcRequest

/-- `_remember_tally`: whether the tally is new, and the history with it. -/
def rememberTally (st : ObserverState) (t : IqrTally) : Bool × ObserverState :=
  let maxlen := (vrsPerRewardEpoch + 240).toNat
  if t.rid ∈ st.iqrRids then (false, st)
  else
    let rids := insert t.rid st.iqrRids
    let history := lastOf maxlen (st.iqrHistory ++ [t])
    (true, { st with
      iqrHistory := history
      iqrRids := if maxlen < rids.card then (history.map IqrTally.rid).toFinset else rids })

/-- `seed_iqr_history`. -/
def seedIqrHistory (st : ObserverState) (tallies : List IqrTally) : ObserverState :=
  tallies.foldl (fun st t => (st.rememberTally t).2) st

section

variable [FtsoRules]

/-- `_finalize`: the round with its verdict. -/
def finalizeRound (st : ObserverState) (rs : RoundState) (ts : Int) : RoundState × ObserverState :=
  let rs := (rs.check st.ourSubmit).scoreIqr st.iqrOffer
  let (rs, st) :=
    if rs.iqrResults.entries.isEmpty then (rs, st)
    else
      let (isNew, st) := st.rememberTally (rs.tallyOf ts)
      ({ rs with iqrTally := some (rs.tallyOf ts), iqrTallyNew := isNew }, st)
  (rs, { st with
    finalized := lastOf st.windowRounds (st.finalized ++ [rs])
    lastRoundFinalized := some rs.roundId })

/-- The body of the loop of `finalize_due`. -/
def finalizeOne (now : Int) (acc : List RoundState × ObserverState) (rid : Int) :
    List RoundState × ObserverState :=
  let (done, st) := acc
  match st.rounds.get? rid with
  | none => acc
  | some rs =>
    if st.factory.due rid now then
      let st := { st with rounds := st.rounds.erase rid }
      -- a round that began before the first block is dropped
      if st.factory.startS rid < st.observeStartTs then (done, st)
      else
        let (rs, st) := st.finalizeRound rs now
        (done ++ [rs], st)
    else acc

/-- `finalize_due`. -/
def finalizeDue (st : ObserverState) (now : Int) : List RoundState × ObserverState :=
  (st.rounds.keys.insertionSort (· ≤ ·)).foldl (finalizeOne now) ([], st)

/-- What the loop does at the end of a block with the time `ts`. -/
def sweep (st : ObserverState) (ts : Int) : List RoundState × ObserverState :=
  finalizeDue { st with lastTs := some ts } ts

end

end ObserverState

end Clif.Observe

import Clif.Observe.Engine

/-!
# Observe.IqrBatch — `score_ap` of `observe/iqr.py`

One scan of the blocks gathers the reveals, round by round; then every round that AP revealed is
scored.  The blocks are those that `get_block` answers from the first one of the scan on.
-/

namespace Clif.Observe

/-- One `submit2`, as the scan takes it up. -/
structure Reveal where
  round : Int
  fromLc : String
  values : List (Option Int)
deriving DecidableEq

/-- `FeedScore`. -/
structure FeedScore where
  feed : String
  rounds : Nat := 0
  inside : Nat := 0
  boundary : Nat := 0
  outside : Nat := 0
  pctHit : Nat := 0
  capped : Nat := 0
deriving DecidableEq

/-- The rounds that are scored, `oldest` and `newest`. -/
structure ScoredSpan where
  oldest : Int
  newest : Int

/-- A round is fully revealed once its next round has passed. -/
def scoredSpan (cur : Int) (rounds : Nat) : ScoredSpan := ⟨cur - 2 - rounds + 1, cur - 2⟩

def ScoredSpan.contains (span : ScoredSpan) (r : Int) : Bool :=
  decide (span.oldest ≤ r ∧ r ≤ span.newest)

/-- `range(oldest, newest + 1)`. -/
def ScoredSpan.rounds (span : ScoredSpan) : List Int :=
  (List.range (span.newest + 1 - span.oldest).toNat).map fun i : Nat => span.oldest + i

/-! ## The scan -/

/-- `round_votes` and `round_ap`. -/
structure Gathered where
  votes : Dict Int (Dict Nat (List FtsoVote)) := Dict.empty
  ap : Dict Int (List (Option Int)) := Dict.empty

section

variable [Messaging]

/-- What the scan takes up of one transaction. -/
def scanTx (submission : String) (tx : Tx) : Option Reveal :=
  if Py.lower (tx.toAddr.getD "") ≠ submission then none
  else
    let inp := tx.input.getD "0x"
    if sliceTo (Py.sliceFrom inp 2) 8 ≠ submit2Selector then none
    else
      match parseSubmit2Tx (Py.sliceFrom inp 10) with
      | some ⟨some ftso, _⟩ =>
        some ⟨ftso.votingRoundId, Py.lower (tx.fromAddr.getD ""), ftso.values⟩
      | _ => none

/-- The reveals of the rounds in the span, in the blocks up to `scan_hi`. -/
def scanBlocks (submission : String) (factory : VotingFactory) (span : ScoredSpan)
    (blocks : List Block) : List Reveal :=
  let scanHi := factory.revealDeadline (span.newest + 1)
  ((blocks.takeWhile fun blk => decide (blk.timestamp ≤ scanHi)).flatMap fun blk =>
    blk.transactions.filterMap (scanTx submission)).filter fun rv => span.contains rv.round

end

/-- One reveal of the scan. -/
def gather (apSub : String) (weightMap : Dict String Int) (acc : Gathered) (rv : Reveal) :
    Gathered where
  votes :=
    match weightMap.get? rv.fromLc with
    | some w =>
      acc.votes.set rv.round
        (addVotes w 0 rv.values ((acc.votes.get? rv.round).getD Dict.empty))
    | none => acc.votes
  ap := if rv.fromLc = apSub then acc.ap.set rv.round rv.values else acc.ap

/-! ## The scores -/

section

variable [FtsoRules]

/-- The body of the loop over the feeds. -/
def batchFeed (offer : OfferParams) (votes : Dict Nat (List FtsoVote)) (apVals : List (Option Int))
    (i : Nat) (name : String) (fs : FeedScore) : FeedScore :=
  match votes.get? i, apVals[i]? with
  | some (v :: vs), some (some value) =>
    let m := calculateMedian (v :: vs)
    let cls := classifyBands value m.firstQuartile m.thirdQuartile m.value
      ((offer.secondaryBandWidthPpm.get? name).getD 0)
    { fs with
      rounds := fs.rounds + 1
      capped := if cls.bandTicks ≤ 1 then fs.capped + 1 else fs.capped
      inside := if cls.bandClass = .inside then fs.inside + 1 else fs.inside
      boundary := if cls.bandClass = .boundary then fs.boundary + 1 else fs.boundary
      outside := if cls.bandClass = .outside then fs.outside + 1 else fs.outside
      pctHit := if cls.pctHit then fs.pctHit + 1 else fs.pctHit }
  | _, _ => fs

def batchFeeds (offer : OfferParams) (votes : Dict Nat (List FtsoVote))
    (apVals : List (Option Int)) :
    Nat → List String → Dict String FeedScore → Dict String FeedScore
  | _, [], scores => scores
  | i, name :: names, scores =>
    batchFeeds offer votes apVals (i + 1) names
      (match scores.get? name with
        | some fs => scores.set name (batchFeed offer votes apVals i name fs)
        | none => scores)

/-- One round of the loop: the scores, and how many rounds were scored. -/
def batchRound (offer : OfferParams) (g : Gathered) (acc : Dict String FeedScore × Nat) (r : Int) :
    Dict String FeedScore × Nat :=
  match g.ap.get? r with
  | none => acc
  | some apVals =>
    (batchFeeds offer ((g.votes.get? r).getD Dict.empty) apVals 0 offer.feeds acc.1, acc.2 + 1)

/-- `score_ap`. -/
def scoreAp [Messaging] (submission apSubmit : String) (offer : OfferParams)
    (weightMap : Dict String Int) (factory : VotingFactory) (cur : Int) (rounds : Nat)
    (blocks : List Block) : Dict String FeedScore × Nat :=
  let span := scoredSpan cur rounds
  let g := (scanBlocks (Py.lower submission) factory span blocks).foldl
    (gather (Py.lower apSubmit) weightMap) {}
  let scores := offer.feeds.foldl (fun d name => d.set name { feed := name }) Dict.empty
  span.rounds.foldl (batchRound offer g) (scores, 0)

end

end Clif.Observe

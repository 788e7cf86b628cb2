import Clif.Effect.Run
import Clif.Observe.Closeout
import Clif.Observe.Decode

/-!
# Observe.Engine — the loop of `run_engine`

A poll of the head, the blocks up to it, a pause: the answers of the nodes come with the event.
What a step shows besides the state it leads to are its notices.
-/

namespace Clif.Observe

structure Tx where
  toAddr : Option String
  fromAddr : Option String
  input : Option String

structure Block where
  timestamp : Int
  transactions : List Tx

structure EngineConfig where
  /-- `submission_address`, lower-cased. -/
  submission : String
  /-- Whether `fdc_hub` is set, and `fast_updater` resolved. -/
  fdcHub : Bool
  fastUpdater : Bool
  /-- Whether `mincond_history_file` is set. -/
  mincondHistory : Bool
  /-- Whether the registration, the validator's uptime and the reward bands are watched. -/
  registration : Bool
  validator : Bool
  iqrOn : Bool
  registrationRefreshSec : ℚ
  liveLagBlocks : Int
  confirmations : Int

/-- `reg`. -/
structure RegOverlay where
  registered : Option Bool := none
  epoch : Option Int := none
  checked : ℚ := 0

/-- `bud` and `up`. -/
structure Overlay (α : Type) where
  data : Option α := none
  checked : ℚ := 0

/-- `iqr`. -/
structure IqrOverlay where
  epoch : Option Int := none
  checked : ℚ := 0

structure EngineState where
  obs : ObserverState
  cursor : Nat
  /-- The first block whose events have not been read yet. -/
  scanLo : Nat
  tsMap : Dict Nat Int := Dict.empty
  lastBlock : Nat
  /-- The head that the loop is working up to; `none` while it polls. -/
  head : Option Nat := none
  /-- Whether the last read of the head failed. -/
  outage : Bool := false
  catchingUp : Bool := false
  mincondRecs : Ledger := Keyed.empty
  mincondFile : List RoundRecord := []
  mincondEpoch : Option Int := none
  mincondBlocks : Nat := 0
  reg : RegOverlay := {}
  bud : Overlay Budget := {}
  up : Overlay UptimeReading := {}
  iqr : IqrOverlay := {}

/-- What the nodes answer in a pause; `none` of a read: it failed. -/
structure PauseAnswers where
  now : ℚ
  fdcLogs : Option (List Nat)
  fuLogs : Option (List Nat)
  /-- The current reward epoch, and whether the voter is registered in it. -/
  registration : Option (Int × Bool)
  /-- The current reward epoch, and the offer and the weights of it. -/
  iqr : Option (Int × Option (OfferParams × Dict String Int))
  /-- The uptime, if the node is validating and the record has one. -/
  uptime : Option (Option (Option ℚ))
  /-- The nonce at the start of the epoch and the current one. -/
  budget : Option (Int × Int)
  /-- Whether a report is due. -/
  report : Bool

inductive EngineEvent where
  | poll (head : Option Nat)
  | block (blk : Block) (fdcLogs fuLogs : Option (List Nat))
  | pause (answers : PauseAnswers)

/-- A close-out, with what it is made from. -/
structure Closeout where
  epoch : Int
  records : Ledger
  uptime : Option UptimeReading
  ftso : Option Budget

def Closeout.verdict (c : Closeout) : Verdict :=
  renderEpochCloseout (epochTally c.records.values c.epoch) (c.uptime.map UptimeReading.pct) c.ftso

inductive Notice where
  | finalized (rs : RoundState)
  | closeout (c : Closeout)
  | opened (epoch : Int)
  | recorded (rec : RoundRecord)

namespace EngineState

/-! ## The overlays -/

/-- The clock's reward epoch. -/
def clockRound (s : EngineState) (now : ℚ) : Int := s.obs.factory.roundAt ⌊now⌋

/-- `_refresh_registration`. -/
def refreshRegistration (cfg : EngineConfig) (s : EngineState) (a : PauseAnswers) : EngineState :=
  if !cfg.registration then s
  else if s.reg.epoch.isSome ∧ a.now - s.reg.checked < cfg.registrationRefreshSec then s
  else
    match a.registration with
    | some (ep, registered) => { s with reg := ⟨some registered, some ep, a.now⟩ }
    | none => s

/-- `_refresh_iqr`. -/
def refreshIqr (cfg : EngineConfig) (s : EngineState) (a : PauseAnswers) : EngineState :=
  if !cfg.iqrOn then s
  else if s.iqr.epoch.isSome ∧ a.now - s.iqr.checked < cfg.registrationRefreshSec then s
  else
    match a.iqr with
    | none => s
    | some (ep, context) =>
      if some ep = s.iqr.epoch ∧ s.obs.iqrOffer.isSome then
        { s with iqr := { s.iqr with checked := a.now } }
      else
        match context with
        | none => s
        | some (offer, weights) =>
          { s with
            obs := { s.obs with iqrOffer := some offer, iqrWeightMap := weights }
            iqr := ⟨some ep, a.now⟩ }

/-- Whether an overlay is left alone. -/
def Overlay.fresh {α : Type} (o : Overlay α) (cfg : EngineConfig) (now : ℚ) : Bool :=
  decide (o.checked ≠ 0 ∧ now - o.checked < cfg.registrationRefreshSec)

/-- `_overlay_backoff`: the next try is in five minutes. -/
def Overlay.backoff {α : Type} (o : Overlay α) (cfg : EngineConfig) (now : ℚ) : Overlay α :=
  { o with checked := now - cfg.registrationRefreshSec + 300 }

/-- `_refresh_uptime`. -/
def refreshUptime (cfg : EngineConfig) (s : EngineState) (a : PauseAnswers) : EngineState :=
  if !cfg.validator || Overlay.fresh s.up cfg a.now then s
  else
    match a.uptime with
    | none => { s with up := Overlay.backoff s.up cfg a.now }
    | some none => { s with up := { s.up with checked := a.now } }
    | some (some pct) =>
      { s with up := ⟨pct.map fun p => ⟨p, epochOf (s.clockRound a.now)⟩, a.now⟩ }

/-- `_refresh_budget`. -/
def refreshBudget (cfg : EngineConfig) (s : EngineState) (a : PauseAnswers) : EngineState :=
  if Overlay.fresh s.bud cfg a.now then s
  else
    match a.budget with
    | none => { s with bud := Overlay.backoff s.bud cfg a.now }
    | some (start, now) =>
      { s with bud := ⟨some (readFtsoBudget (s.clockRound a.now) start now), a.now⟩ }

def refresh (cfg : EngineConfig) (s : EngineState) (a : PauseAnswers) : EngineState :=
  (((s.refreshRegistration cfg a).refreshIqr cfg a).refreshUptime cfg a).refreshBudget cfg a

/-- `expire_epoch_overlays`. -/
def expireEpochOverlays (s : EngineState) (newEpoch : Int) : EngineState :=
  { s with
    reg :=
      if s.reg.epoch.getD (-1) < newEpoch then ⟨none, some newEpoch, 0⟩
      else { s.reg with checked := 0 }
    bud := { s.bud with checked := 0 }
    up := { s.up with checked := 0 }
    iqr := { s.iqr with checked := 0 } }

/-! ## The events of the chain -/

/-- The writes for the logs of the blocks that `ts_map` knows. -/
def logOps (s : EngineState) (tsMap : Dict Nat Int) (op : RoundOp) (logs : Option (List Nat)) :
    List (Int × RoundOp) :=
  match logs with
  | none => []
  | some blocks => blocks.filterMap fun n =>
      (tsMap.get? n).map fun bts => (s.obs.factory.roundAt bts, op)

/-- What `_flush_events` writes. -/
def flushOps (cfg : EngineConfig) (s : EngineState) (tsMap : Dict Nat Int)
    (fdcLogs fuLogs : Option (List Nat)) : List (Int × RoundOp) :=
  (if cfg.fdcHub then s.logOps tsMap .fdcRequest fdcLogs else []) ++
    (if cfg.fastUpdater then s.logOps tsMap .fastUpdate fuLogs else [])

/-! ## The ledger -/

/-- A round of a new reward epoch closes the tracked one out. -/
def rollover (s : EngineState) (re : Int) : EngineState × List Notice :=
  match s.mincondEpoch with
  | none => ({ s with mincondEpoch := some re, mincondBlocks := 0 }, [.opened re])
  | some old =>
    if old < re then
      ({ s.expireEpochOverlays re with mincondEpoch := some re, mincondBlocks := 0 },
        [.closeout ⟨old, s.mincondRecs, s.up.data, s.bud.data⟩, .opened re])
    else (s, [])

/-- The record of a finalized round; an offence is not believed during a backfill. -/
def recordOf (s : EngineState) (rs : RoundState) : RoundRecord :=
  { fromRound rs with ro := if s.catchingUp then 0 else (fromRound rs).ro }

/-- The body of the loop over the rounds that `finalize_due` returns. -/
def recordRound (cfg : EngineConfig) (s : EngineState) (rs : RoundState) :
    EngineState × List Notice :=
  if !cfg.mincondHistory || decide (rs.roundId ∈ s.mincondRecs.keys) then (s, [.finalized rs])
  else
    let (s, closing) := s.rollover (epochOf rs.roundId)
    let record := s.recordOf rs
    ({ s with
        mincondRecs := s.mincondRecs.put record
        mincondFile := s.mincondFile ++ [record] },
      .finalized rs :: closing ++ [.recorded record])

def recordRounds (cfg : EngineConfig) (s : EngineState) : List RoundState →
    EngineState × List Notice
  | [] => (s, [])
  | rs :: done =>
    let (s, notices) := s.recordRound cfg rs
    let (s, rest) := s.recordRounds cfg done
    (s, notices ++ rest)

section

variable [FtsoRules] [Messaging]

/-! ## A block -/

/-- What AP's own transaction writes. -/
def ownOps (s : EngineState) (frm inp : String) (ts : Int) : List (Int × RoundOp) :=
  if frm = s.obs.submitLc ∨ frm = s.obs.sigLc then
    match decodeSubmit inp with
    | some d => s.obs.recordOps d frm ts
    | none => []
  else []

/-- What a reveal writes for the reward bands; nothing during a backfill. -/
def revealOps (s : EngineState) (frm inp : String) : List (Int × RoundOp) :=
  if !s.catchingUp ∧ s.obs.iqrOffer.isSome ∧ sliceTo (Py.sliceFrom inp 2) 8 = submit2Selector ∧
      (frm = s.obs.submitLc ∨ frm ∈ s.obs.iqrWeightMap.keys) then
    match parseSubmit2Tx (Py.sliceFrom inp 10) with
    | some ⟨some ftso, _⟩ => [(ftso.votingRoundId, s.obs.revealOp frm ftso.values)]
    | _ => []
  else []

/-- What a transaction of a block with the time `ts` writes. -/
def txOps (cfg : EngineConfig) (s : EngineState) (ts : Int) (tx : Tx) : List (Int × RoundOp) :=
  if Py.lower (tx.toAddr.getD "") ≠ cfg.submission then []
  else
    let frm := Py.lower (tx.fromAddr.getD "")
    let inp := tx.input.getD "0x"
    s.ownOps frm inp ts ++ s.revealOps frm inp

/-- Whether the events of the chunk are read at the end of the block. -/
def flushes (s : EngineState) : Bool := decide (30 ≤ s.cursor + 1 - s.scanLo)

/-- Everything that is written before the end of the block. -/
def blockOps (cfg : EngineConfig) (s : EngineState) (blk : Block)
    (fdcLogs fuLogs : Option (List Nat)) : List (Int × RoundOp) :=
  blk.transactions.flatMap (s.txOps cfg blk.timestamp) ++
    (if s.flushes then
      s.flushOps cfg (s.tsMap.set s.cursor blk.timestamp) fdcLogs fuLogs
    else [])

/-- The observer right before `finalize_due`. -/
def gathered (cfg : EngineConfig) (s : EngineState) (blk : Block)
    (fdcLogs fuLogs : Option (List Nat)) : ObserverState :=
  s.obs.performAll (s.blockOps cfg blk fdcLogs fuLogs)

/-- The body of the loop over the blocks. -/
def block (cfg : EngineConfig) (s : EngineState) (blk : Block)
    (fdcLogs fuLogs : Option (List Nat)) : EngineState × List Notice :=
  let (done, obs) := (s.gathered cfg blk fdcLogs fuLogs).sweep blk.timestamp
  let scanned :=
    { s with
      obs := obs
      scanLo := if s.flushes then s.cursor + 1 else s.scanLo
      tsMap := if s.flushes then Dict.empty else s.tsMap.set s.cursor blk.timestamp
      lastBlock := s.cursor }
  let (recorded, notices) := scanned.recordRounds cfg done
  ({ recorded with
      cursor := s.cursor + 1
      mincondBlocks := recorded.mincondBlocks + 1 }, notices)

end

/-! ## Around the blocks -/

/-- A read of the head. -/
def poll (cfg : EngineConfig) (s : EngineState) (head : Option Nat) : EngineState :=
  match head with
  | none => { s with outage := true }
  | some head =>
    { s with
      head := some head
      outage := false
      catchingUp :=
        if s.outage then decide (cfg.liveLagBlocks < (head : Int) - s.cursor) else s.catchingUp }

/-- The events of the trailing chunk. -/
def flushTrailing (cfg : EngineConfig) (s : EngineState) (a : PauseAnswers) : EngineState :=
  if s.scanLo < s.cursor then
    { s with
      obs := s.obs.performAll (s.flushOps cfg s.tsMap a.fdcLogs a.fuLogs)
      scanLo := s.cursor
      tsMap := Dict.empty }
  else s

/-- The prune that comes with a report. -/
def prune (cfg : EngineConfig) (s : EngineState) (report : Bool) : EngineState :=
  match s.reg.epoch with
  | some e =>
    if report && cfg.mincondHistory then
      { s with
        mincondRecs := pruneRecs s.mincondRecs e
        mincondFile := pruneHistory s.mincondFile (some e) }
    else s
  | none => s

/-- The end of the loop over the blocks, before the overlays are refreshed. -/
def settled (cfg : EngineConfig) (s : EngineState) (a : PauseAnswers) : EngineState :=
  let flushed := s.flushTrailing cfg a
  let live :=
    match s.head with
    | some head => decide ((head : Int) - s.lastBlock ≤ cfg.liveLagBlocks)
    | none => false
  { flushed with catchingUp := flushed.catchingUp && !live, head := none }

/-- What comes after the loop over the blocks. -/
def pause (cfg : EngineConfig) (s : EngineState) (a : PauseAnswers) : EngineState :=
  ((s.settled cfg a).refresh cfg a).prune cfg a.report

/-! ## Runs -/

/-- Before the first poll. -/
def start (cfg : EngineConfig) (setup : ObserverSetup) (cursor : Nat) (file : List RoundRecord)
    (tallies : List IqrTally) (a : PauseAnswers) : EngineState :=
  let s : EngineState :=
    { obs := { toObserverSetup := setup }, cursor := cursor, scanLo := cursor, lastBlock := cursor }
  let s := s.refresh cfg a
  let s := { s with obs := s.obs.seedIqrHistory tallies }
  if cfg.mincondHistory then
    { s with
      mincondRecs := loadHistory file s.reg.epoch
      mincondFile := file
      mincondEpoch := s.reg.epoch }
  else s

/-- Where the loop is when the event comes. -/
def Enabled (cfg : EngineConfig) (s : EngineState) : EngineEvent → Prop
  | .poll _ => s.head = none
  | .block .. => ∃ head : Nat, s.head = some head ∧ (s.cursor : Int) ≤ head - cfg.confirmations
  | .pause _ => s.head.isSome

variable [FtsoRules] [Messaging]

def next (cfg : EngineConfig) (s : EngineState) : EngineEvent → EngineState × List Notice
  | .poll head => (s.poll cfg head, [])
  | .block blk fdcLogs fuLogs => s.block cfg blk fdcLogs fuLogs
  | .pause a => (s.pause cfg a, [])

end EngineState

/-- An event, and what the step shows. -/
structure Happening where
  event : EngineEvent
  notices : List Notice

/-- A step of the engine. -/
def EngineStep [FtsoRules] [Messaging] (cfg : EngineConfig) (s : EngineState) (h : Happening)
    (s' : EngineState) : Prop :=
  s.Enabled cfg h.event ∧ s.next cfg h.event = (s', h.notices)

/-- The time of a block is not before the time of the last one. -/
def InTime (s : EngineState) (e : EngineEvent) : Prop :=
  ∀ blk fdcLogs fuLogs, e = .block blk fdcLogs fuLogs →
    ∀ last, s.obs.lastTs = some last → last ≤ blk.timestamp

/-- A step of the engine over a chain whose timestamps do not decrease. -/
def TimedStep [FtsoRules] [Messaging] (cfg : EngineConfig) (s : EngineState) (h : Happening)
    (s' : EngineState) : Prop :=
  InTime s h.event ∧ EngineStep cfg s h s'

def noticesOf (hs : List Happening) : List Notice := hs.flatMap Happening.notices

/-- The rounds among the notices that were finalized. -/
def finalizedIn (notices : List Notice) : List RoundState :=
  notices.filterMap fun
    | .finalized rs => some rs
    | _ => none

/-- The records among the notices that were written to the ledger. -/
def recordedIn (notices : List Notice) : List RoundRecord :=
  notices.filterMap fun
    | .recorded rec => some rec
    | _ => none

end Clif.Observe

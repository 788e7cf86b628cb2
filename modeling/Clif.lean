import Clif.Effect.Run
import Clif.MerkleProof
import Clif.Effect.State
import Clif.Dict
import Clif.Discovery
import Clif.Claimer
import Clif.Fsp
import Clif.NonceRelease
import Clif.SignedRoot
import Clif.Cycle
import Clif.LastDone
import Clif.ClaimSettled
import Clif.Tally
import Clif.SigningScan
import Clif.OurVote
import Clif.PhaseSafety
import Clif.TerminalLoud
import Clif.Funding
import Clif.Raised
import Clif.Delivery
import Clif.BlobSent
import Clif.Absorbed
import Clif.ClaimEffect
import Clif.ClaimRepeat
import Clif.VoteInFlight
import Clif.Cooldown
import Clif.Staleness
import Clif.Interference
import Clif.Malformed
import Clif.FspAuto
import Clif.FspMoves
import Clif.FspWork
import Clif.ClaimAuto
import Clif.ClaimConfirm
import Clif.Lines
import Clif.PyStr
import Clif.EnvFile
import Clif.Bundle
import Clif.ImportSafe
import Clif.ReadBack
import Clif.ImportTruth
import Clif.ImportAtomic
import Clif.FundingPlan
import Clif.FundingPass
import Clif.Alert
import Clif.Debounce
import Clif.AlertRun
import Clif.Readings
import Clif.Pager
import Clif.EpochSleep
import Clif.Observe.State
import Clif.SignerLock
import Clif.BackScan
import Clif.Gates
import Clif.FundingJson
import Clif.FundingTurns
import Clif.Observe.CleanRound
import Clif.Observe.RegEpoch
import Clif.Observe.Certified
import Clif.Observe.Jsonl
import Clif.Observe.Reload
import Clif.Observe.Resume
import Clif.Upsert
import Clif.Observe.Calls
import Clif.Observe.Holes
import Clif.Observe.Health
import Clif.Observe.Explained
import Clif.Observe.BlockSearch
import Clif.Observe.IqrBatch
import Clif.Observe.IqrScore
import Clif.Observe.IqrStream
import Clif.Observe.Offences
import Clif.Fleet
import Clif.Observe.LedgerExact
import Clif.Stranded
import Clif.Observe.Window
import Clif.Observe.Earned
import Clif.RenameFile
import Clif.StatusFile
import Clif.Observe.Published
import Clif.Observe.Outage
import Clif.Effect.Rely
import Clif.SettledChain
import Clif.Keyless
import Clif.Tempered
import Clif.LogRun
import Clif.SharedCache
import Clif.Observe.Offers
import Clif.Radix
import Clif.NodeId
import Clif.SampleLog
import Clif.Observe.Delegation

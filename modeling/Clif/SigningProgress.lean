import Clif.Dict
import Clif.Effect.State
import Clif.Rpc
import Mathlib.Algebra.Ring.Int.Defs
import Mathlib.Data.List.MinMax

/-!
# SigningProgress — the aggregation of the signing events, `signing_progress.py`

The one-shot scan walks back from the head until a chunk predates the end of the epoch.  The
daemon's refresh keeps a cache and scans the blocks above its high-water mark only.
-/

namespace Clif

open Effect

/-! ## Scanning -/

def chunkBlocks : Nat := 5000
def maxRequests : Nat := 240

def blockCapText : List Char := "maximum is set to ".toList

/-- `_parse_block_cap` on the characters of the text: the first run of digits after the words. -/
def parseBlockCapChars : List Char → Except Exc (Option Nat)
  | [] => .ok none
  | c :: cs =>
    let digits := if blockCapText.isPrefixOf (c :: cs) then
      ((c :: cs).drop blockCapText.length).takeWhile fun d => (Py.digit? d).isSome else []
    if digits.isEmpty then parseBlockCapChars cs
    else if digits.length > Py.maxStrDigits then .error (.valueError "Exceeds the limit for int()")
    else .ok (Py.digits? Py.digit? 10 false 0 digits)

/-- `_parse_block_cap`. -/
def parseBlockCap (msg : String) : Except Exc (Option Nat) := parseBlockCapChars msg.toList

/-- `message_hash -> {signing_policy_address: threshold_reached}`. -/
abbrev ByHash := Dict String (Dict String Bool)

def signersOf (byHash : ByHash) (h : String) : Dict String Bool :=
  (byHash.get? h).getD Dict.empty

def mergeLog (byHash : ByHash) (l : SignedLog) : ByHash :=
  byHash.set l.messageHash
    ((signersOf byHash l.messageHash).set l.signingPolicyAddress l.thresholdReached)

/-- `_merge`. -/
def merge (byHash : ByHash) (logs : List SignedLog) : ByHash := logs.foldl mergeLog byHash

section

variable [External]

/-- The logs of one slice, asked for again whenever the node names a range cap below the chunk;
the chunk that went through comes along.  `n` bounds the chunk, so a chunk of `0` is not reached
with a cap below it. -/
def fetchSlice (fsm : String) (epoch : Int) (kind : SigningKind) (slice : Nat → Int × Int) :
    Nat → Nat → Py (List SignedLog × Nat)
  | 0, chunk => do
    let logs ← signedLogs fsm epoch (slice chunk).1 (slice chunk).2 kind
    return (logs, chunk)
  | n + 1, chunk => do
    match ← attempt (signedLogs fsm epoch (slice chunk).1 (slice chunk).2 kind) with
    | .ok logs => return (logs, chunk)
    | .error (.rpcError msg) =>
      let cap := (← fromExcept (parseBlockCap msg)).getD 0
      if cap ≠ 0 ∧ cap < chunk then fetchSlice fsm epoch kind slice n cap
      else throw (.rpcError msg)
    | .error e => throw e

/-- The slice of the backward scan that ends at `hi`. -/
def backSlice (hi : Int) (chunk : Nat) : Int × Int := (max 0 (hi - chunk + 1), hi)

/-- The slice of the forward scan that starts at `cur`. -/
def forwardSlice (cur hi : Int) (chunk : Nat) : Int × Int := (cur, min hi (cur + chunk - 1))

/-- The loop of `_scan_window`; the number of requests left counts down. -/
def scanBack (fsm : String) (epoch : Int) (kind : SigningKind) (target : Int) :
    Nat → Nat → Int → ByHash → Int → Py (ByHash × Int × Bool)
  | 0, _, _, byHash, scannedFrom => return (byHash, scannedFrom, false)
  | reqs + 1, chunk, hi, byHash, scannedFrom =>
    if hi < 0 then return (byHash, scannedFrom, false)
    else do
      let fetched ← fetchSlice fsm epoch kind (backSlice hi) chunk chunk
      let byHash := merge byHash fetched.1
      let lo := (backSlice hi fetched.2).1
      if lo = 0 then return (byHash, lo, true)
      else
        let ts ← blockTimestamp lo
        if ts < target then return (byHash, lo, true)
        else scanBack fsm epoch kind target reqs fetched.2 (lo - 1) byHash lo

/-- `_scan_window`: `(by_hash, scanned_from_block, complete)`. -/
def scanWindow (fsm : String) (epoch : Int) (kind : SigningKind) (latest epochEndTs : Int) :
    Py (ByHash × Int × Bool) :=
  scanBack fsm epoch kind epochEndTs maxRequests chunkBlocks latest Dict.empty (latest + 1)

/-- The loop of `_scan_forward`, which merges into the `by_hash` it was handed. -/
def scanOn (fsm : String) (epoch : Int) (kind : SigningKind) (hi : Int) :
    Nat → Nat → Int → StAct sig Exc ByHash Unit
  | 0, _, _ => return ()
  | reqs + 1, chunk, cur =>
    if hi < cur then return ()
    else do
      let fetched ← lift (fetchSlice fsm epoch kind (forwardSlice cur hi) chunk chunk)
      modify fun byHash => merge byHash fetched.1
      scanOn fsm epoch kind hi reqs fetched.2 ((forwardSlice cur hi fetched.2).2 + 1)

/-- `_scan_forward`. -/
def scanForward (fsm : String) (epoch : Int) (kind : SigningKind) (lo hi : Int) :
    StAct sig Exc ByHash Unit :=
  scanOn fsm epoch kind hi maxRequests chunkBlocks lo

end

/-! ## Weights -/

structure Weights where
  weightOf : Dict String Int
  voterOf : Dict String String

def Weights.empty : Weights := ⟨Dict.empty, Dict.empty⟩

def Weights.of (w : Weights) (spa : String) : Int := (w.weightOf.get? spa).getD 0

def Weights.learn (w : Weights) (spa voter : String) (weight : Int) : Weights :=
  ⟨w.weightOf.set spa weight, w.voterOf.set spa (Py.lower voter)⟩

def allSigners (byHash : ByHash) : List String := byHash.values.flatMap Dict.keys

/-- The loop of `_lookup_weights`.  The source walks a set, in an order Python does not promise;
here the signers come in the order of their logs. -/
def lookupEach (vr : String) (epoch : Int) : List String → StAct sig Exc Weights Unit
  | [] => return ()
  | spa :: spas => do
    let w ← get
    if w.weightOf.contains spa then lookupEach vr epoch spas
    else
      let vw ← lift (rpc (.voterNormalisedWeight vr epoch spa))
      modify fun w => w.learn spa vw.1 vw.2
      lookupEach vr epoch spas

/-- `_lookup_weights`. -/
def lookupWeights (vr : String) (epoch : Int) (byHash : ByHash) : StAct sig Exc Weights Unit :=
  lookupEach vr epoch (allSigners byHash)

/-! ## Aggregation -/

structure SignerEntry where
  signingPolicyAddress : String
  voter : String
  weight : Int
deriving DecidableEq

/-- The percentages are exact here; the source computes them in floating point. -/
structure SigningProgress where
  epoch : Int
  signedWeight : Int
  totalWeight : Int
  thresholdWeight : Int
  signedPct : ℚ
  thresholdPct : ℚ
  finalized : Bool
  ourSigned : Bool
  signerCount : Nat
  kind : SigningKind
  messageHash : String
  complete : Bool
  scannedFromBlock : Int
  signers : List SignerEntry
deriving DecidableEq

/-- `math.ceil(total_weight * ppm / 1_000_000)`.  The total is a `uint16` and the share at most a
million, so the floating point of the source rounds to the same integer. -/
def thresholdWeightOf (total ppm : Int) : Int := -(-(total * ppm) / 1000000)

/-- `_hash_weight`. -/
def hashWeight (w : Weights) (signers : Dict String Bool) : Int :=
  (signers.keys.map w.of).sum

/-- `max(by_hash, key=…)`: the first hash, in the order of insertion, of the largest weight. -/
def leadingHash (w : Weights) (byHash : ByHash) : Option String :=
  -- the executable order of `Int`, which Mathlib's complete one would otherwise hide
  letI : Preorder Int := Int.instLinearOrder.toPreorder
  byHash.keys.argmax fun h => hashWeight w (signersOf byHash h)

/-- The signers of the leading hash. -/
def lead (w : Weights) (byHash : ByHash) : Dict String Bool :=
  match leadingHash w byHash with
  | some h => signersOf byHash h
  | none => Dict.empty

def signerEntries (w : Weights) (signers : Dict String Bool) : List SignerEntry :=
  (signers.keys.map fun spa => ⟨spa, (w.voterOf.get? spa).getD "", w.of spa⟩).mergeSort
    (fun a b => decide (b.weight ≤ a.weight))

/-- `bool(our and our in lead)`. -/
def ourIn (ourSpa : Option String) (signers : Dict String Bool) : Bool :=
  match ourSpa with
  | some spa => spa != "" && signers.contains (Py.lower spa)
  | none => false

/-- `_aggregate`. -/
def aggregate (epoch : Int) (kind : SigningKind) (byHash : ByHash) (w : Weights)
    (total ppm : Int) (ourSpa : Option String) (complete : Bool) (scannedFrom : Int) :
    SigningProgress :=
  let signers := lead w byHash
  let signedWeight := hashWeight w signers
  { epoch := epoch
    signedWeight := signedWeight
    totalWeight := total
    thresholdWeight := thresholdWeightOf total ppm
    signedPct := if total = 0 then 0 else 100 * (signedWeight : ℚ) / total
    thresholdPct := (ppm : ℚ) / 1000000 * 100
    finalized := signers.values.any id || decide (thresholdWeightOf total ppm < signedWeight)
    ourSigned := ourIn ourSpa signers
    signerCount := signers.keys.length
    kind := kind
    messageHash := (leadingHash w byHash).getD ""
    complete := complete
    scannedFromBlock := scannedFrom
    signers := signerEntries w signers }

/-! ## The one-shot scan and the cached one -/

def noVoterRegistry (net : NetworkConfig) : Exc :=
  .valueError s!"VoterRegistry not configured for network {net.name.str}"

/-- What the cache keeps of one `(network, epoch, kind)`. -/
structure CacheEntry where
  total : Int
  ppm : Int
  weights : Weights
  byHash : ByHash
  scannedHi : Int
  scannedFrom : Int
  baseComplete : Bool

abbrev CacheKey := Network × Int × SigningKind

abbrev ProgCache := Dict CacheKey CacheEntry

variable [External]

/-- The full scan, with the two facts that never change. -/
def scanBase (net : NetworkConfig) (epoch : Int) (kind : SigningKind) (latest epochEndTs : Int) :
    Py CacheEntry := do
  let window ← scanWindow net.flareSystemsManager epoch kind latest epochEndTs
  let sums ← rpc (.weightsSums net.voterRegistry epoch)
  let ppm ← rpc (.signingPolicyThresholdPpm net.flareSystemsManager)
  return ⟨sums.2.1, ppm, Weights.empty, window.1, latest, window.2.1, window.2.2⟩

def CacheEntry.progress (st : CacheEntry) (epoch : Int) (kind : SigningKind)
    (ourSpa : Option String) : SigningProgress :=
  aggregate epoch kind st.byHash st.weights st.total st.ppm ourSpa st.baseComplete st.scannedFrom

/-- The weights of the signers an entry has not met yet. -/
def fillWeights (vr : String) (epoch : Int) : StAct sig Exc CacheEntry Unit := do
  let st ← get
  focus CacheEntry.weights (fun w st => { st with weights := w })
    (lookupWeights vr epoch st.byHash)

/-- `compute_signing_progress`. -/
def computeSigningProgress (net : NetworkConfig) (epoch : Int) (ourSpa : Option String)
    (epochEndTs : Int) (kind : SigningKind) : Py SigningProgress := do
  if net.voterRegistry = "" then throw (noVoterRegistry net)
  else
    let latest ← rpc .blockNumber
    let st ← scanBase net epoch kind latest epochEndTs
    let filled ← runLocal (fillWeights net.voterRegistry epoch) st
    return filled.2.progress epoch kind ourSpa

/-- Only blocks above the last high-water mark can hold new signatures. -/
def advance (net : NetworkConfig) (epoch : Int) (kind : SigningKind) (latest : Int) :
    StAct sig Exc CacheEntry Unit := do
  let st ← get
  focus CacheEntry.byHash (fun b st => { st with byHash := b })
    (scanForward net.flareSystemsManager epoch kind (st.scannedHi + 1) latest)
  modify fun st => { st with scannedHi := latest }

/-- Insert the entry of an epoch and forget the epochs of the network more than four behind. -/
def ProgCache.store (cache : ProgCache) (net : Network) (epoch : Int) (kind : SigningKind)
    (st : CacheEntry) : ProgCache :=
  (cache.set (net, epoch, kind) st).filterKeys fun k => !(k.1 == net && decide (k.2.1 < epoch - 4))

/-- Run a program on the entry `st` of the cache. -/
def onEntry (key : CacheKey) (st : CacheEntry) (p : StAct sig Exc CacheEntry Unit) :
    StAct sig Exc ProgCache Unit :=
  focus (fun cache => (cache.get? key).getD st) (fun st cache => cache.set key st) p

/-- Bring the entry of the epoch up to the head. -/
def refreshEntry (net : NetworkConfig) (epoch : Int) (kind : SigningKind)
    (latest epochEndTs : Int) : StAct sig Exc ProgCache CacheEntry := do
  let cache ← get
  match cache.get? (net.name, epoch, kind) with
  | some st =>
    if st.baseComplete then
      onEntry (net.name, epoch, kind) st (advance net epoch kind latest)
      return st
    else
      let st ← lift (scanBase net epoch kind latest epochEndTs)
      modify fun cache => ProgCache.store cache net.name epoch kind st
      return st
  | none =>
    let st ← lift (scanBase net epoch kind latest epochEndTs)
    modify fun cache => ProgCache.store cache net.name epoch kind st
    return st

/-- `refresh_signing_progress`. -/
def refreshSigningProgress (net : NetworkConfig) (epoch : Int) (ourSpa : Option String)
    (epochEndTs : Int) (kind : SigningKind) : StAct sig Exc ProgCache SigningProgress := do
  if net.voterRegistry = "" then throw (noVoterRegistry net)
  else
    let latest ← lift (rpc .blockNumber)
    let st ← refreshEntry net epoch kind latest epochEndTs
    onEntry (net.name, epoch, kind) st (fillWeights net.voterRegistry epoch)
    let cache ← get
    return ((cache.get? (net.name, epoch, kind)).getD st).progress epoch kind ourSpa

end Clif

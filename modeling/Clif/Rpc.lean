import Clif.External

/-!
# Rpc — the methods of `RpcClient` that do more than one exchange or interpret what they read
-/

namespace Clif

open Effect

/-! ## Fees -/

def defaultTipWei : Int := 1000000000
def defaultMaxFeeCapWei : Int := 300000000000

/-- `_max_fee_cap_wei`. -/
def maxFeeCapWei : Py Int := do
  let raw ← io (.getenv "CLIF_MAX_FEE_PER_GAS_WEI")
  if Py.truthy raw then
    let text := raw.getD ""
    match Py.int? text with
    | none => throw (.valueError s!"invalid literal for int() with base 10: {text}")
    | some value =>
      if value ≤ 0 then
        throw (.valueError s!"CLIF_MAX_FEE_PER_GAS_WEI must be positive, got {value}")
      else return value
  else return defaultMaxFeeCapWei

/-- `(max_fee_per_gas, max_priority_fee_per_gas)`. -/
def suggestFees : Py (Int × Int) := do
  let baseFees ← rpc .feeHistory
  let latestBase : Int := baseFees.getLast?.getD defaultTipWei
  let tip := defaultTipWei
  let cap ← maxFeeCapWei
  if latestBase + tip > cap then
    throw (.rpcError (s!"base fee {latestBase} wei + tip {tip} wei exceeds the fee cap " ++
      s!"{cap} wei; the chain would reject this as underpriced. Raise " ++
      s!"CLIF_MAX_FEE_PER_GAS_WEI to at least {latestBase * 2 + tip} " ++
      "wei (and fwd's FWD_MAX_FEE_PER_GAS to match)."))
  else
    let maxFee := min (latestBase * 2 + tip) cap
    return (maxFee, min tip maxFee)

/-! ## Receipts -/

/-- The loop of `poll_receipt`.  `n` sleeps are left until the deadline has passed for certain. -/
def pollLoop (txHash : String) : Nat → Py (Option Receipt)
  | 0 => rpc (.getTransactionReceipt txHash)
  | n + 1 => do
    match ← rpc (.getTransactionReceipt txHash) with
    | some receipt => return some receipt
    | none =>
      if ← io .deadlinePassed then return none
      else pollLoop txHash n

/-- `poll_receipt`.  A sleep takes at least `poll = 5` seconds of monotonic time, so after
`timeout / 5` sleeps, rounded up, the deadline has passed. -/
def pollReceipt (txHash : String) (timeout : Nat) : Py (Option Receipt) :=
  pollLoop txHash ((timeout + 4) / 5)

/-- `int(str(receipt.get(…, "0x0")), 16)`. -/
def receiptInt (field : Option String) : Except Exc Int :=
  let text := field.getD "0x0"
  match Py.intHex? text with
  | some n => .ok n
  | none => .error (.valueError s!"invalid literal for int() with base 16: {text}")

/-! ## Blocks -/

/-- `block_timestamp`. -/
def blockTimestamp (block : Int) : Py Int := do
  match ← rpc (.blockTimestamp block) with
  | some ts => return ts
  | none => throw (.rpcError s!"block {block} not found")

/-! ## Signing-event logs -/

/-- One decoded signing-event log; the addresses are in lower case. -/
structure SignedLog where
  signingPolicyAddress : String
  voter : String
  messageHash : String
  thresholdReached : Bool
  timestamp : Int
  blockNumber : Int
deriving DecidableEq

/-- `_EVENT_SPECS[kind].data_types`. -/
def SigningKind.dataTypes : SigningKind → List AbiType
  | .rewards => [.bytesN 32, .array (.tuple [.uint 256, .uint 256]), .uint 64, .bool]
  | .uptime => [.bytesN 32, .uint 64, .bool]

/-- The message hash is the first field of `data`, the timestamp and the threshold flag the last
two. -/
def signedFields : SigningKind → List AbiValue → Option (Bytes × Int × Bool)
  | .rewards, [.bytes h, _, .int ts, .bool b] => some (h, ts, b)
  | .uptime, [.bytes h, .int ts, .bool b] => some (h, ts, b)
  | _, _ => none

section

variable [External]

/-- One pass of the loop of `signed_logs`; a log with fewer than four topics is skipped. -/
def decodeSignedLog (kind : SigningKind) (entry : RawLog) : Except Exc (Option SignedLog) :=
  match entry.topics with
  | _ :: _ :: topic2 :: topic3 :: _ =>
    match Py.fromHex (Py.removePrefix entry.data "0x") with
    | none => .error (.valueError "non-hexadecimal number found in fromhex() arg")
    | some data =>
      match abiDecode kind.dataTypes data with
      | .error exc => .error (.rpcError s!"abi decode failed: {exc.str}")
      | .ok decoded =>
        match signedFields kind decoded, Py.intHex? entry.blockNumber with
        | some (messageHash, ts, reached), some block =>
          .ok (some
            { signingPolicyAddress := Py.lower ("0x" ++ Py.lastChars topic2 40)
              voter := Py.lower ("0x" ++ Py.lastChars topic3 40)
              messageHash := "0x" ++ Py.toHex messageHash
              thresholdReached := reached
              timestamp := ts
              blockNumber := block })
        | none, _ => .error (.other "TypeError" "decoded fields of another type")
        | _, none => .error (.valueError "invalid literal for int() with base 16")
  | _ => .ok none

def decodeSignedLogs (kind : SigningKind) : List RawLog → Except Exc (List SignedLog)
  | [] => .ok []
  | entry :: rest => do
    let l ← decodeSignedLog kind entry
    let ls ← decodeSignedLogs kind rest
    return l.toList ++ ls

/-- `signed_logs`. -/
def signedLogs (fsm : String) (epoch lo hi : Int) (kind : SigningKind) : Py (List SignedLog) := do
  let raw ← rpc (.signedLogs fsm epoch lo hi kind)
  fromExcept (decodeSignedLogs kind raw)

/-! ## Revert reasons -/

def revertHexPrefix (raw : String) : String :=
  (["Reverted 0x", "execution reverted: 0x", "0x"].find? fun p =>
    Py.startsWith raw p || Py.startsWith (Py.lower raw) (Py.lower p)).getD ""

/-- The text of a revert out of what the node surfaced. -/
def decodeRevert (raw : String) : Except Exc (Option String) :=
  let hexData := Py.strip (Py.sliceFrom raw (revertHexPrefix raw).length)
  if !Py.startsWith hexData "08c379a0" then
    match ["execution reverted: ", "Reverted "].find? fun p => Py.startsWith raw p with
    | some p => .ok (some (Py.strip (Py.sliceFrom raw p.length)))
    | none => .ok none
  else
    match Py.fromHex hexData with
    | none => .error (.valueError "non-hexadecimal number found in fromhex() arg")
    | some data =>
      if data.length < 4 + 32 + 32 then .ok none
      else
        match abiDecode [.string] (data.drop 4) with
        | .ok [.str reason] => .ok (some reason)
        | .ok _ => .error (.valueError "not enough values to unpack")
        | .error exc => .error exc

/-- What the replayed call surfaced; `none` where the source returns `None` at once. -/
def ReplayReply.raw : ReplayReply → Option String
  | .failed => none
  | .errorObject data message =>
    if Py.truthy data then data else if Py.truthy message then message else none
  | .errorText text => some text
  | .result text => text
  | .neither => none

def callObject (tx : Transaction) : CallObject :=
  { toAddr := tx.toAddr.getD ""
    data := orElse tx.input "0x"
    sender := if Py.truthy tx.sender then tx.sender else none
    value :=
      if Py.truthy tx.value && !(["0x0", "0x", "0"].contains (tx.value.getD "")) then tx.value
      else none }

/-- The body of the `try` of `get_revert_reason`. -/
def replayRevert (txHash : String) : Py (Option String) := do
  match ← rpc (.getTransactionByHash txHash) with
  | none => return none
  | some tx =>
    match ← rpc (.getTransactionReceipt txHash) with
    | none => return none
    | some receipt =>
      match receipt.blockNumber with
      | none => return none
      | some block =>
        let reply ← io (.replay (callObject tx) block)
        if Py.truthy reply.raw then fromExcept (decodeRevert (reply.raw.getD "")) else return none

/-- `get_revert_reason`: never raises. -/
def getRevertReason (txHash : String) : Py (Option String) := do
  match ← attempt (replayRevert txHash) with
  | .ok reason => return reason
  | .error _ => return none

end

end Clif

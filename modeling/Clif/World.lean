import Mathlib.Data.Rat.Defs
import Clif.Effect.State
import Clif.Config

/-!
# World — what `clif` asks of the node, of `fwd`, of the reward files and of the clock

The operations are the calls that leave the process.  The answers are left to the world: a node
may time out, lie or reply with anything; `fwd` may raise anything; a file may be missing.  The
ghost operation `called` marks the entry of an orchestrator in the trace and has no other effect.
-/

namespace Clif

/-! ## Exceptions -/

inductive Exc where
  /-- `RpcError`, whose only content is its text. -/
  | rpcError (msg : String)
  | fwdTerminal (status : Int) (errorCode text : String)
  | fwdRetryable (status : Int) (errorCode text : String)
  /-- The base class of the two. -/
  | fwdError (text : String)
  /-- Any other Python exception, by class and text. -/
  | other (cls msg : String)
deriving DecidableEq

/-- `str(exc)`. -/
def Exc.str : Exc → String
  | .rpcError m => m
  | .fwdTerminal _ _ m => m
  | .fwdRetryable _ _ m => m
  | .fwdError m => m
  | .other _ m => m

/-- `type(exc).__name__`. -/
def Exc.cls : Exc → String
  | .rpcError _ => "RpcError"
  | .fwdTerminal .. => "FwdTerminalError"
  | .fwdRetryable .. => "FwdRetryableError"
  | .fwdError _ => "FwdError"
  | .other c _ => c

def Exc.valueError (msg : String) : Exc := .other "ValueError" msg

/-- Caught by `except (FwdRetryableError, FwdTerminalError, FwdError)`. -/
def Exc.isFwd : Exc → Bool
  | .fwdTerminal .. => true
  | .fwdRetryable .. => true
  | .fwdError _ => true
  | _ => false

/-! ## Data on the wire -/

inductive MessageType where
  | uptime
  | rewardDistribution
deriving DecidableEq

def MessageType.str : MessageType → String
  | .uptime => "UPTIME"
  | .rewardDistribution => "REWARD_DISTRIBUTION"

/-- The two signing events, `kind="rewards"` and `kind="uptime"`. -/
inductive SigningKind where
  | rewards
  | uptime
deriving DecidableEq

inductive BroadcastOutcome where
  | accepted
  | rejectedReleaseable
  | rejectedNonceTooLow
deriving DecidableEq

inductive ReceiptOutcome where
  | minedSuccess
  | minedReverted
deriving DecidableEq

structure SignFspRequest where
  wallet : Option String
  messageType : MessageType
  rewardEpochId : Int
  chainId : Option Int := none
  noOfWeightBasedClaims : Option Int := none
  rewardsHash : Option String := none
  idempotencyKey : String
deriving DecidableEq

structure SignFspMessageResponse where
  messageHash : String
  v : Int
  r : String
  s : String
deriving DecidableEq

/-- The body of `/v1/sign-transaction`; the idempotency key travels beside it as a header. -/
structure TxBody where
  wallet : Option String
  chain : Int
  toAddr : String
  data : String
  valueWei : String
  gas : Int
  maxFeePerGas : Int
  maxPriorityFeePerGas : Int
deriving DecidableEq

structure SignTransactionResponse where
  txId : String
  hash : String
  signedRawTx : String
deriving DecidableEq

structure LogEntry where
  address : String
  topics : List String
  data : String
deriving DecidableEq

/-- `none`: the key is absent. -/
structure Receipt where
  blockNumber : Option String
  status : Option String
  logs : List LogEntry
deriving DecidableEq

structure Transaction where
  toAddr : Option String
  input : Option String
  sender : Option String
  value : Option String
deriving DecidableEq

/-- The call object `get_revert_reason` replays. -/
structure CallObject where
  toAddr : String
  data : String
  sender : Option String
  value : Option String
deriving DecidableEq

/-- What the node answers to a replayed call. -/
inductive ReplayReply where
  | failed
  | errorObject (data message : Option String)
  | errorText (text : String)
  | result (text : Option String)
  | neither
deriving DecidableEq

/-- One signing-event log as the node returns it. -/
structure RawLog where
  topics : List String
  data : String
  blockNumber : String
deriving DecidableEq

/-! ## Reward files, after the type checks of the pydantic models -/

/-- `[ merkleProof[], [epochId, beneficiary, amountStr, claimType] ]`. -/
structure RawRewardClaim where
  merkleProof : List String
  epochId : Int
  beneficiary : String
  amount : String
  claimType : Int
deriving DecidableEq

/-- `RewardsData`. -/
structure RewardsData where
  rewardEpochId : Int
  rewardClaims : List RawRewardClaim
  merkleRoot : String
deriving DecidableEq

structure RewardClaimBodyDict where
  rewardEpochId : Int
  beneficiary : String
  amount : String
  claimType : Int
deriving DecidableEq

structure RewardClaimWithProofDict where
  merkleProof : List String
  body : RewardClaimBodyDict
deriving DecidableEq

/-- The fields of a `reward-distribution-data.json`, before its validators ran. -/
structure RewardDistributionFields where
  rewardEpochId : Int
  merkleRoot : String
  noOfWeightBasedClaims : Int
  rewardClaims : Option (List RewardClaimWithProofDict)
deriving DecidableEq

/-! ## Operations -/

/-- The calls of `RpcClient`. -/
inductive RpcOp where
  | currentRewardEpochId (fsm : String)
  | firstRewardEpochStartTs (fsm : String)
  | rewardEpochDurationSeconds (fsm : String)
  | rewardsHash (fsm : String) (epoch : Int)
  | uptimeVoteHash (fsm : String) (epoch : Int)
  | voterRewardsSignInfo (fsm : String) (epoch : Int) (voter : String)
  | voterUptimeVoteSignInfo (fsm : String) (epoch : Int) (voter : String)
  | nextClaimableRewardEpochId (rm owner : String)
  | rewardEpochIdRange (rm : String)
  | feeHistory
  | getBalance (address : String)
  | sendRawTransaction (signedRawTx : String)
  | getTransactionReceipt (txHash : String)
  | getTransactionByHash (txHash : String)
  | blockNumber
  | blockTimestamp (block : Int)
  | signedLogs (fsm : String) (epoch lo hi : Int) (kind : SigningKind)
  | weightsSums (vr : String) (epoch : Int)
  | signingPolicyThresholdPpm (fsm : String)
  | voterNormalisedWeight (vr : String) (epoch : Int) (spa : String)
deriving DecidableEq

@[reducible] def RpcOp.Res : RpcOp → Type
  | .currentRewardEpochId _ => Int
  | .firstRewardEpochStartTs _ => Int
  | .rewardEpochDurationSeconds _ => Int
  | .rewardsHash _ _ => String
  | .uptimeVoteHash _ _ => String
  | .voterRewardsSignInfo _ _ _ => Int × Int
  | .voterUptimeVoteSignInfo _ _ _ => Int × Int
  | .nextClaimableRewardEpochId _ _ => Int
  | .rewardEpochIdRange _ => Int × Int
  | .feeHistory => List Int
  | .getBalance _ => Int
  | .sendRawTransaction _ => String
  | .getTransactionReceipt _ => Option Receipt
  | .getTransactionByHash _ => Option Transaction
  | .blockNumber => Int
  | .blockTimestamp _ => Option Int
  | .signedLogs .. => List RawLog
  | .weightsSums _ _ => Int × Int × Int
  | .signingPolicyThresholdPpm _ => Int
  | .voterNormalisedWeight .. => String × Int

/-- The JSON-RPC method behind the call. -/
def RpcOp.method : RpcOp → String
  | .feeHistory => "eth_feeHistory"
  | .getBalance _ => "eth_getBalance"
  | .sendRawTransaction _ => "eth_sendRawTransaction"
  | .getTransactionReceipt _ => "eth_getTransactionReceipt"
  | .getTransactionByHash _ => "eth_getTransactionByHash"
  | .blockNumber => "eth_blockNumber"
  | .blockTimestamp _ => "eth_getBlockByNumber"
  | .signedLogs .. => "eth_getLogs"
  | _ => "eth_call"

/-- The calls of `FwdClient`. -/
inductive FwdOp where
  | signFspMessage (req : SignFspRequest)
  | signTransaction (body : TxBody) (idempotencyKey : String)
  | reportBroadcastResult (txId txHash : String) (outcome : BroadcastOutcome)
      (errorClass : Option String)
  | reportReceipt (txId txHash : String) (outcome : ReceiptOutcome) (blockNumber : Int)
deriving DecidableEq

@[reducible] def FwdOp.Res : FwdOp → Type
  | .signFspMessage _ => SignFspMessageResponse
  | .signTransaction _ _ => SignTransactionResponse
  | .reportBroadcastResult .. => Unit
  | .reportReceipt .. => Unit

/-- How one JSON-RPC exchange went (`RpcClient._call` and the decoding after it). -/
inductive Reply (α : Type) where
  | result (a : α)
  /-- `httpx.HTTPError` (no answer, or an HTTP error status), or a body that is not JSON. -/
  | transport (exc : String)
  /-- A JSON-RPC error object, as text. -/
  | error (err : String)
  /-- A result that the ABI decoder refuses. -/
  | undecodable (exc : String)
  /-- A reply of another shape (no `result`, not an object, …): an exception that is no
  `RpcError`. -/
  | malformed (cls msg : String)
deriving DecidableEq

/-- The orchestrators whose entry the trace records. -/
inductive Call where
  | driveEpoch (epoch : Int)
  | runSignUptime (epoch : Int)
  | runSignRewards (epoch : Int)
  | ourSigned (epoch : Int)
  | runClaim (claimType : Int) (beneficiary : String) (onlyEpoch : Option Int)
deriving DecidableEq

inductive Op where
  | rpc (o : RpcOp)
  /-- A call of the `FwdClient` built with the token `caller`. -/
  | fwd (caller : Option String) (o : FwdOp)
  /-- `get_revert_reason`'s own `eth_call` at a past block. -/
  | replay (call : CallObject) (block : String)
  | readRewardDistributionData (network : Network) (epoch : Int)
  | readRewardCalculationData (network : Network) (epoch : Int)
  /-- `time.monotonic() >= deadline`. -/
  | deadlinePassed
  | getenv (name : String)
  | called (c : Call)
deriving DecidableEq

@[reducible] def Op.Ans : Op → Type
  | .rpc o => Reply o.Res
  | .fwd _ o => Except Exc o.Res
  | .replay _ _ => ReplayReply
  | .readRewardDistributionData _ _ => Option RewardDistributionFields
  | .readRewardCalculationData _ _ => Option RewardsData
  | .deadlinePassed => Bool
  | .getenv _ => Option String
  | .called _ => Unit

@[reducible] def sig : Effect.Sig := ⟨Op, Op.Ans⟩

/-- A Python function: it may leave the process, and it may raise. -/
abbrev Py (α : Type) := Effect.Act sig Exc α

abbrev Trace := List (Effect.Event sig)

/-- A world in which every exchange fails. -/
def deafWorld : (op : Op) → op.Ans
  | .rpc _ => .transport "timed out"
  | .fwd _ _ => .error (.fwdRetryable 0 "transport_error" "fwd unreachable")
  | .replay _ _ => .failed
  | .readRewardDistributionData _ _ => none
  | .readRewardCalculationData _ _ => none
  | .deadlinePassed => true
  | .getenv _ => none
  | .called _ => ()

open Effect

/-- `RpcClient._call`, with the method's own decoding. -/
def rpcResult {α : Type} (method : String) : Reply α → Except Exc α
  | .result a => .ok a
  | .transport exc => .error (.rpcError s!"{method} transport failure: {exc}")
  | .error err => .error (.rpcError s!"{method} rpc error: {err}")
  | .undecodable exc => .error (.rpcError s!"abi decode failed {exc}")
  | .malformed cls msg => .error (.other cls msg)

theorem rpcResult_eq_ok {α : Type} {method : String} {a : Reply α} {x : α}
    (h : rpcResult method a = .ok x) : a = .result x := by
  cases a <;> simp_all [rpcResult]

/-- One exchange with the outside. -/
abbrev io (o : Op) : Py o.Ans := ask (S := sig) o

def rpc (o : RpcOp) : Py o.Res := do
  let r ← io (.rpc o)
  fromExcept (rpcResult o.method r)

def fwd (caller : Option String) (o : FwdOp) : Py o.Res := do
  let r ← io (.fwd caller o)
  fromExcept r

/-- Mark the entry of an orchestrator. -/
def enter (c : Call) : Py Unit := io (.called c)

section

variable {α : Type} {t : Trace} {r : Except Exc α}

theorem runs_rpc_bind {o : RpcOp} {f : o.Res → Py α} :
    Runs (rpc o >>= f) t r ↔ ∃ a t', t = ⟨.rpc o, a⟩ :: t' ∧
      ((∃ x, rpcResult o.method a = .ok x ∧ Runs (f x) t' r) ∨
        ∃ e, rpcResult o.method a = .error e ∧ t' = [] ∧ r = .error e) := by
  unfold rpc
  rw [bind_assoc, runs_ask_bind]
  simp only [runs_fromExcept_bind]

theorem runs_rpc {o : RpcOp} {r : Except Exc o.Res} :
    Runs (rpc o) t r ↔ ∃ a, t = [⟨.rpc o, a⟩] ∧ r = rpcResult o.method a := by
  unfold rpc
  rw [runs_ask_bind]
  constructor
  · rintro ⟨a, t', rfl, rfl, rfl⟩
    exact ⟨a, rfl, rfl⟩
  · rintro ⟨a, rfl, rfl⟩
    exact ⟨a, [], rfl, rfl, rfl⟩

theorem runs_fwd {c : Option String} {o : FwdOp} {r : Except Exc o.Res} :
    Runs (fwd c o) t r ↔ t = [⟨.fwd c o, r⟩] := by
  unfold fwd
  rw [runs_ask_bind]
  constructor
  · rintro ⟨a, t', rfl, rfl, rfl⟩
    rfl
  · rintro rfl
    exact ⟨r, [], rfl, rfl, rfl⟩

theorem runs_attempt_fwd_bind {c : Option String} {o : FwdOp} {f : Except Exc o.Res → Py α} :
    Runs (attempt (fwd c o) >>= f) t r ↔ ∃ x t', t = ⟨.fwd c o, x⟩ :: t' ∧ Runs (f x) t' r := by
  rw [runs_attempt_bind]
  constructor
  · rintro ⟨x, t₁, t₂, rfl, h₁, h₂⟩
    rw [runs_fwd.mp h₁]
    exact ⟨x, t₂, rfl, h₂⟩
  · rintro ⟨x, t', rfl, h⟩
    exact ⟨x, [⟨.fwd c o, x⟩], t', rfl, runs_fwd.mpr rfl, h⟩

theorem runs_attempt_rpc_bind {o : RpcOp} {f : Except Exc o.Res → Py α} :
    Runs (attempt (rpc o) >>= f) t r ↔
      ∃ a t', t = ⟨.rpc o, a⟩ :: t' ∧ Runs (f (rpcResult o.method a)) t' r := by
  rw [runs_attempt_bind]
  constructor
  · rintro ⟨x, t₁, t₂, rfl, h₁, h₂⟩
    obtain ⟨a, rfl, rfl⟩ := runs_rpc.mp h₁
    exact ⟨a, t₂, rfl, h₂⟩
  · rintro ⟨a, t', rfl, h⟩
    exact ⟨_, [⟨.rpc o, a⟩], t', rfl, runs_rpc.mpr ⟨a, rfl, rfl⟩, h⟩

@[simp] theorem runs_enter {c : Call} {r : Except Exc Unit} :
    Runs (enter c) t r ↔ t = [⟨.called c, ()⟩] ∧ r = .ok () := by
  unfold enter
  rw [runs_ask]
  exact ⟨fun ⟨_, h₁, h₂⟩ => ⟨h₁, h₂⟩, fun ⟨h₁, h₂⟩ => ⟨(), h₁, h₂⟩⟩

theorem runs_enter_bind {c : Call} {f : Unit → Py α} :
    Runs (enter c >>= f) t r ↔ ∃ t', t = ⟨.called c, ()⟩ :: t' ∧ Runs (f ()) t' r := by
  unfold enter
  rw [runs_ask_bind]
  exact ⟨fun ⟨_, t', h₁, h₂⟩ => ⟨t', h₁, h₂⟩, fun ⟨t', h₁, h₂⟩ => ⟨(), t', h₁, h₂⟩⟩

theorem runsOn_enter_bind {σ : Type} {c : Call} {f : Unit → StAct sig Exc σ α} {u u' : σ} :
    RunsOn (lift (enter c) >>= f) u t r u' ↔
      ∃ t', t = ⟨.called c, ()⟩ :: t' ∧ RunsOn (f ()) u t' r u' := by
  rw [runsOn_lift_bind]
  constructor
  · rintro (⟨a, t₁, t₂, rfl, h₁, h₂⟩ | ⟨e, h₁, -⟩)
    · obtain ⟨rfl, -⟩ := runs_enter.mp h₁
      exact ⟨t₂, rfl, h₂⟩
    · cases (runs_enter.mp h₁).2
  · rintro ⟨t', rfl, h⟩
    exact Or.inl ⟨(), [_], t', rfl, runs_enter.mpr ⟨rfl, rfl⟩, h⟩

theorem runsOn_rpc_bind {σ : Type} {o : RpcOp} {f : o.Res → StAct sig Exc σ α} {u u' : σ} :
    RunsOn (lift (rpc o) >>= f) u t r u' ↔ ∃ a t', t = ⟨.rpc o, a⟩ :: t' ∧
      ((∃ x, rpcResult o.method a = .ok x ∧ RunsOn (f x) u t' r u') ∨
        ∃ e, rpcResult o.method a = .error e ∧ t' = [] ∧ r = .error e ∧ u' = u) := by
  rw [runsOn_lift_bind]
  constructor
  · rintro (⟨x, t₁, t₂, rfl, h₁, h₂⟩ | ⟨e, h₁, rfl, rfl⟩)
    · obtain ⟨a, rfl, hx⟩ := runs_rpc.mp h₁
      exact ⟨a, t₂, rfl, Or.inl ⟨x, hx.symm, h₂⟩⟩
    · obtain ⟨a, rfl, hx⟩ := runs_rpc.mp h₁
      exact ⟨a, [], rfl, Or.inr ⟨e, hx.symm, rfl, rfl, rfl⟩⟩
  · rintro ⟨a, t', rfl, ⟨x, hx, h⟩ | ⟨e, he, rfl, rfl, rfl⟩⟩
    · exact Or.inl ⟨x, [_], t', rfl, runs_rpc.mpr ⟨a, rfl, hx.symm⟩, h⟩
    · exact Or.inr ⟨e, runs_rpc.mpr ⟨a, rfl, he.symm⟩, rfl, rfl⟩

end

/-! ## What a program asks -/

section

variable {φ : Event sig → Prop}

theorem emits_rpc {o : RpcOp} (h : ∀ a, φ ⟨.rpc o, a⟩) : Emits (rpc o) φ := by
  intro t r hr e he
  obtain ⟨a, rfl, -⟩ := runs_rpc.mp hr
  rw [List.mem_singleton.mp he]
  exact h a

theorem emits_fwd {c : Option String} {o : FwdOp} (h : ∀ a, φ ⟨.fwd c o, a⟩) :
    Emits (fwd c o) φ := by
  intro t r hr e he
  rw [runs_fwd.mp hr] at he
  rw [List.mem_singleton.mp he]
  exact h r

theorem emits_enter {c : Call} (h : φ ⟨.called c, ()⟩) : Emits (enter c) φ := by
  intro t r hr e he
  obtain ⟨rfl, -⟩ := runs_enter.mp hr
  rw [List.mem_singleton.mp he]
  exact h

end

end Clif

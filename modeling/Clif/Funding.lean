import Clif.Claimer
import Clif.PyNum

/-!
# Funding — `funding.py`: a top-up is a native transfer that `fwd` signs and `clif` broadcasts

The registry of accounts and the execute path.
-/

namespace Clif

open Effect

/-- A balance below `lower` is topped up to `upper`. -/
structure Band where
  lower : ℚ
  upper : ℚ
deriving DecidableEq

/-- `GAS`. -/
def gasBand : Band := ⟨250, 400⟩

/-- `IDENTITY`. -/
def identityBand : Band := ⟨150, 200⟩

structure Account where
  name : String
  address : String
  band : Band
deriving DecidableEq

/-- `ACCOUNTS`; a network without an entry has no accounts. -/
def accounts : Network → List Account
  | .flare =>
    [⟨"Submit", "0x366BCb8c23490327A1C63880875a35de41705876", gasBand⟩,
      ⟨"SubmitSignatures", "0x81acBFb044b7fbc4177e3b033FBf10fa8d335Dc0", gasBand⟩,
      ⟨"SigningPolicy", "0x3FA07a1d5Cb3B34C7A04782C5dd8bE9D910ed0e5", gasBand⟩,
      ⟨"FastUpdates-1", "0x8AF4f6Eb1A26516Ccb0fe02AD7182f96c0CA5bBb", gasBand⟩,
      ⟨"FastUpdates-2", "0xD04cFE38B880A22C44b5189fD39b889F4a7978FA", gasBand⟩,
      ⟨"FastUpdates-3", "0x85BA3aF484Fe8ee8bAcE1470AeBd88d57A0078F3", gasBand⟩,
      ⟨"Identity", "0x26534aC74153E3257dDD3471f96faA33D5D3B575", identityBand⟩,
      ⟨"Delegation", "0x7808b9e0f7c488172b54b30f98c2fcf36d903b2c", identityBand⟩]
  | .songbird =>
    [⟨"Submit", "0xa8BBBA017b2ce496bBED4CFC0FB5D1aFd4F23772", gasBand⟩,
      ⟨"SubmitSignatures", "0xf417294C5a65535d4a33259c73eeA39373977C65", gasBand⟩,
      ⟨"SigningPolicy", "0xfB021c01f924C416D1FEd247161963EfC2Ae7604", gasBand⟩,
      ⟨"FastUpdates-1", "0x83AFf99BD804a342588a7c7E9016a056D93d0A3C", gasBand⟩,
      ⟨"FastUpdates-2", "0xb0de315D06f955608Db6d56bbC71d653AE1bC939", gasBand⟩,
      ⟨"FastUpdates-3", "0x0DED6921aB23f447729deed86bb20C50EE8e05BB", gasBand⟩,
      ⟨"Identity", "0xcf3A3e5797A960C67e0E4B23D4594246ffB9d935", identityBand⟩,
      ⟨"Delegation", "0xaf31ca175bbe0c6dd667c8403b65a33b28238afa", identityBand⟩]
  | .coston2 => []

inductive TopUpStatus where
  | funded
  | failed
deriving DecidableEq

structure TopUp where
  name : String
  address : String
  before : ℚ
  after : ℚ
  sent : ℚ
  txHash : String
  status : TopUpStatus
  detail : String := ""
deriving DecidableEq

/-- `_WEI`. -/
def wei : ℚ := 10 ^ 18

/-- `w / _WEI`, of two integers. -/
def native (w : Int) : ℚ := Py.double (w / wei)

theorem native_mono : Monotone native := by
  intro w w' h
  have hcast : (w : ℚ) ≤ w' := by exact_mod_cast h
  exact Py.double_mono (div_le_div_of_nonneg_right hcast (by norm_num [wei]))

def topupTxBody (account : Account) (valueWei : Int) (wallet : String)
    (chainId maxFee maxPriority : Int) : TxBody :=
  { wallet := some wallet
    chain := chainId
    toAddr := account.address
    data := "0x"
    valueWei := toString valueWei
    gas := 21000
    maxFeePerGas := maxFee
    maxPriorityFeePerGas := maxPriority }

/-- The key of a top-up is bound to the second in which it was asked for. -/
def topupKey (network : Network) (account : Account) (now : Int) : String :=
  s!"clif-funding:{network.str}:{Py.lower account.address}:{now}"

/-- `int(str(receipt[key]), 16)`. -/
def receiptAt (key : String) : Option String → Except Exc Int
  | none => .error (.other "KeyError" key)
  | some text => receiptInt (some text)

/-- The part of `_execute_topup` that looks at the receipt: whether it has status 1.  Any receipt
is reported as mined. -/
def reportMined (caller : Option String) (resp : SignTransactionResponse) (txHash : String) :
    Option Receipt → Py Bool
  | none => return false
  | some receipt => do
    let block ← fromExcept (receiptAt "blockNumber" receipt.blockNumber)
    reportQuietly caller (.reportReceipt resp.txId txHash .minedSuccess block)
    let status ← fromExcept (receiptAt "status" receipt.status)
    return status == 1

/-- `_execute_topup` from the accepted broadcast on: mined is not success, the balance must rise. -/
def confirmTopup (caller : Option String) (account : Account) (before : ℚ) (valueWei : Int)
    (pollTimeout : Nat) (resp : SignTransactionResponse) (txHash : String) : Py TopUp := do
  let receipt ← pollReceipt txHash pollTimeout
  let statusOk ← reportMined caller resp txHash receipt
  let balance ← rpc (.getBalance account.address)
  let after := native balance
  let ok := statusOk && decide (before < after)
  return { name := account.name, address := account.address, before := before, after := after,
           sent := Py.round (native valueWei) 4, txHash := txHash,
           status := if ok then .funded else .failed,
           detail := if ok then "" else "no balance rise / reverted" }

/-- `_execute_topup`, once `fwd` signed. -/
def sendTopup (caller : Option String) (account : Account) (before : ℚ) (valueWei : Int)
    (pollTimeout : Nat) (resp : SignTransactionResponse) : Py TopUp := do
  match ← attempt (rpc (.sendRawTransaction resp.signedRawTx)) with
  | .error (.rpcError msg) =>
    reportQuietly caller (.reportBroadcastResult resp.txId resp.hash .rejectedReleaseable none)
    return { name := account.name, address := account.address, before := before, after := before,
             sent := 0, txHash := resp.hash, status := .failed, detail := s!"broadcast: {msg}" }
  | .error e => throw e
  | .ok txHash =>
    reportQuietly caller (.reportBroadcastResult resp.txId txHash .accepted none)
    confirmTopup caller account before valueWei pollTimeout resp txHash

/-- `_execute_topup`; `now` is `int(time.time())`. -/
def executeTopup (caller : Option String) (account : Account) (before : ℚ) (valueWei : Int)
    (network : Network) (wallet : String) (chainId maxFee maxPriority : Int) (pollTimeout : Nat)
    (now : Int) : Py TopUp := do
  match ← attempt (fwd caller (.signTransaction
      (topupTxBody account valueWei wallet chainId maxFee maxPriority)
      (topupKey network account now))) with
  | .error e =>
    if e.isFwd then
      return { name := account.name, address := account.address, before := before, after := before,
               sent := 0, txHash := "", status := .failed, detail := s!"fwd sign: {e.str}" }
    else throw e
  | .ok resp => sendTopup caller account before valueWei pollTimeout resp

end Clif

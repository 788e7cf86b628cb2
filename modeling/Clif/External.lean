import Mathlib.Algebra.Ring.Int.Defs
import Mathlib.Algebra.Ring.Nat
import Clif.World

/-!
# External — the third-party functions the sources call

`eth_abi` and the key composition of the `fwd_client` package are not in the repository.  They are
parameters of the model; what a result relies on is stated with the result.
-/

namespace Clif

/-- The ABI types the sources write as strings (`"uint24"`, `"(uint256,uint256)[]"`, …). -/
inductive AbiType where
  | uint (bits : Nat)
  | bytesN (n : Nat)
  | address
  | bool
  | string
  | array (t : AbiType)
  | tuple (ts : List AbiType)

inductive AbiValue where
  | int (n : Int)
  | bytes (b : Bytes)
  | bool (b : Bool)
  /-- An address or a string. -/
  | str (s : String)
  /-- An array or a tuple. -/
  | list (vs : List AbiValue)

class External where
  /-- `eth_abi.encode`. -/
  abiEncode : List AbiType → List AbiValue → Except Exc Bytes
  /-- `eth_abi.decode`. -/
  abiDecode : List AbiType → Bytes → Except Exc (List AbiValue)
  /-- `fwd_client.make_idempotency_key(part, retry=retry)`. -/
  makeIdempotencyKey : String → Option String → String

export External (abiEncode abiDecode)

/-! ### A concrete instance

The ABI encoding of the static types, where every value takes whole words of 32 bytes; strings
and nested arrays are refused. -/

namespace External

/-- `n` as 32 bytes, most significant first. -/
def word (n : Nat) : Bytes := (List.range 32).map fun i => UInt8.ofNat (n / 256 ^ (31 - i))

def refused : Exc := .other "EncodingError" "not encodable"

mutual

def encodeStatic : AbiType → AbiValue → Except Exc Bytes
  | .uint bits, .int n => if 0 ≤ n ∧ n < 2 ^ bits then .ok (word n.toNat) else .error refused
  | .bytesN k, .bytes b =>
    if b.length ≤ k then .ok (b ++ List.replicate (32 - b.length) 0) else .error refused
  | .bool, .bool b => .ok (word (if b then 1 else 0))
  | .tuple ts, .list vs => encodeStatics ts vs
  | _, _ => .error refused

def encodeStatics : List AbiType → List AbiValue → Except Exc Bytes
  | [], [] => .ok []
  | t :: ts, v :: vs =>
    match encodeStatic t v, encodeStatics ts vs with
    | .ok b, .ok bs => .ok (b ++ bs)
    | .error e, _ => .error e
    | _, .error e => .error e
  | _, _ => .error refused

end

/-- The word at an offset, as a number. -/
def wordAt (data : Bytes) (off : Nat) : Except Exc Nat :=
  let w := (data.drop off).take 32
  if w.length = 32 then .ok (w.foldl (fun n b => n * 256 + b.toNat) 0) else .error refused

mutual

/-- A value of a static type at the front, and the bytes after it. -/
def decodeStatic : AbiType → Bytes → Except Exc (AbiValue × Bytes)
  | .uint _, data => do
    let n ← wordAt data 0
    return (.int n, data.drop 32)
  | .bytesN k, data => do
    let _ ← wordAt data 0
    return (.bytes (data.take k), data.drop 32)
  | .bool, data => do
    let n ← wordAt data 0
    return (.bool (n != 0), data.drop 32)
  | .tuple ts, data => do
    let r ← decodeStatics ts data
    return (.list r.1, r.2)
  | _, _ => .error refused

def decodeStatics : List AbiType → Bytes → Except Exc (List AbiValue × Bytes)
  | [], data => .ok ([], data)
  | t :: ts, data => do
    let r ← decodeStatic t data
    let rest ← decodeStatics ts r.2
    return (r.1 :: rest.1, rest.2)

end

/-- `n` values of one static type in a row. -/
def decodeRow (t : AbiType) : Nat → Bytes → Except Exc (List AbiValue)
  | 0, _ => .ok []
  | n + 1, data => do
    let r ← decodeStatic t data
    let rest ← decodeRow t n r.2
    return r.1 :: rest

/-- The head of an encoding; an array stands there by its offset. -/
def decodeHead (data : Bytes) : List AbiType → Bytes → Except Exc (List AbiValue)
  | [], _ => .ok []
  | .array t :: ts, head => do
    let off ← wordAt head 0
    let n ← wordAt data off
    let vs ← decodeRow t n (data.drop (off + 32))
    let rest ← decodeHead data ts (head.drop 32)
    return .list vs :: rest
  | t :: ts, head => do
    let r ← decodeStatic t head
    let rest ← decodeHead data ts r.2
    return r.1 :: rest

/-- Keys of distinct texts and retries are distinct; the package hashes them. -/
def plainKey (part : String) : Option String → String
  | none => part
  | some retry => part ++ "#" ++ retry

@[reducible] def static : External where
  abiEncode := encodeStatics
  abiDecode ts data := decodeHead data ts data
  makeIdempotencyKey := plainKey

/-! ### A second instance, with the dynamic types

A dynamic value stands in the tail of the tuple or array it belongs to, and its offset in the
head. -/

mutual

def isDynamic : AbiType → Bool
  | .string => true
  | .array _ => true
  | .tuple ts => anyDynamic ts
  | _ => false

def anyDynamic : List AbiType → Bool
  | [] => false
  | t :: ts => isDynamic t || anyDynamic ts

end

/-- Heads and tails of a row of encoded values, each with whether it is dynamic. -/
def layout (parts : List (Bool × Bytes)) : Bytes :=
  let headSize := (parts.map fun p => if p.1 then 32 else p.2.length).sum
  let heads := parts.foldl (fun (acc : Bytes × Nat) p =>
    if p.1 then (acc.1 ++ word acc.2, acc.2 + p.2.length) else (acc.1 ++ p.2, acc.2)) ([], headSize)
  heads.1 ++ (parts.filter fun p => p.1).flatMap fun p => p.2

/-- Filled up with zeros to whole words. -/
def padded (b : Bytes) : Bytes := b ++ List.replicate ((32 - b.length % 32) % 32) 0

mutual

/-- A value as it stands in a head or a tail. -/
def encodeValue : AbiType → AbiValue → Except Exc Bytes
  | .array t, .list vs => do
    let parts ← encodeEach t vs
    return word vs.length ++ layout parts
  | .tuple ts, .list vs => do
    let parts ← encodeFields ts vs
    return layout parts
  | .string, .str s => return word s.utf8ByteSize ++ padded s.toUTF8.data.toList
  | .address, .str s =>
    match Py.fromHex (Py.removePrefix s "0x") with
    | some b => if b.length = 20 then return List.replicate 12 0 ++ b else .error refused
    | none => .error refused
  | t, v => encodeStatic t v

def encodeEach (t : AbiType) : List AbiValue → Except Exc (List (Bool × Bytes))
  | [] => .ok []
  | v :: vs => do
    let b ← encodeValue t v
    let bs ← encodeEach t vs
    return (isDynamic t, b) :: bs

def encodeFields : List AbiType → List AbiValue → Except Exc (List (Bool × Bytes))
  | [], [] => .ok []
  | t :: ts, v :: vs => do
    let b ← encodeValue t v
    let bs ← encodeFields ts vs
    return (isDynamic t, b) :: bs
  | _, _ => .error refused

end

@[reducible] def standard : External where
  abiEncode ts vs := do
    let parts ← encodeFields ts vs
    return layout parts
  abiDecode ts data := decodeHead data ts data
  makeIdempotencyKey := plainKey

end External

variable [External]

/-- `make_idempotency_key` of `fwd_client.py`: one key per reward claim. -/
def makeIdempotencyKey (network : Network) (claimType : Int) (beneficiary : String)
    (lastEpochId : Int) (retry : Option String) : String :=
  External.makeIdempotencyKey
    s!"clif:{network.str}:{claimType}:{Py.lower beneficiary}:{lastEpochId}" retry

/-- The legs of an FSP signature. -/
inductive Leg where
  | sign
  | submit
deriving DecidableEq

def Leg.str : Leg → String
  | .sign => "sign"
  | .submit => "submit"

def makeFspIdempotencyKey (network : Network) (messageType : MessageType) (rewardEpochId : Int)
    (leg : Leg) (retry : Option String) : String :=
  External.makeIdempotencyKey
    s!"clif-fsp:{network.str}:{messageType.str}:{rewardEpochId}:{leg.str}" retry

end Clif

import Clif.Text

/-!
# Keccak — the vendored Keccak-256 of `_keccak.py`

Rate 1088 bits, domain byte `0x01`, 32 bytes out.  The state is the list of the 25 lanes, as in
the source; lanes are 64-bit words, so the source's `_MASK` is implicit in the type.
-/

namespace Clif

namespace Keccak

abbrev Lane := BitVec 64

def rho : List Nat :=
  [1, 3, 6, 10, 15, 21, 28, 36, 45, 55, 2, 14, 27, 41, 56, 8, 25, 43, 62, 18, 39, 61, 20, 44]

def pi : List Nat :=
  [10, 7, 11, 17, 18, 3, 5, 16, 8, 21, 24, 4, 15, 23, 19, 13, 12, 2, 20, 14, 22, 9, 6, 1]

def rc : List Lane :=
  [0x0000000000000001, 0x0000000000008082, 0x800000000000808A, 0x8000000080008000,
    0x000000000000808B, 0x0000000080000001, 0x8000000080008081, 0x8000000000008009,
    0x000000000000008A, 0x0000000000000088, 0x0000000080008009, 0x000000008000000A,
    0x000000008000808B, 0x800000000000008B, 0x8000000000008089, 0x8000000000008003,
    0x8000000000008002, 0x8000000000000080, 0x000000000000800A, 0x800000008000000A,
    0x8000000080008081, 0x8000000000008080, 0x0000000080000001, 0x8000000080008008]

def rol (x : Lane) (n : Nat) : Lane := (x <<< n) ||| (x >>> (64 - n))

def at_ (st : List Lane) (i : Nat) : Lane := st.getD i 0

def theta (st : List Lane) : List Lane :=
  let c := (List.range 5).map fun x =>
    at_ st x ^^^ at_ st (x + 5) ^^^ at_ st (x + 10) ^^^ at_ st (x + 15) ^^^ at_ st (x + 20)
  let d := (List.range 5).map fun x => at_ c ((x + 4) % 5) ^^^ rol (at_ c ((x + 1) % 5)) 1
  (List.range 25).map fun i => at_ st i ^^^ at_ d (i % 5)

/-- The lane moved along `pi`, and the state it is moved through. -/
def rhoPi (st : List Lane) : List Lane :=
  ((pi.zip rho).foldl (fun (s : Lane × List Lane) jr => (at_ s.2 jr.1, s.2.set jr.1 (rol s.1 jr.2)))
    (at_ st 1, st)).2

def chi (st : List Lane) : List Lane :=
  (List.range 25).map fun i =>
    let y := i / 5 * 5
    at_ st i ^^^ (~~~ at_ st (y + (i % 5 + 1) % 5) &&& at_ st (y + (i % 5 + 2) % 5))

def iota (r : Lane) (st : List Lane) : List Lane := st.set 0 (at_ st 0 ^^^ r)

def keccakF1600 (st : List Lane) : List Lane :=
  rc.foldl (fun st r => iota r (chi (rhoPi (theta st)))) st

def rate : Nat := 136

/-- The message with its `pad10*1`: at least the domain byte, filled up to a multiple of `rate`,
and the top bit of the last byte set. -/
def padded (data : Bytes) : Bytes :=
  let block := data ++ [0x01]
  let block := block ++ List.replicate ((rate - block.length % rate) % rate) 0
  block.set (block.length - 1) (block.getD (block.length - 1) 0 ^^^ 0x80)

/-- `int.from_bytes(_, "little")`. -/
def fromLittle (b : Bytes) : Lane :=
  b.foldr (fun x acc => (acc <<< 8) ||| BitVec.ofNat 64 x.toNat) 0

def toLittle (x : Lane) : Bytes := (List.range 8).map fun i => UInt8.ofNat (x >>> (8 * i)).toNat

def absorbBlock (st : List Lane) (block : Bytes) : List Lane :=
  keccakF1600 ((List.range 25).map fun i =>
    if i < rate / 8 then at_ st i ^^^ fromLittle ((block.drop (8 * i)).take 8) else at_ st i)

/-- The consecutive chunks of `rate` bytes; `n` bounds their number. -/
def blocks : Nat → Bytes → List Bytes
  | 0, _ => []
  | n + 1, b => if b.isEmpty then [] else b.take rate :: blocks n (b.drop rate)

end Keccak

open Keccak in
def keccak256 (data : Bytes) : Bytes :=
  let block := padded data
  let st := (blocks (block.length / rate) block).foldl absorbBlock (List.replicate 25 0)
  ((st.take (rate / 8)).flatMap toLittle).take 32

end Clif

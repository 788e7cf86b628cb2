import Clif.Observe.State

/-!
# Observe.Decode — `observe/decode.py`: a Submission transaction as an FTSO record

The message parsers belong to `py_flare_common`; `none` of a parser is an exception.
-/

namespace Clif.Observe

/-- The FTSO part of a `submit1`. -/
structure FtsoCommit where
  votingRoundId : Int
  commitHash : Bytes

/-- The FTSO part of a `submit2`. -/
structure FtsoReveal where
  votingRoundId : Int
  values : List (Option Int)

/-- The FDC part of a `submit2`. -/
structure FdcBitvote where
  votingRoundId : Int
  bitVector : String
  numberOfRequests : Int

structure Submit2 where
  ftso : Option FtsoReveal
  fdc : Option FdcBitvote

/-- The voting rounds that the two parts of a `submitSignatures` name. -/
structure SubmitSignatures where
  ftso : Option Int
  fdc : Option Int

class Messaging where
  parseSubmit1Tx : String → Option (Option FtsoCommit)
  parseSubmit2Tx : String → Option Submit2
  parseSubmitSignatureTx : String → Option SubmitSignatures
  /-- The FTSO payload of the generic envelope. -/
  parseGenericTx : String → Option (Option Bytes)
  /-- `ByteParser.uint256`, and what is left to drain. -/
  uint256 : Bytes → Option (Int × Bytes)

export Messaging (parseSubmit1Tx parseSubmit2Tx parseSubmitSignatureTx parseGenericTx uint256)

/-- `SUBMIT1`, `SUBMIT2`, `SUBMITSIG`. -/
def submit1Selector : String := "6c532fae"

def submit2Selector : String := "9d00c9fd"

def submitSigSelector : String := "57eed580"

/-- `_KIND`. -/
def kindOf (sel : String) : Option String :=
  if sel = submit1Selector then some "submit1"
  else if sel = submit2Selector then some "submit2"
  else if sel = submitSigSelector then some "signatures"
  else none

/-- `s[:n]`. -/
def sliceTo (s : String) (n : Nat) : String := String.ofList (s.toList.take n)

section

variable [Messaging]

def decodeSubmit1 (body : String) : Option Decoded :=
  match parseSubmit1Tx body with
  | some (some ftso) =>
    some { kind := "submit1", roundId := ftso.votingRoundId, commitHash := some ftso.commitHash }
  | _ => none

def decodeSubmit2 (sel body : String) : Option Decoded := do
  let pm ← parseSubmit2Tx body
  let ftso ← pm.ftso
  -- the raw values come from the generic envelope
  let g ← parseGenericTx ("0x" ++ sel ++ body)
  let payload ← g
  let (rnd, feedV) ← uint256 payload
  some
    { kind := "submit2"
      roundId := ftso.votingRoundId
      revealRandom := some rnd
      revealFeedBytes := some feedV
      revealValueCount := some ftso.values.length
      fdcPresent := pm.fdc.isSome
      fdcRound := pm.fdc.map FdcBitvote.votingRoundId
      fdcBitvoteLen := pm.fdc.map fun fdc => (fdc.bitVector.length : Int)
      fdcNumRequests := pm.fdc.map FdcBitvote.numberOfRequests }

def decodeSignatures (body : String) : Option Decoded := do
  let pm ← parseSubmitSignatureTx body
  let round ← pm.ftso
  some { kind := "signatures", roundId := round, fdcPresent := pm.fdc.isSome, fdcRound := pm.fdc }

/-- `decode_submit`. -/
def decodeSubmit (txInput : String) : Option Decoded :=
  let inp := Py.removePrefix txInput "0x"
  if inp.length < 8 then none
  else
    let sel := Py.lower (sliceTo inp 8)
    let body := Py.sliceFrom inp 8
    match kindOf sel with
    | some "submit1" => decodeSubmit1 body
    | some "submit2" => decodeSubmit2 sel body
    | some "signatures" => decodeSignatures body
    | _ => none

end

end Clif.Observe

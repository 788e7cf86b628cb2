import Mathlib.Data.List.DropRight
import Clif.Radix
import Clif.Text

/-!
# NodeId — the text of a node id, `rpc.py` `_bytes20_to_cb58`

The text is a number in base 58 behind a `1` for every zero byte of the payload; CB58 has one for
every zero byte in front.  `node_id_read_iff` says which node ids can be read back from what is
shown of them.
-/

namespace Clif

open Radix

/-! ## What is shown -/

/-- `_CB58_ALPHABET`. -/
def cb58Alphabet : List Char := "123456789ABCDEFGHJKLMNPQRSTUVWXYZabcdefghijkmnopqrstuvwxyz".toList

def cb58Char (d : Nat) : Char := cb58Alphabet.getD d '1'

/-- The loop over the digits, the lowest first. -/
def cb58Loop (n : Nat) : List Char :=
  if n = 0 then [] else cb58Char (n % 58) :: cb58Loop (n / 58)

section

variable (sha256 : Bytes → Bytes)

/-- The id and its checksum. -/
def nodePayload (b : Bytes) : Bytes := b ++ (sha256 b).rtake 4

/-- `_bytes20_to_cb58`. -/
def bytes20ToCb58 (b : Bytes) : String :=
  let payload := nodePayload sha256 b
  let n := value 256 (payload.map UInt8.toNat)
  let leading := payload.countP (· == 0)
  String.ofList (cb58Loop n ++ List.replicate leading '1').reverse

/-! ## How it is read -/

/-- CB58 read back: the digits in base 256, and the checksum off their end. -/
def readCb58 (s : String) : Option Bytes := do
  let ds ← s.toList.mapM cb58Alphabet.idxOf?
  let payload := (recode 58 256 ds).map UInt8.ofNat
  let b := payload.rdrop 4
  if payload = nodePayload sha256 b then some b else none

end

/-- All zero bytes stand in front. -/
def ZerosLead (payload : Bytes) : Prop := ∀ x ∈ payload.dropWhile (· == 0), x ≠ 0

instance : DecidablePred ZerosLead := fun _ => List.decidableBAll (· ≠ 0) _

section

variable {sha256 : Bytes → Bytes} {b b' : Bytes} {n : Nat} {payload : Bytes}

theorem cb58Loop_eq : cb58Loop n = (Nat.digits 58 n).map cb58Char := by
  induction n using Nat.strong_induction_on with
  | _ n ih =>
    rw [cb58Loop]
    by_cases hn : n = 0
    · rw [if_pos hn, hn, Nat.digits_zero, List.map_nil]
    · rw [if_neg hn, ih (n / 58) (by omega), Nat.digits_eq_cons_digits_div (by decide) hn,
        List.map_cons]

/-- The text is a numeral with too many zeros in front, if one stands behind another byte. -/
theorem bytes20ToCb58_eq : bytes20ToCb58 sha256 b = String.ofList
    ((padded 58 ((nodePayload sha256 b).countP (· == 0))
      (value 256 ((nodePayload sha256 b).map UInt8.toNat))).map cb58Char) := by
  have hone : cb58Char 0 = '1' := rfl
  unfold bytes20ToCb58
  simp only [cb58Loop_eq, padded, List.reverse_append, List.map_append, List.map_replicate, hone,
    List.reverse_replicate, List.map_reverse]

theorem idxOf_cb58Char {d : Nat} (hd : d < 58) : cb58Alphabet.idxOf? (cb58Char d) = some d := by
  revert d
  decide

theorem mapM_idxOf {ds : List Nat} (hds : ∀ d ∈ ds, d < 58) :
    (ds.map cb58Char).mapM cb58Alphabet.idxOf? = some ds := by
  induction ds with
  | nil => rfl
  | cons d ds ih =>
    obtain ⟨hd, hrest⟩ := List.forall_mem_cons.mp hds
    rw [List.map_cons, List.mapM_cons, idxOf_cb58Char hd, ih hrest]
    rfl

theorem toNat_lt : ∀ d ∈ payload.map UInt8.toNat, d < 256 := by
  intro d hd
  obtain ⟨x, -, rfl⟩ := List.mem_map.mp hd
  exact x.toNat_lt

theorem map_ofNat : (payload.map UInt8.toNat).map UInt8.ofNat = payload := by
  have hid : UInt8.ofNat ∘ UInt8.toNat = id := by
    funext x
    exact UInt8.ofNat_toNat
  rw [List.map_map, hid, List.map_id]

/-- The zeros that are counted are the ones in front exactly if all stand in front. -/
theorem countP_eq_leading_iff :
    payload.countP (· == 0) = leading (payload.map UInt8.toNat) ↔ ZerosLead payload := by
  have hlead : leading (payload.map UInt8.toNat) = (payload.takeWhile (· == 0)).length := by
    have hp : ((fun d : Nat => d == 0) ∘ UInt8.toNat) = fun x : UInt8 => x == 0 := by
      funext x
      simp [← UInt8.toNat_inj]
    rw [leading, List.takeWhile_map, List.length_map, hp]
  have hfront : (payload.takeWhile (· == 0)).countP (· == 0) =
      (payload.takeWhile (· == 0)).length :=
    List.countP_eq_length.mpr fun x hx => List.mem_takeWhile_imp (p := (· == 0)) hx
  have hsplit : payload.countP (· == 0) = (payload.takeWhile (· == 0)).length +
      (payload.dropWhile (· == 0)).countP (· == 0) := by
    rw [← hfront, ← List.countP_append, List.takeWhile_append_dropWhile]
  rw [hsplit, hlead, Nat.add_eq_left, List.countP_eq_zero]
  simp [ZerosLead]

theorem length_nodePayload (hsha : ∀ x, (sha256 x).length = 32) (hb : b.length = 20) :
    (nodePayload sha256 b).length = 24 := by
  simp [nodePayload, List.rtake, hsha, hb]

theorem rdrop_nodePayload (hsha : ∀ x, (sha256 x).length = 32) :
    (nodePayload sha256 b).rdrop 4 = b := by
  simp [nodePayload, List.rdrop, List.rtake, hsha]

/-- What the reader finds before it looks at the checksum. -/
theorem readCb58_bytes20ToCb58 : readCb58 sha256 (bytes20ToCb58 sha256 b) =
    let payload := (recode 58 256 (padded 58 ((nodePayload sha256 b).countP (· == 0))
      (value 256 ((nodePayload sha256 b).map UInt8.toNat)))).map UInt8.ofNat
    if payload = nodePayload sha256 (payload.rdrop 4) then some (payload.rdrop 4) else none := by
  rw [readCb58, bytes20ToCb58_eq, String.toList_ofList,
    mapM_idxOf fun d hd => lt_of_mem_padded (by decide) hd]
  rfl

theorem read_back (hzeros : ZerosLead (nodePayload sha256 b)) :
    (recode 58 256 (padded 58 ((nodePayload sha256 b).countP (· == 0))
      (value 256 ((nodePayload sha256 b).map UInt8.toNat)))).map UInt8.ofNat =
    nodePayload sha256 b := by
  rw [countP_eq_leading_iff.mpr hzeros]
  exact (congrArg (List.map UInt8.ofNat) (recode_recode (by decide) toNat_lt)).trans map_ofNat

theorem zerosLead_of_length {c : Nat}
    (h : (recode 58 256 (padded 58 (payload.countP (· == 0))
      (value 256 (payload.map UInt8.toNat)))).length = c) (hc : payload.length = c) :
    ZerosLead payload := by
  have hlength := @length_recode_padded 256 58 (payload.countP (· == 0)) _ (by decide)
    (@toNat_lt payload)
  rw [List.length_map] at hlength
  exact countP_eq_leading_iff.mp (by omega)

/-- The text of a node id tells it from every other. -/
theorem bytes20ToCb58_inj (hsha : ∀ x, (sha256 x).length = 32) (hb : b.length = 20)
    (hb' : b'.length = 20) (h : bytes20ToCb58 sha256 b = bytes20ToCb58 sha256 b') : b = b' := by
  rw [bytes20ToCb58_eq, bytes20ToCb58_eq, String.ofList_inj] at h
  have hdigits := congrArg (List.mapM cb58Alphabet.idxOf?) h
  rw [mapM_idxOf fun d hd => lt_of_mem_padded (by decide) hd,
    mapM_idxOf fun d hd => lt_of_mem_padded (by decide) hd] at hdigits
  obtain ⟨-, hvalue⟩ := padded_inj.mp (Option.some.inj hdigits)
  have hlen : ((nodePayload sha256 b).map UInt8.toNat).length =
      ((nodePayload sha256 b').map UInt8.toNat).length := by
    rw [List.length_map, List.length_map, length_nodePayload hsha hb, length_nodePayload hsha hb']
  have hbytes := congrArg (List.map UInt8.ofNat)
    (value_inj (by decide) hlen toNat_lt toNat_lt hvalue)
  rw [map_ofNat, map_ofNat] at hbytes
  rw [← rdrop_nodePayload (b := b) hsha, hbytes, rdrop_nodePayload hsha]

/-- What is shown of a node id is read back as that id exactly if the zero bytes of the payload all
stand in front, and as no other in any case; and different ids are shown differently. -/
theorem node_id_read_iff (hsha : ∀ x, (sha256 x).length = 32) (hb : b.length = 20)
    (hb' : b'.length = 20) :
    (readCb58 sha256 (bytes20ToCb58 sha256 b) = some b' ↔
      b' = b ∧ ZerosLead (nodePayload sha256 b)) ∧
    (bytes20ToCb58 sha256 b = bytes20ToCb58 sha256 b' → b = b') := by
  refine ⟨?_, bytes20ToCb58_inj hsha hb hb'⟩
  rw [readCb58_bytes20ToCb58]
  constructor
  · intro hread
    dsimp only at hread
    split at hread
    · rename_i hcheck
      obtain rfl := Option.some.inj hread
      -- the reader is right about the length only if no zero was added
      have hlong := congrArg List.length hcheck
      rw [length_nodePayload hsha hb', List.length_map] at hlong
      have hzeros := zerosLead_of_length hlong (length_nodePayload hsha hb)
      refine ⟨?_, hzeros⟩
      rw [read_back hzeros, rdrop_nodePayload hsha]
    · cases hread
  · rintro ⟨rfl, hzeros⟩
    dsimp only
    rw [read_back hzeros, rdrop_nodePayload hsha, if_pos rfl]

end

/-- The bytes from 1 to 20. -/
def countedNode : Bytes := (List.range 20).map fun i => (i + 1).toUInt8

/-- The digest of those. -/
def countedSha (b : Bytes) : Bytes :=
  if b = countedNode then
    [225, 47, 8, 116, 51, 68, 192, 234, 183, 175, 170, 34, 187, 113, 226, 114, 95, 126, 19, 222,
      206, 106, 194, 210, 55, 17, 5, 78, 231, 135, 182, 194]
  else List.replicate 32 0

theorem length_countedSha (b : Bytes) : (countedSha b).length = 32 := by
  unfold countedSha
  split <;> rfl

theorem node_id_read_counted :
    readCb58 countedSha (bytes20ToCb58 countedSha countedNode) = some countedNode :=
  (node_id_read_iff length_countedSha rfl rfl).1.mpr ⟨rfl, by decide⟩

end Clif

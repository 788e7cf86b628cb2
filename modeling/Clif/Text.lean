import Mathlib.Data.List.Infix
import Mathlib.Data.List.Lex

/-!
# Text — the Python string, bytes and integer readings the sources use

Strings are Lean strings (sequences of code points, as in Python); bytes are lists of `UInt8`.
Each definition carries the name of the Python operation it stands for.
-/

namespace Clif

abbrev Bytes := List UInt8

namespace Py

/-! ### `str` -/

/-- `str.lower` of one code point.  Outside ASCII only the Kelvin sign and the dotted capital I
lower to something with an ASCII letter in it; the other pairs never decide anything here, since
every text `clif` compares after `lower` is compared with ASCII. -/
def lowerChar (c : Char) : List Char :=
  if c.val = 0x212A then ['k'] else if c.val = 0x130 then ['i', Char.ofNat 0x307] else [c.toLower]

def lower (s : String) : String := String.ofList (s.toList.flatMap lowerChar)

/-- A lowered code point stays as it is. -/
theorem lowerChar_toLower {c : Char} (hk : c.val ≠ 0x212A) (hi : c.val ≠ 0x130) :
    lowerChar c.toLower = [c.toLower] := by
  by_cases hup : c.val ≥ 'A'.val ∧ c.val ≤ 'Z'.val
  · have hval : c.toLower.val = c.val + 32 := by
      delta Char.toLower
      rw [dif_pos hup]
      rfl
    have hbig : 97 ≤ c.toLower.val.toNat ∧ c.toLower.val.toNat ≤ 122 := by
      obtain ⟨h1, h2⟩ := hup
      have h1' : 65 ≤ c.val.toNat := h1
      have h2' : c.val.toNat ≤ 90 := h2
      rw [hval, UInt32.toNat_add]
      have h32 : (32 : UInt32).toNat = 32 := rfl
      omega
    have hlow : c.toLower.toLower = c.toLower := by
      have hnot : ¬ (c.toLower.val ≥ 'A'.val ∧ c.toLower.val ≤ 'Z'.val) := by
        rintro ⟨-, h⟩
        have h' : c.toLower.val.toNat ≤ 90 := h
        omega
      exact dif_neg hnot
    have hk' : c.toLower.val ≠ 0x212A := by
      intro h
      rw [h] at hbig
      exact absurd hbig.2 (by decide)
    have hi' : c.toLower.val ≠ 0x130 := by
      intro h
      rw [h] at hbig
      exact absurd hbig.2 (by decide)
    simp [lowerChar, hk', hi', hlow]
  · have hsame : c.toLower = c := dif_neg hup
    rw [hsame]
    simp [lowerChar, hk, hi, hsame]

theorem lowerChar_lowerChar (c : Char) : (lowerChar c).flatMap lowerChar = lowerChar c := by
  by_cases hk : c.val = 0x212A
  · simp only [lowerChar, hk, if_true]
    decide
  · by_cases hi : c.val = 0x130
    · simp only [lowerChar, hi, if_true]
      decide
    · have hone : lowerChar c = [c.toLower] := by simp [lowerChar, hk, hi]
      rw [hone, List.flatMap_singleton, lowerChar_toLower hk hi]

/-- `s.lower().lower() == s.lower()`. -/
theorem lower_lower (s : String) : lower (lower s) = lower s := by
  unfold lower
  rw [String.toList_ofList, List.flatMap_assoc]
  simp only [lowerChar_lowerChar]

/-- `needle in hay`. -/
def isIn (needle hay : String) : Bool := decide (needle.toList <:+: hay.toList)

def startsWith (s p : String) : Bool := p.toList.isPrefixOf s.toList

def removePrefix (s p : String) : String :=
  if startsWith s p then String.ofList (s.toList.drop p.length) else s

/-- `s[n:]`. -/
def sliceFrom (s : String) (n : Nat) : String := String.ofList (s.toList.drop n)

/-- `s[-n:]`. -/
def lastChars (s : String) (n : Nat) : String :=
  String.ofList (s.toList.drop (s.length - n))

/-- `bool(s)` of an optional setting: unset and empty are both false. -/
def truthy : Option String → Bool
  | none => false
  | some s => s != ""

/-- Code points `str.strip` removes. -/
def isSpace (c : Char) : Bool :=
  let n := c.toNat
  (9 ≤ n && n ≤ 13) || (28 ≤ n && n ≤ 32) || n == 0x85 || n == 0xA0 || n == 0x1680 ||
    (0x2000 ≤ n && n ≤ 0x200A) || n == 0x2028 || n == 0x2029 || n == 0x202F || n == 0x205F ||
    n == 0x3000

def stripChars (s : List Char) : List Char :=
  ((s.dropWhile isSpace).reverse.dropWhile isSpace).reverse

def strip (s : String) : String := String.ofList (stripChars s.toList)

/-! ### `int` -/

/-- The zeros of the Unicode decimal digit blocks; the ten digits of a block follow its zero. -/
def digitZeros : List Nat :=
  [0x30, 0x660, 0x6F0, 0x7C0, 0x966, 0x9E6, 0xA66, 0xAE6, 0xB66, 0xBE6, 0xC66, 0xCE6, 0xD66, 0xDE6,
    0xE50, 0xED0, 0xF20, 0x1040, 0x1090, 0x17E0, 0x1810, 0x1946, 0x19D0, 0x1A80, 0x1A90, 0x1B50,
    0x1BB0, 0x1C40, 0x1C50, 0xA620, 0xA8D0, 0xA900, 0xA9D0, 0xA9F0, 0xAA50, 0xABF0, 0xFF10, 0x104A0,
    0x10D30, 0x11066, 0x110F0, 0x11136, 0x111D0, 0x112F0, 0x11450, 0x114D0, 0x11650, 0x116C0,
    0x11730, 0x118E0, 0x11950, 0x11C50, 0x11D50, 0x11DA0, 0x11F50, 0x16A60, 0x16AC0, 0x16B50,
    0x1D7CE, 0x1D7D8, 0x1D7E2, 0x1D7EC, 0x1D7F6, 0x1E140, 0x1E2F0, 0x1E4F0, 0x1E950, 0x1FBF0]

/-- The value of a decimal digit (`\d` of `re`, and what `int` reads). -/
def digit? (c : Char) : Option Nat :=
  (digitZeros.find? fun z => z ≤ c.toNat && c.toNat < z + 10).map fun z => c.toNat - z

def hexDigit? (c : Char) : Option Nat :=
  let n := c.toNat
  if 48 ≤ n ∧ n ≤ 57 then some (n - 48)
  else if 97 ≤ n ∧ n ≤ 102 then some (n - 87)
  else if 65 ≤ n ∧ n ≤ 70 then some (n - 55)
  else none

/-- Digits of base `b` read from left to right, single underscores allowed between two digits;
`prev` says whether the character before was a digit. -/
def digits? (dig : Char → Option Nat) (b : Nat) : Bool → Nat → List Char → Option Nat
  | prev, acc, [] => if prev then some acc else none
  | prev, acc, '_' :: cs => if prev then digits? dig b false acc cs else none
  | _, acc, c :: cs =>
    match dig c with
    | some d => digits? dig b true (acc * b + d) cs
    | none => none

/-- `sys.set_int_max_str_digits`: longer decimal literals are refused. -/
def maxStrDigits : Nat := 4300

def signed? (read : List Char → Option Nat) : List Char → Option Int
  | '-' :: cs => (read cs).map fun n => -(n : Int)
  | '+' :: cs => (read cs).map Int.ofNat
  | cs => (read cs).map Int.ofNat

/-- `int(s)`; `none` stands for `ValueError`. -/
def int? (s : String) : Option Int :=
  let cs := stripChars s.toList
  if (cs.filter fun c => (digit? c).isSome).length > maxStrDigits then none
  else signed? (digits? digit? 10 false 0) cs

/-- `int(s, 16)`; `none` stands for `ValueError`. -/
def intHex? (s : String) : Option Int :=
  signed? (fun
    | '0' :: 'x' :: cs => digits? hexDigit? 16 (cs.head? = some '_') 0 cs
    | '0' :: 'X' :: cs => digits? hexDigit? 16 (cs.head? = some '_') 0 cs
    | cs => digits? hexDigit? 16 false 0 cs) (stripChars s.toList)

/-! ### `bytes` -/

def hexChar (n : Nat) : Char := if n < 10 then Char.ofNat (48 + n) else Char.ofNat (87 + n)

/-- `bytes.hex`. -/
def toHex (b : Bytes) : String :=
  String.ofList (b.flatMap fun x => [hexChar (x.toNat / 16), hexChar (x.toNat % 16)])

def isAsciiSpace (c : Char) : Bool := c.toNat == 32 || (9 ≤ c.toNat && c.toNat ≤ 13)

/-- `bytes.fromhex`: white space may stand before a pair of digits, not inside one.  `none` stands
for `ValueError`. -/
def fromHexChars : List Char → Option Bytes
  | [] => some []
  | c :: cs =>
    if isAsciiSpace c then fromHexChars cs
    else match cs with
      | [] => none
      | d :: rest =>
        match hexDigit? c, hexDigit? d, fromHexChars rest with
        | some x, some y, some b => some (UInt8.ofNat (16 * x + y) :: b)
        | _, _, _ => none

def fromHex (s : String) : Option Bytes := fromHexChars s.toList

/-! ### Facts about the readings -/

@[simp] theorem truthy_none : truthy none = false := rfl

@[simp] theorem truthy_some (s : String) : truthy (some s) = (s != "") := rfl

end Py

end Clif

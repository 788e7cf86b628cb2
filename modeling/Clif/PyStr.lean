import Clif.Lines
import Mathlib.Data.List.DropRight

/-!
# PyStr — Python strings by their code points

A Python string is a sequence of code points, lone surrogates among them: `json.loads` makes such
strings, and UTF-8 cannot encode them.
-/

namespace Clif

abbrev PyStr := List Nat

/-- The string of a literal. -/
def py (s : String) : PyStr := s.toList.map Char.toNat

namespace PyStr

/-- `str.isspace` of one character. -/
def isSpace (c : Nat) : Bool :=
  (0x09 ≤ c && c ≤ 0x0D) || (0x1C ≤ c && c ≤ 0x20) || c == 0x85 || c == 0xA0 || c == 0x1680 ||
    (0x2000 ≤ c && c ≤ 0x200A) || c == 0x2028 || c == 0x2029 || c == 0x202F || c == 0x205F ||
    c == 0x3000

/-- The line boundaries of `str.splitlines`. -/
def isLineBreak (c : Nat) : Bool :=
  (0x0A ≤ c && c ≤ 0x0D) || (0x1C ≤ c && c ≤ 0x1E) || c == 0x85 || c == 0x2028 || c == 0x2029

theorem lf_ne_cr : (0x0A : Nat) ≠ 0x0D := by decide

def lineBreaks : Lines.Breaks Nat := ⟨isLineBreak, 0x0D, 0x0A, rfl, lf_ne_cr⟩

/-- `str.splitlines`. -/
def splitlines (text : PyStr) : List PyStr := Lines.split lineBreaks text

/-- No character of the string is a line boundary. -/
abbrev BreakFree (s : PyStr) : Prop := Lines.BreakFree lineBreaks s

/-- The lines of a line that is written with `\n` after it. -/
abbrev pieces (line : PyStr) : List PyStr := Lines.pieces lineBreaks line

/-- `str.lstrip`. -/
def lstrip (s : PyStr) : PyStr := s.dropWhile isSpace

/-- `str.rstrip`. -/
def rstrip (s : PyStr) : PyStr := s.rdropWhile isSpace

/-- `str.strip`. -/
def strip (s : PyStr) : PyStr := rstrip (lstrip s)

/-- `sub in s`. -/
def isIn (sub s : PyStr) : Bool := s.tails.any fun t => sub.isPrefixOf t

/-- The ASCII text in the upper case of a character.  Characters without an entry have none in it,
or are their own upper case. -/
def upperOf (c : Nat) : List Nat :=
  if 0x61 ≤ c ∧ c ≤ 0x7A then [c - 0x20]
  else match c with
    | 0xDF => py "SS"
    | 0x131 => py "I"
    | 0x149 => [0x2BC] ++ py "N"
    | 0x17F => py "S"
    | 0x1F0 => py "J" ++ [0x30C]
    | 0x1E96 => py "H" ++ [0x331]
    | 0x1E97 => py "T" ++ [0x308]
    | 0x1E98 => py "W" ++ [0x30A]
    | 0x1E99 => py "Y" ++ [0x30A]
    | 0x1E9A => py "A" ++ [0x2BE]
    | 0xFB00 => py "FF"
    | 0xFB01 => py "FI"
    | 0xFB02 => py "FL"
    | 0xFB03 => py "FFI"
    | 0xFB04 => py "FFL"
    | 0xFB05 => py "ST"
    | 0xFB06 => py "ST"
    | _ => [c]

/-- `str.upper`, as far as ASCII text can be searched in it. -/
def upper (s : PyStr) : PyStr := s.flatMap upperOf

/-- `str.encode("utf-8")` does not fail. -/
def Encodable (s : PyStr) : Prop := ∀ c ∈ s, ¬ (0xD800 ≤ c ∧ c ≤ 0xDFFF)

instance (s : PyStr) : Decidable (Encodable s) :=
  inferInstanceAs (Decidable (∀ c ∈ s, ¬ (0xD800 ≤ c ∧ c ≤ 0xDFFF)))

/-! ## Lemmas -/

theorem breakFree_append {s t : PyStr} : BreakFree (s ++ t) ↔ BreakFree s ∧ BreakFree t :=
  List.forall_mem_append

theorem lstrip_cons {c : Nat} {s : PyStr} (h : isSpace c = false) : lstrip (c :: s) = c :: s := by
  simp [lstrip, h]

/-- A character that is no space keeps what stands before it. -/
theorem rstrip_append_cons {c : Nat} {s t : PyStr} (h : isSpace c = false) :
    rstrip (s ++ c :: t) = s ++ c :: rstrip t := by
  have hrev : ((s ++ c :: t).reverse.dropWhile isSpace) =
      t.reverse.dropWhile isSpace ++ c :: s.reverse := by
    rw [List.reverse_append, List.reverse_cons, List.append_assoc, List.dropWhile_append]
    split
    · rename_i hnil
      rw [List.isEmpty_iff.mp hnil]
      simp [h]
    · simp
  rw [rstrip, List.rdropWhile, hrev, List.reverse_append, List.reverse_cons, List.reverse_reverse,
    List.append_assoc, List.singleton_append]
  rfl

theorem rstrip_of_forall {s : PyStr} (h : ∀ c ∈ s, isSpace c = false) : rstrip s = s := by
  rcases List.eq_nil_or_concat s with rfl | ⟨t, c, rfl⟩
  · rfl
  · rw [List.concat_eq_append, rstrip_append_cons (h c (by simp))]
    rfl

theorem strip_of_forall {s : PyStr} (h : ∀ c ∈ s, isSpace c = false) : strip s = s := by
  have hl : lstrip s = s := by
    cases s with
    | nil => rfl
    | cons c s => exact lstrip_cons (h c List.mem_cons_self)
  rw [strip, hl, rstrip_of_forall h]

end PyStr

end Clif

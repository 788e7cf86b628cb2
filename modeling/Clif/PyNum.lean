import Mathlib.Data.Rat.Floor
import Mathlib.Tactic.NormNum
import Clif.Rounding

/-!
# PyNum — Python's doubles, as the rationals that they are

An operation on doubles is the exact one, rounded.
-/

namespace Clif

/-- The double nearest to `x`. -/
def Py.double (x : ℚ) : ℚ := Rounding.nearest 53 x

/-- `round(x)`: to the nearest integer, and to the even one of two. -/
def Py.roundInt (x : ℚ) : Int := Rounding.halfEven x

/-- `round(x, digits)`: a decimal number. -/
def Py.round (x : ℚ) (digits : Nat) : ℚ := Py.roundInt (x * 10 ^ digits) / 10 ^ digits

/-- `n / x`, of an integer and a float: the integer is made a double first. -/
def Py.divFloat (n : Int) (x : ℚ) : ℚ := Py.double (Py.double n / x)

/-- `round(100.0 * part / whole, digits)`. -/
def Py.percent (part whole : Int) (digits : Nat) : ℚ :=
  Py.round (Py.double (Py.double (100 * part) / whole)) digits

variable {x : ℚ} {k n : Int}

theorem Py.double_mono : Monotone Py.double := Rounding.nearest_mono (by decide)

@[simp] theorem Py.double_zero : Py.double 0 = 0 := Rounding.nearest_zero

theorem Py.double_intCast (h : |n| < 2 ^ 53) : Py.double n = n := Rounding.nearest_intCast h

/-- A double has 53 digits: below `2 ^ k` it is off by half of the last one, at most. -/
theorem Py.double_near (h : |x| < 2 ^ k) : |Py.double x - x| ≤ 2 ^ (k - 53) / 2 :=
  Rounding.nearest_near h

theorem Py.double_relative (x : ℚ) : |Py.double x - x| ≤ |x| / 2 ^ 53 := by
  have hnear := Rounding.nearest_relative (p := 53) x
  norm_num at hnear ⊢
  exact hnear.trans_eq (by ring)

@[simp] theorem Py.roundInt_intCast (n : Int) : Py.roundInt (n : ℚ) = n :=
  Rounding.halfEven_intCast n

theorem Py.roundInt_mono : Monotone Py.roundInt := Rounding.halfEven_mono

/-- A rounded number is within a half of what it was. -/
theorem Py.roundInt_near (x : ℚ) : x - 1 / 2 ≤ Py.roundInt x ∧ (Py.roundInt x : ℚ) ≤ x + 1 / 2 :=
  Rounding.halfEven_near x

theorem Py.roundInt_eq (h : |x - n| < 1 / 2) : Py.roundInt x = n := by
  obtain ⟨hlow, hhigh⟩ := Py.roundInt_near x
  obtain ⟨hlow', hhigh'⟩ := abs_lt.mp h
  have hlt : (Py.roundInt x : ℚ) < n + 1 := by linarith
  have hlt' : (n : ℚ) < Py.roundInt x + 1 := by linarith
  norm_cast at hlt hlt'
  omega

@[simp] theorem Py.roundInt_zero : Py.roundInt 0 = 0 := by exact_mod_cast Py.roundInt_intCast 0

@[simp] theorem Py.round_zero (digits : Nat) : Py.round 0 digits = 0 := by simp [Py.round]

/-! ## Percentages -/

/-- The doubles of a percentage are nowhere near a tenth off. -/
theorem Py.percent_near {part whole : Int} (hpart : 0 ≤ part) (hle : part ≤ whole)
    (hwhole : 0 < whole) :
    |Py.double (Py.double (100 * part) / whole) - 100 * part / whole| ≤ 1 / 1000 := by
  have hwhole' : (0 : ℚ) < whole := by exact_mod_cast hwhole
  have hpart' : (0 : ℚ) ≤ 100 * part := by exact_mod_cast Int.mul_nonneg (by decide) hpart
  have hratio : 100 * (part : ℚ) / whole ≤ 100 := by
    rw [div_le_iff₀ hwhole']
    exact_mod_cast Int.mul_le_mul_of_nonneg_left hle (by decide)
  have hratio' : 0 ≤ 100 * (part : ℚ) / whole := div_nonneg hpart' hwhole'.le
  have hmul := Py.double_relative (100 * part)
  have hquot : |Py.double (100 * part) / whole - 100 * part / whole| ≤ 100 / 2 ^ 53 := by
    rw [← sub_div, abs_div, abs_of_pos hwhole', div_le_iff₀ hwhole']
    rw [abs_of_nonneg hpart'] at hmul
    rw [div_le_iff₀ hwhole'] at hratio
    refine hmul.trans ?_
    rw [div_mul_eq_mul_div]
    exact div_le_div_of_nonneg_right hratio (by norm_num)
  have hround := Py.double_relative (Py.double (100 * part) / whole)
  generalize Py.double (100 * part) / whole = y at hquot hround ⊢
  have hsmall : |y| ≤ 200 := by
    have habs := abs_le.mp hquot
    rw [abs_le]
    constructor <;> linarith
  rw [abs_le] at hquot hround ⊢
  constructor <;> linarith

theorem Py.percent_bounds {part whole : Int} (hpart : 0 ≤ part) (hle : part ≤ whole)
    (hwhole : 0 < whole) : 0 ≤ Py.percent part whole 1 ∧ Py.percent part whole 1 ≤ 100 := by
  have hwhole' : (0 : ℚ) < whole := by exact_mod_cast hwhole
  have hratio : 0 ≤ 100 * (part : ℚ) / whole :=
    div_nonneg (by exact_mod_cast Int.mul_nonneg (by decide) hpart) hwhole'.le
  have hratio' : 100 * (part : ℚ) / whole ≤ 100 := by
    rw [div_le_iff₀ hwhole']
    exact_mod_cast Int.mul_le_mul_of_nonneg_left hle (by decide)
  have hnear := abs_le.mp (Py.percent_near hpart hle hwhole)
  unfold Py.percent Py.round
  obtain ⟨hlow, hhigh⟩ := Py.roundInt_near (Py.double (Py.double (100 * part) / whole) * 10 ^ 1)
  generalize Py.roundInt (Py.double (Py.double (100 * part) / whole) * 10 ^ 1) = k at hlow hhigh ⊢
  -- the tenths are an integer
  have hlow' : (-1 : ℚ) < k := by linarith
  have hhigh' : (k : ℚ) < 1001 := by linarith
  have hk : (-1 : Int) < k := by exact_mod_cast hlow'
  have hk' : k < (1001 : Int) := by exact_mod_cast hhigh'
  have hk₀ : (0 : ℚ) ≤ k := by exact_mod_cast (by omega : 0 ≤ k)
  have hk₁ : (k : ℚ) ≤ 1000 := by exact_mod_cast (by omega : k ≤ 1000)
  constructor <;> linarith

theorem Py.percent_self (hn : 0 < n) : Py.percent n n 1 = 100 := by
  have hn' : (n : ℚ) ≠ 0 := by exact_mod_cast hn.ne'
  have hnear := Py.percent_near hn.le le_rfl hn
  rw [mul_div_assoc, div_self hn', mul_one, abs_le] at hnear
  have htenths : Py.roundInt (Py.double (Py.double (100 * n) / n) * 10 ^ 1) = 1000 := by
    refine Py.roundInt_eq (abs_lt.mpr ?_)
    push_cast
    constructor <;> linarith
  rw [Py.percent, Py.round, htenths]
  norm_num

end Clif

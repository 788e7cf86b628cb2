import Mathlib.Algebra.Order.Floor.Ring
import Mathlib.Data.Int.ConditionallyCompleteOrder
import Mathlib.Data.Int.Log
import Mathlib.Tactic.Linarith

/-!
# Rounding — to the nearest integer, and to the nearest number of so many binary digits

A tie goes to the even one.  The exponent of a number is unbounded: nothing overflows, and nothing
is subnormal.
-/

namespace Rounding

variable {K : Type*} [Field K] [LinearOrder K] [IsStrictOrderedRing K] [FloorRing K]

/-! ## To an integer -/

/-- The nearest integer, and the even one of two. -/
def halfEven (x : K) : Int :=
  let rest := x - ⌊x⌋
  if rest < 1 / 2 then ⌊x⌋
  else if 1 / 2 < rest then ⌊x⌋ + 1
  else if ⌊x⌋ % 2 = 0 then ⌊x⌋ else ⌊x⌋ + 1

variable {x y : K} {n : Int}

@[simp] theorem halfEven_intCast (n : Int) : halfEven (n : K) = n := by
  unfold halfEven
  simp

/-- A rounded number is within a half of what it was. -/
theorem halfEven_near (x : K) : x - 1 / 2 ≤ halfEven x ∧ (halfEven x : K) ≤ x + 1 / 2 := by
  have hle : (⌊x⌋ : K) ≤ x := Int.floor_le x
  have hlt : x < ⌊x⌋ + 1 := Int.lt_floor_add_one x
  unfold halfEven
  dsimp only
  split
  · constructor <;> linarith
  split
  · push_cast
    constructor <;> linarith
  split
  · constructor <;> linarith
  · push_cast
    constructor <;> linarith

omit [IsStrictOrderedRing K] in
theorem halfEven_floor (x : K) : ⌊x⌋ ≤ halfEven x ∧ halfEven x ≤ ⌊x⌋ + 1 := by
  unfold halfEven
  dsimp only
  split_ifs <;> omega

theorem halfEven_mono : Monotone (halfEven : K → Int) := by
  intro x y hxy
  obtain ⟨-, hx⟩ := halfEven_floor x
  obtain ⟨hy, -⟩ := halfEven_floor y
  rcases (Int.floor_le_floor hxy).lt_or_eq with hlt | heq
  · omega
  · -- on the same floor, the fractions are in the same order
    unfold halfEven
    dsimp only
    rw [heq]
    split_ifs <;> first | omega | (exfalso; linarith)

theorem halfEven_le (h : x ≤ n) : halfEven x ≤ n := by
  have hle := halfEven_mono h
  rwa [halfEven_intCast] at hle

theorem le_halfEven (h : (n : K) ≤ x) : n ≤ halfEven x := by
  have hle := halfEven_mono h
  rwa [halfEven_intCast] at hle

theorem halfEven_neg (x : K) : halfEven (-x) = -halfEven x := by
  by_cases hint : (⌊x⌋ : K) = x
  · rw [← hint, ← Int.cast_neg, halfEven_intCast, halfEven_intCast]
  · have hlt : (⌊x⌋ : K) < x := lt_of_le_of_ne (Int.floor_le x) hint
    have hlt' : x < ⌊x⌋ + 1 := Int.lt_floor_add_one x
    have hfloor : ⌊-x⌋ = -⌊x⌋ - 1 := by
      rw [Int.floor_eq_iff]
      push_cast
      constructor <;> linarith
    unfold halfEven
    dsimp only
    rw [hfloor]
    push_cast
    split_ifs <;> first | omega | (exfalso; linarith)

/-! ## To `p` binary digits -/

/-- The exponent of the last of the `p` digits of `x`. -/
def lastExp (p : Nat) (x : K) : Int := Int.log 2 |x| + 1 - p

/-- The nearest number of `p` binary digits. -/
def nearest (p : Nat) (x : K) : K := halfEven (x / 2 ^ lastExp p x) * 2 ^ lastExp p x

variable {p : Nat} {k : Int}

theorem two_zpow_pos (k : Int) : (0 : K) < 2 ^ k := zpow_pos two_pos k

omit [IsStrictOrderedRing K] in
theorem lastExp_neg (x : K) : lastExp p (-x) = lastExp p x := by rw [lastExp, lastExp, abs_neg]

/-- The last digit of `x` is worth at most `x / 2 ^ (p - 1)`. -/
theorem lastExp_zpow_le (hx : x ≠ 0) : (2 : K) ^ lastExp p x ≤ |x| * 2 ^ (1 - p : Int) := by
  have hlow : (2 : K) ^ Int.log 2 |x| ≤ |x| := by
    exact_mod_cast Int.zpow_log_le_self Nat.one_lt_two (abs_pos.mpr hx)
  rw [lastExp, add_sub_assoc, zpow_add₀ two_ne_zero]
  exact mul_le_mul_of_nonneg_right hlow (two_zpow_pos _).le

theorem lastExp_le (hx : x ≠ 0) (h : |x| < 2 ^ k) : lastExp p x ≤ k - p := by
  have hlog : Int.log 2 |x| < k :=
    (Int.lt_zpow_iff_log_lt Nat.one_lt_two (abs_pos.mpr hx)).mp (by exact_mod_cast h)
  unfold lastExp
  omega

@[simp] theorem nearest_zero : nearest p (0 : K) = 0 := by
  have hzero : halfEven (0 : K) = 0 := by exact_mod_cast halfEven_intCast (K := K) 0
  rw [nearest, zero_div, hzero, Int.cast_zero, zero_mul]

theorem nearest_neg (x : K) : nearest p (-x) = -nearest p x := by
  rw [nearest, nearest, lastExp_neg, neg_div, halfEven_neg, Int.cast_neg, neg_mul]

/-- A number of at most `p` digits stays as it is. -/
theorem nearest_eq_self (h : |(n : K) * 2 ^ k| < 2 ^ (k + p)) :
    nearest p ((n : K) * 2 ^ k) = n * 2 ^ k := by
  by_cases hzero : (n : K) * 2 ^ k = 0
  · rw [hzero, nearest_zero]
  · have hexp := @lastExp_le K _ _ _ _ _ p _ hzero h
    -- the last digit of `n * 2 ^ k` stands where `2 ^ k` does, or behind it
    obtain ⟨j, hj⟩ := Int.eq_ofNat_of_zero_le (by omega : 0 ≤ k - lastExp p ((n : K) * 2 ^ k))
    have hquot : (n : K) * 2 ^ k / 2 ^ lastExp p ((n : K) * 2 ^ k) = ((n * 2 ^ j : Int) : K) := by
      rw [mul_div_assoc, ← zpow_sub₀ two_ne_zero, hj, zpow_natCast]
      push_cast
      rfl
    rw [nearest, hquot, halfEven_intCast, ← hquot, div_mul_cancel₀ _ (two_zpow_pos _).ne']

theorem nearest_intCast (h : |n| < 2 ^ p) : nearest p (n : K) = n := by
  have hsmall : |(n : K) * 2 ^ (0 : Int)| < 2 ^ (0 + (p : Int)) := by
    rw [zpow_zero, mul_one, zero_add, zpow_natCast]
    exact_mod_cast h
  have hself := nearest_eq_self hsmall
  rwa [zpow_zero, mul_one] at hself

/-- A number moves by half of its last digit at most. -/
theorem nearest_half (x : K) : |nearest p x - x| ≤ 2 ^ lastExp p x / 2 := by
  obtain ⟨hlow, hhigh⟩ := halfEven_near (x / 2 ^ lastExp p x)
  have hunit := two_zpow_pos (K := K) (lastExp p x)
  have hx : x = x / 2 ^ lastExp p x * 2 ^ lastExp p x := (div_mul_cancel₀ _ hunit.ne').symm
  have hdiff : nearest p x - x =
      (halfEven (x / 2 ^ lastExp p x) - x / 2 ^ lastExp p x) * 2 ^ lastExp p x := by
    rw [sub_mul, ← hx, nearest]
  have hhalf : |(halfEven (x / 2 ^ lastExp p x) : K) - x / 2 ^ lastExp p x| ≤ 1 / 2 :=
    abs_le.mpr ⟨by linarith, by linarith⟩
  rw [hdiff, abs_mul, abs_of_pos hunit]
  linarith [mul_le_mul_of_nonneg_right hhalf hunit.le]

theorem nearest_near (h : |x| < 2 ^ k) : |nearest p x - x| ≤ 2 ^ (k - p) / 2 := by
  by_cases hzero : x = 0
  · rw [hzero, nearest_zero, sub_zero, abs_zero]
    exact (half_pos (two_zpow_pos _)).le
  · refine (nearest_half x).trans (div_le_div_of_nonneg_right ?_ zero_le_two)
    exact zpow_le_zpow_right₀ one_le_two (lastExp_le hzero h)

theorem nearest_relative (x : K) : |nearest p x - x| ≤ |x| * 2 ^ (1 - p : Int) / 2 := by
  by_cases hzero : x = 0
  · simp [hzero]
  · exact (nearest_half x).trans (div_le_div_of_nonneg_right (lastExp_zpow_le hzero) zero_le_two)

theorem nearest_nonneg (h : 0 ≤ x) : 0 ≤ nearest p x := by
  refine mul_nonneg ?_ (two_zpow_pos _).le
  have hquot : ((0 : Int) : K) ≤ x / 2 ^ lastExp p x := by
    rw [Int.cast_zero]
    exact div_nonneg h (two_zpow_pos _).le
  exact_mod_cast le_halfEven hquot

/-- Rounding stays between two powers of two. -/
theorem nearest_binade (hp : 0 < p) (hx : 0 < x) :
    2 ^ Int.log 2 x ≤ nearest p x ∧ nearest p x ≤ 2 ^ (Int.log 2 x + 1) := by
  have hlow : (2 : K) ^ Int.log 2 x ≤ x := by exact_mod_cast Int.zpow_log_le_self Nat.one_lt_two hx
  have hhigh : x < 2 ^ (Int.log 2 x + 1) := by
    exact_mod_cast Int.lt_zpow_succ_log_self Nat.one_lt_two x
  have hexp : lastExp p x = Int.log 2 x + 1 - p := by rw [lastExp, abs_of_pos hx]
  have hunit := two_zpow_pos (K := K) (lastExp p x)
  have hpow : ∀ j : Nat, ∀ e : Int, e = lastExp p x + j →
      (2 : K) ^ e = ((2 ^ j : Int) : K) * 2 ^ lastExp p x := by
    rintro j e rfl
    rw [zpow_add₀ two_ne_zero, zpow_natCast, mul_comm]
    push_cast
    rfl
  constructor
  · rw [hpow (p - 1) _ (by omega)] at hlow ⊢
    refine mul_le_mul_of_nonneg_right ?_ hunit.le
    exact_mod_cast le_halfEven ((le_div_iff₀ hunit).mpr hlow)
  · rw [hpow p _ (by omega)] at hhigh ⊢
    refine mul_le_mul_of_nonneg_right ?_ hunit.le
    exact_mod_cast halfEven_le ((div_le_iff₀ hunit).mpr hhigh.le)

theorem nearest_mono (hp : 0 < p) : Monotone (nearest p : K → K) := by
  have hpos : ∀ x y : K, 0 < x → x ≤ y → nearest p x ≤ nearest p y := by
    intro x y hx hxy
    have hy := hx.trans_le hxy
    rcases (Int.log_mono_right hx hxy (b := 2)).lt_or_eq with hlt | heq
    · have hbetween : (2 : K) ^ (Int.log 2 x + 1) ≤ 2 ^ Int.log 2 y :=
        zpow_le_zpow_right₀ one_le_two (by omega)
      exact ((nearest_binade hp hx).2.trans hbetween).trans (nearest_binade hp hy).1
    · have hexp : lastExp p x = lastExp p y := by
        rw [lastExp, lastExp, abs_of_pos hx, abs_of_pos hy, heq]
      have hunit := two_zpow_pos (K := K) (lastExp p y)
      rw [nearest, nearest, hexp]
      refine mul_le_mul_of_nonneg_right ?_ hunit.le
      exact_mod_cast halfEven_mono (div_le_div_of_nonneg_right hxy hunit.le)
  intro x y hxy
  rcases lt_or_ge 0 x with hx | hx
  · exact hpos x y hx hxy
  rcases lt_or_ge y 0 with hy | hy
  · -- both are negative: the mirror image
    have hmirror := hpos (-y) (-x) (by linarith) (by linarith)
    rw [nearest_neg, nearest_neg] at hmirror
    linarith
  · have hleft : 0 ≤ nearest p (-x) := nearest_nonneg (by linarith)
    have hright : 0 ≤ nearest p y := nearest_nonneg hy
    rw [nearest_neg] at hleft
    linarith

end Rounding

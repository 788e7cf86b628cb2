import Mathlib.Data.Nat.Digits.Lemmas

/-!
# Radix — numerals that keep the zeros in front

A list of digits, the highest first, is a number behind some zeros.  Written in another base, the
number keeps the zeros, so that the digits can be read back: `recode_recode`.
-/

namespace Radix

/-- How many zeros stand in front. -/
def leading (ds : List Nat) : Nat := (ds.takeWhile (· == 0)).length

/-- The number behind them. -/
def value (b : Nat) (ds : List Nat) : Nat := Nat.ofDigits b ds.reverse

/-- The digits of `n` behind `k` zeros. -/
def padded (b k n : Nat) : List Nat := List.replicate k 0 ++ (Nat.digits b n).reverse

/-- From base `b` to base `b'`. -/
def recode (b b' : Nat) (ds : List Nat) : List Nat := padded b' (leading ds) (value b ds)

variable {b b' k k' n n' : Nat} {ds : List Nat}

@[simp] theorem value_padded : value b (padded b k n) = n := by
  rw [value, padded, List.reverse_append, List.reverse_reverse, List.reverse_replicate,
    Nat.ofDigits_append_replicate_zero, Nat.ofDigits_digits]

/-- A number does not begin with a zero. -/
theorem leading_digits : leading (Nat.digits b n).reverse = 0 := by
  by_cases hn : n = 0
  · rw [hn, Nat.digits_zero]
    rfl
  · have hne : Nat.digits b n ≠ [] := Nat.digits_ne_nil_iff_ne_zero.mpr hn
    obtain ⟨ds, d, hds⟩ := List.eq_nil_or_concat (Nat.digits b n) |>.resolve_left hne
    have hd : d ≠ 0 := by
      have hlast := Nat.getLast_digit_ne_zero b hn
      simpa [hds] using hlast
    rw [hds, List.concat_eq_append, List.reverse_append]
    simp [leading, hd]

@[simp] theorem leading_padded : leading (padded b k n) = k := by
  have hzeros : ∀ d ∈ List.replicate k 0, (d == 0) = true := by simp [List.mem_replicate]
  have hrest : (Nat.digits b n).reverse.takeWhile (· == 0) = [] :=
    List.length_eq_zero_iff.mp leading_digits
  rw [leading, padded, List.takeWhile_append_of_pos hzeros, hrest, List.append_nil,
    List.length_replicate]

theorem lt_of_mem_padded (hb : 1 < b) {d : Nat} (hd : d ∈ padded b k n) : d < b := by
  rcases List.mem_append.mp hd with hzero | hdigit
  · have h0 := List.eq_of_mem_replicate hzero
    omega
  · exact Nat.digits_lt_base hb (List.mem_reverse.mp hdigit)

/-- The zeros and the number are all there is to a numeral. -/
theorem padded_leading_value (hb : 1 < b) (hds : ∀ d ∈ ds, d < b) :
    padded b (leading ds) (value b ds) = ds := by
  induction ds with
  | nil => simp [padded, leading, value]
  | cons d ds ih =>
    by_cases hd : d = 0
    · have htail := ih fun d' hd' => hds d' (List.mem_cons_of_mem d hd')
      have hlead : leading (d :: ds) = leading ds + 1 := by simp [leading, hd]
      have hvalue : value b (d :: ds) = value b ds := by
        rw [value, hd, Nat.ofDigits_reverse_zero_cons]
        rfl
      rw [hlead, hvalue, padded, List.replicate_succ, List.cons_append, hd]
      exact congrArg (0 :: ·) htail
    · have hlead : leading (d :: ds) = 0 := by simp [leading, hd]
      have hdigits : Nat.digits b (value b (d :: ds)) = (d :: ds).reverse := by
        refine Nat.digits_ofDigits b hb _ (fun d' hd' => hds d' (List.mem_reverse.mp hd')) ?_
        intro hne
        simpa using hd
      rw [hlead, padded, hdigits, List.replicate_zero, List.nil_append, List.reverse_reverse]

/-- A number has one numeral of a length. -/
theorem value_inj {ds' : List Nat} (hb : 1 < b) (hlen : ds.length = ds'.length)
    (hds : ∀ d ∈ ds, d < b) (hds' : ∀ d ∈ ds', d < b) (h : value b ds = value b ds') :
    ds = ds' := by
  have hrev : ds.reverse = ds'.reverse := by
    refine Nat.ofDigits_inj_of_len_eq hb ?_ ?_ ?_ h
    · rw [List.length_reverse, List.length_reverse, hlen]
    · exact fun d hd => hds d (List.mem_reverse.mp hd)
    · exact fun d hd => hds' d (List.mem_reverse.mp hd)
  exact List.reverse_inj.mp hrev

theorem padded_inj : padded b k n = padded b k' n' ↔ k = k' ∧ n = n' := by
  constructor
  · intro h
    have hk := congrArg leading h
    have hn := congrArg (value b) h
    rw [leading_padded, leading_padded] at hk
    rw [value_padded, value_padded] at hn
    exact ⟨hk, hn⟩
  · rintro ⟨rfl, rfl⟩
    rfl

theorem recode_padded : recode b b' (padded b k n) = padded b' k n := by
  rw [recode, leading_padded, value_padded]

/-- What is written in another base can be read back. -/
theorem recode_recode (hb : 1 < b) (hds : ∀ d ∈ ds, d < b) :
    recode b' b (recode b b' ds) = ds := by
  have hcode : recode b b' ds = padded b' (leading ds) (value b ds) := rfl
  rw [hcode, recode_padded, padded_leading_value hb hds]

/-- What is read back of a number behind `k` zeros is longer by the zeros it has too many. -/
theorem length_recode_padded (hb : 1 < b) (hds : ∀ d ∈ ds, d < b) :
    (recode b' b (padded b' k (value b ds))).length + leading ds = ds.length + k := by
  have hlength := congrArg List.length (padded_leading_value hb hds)
  rw [recode_padded]
  simp only [padded, List.length_append, List.length_replicate] at hlength ⊢
  omega

end Radix

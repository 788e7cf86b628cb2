import Mathlib.Data.List.Flatten
import Mathlib.Data.String.Basic
import Mathlib.Tactic.IntervalCases
import Clif.Keccak

/-!
# Hex — hex text in any letter case, and the texts of 32-byte hashes

`bytes.fromhex` reads a text through its digits, and lowering a text keeps the value of every digit
(the Kelvin sign and the dotted capital I lower to letters that are no digits).  So two texts that
lower to the same text never read as different bytes, also after the slice `[2:]`.
-/

namespace Clif

namespace Py

/-! ### Digits -/

theorem hexDigit?_lt {c : Char} {n : Nat} (h : hexDigit? c = some n) : n < 16 := by
  unfold hexDigit? at h
  simp only [] at h
  split_ifs at h <;> simp only [Option.some.injEq] at h <;> omega

theorem toNat_toLower (c : Char) :
    c.toLower.toNat = if 65 ≤ c.toNat ∧ c.toNat ≤ 90 then c.toNat + 32 else c.toNat := by
  have hrange : (c.val ≥ 'A'.val ∧ c.val ≤ 'Z'.val) ↔ (65 ≤ c.toNat ∧ c.toNat ≤ 90) := by
    rw [ge_iff_le, UInt32.le_iff_toNat_le, UInt32.le_iff_toNat_le]
    rfl
  delta Char.toLower
  by_cases h : c.val ≥ 'A'.val ∧ c.val ≤ 'Z'.val
  · have hn := hrange.mp h
    rw [dif_pos h, if_pos hn]
    have h32 : ('a'.val - 'A'.val : UInt32) = 32 := by decide
    have hadd : (c.val + ('a'.val - 'A'.val)).toNat = c.toNat + 32 := by
      rw [h32, UInt32.toNat_add]
      have hc : c.val.toNat ≤ 90 := hn.2
      have h2 : (32 : UInt32).toNat = 32 := rfl
      rw [h2, Nat.mod_eq_of_lt (by omega)]
      rfl
    exact hadd
  · rw [dif_neg h, if_neg (mt hrange.mpr h)]

@[simp] theorem hexDigit?_toLower (c : Char) : hexDigit? c.toLower = hexDigit? c := by
  have hn := toNat_toLower c
  unfold hexDigit?
  simp only [hn]
  split_ifs <;> first | rfl | omega

theorem not_isAsciiSpace {c : Char} {n : Nat} (h : hexDigit? c = some n) :
    isAsciiSpace c = false := by
  unfold hexDigit? at h
  simp only [] at h
  have h48 : 48 ≤ c.toNat := by
    split_ifs at h <;> omega
  simp only [isAsciiSpace, Bool.or_eq_false_iff, beq_eq_false_iff_ne, Bool.and_eq_false_iff,
    decide_eq_false_iff_not]
  omega

/-- The values of the digits of a text, what is no digit left out. -/
def nibbles (cs : List Char) : List Nat := cs.filterMap hexDigit?

@[simp] theorem nibbles_append (cs ds : List Char) :
    nibbles (cs ++ ds) = nibbles cs ++ nibbles ds := by
  simp [nibbles]

theorem nibbles_lowerChar (c : Char) : nibbles (lowerChar c) = nibbles [c] := by
  unfold lowerChar
  by_cases hk : c.val = 0x212A
  · have hc : c = Char.ofNat 0x212A := Char.ext (by rw [hk]; decide)
    subst hc
    decide
  · by_cases hi : c.val = 0x130
    · have hc : c = Char.ofNat 0x130 := Char.ext (by rw [hi]; decide)
      subst hc
      decide
    · simp [if_neg hk, if_neg hi, nibbles, List.filterMap_cons]

theorem nibbles_lower : ∀ cs : List Char, nibbles (cs.flatMap lowerChar) = nibbles cs
  | [] => rfl
  | c :: cs => by
    rw [List.flatMap_cons, nibbles_append, nibbles_lowerChar, nibbles_lower cs, ← nibbles_append]
    rfl

/-- The first character of a lowered character has its digit. -/
theorem exists_lowerChar (c : Char) :
    ∃ h rest, lowerChar c = h :: rest ∧ hexDigit? h = hexDigit? c ∧ (rest ≠ [] → h = 'i') := by
  unfold lowerChar
  by_cases hk : c.val = 0x212A
  · have hc : c = Char.ofNat 0x212A := Char.ext (by rw [hk]; decide)
    subst hc
    exact ⟨'k', [], by decide, by decide, by simp⟩
  · by_cases hi : c.val = 0x130
    · have hc : c = Char.ofNat 0x130 := Char.ext (by rw [hi]; decide)
      subst hc
      exact ⟨'i', [Char.ofNat 0x307], by decide, by decide, by simp⟩
    · exact ⟨c.toLower, [], by rw [if_neg hk, if_neg hi], by simp, by simp⟩

theorem hexDigit?_of_lower_cons {c d : Char} {cs ds : List Char}
    (h : (c :: cs).flatMap lowerChar = (d :: ds).flatMap lowerChar) :
    hexDigit? c = hexDigit? d := by
  obtain ⟨c', cr, hc, hcd, -⟩ := exists_lowerChar c
  obtain ⟨d', dr, hd, hdd, -⟩ := exists_lowerChar d
  rw [List.flatMap_cons, List.flatMap_cons, hc, hd, List.cons_append, List.cons_append] at h
  rw [← hcd, ← hdd, (List.cons.inj h).1]

/-- A text that lowers to something other than an `i` starts with one character for it. -/
theorem lower_eq_cons {cs rest : List Char} {h : Char} (hi : h ≠ 'i')
    (heq : cs.flatMap lowerChar = h :: rest) :
    ∃ c cs', cs = c :: cs' ∧ hexDigit? c = hexDigit? h ∧ cs'.flatMap lowerChar = rest := by
  cases cs with
  | nil => simp at heq
  | cons c cs' =>
    obtain ⟨c', cr, hc, hcd, hcr⟩ := exists_lowerChar c
    rw [List.flatMap_cons, hc, List.cons_append] at heq
    obtain ⟨rfl, htail⟩ := List.cons.inj heq
    have hnil : cr = [] := by
      by_contra hne
      exact hi (hcr hne)
    exact ⟨c, cs', rfl, hcd.symm, by rw [← htail, hnil, List.nil_append]⟩

/-! ### `fromhex` -/

/-- The two digits of a byte. -/
def halves (x : UInt8) : List Nat := [x.toNat / 16, x.toNat % 16]

theorem nibbles_of_fromHexChars : ∀ {cs : List Char} {b : Bytes}, fromHexChars cs = some b →
    nibbles cs = b.flatMap halves := by
  intro cs
  induction cs using fromHexChars.induct with
  | case1 =>
    intro b h
    simp only [fromHexChars, Option.some.injEq] at h
    rw [← h]
    rfl
  | case2 c cs hsp ih =>
    intro b h
    unfold fromHexChars at h
    rw [if_pos hsp] at h
    have hc : hexDigit? c = none := by
      by_contra hne
      obtain ⟨n, hn⟩ := Option.ne_none_iff_exists'.mp hne
      rw [not_isAsciiSpace hn] at hsp
      simp at hsp
    rw [← ih h, nibbles, List.filterMap_cons, hc]
    rfl
  | case3 c hsp =>
    intro b h
    rw [fromHexChars, if_neg hsp] at h
    simp at h
  | case4 c hsp d rest x y r hr hy hx ih =>
    intro b h
    rw [fromHexChars, if_neg hsp] at h
    simp only [hx, hy, hr, Option.some.injEq] at h
    have hxlt := hexDigit?_lt hx
    have hylt := hexDigit?_lt hy
    have hbyte : halves (UInt8.ofNat (16 * x + y)) = [x, y] := by
      have hn : (UInt8.ofNat (16 * x + y)).toNat = 16 * x + y := by
        rw [UInt8.toNat_ofNat']
        omega
      simp only [halves, hn, List.cons.injEq, and_true]
      omega
    rw [← h, List.flatMap_cons, hbyte, ← ih hr]
    simp [nibbles, hx, hy]
  | case5 c hsp d rest hno =>
    intro b h
    rw [fromHexChars, if_neg hsp] at h
    split at h
    · rename_i x y r hx hy hr
      exact absurd hr (hno x y r hx hy)
    · simp at h

theorem halves_inj : ∀ {a b : Bytes}, a.flatMap halves = b.flatMap halves → a = b
  | [], [], _ => rfl
  | [], _ :: _, h => by simp [halves] at h
  | _ :: _, [], h => by simp [halves] at h
  | x :: a, y :: b, h => by
    simp only [List.flatMap_cons, halves, List.cons_append, List.nil_append, List.cons.injEq] at h
    obtain ⟨hdiv, hmod, hrest⟩ := h
    have hxy : x.toNat = y.toNat := by omega
    rw [UInt8.toNat_inj.mp hxy, halves_inj hrest]

theorem length_halves (b : Bytes) : (b.flatMap halves).length = 2 * b.length := by
  induction b with
  | nil => rfl
  | cons x b ih =>
    rw [List.flatMap_cons, List.length_append, ih, List.length_cons]
    simp only [halves, List.length_cons, List.length_nil]
    omega

/-- What the slice `[2:]` cuts off has as many digits, when what is left reads as bytes. -/
theorem nibbles_take_le {cs ds : List Char}
    (h : cs.flatMap lowerChar = ds.flatMap lowerChar) (h2 : (nibbles (cs.take 2)).length = 2) :
    1 ≤ (nibbles (ds.take 2)).length := by
  cases cs with
  | nil => simp [nibbles] at h2
  | cons c cs =>
    cases ds with
    | nil =>
      obtain ⟨c', cr, hc, -, -⟩ := exists_lowerChar c
      rw [List.flatMap_cons, hc] at h
      simp at h
    | cons d ds =>
      have hcd := hexDigit?_of_lower_cons h
      have hle : (nibbles (cs.take 1)).length ≤ 1 :=
        (List.length_filterMap_le _ _).trans (List.length_take_le _ _)
      cases hx : hexDigit? c with
      | none =>
        rw [List.take_succ_cons, nibbles, List.filterMap_cons, hx] at h2
        simp only [nibbles] at hle h2
        omega
      | some x =>
        rw [hcd] at hx
        simp [nibbles, List.take_succ_cons, hx]

/-- Texts equal up to the letter case never read as different bytes. -/
theorem fromHex_slice_unique {x y : String} {a b : Bytes} (h : lower x = lower y)
    (ha : fromHex (sliceFrom x 2) = some a) (hb : fromHex (sliceFrom y 2) = some b) : a = b := by
  simp only [lower, String.ofList_inj] at h
  simp only [fromHex, sliceFrom, String.toList_ofList] at ha hb
  have hna := nibbles_of_fromHexChars ha
  have hnb := nibbles_of_fromHexChars hb
  have hall : nibbles (x.toList.take 2) ++ a.flatMap halves =
      nibbles (y.toList.take 2) ++ b.flatMap halves := by
    rw [← hna, ← hnb, ← nibbles_append, ← nibbles_append, List.take_append_drop,
      List.take_append_drop, ← nibbles_lower x.toList, h, nibbles_lower]
  have hlen := congrArg List.length hall
  rw [List.length_append, List.length_append, length_halves, length_halves] at hlen
  have hx2 : (nibbles (x.toList.take 2)).length ≤ 2 :=
    (List.length_filterMap_le _ _).trans (List.length_take_le _ _)
  have hy2 : (nibbles (y.toList.take 2)).length ≤ 2 :=
    (List.length_filterMap_le _ _).trans (List.length_take_le _ _)
  have hxy := nibbles_take_le h
  have hyx := nibbles_take_le h.symm
  -- the two counts differ by an even number, so they are equal
  have hcount : (nibbles (x.toList.take 2)).length = (nibbles (y.toList.take 2)).length := by
    omega
  exact halves_inj (List.append_inj_right hall hcount)

/-! ### `hex` -/

theorem hexChar_spec : ∀ n < 16, hexDigit? (hexChar n) = some n ∧ hexChar n ≠ 'i' ∧
    lowerChar (hexChar n) = [hexChar n] := by
  intro n hn
  interval_cases n <;> decide

theorem toHex_toList (b : Bytes) :
    (toHex b).toList = b.flatMap fun x => [hexChar (x.toNat / 16), hexChar (x.toNat % 16)] := by
  simp [toHex]

/-- A text that lowers to the hex of some bytes reads as these bytes. -/
theorem fromHexChars_of_lower : ∀ {b : Bytes} {cs : List Char},
    cs.flatMap lowerChar = (toHex b).toList → fromHexChars cs = some b
  | [], cs, h => by
    rw [toHex_toList, List.flatMap_nil, List.flatMap_eq_nil_iff] at h
    cases cs with
    | nil => rfl
    | cons c cs =>
      obtain ⟨c', cr, hc, -, -⟩ := exists_lowerChar c
      have := h c (List.mem_cons_self ..)
      rw [hc] at this
      simp at this
  | x :: b, cs, h => by
    have hx : x.toNat < 256 := x.toNat_lt
    obtain ⟨hhi, hhine, -⟩ := hexChar_spec (x.toNat / 16) (by omega)
    obtain ⟨hlo, hlone, -⟩ := hexChar_spec (x.toNat % 16) (by omega)
    rw [toHex_toList, List.flatMap_cons, List.cons_append] at h
    obtain ⟨c, cs, rfl, hc, h⟩ := lower_eq_cons hhine h
    obtain ⟨d, cs, rfl, hd, h⟩ := lower_eq_cons hlone h
    replace h : cs.flatMap lowerChar = (toHex b).toList := by rw [h, toHex_toList]; rfl
    rw [hhi] at hc
    rw [hlo] at hd
    have hbyte : UInt8.ofNat (16 * (x.toNat / 16) + x.toNat % 16) = x := by
      rw [Nat.div_add_mod, UInt8.ofNat_toNat]
    rw [fromHexChars, if_neg (by rw [not_isAsciiSpace hc]; simp)]
    simp only [hc, hd, fromHexChars_of_lower h, hbyte]

theorem lower_toHex (b : Bytes) : (toHex b).toList.flatMap lowerChar = (toHex b).toList := by
  induction b with
  | nil => rfl
  | cons x b ih =>
    have hx : x.toNat < 256 := x.toNat_lt
    obtain ⟨-, -, hhi⟩ := hexChar_spec (x.toNat / 16) (by omega)
    obtain ⟨-, -, hlo⟩ := hexChar_spec (x.toNat % 16) (by omega)
    rw [toHex_toList] at ih ⊢
    simp only [List.flatMap_cons, hhi, hlo, ih, List.cons_append, List.nil_append]

/-- What follows the prefix. -/
theorem removePrefix_append (p s : String) : removePrefix (p ++ s) p = s := by
  have hstart : startsWith (p ++ s) p = true := by
    rw [startsWith, String.toList_append, List.isPrefixOf_iff_prefix]
    exact List.prefix_append _ _
  rw [removePrefix, if_pos hstart, String.toList_append, ← String.length_toList,
    List.drop_left, String.ofList_toList]

theorem fromHex_toHex (b : Bytes) : fromHex (toHex b) = some b :=
  fromHexChars_of_lower (lower_toHex b)

theorem lastChars_append {s t : String} {n : Nat} (h : t.length = n) :
    lastChars (s ++ t) n = t := by
  rw [lastChars, String.length_append, h, Nat.add_sub_cancel, String.toList_append,
    ← String.length_toList, List.drop_left, String.ofList_toList]

theorem toHex_append (a b : Bytes) : toHex (a ++ b) = toHex a ++ toHex b := by
  rw [← String.toList_inj, String.toList_append, toHex_toList, toHex_toList, toHex_toList,
    List.flatMap_append]

theorem length_toHex (b : Bytes) : (toHex b).length = 2 * b.length := by
  rw [← String.length_toList, toHex_toList, List.length_flatMap]
  simp [mul_comm]

theorem toHex_inj {a b : Bytes} (h : toHex a = toHex b) : a = b := by
  have hread := congrArg fromHex h
  rw [fromHex_toHex, fromHex_toHex] at hread
  exact Option.some.inj hread

end Py

/-! ## Texts of hashes -/

/-- The text the sources write a hash as. -/
def hashHex (b : Bytes) : String := "0x" ++ Py.toHex b

/-- `x` is the text of the hash `b`, its letters in any case. -/
structure IsHash (x : String) (b : Bytes) : Prop where
  length_eq : b.length = 32
  lower_eq : Py.lower x = hashHex b

theorem hashHex_toList (b : Bytes) : (hashHex b).toList = '0' :: 'x' :: (Py.toHex b).toList := by
  simp [hashHex]

theorem lower_hashHex (b : Bytes) : Py.lower (hashHex b) = hashHex b := by
  have h0 : Py.lowerChar '0' = ['0'] := by decide
  have hx : Py.lowerChar 'x' = ['x'] := by decide
  rw [← String.toList_inj, Py.lower, hashHex_toList, List.flatMap_cons, List.flatMap_cons, h0, hx,
    Py.lower_toHex]
  simp

theorem isHash_hashHex {b : Bytes} (h : b.length = 32) : IsHash (hashHex b) b :=
  ⟨h, lower_hashHex b⟩

theorem hashHex_inj {a b : Bytes} (h : hashHex a = hashHex b) : a = b := by
  have hl := congrArg String.toList h
  rw [hashHex_toList, hashHex_toList] at hl
  simp only [List.cons.injEq, true_and, String.toList_inj] at hl
  exact Py.toHex_inj hl

theorem IsHash.fromHex_slice {x : String} {b : Bytes} (h : IsHash x b) :
    Py.fromHex (Py.sliceFrom x 2) = some b := by
  have hl : x.toList.flatMap Py.lowerChar = '0' :: 'x' :: (Py.toHex b).toList := by
    rw [← hashHex_toList, ← h.lower_eq]
    simp [Py.lower]
  obtain ⟨c, cs, hc, -, hl⟩ := Py.lower_eq_cons (by decide) hl
  obtain ⟨d, ds, rfl, -, hl⟩ := Py.lower_eq_cons (by decide) hl
  rw [Py.fromHex, Py.sliceFrom, String.toList_ofList, hc]
  exact Py.fromHexChars_of_lower hl

/-! ## Keccak gives 32 bytes -/

namespace Keccak

theorem length_keccakF1600 {st : List Lane} (h : st.length = 25) :
    (keccakF1600 st).length = 25 := by
  have hall : ∀ (rs : List Lane) (st : List Lane), st.length = 25 →
      (rs.foldl (fun st r => iota r (chi (rhoPi (theta st)))) st).length = 25 := by
    intro rs
    induction rs with
    | nil => exact fun _ hst => hst
    | cons r rs ih => exact fun _ _ => ih _ (by simp [iota, chi])
  exact hall rc st h

theorem length_absorbBlock (st : List Lane) (block : Bytes) :
    (absorbBlock st block).length = 25 :=
  length_keccakF1600 (by simp)

theorem length_absorb : ∀ (bs : List Bytes) (st : List Lane), st.length = 25 →
    (bs.foldl absorbBlock st).length = 25
  | [], _, h => h
  | b :: bs, st, _ => length_absorb bs _ (length_absorbBlock st b)

theorem length_toLittles (st : List Lane) : (st.flatMap toLittle).length = 8 * st.length := by
  induction st with
  | nil => rfl
  | cons x st ih =>
    rw [List.flatMap_cons, List.length_append, ih, List.length_cons, toLittle, List.length_map,
      List.length_range]
    omega

end Keccak

open Keccak in
theorem length_keccak256 (data : Bytes) : (keccak256 data).length = 32 := by
  have hst := length_absorb (blocks ((padded data).length / rate) (padded data))
    (List.replicate 25 0) (by simp)
  have hrate : rate / 8 = 17 := rfl
  simp only [keccak256, List.length_take, length_toLittles, hst, hrate]
  omega

end Clif

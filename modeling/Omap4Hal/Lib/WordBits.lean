import Mathlib.Data.BitVec

/- Words by their bits: a field of a word that is extended with its sign, and when a value is in
   the range of such a field. A counter of 32 bits goes one up and one down, as long as it does
   not wrap. -/
namespace Omap4Hal.Lib

open BitVec (eq_of_getLsbD_eq getLsbD getLsbD_sshiftRight neg_one_eq_allOnes toInt_inj toNat_ofNat
  toNat_shiftLeft)

variable {w : Nat}

variable {n i k : Nat} {v x : BitVec w}

/-- The mask for the lowest `n` bits. -/
theorem getLsbD_lowMask (hn : n < w) (hi : i < w) :
    (1#w <<< n - 1#w).getLsbD i = decide (i < n) := by
  have hpow : 2 ^ n < 2 ^ w := Nat.pow_lt_pow_right (by decide) hn
  have hpos : 0 < 2 ^ n := Nat.two_pow_pos n
  have hone : 1 < 2 ^ w := Nat.one_lt_two_pow (by omega)
  have hmask : 1#w <<< n - 1#w = BitVec.ofNat w (2 ^ n - 1) := by
    apply BitVec.eq_of_toNat_eq
    rw [BitVec.toNat_sub_of_le]
    · simp only [toNat_shiftLeft, toNat_ofNat, Nat.mod_eq_of_lt hone,
        Nat.one_shiftLeft, Nat.mod_eq_of_lt hpow]
      rw [Nat.mod_eq_of_lt (by omega)]
    · rw [BitVec.le_def]
      simp only [toNat_shiftLeft, toNat_ofNat, Nat.mod_eq_of_lt hone,
        Nat.one_shiftLeft, Nat.mod_eq_of_lt hpow]
      omega
  rw [hmask, BitVec.getLsbD_ofNat, Nat.testBit_two_pow_sub_one]
  simp [hi]

theorem getLsbD_clearLow (v : BitVec w) (hi : i < w) :
    (v &&& ~~~1#w).getLsbD i = (decide (i ≠ 0) && v.getLsbD i) := by
  by_cases h0 : i = 0 <;> simp [h0, hi]

theorem toNat_clearLow (v : BitVec w) : (v &&& ~~~1#w).toNat = v.toNat / 2 * 2 := by
  have hshift : v &&& ~~~1#w = (v >>> 1) <<< 1 := by
    apply eq_of_getLsbD_eq
    intro i hi
    rw [getLsbD_clearLow v hi]
    by_cases h0 : i = 0
    · simp [h0]
    · simp [h0, hi, show 1 + (i - 1) = i by omega]
  have hlt := v.isLt
  rw [hshift, toNat_shiftLeft, BitVec.toNat_ushiftRight, Nat.shiftLeft_eq,
    Nat.shiftRight_eq_div_pow, Nat.pow_one, Nat.mod_eq_of_lt]
  omega

theorem toNat_clearLowMask (v : BitVec w) (hn : n < w) :
    (v &&& ~~~(1#w <<< n - 1#w)).toNat = v.toNat / 2 ^ n * 2 ^ n := by
  have hshift : v &&& ~~~(1#w <<< n - 1#w) = (v >>> n) <<< n := by
    apply eq_of_getLsbD_eq
    intro i hi
    rw [BitVec.getLsbD_and, BitVec.getLsbD_not, getLsbD_lowMask hn hi, BitVec.getLsbD_shiftLeft,
      BitVec.getLsbD_ushiftRight]
    by_cases hin : i < n
    · simp [hin]
    · simp [hin, hi, show n + (i - n) = i by omega]
  have hle : v.toNat / 2 ^ n * 2 ^ n ≤ v.toNat := Nat.div_mul_le_self _ _
  rw [hshift, toNat_shiftLeft, BitVec.toNat_ushiftRight, Nat.shiftLeft_eq,
    Nat.shiftRight_eq_div_pow, Nat.mod_eq_of_lt (Nat.lt_of_le_of_lt hle v.isLt)]

/-- A word with `n` bits of another one. -/
theorem toNat_of_bits {w' : Nat} {x : BitVec w'} {s : Nat} (hn : n ≤ w')
    (hx : ∀ i, i < w' → x.getLsbD i = (decide (i < n) && v.getLsbD (s + i))) :
    x.toNat = v.toNat / 2 ^ s % 2 ^ n := by
  apply Nat.eq_of_testBit_eq
  intro i
  rw [Nat.testBit_mod_two_pow, Nat.testBit_div_two_pow]
  by_cases hi : i < w'
  · have hbit := hx i hi
    simpa [getLsbD, Nat.add_comm] using hbit
  · have hbit : x.getLsbD i = false := BitVec.getLsbD_of_ge _ _ (by omega)
    simp only [getLsbD] at hbit
    rw [hbit]
    simp [show ¬ i < n by omega]

/-- The value has a signed field of `k + 1` bits. -/
def FitsSigned (k : Nat) (v : BitVec w) : Prop := -2 ^ k ≤ v.toInt ∧ v.toInt < 2 ^ k

/-- The field of `k + 1` bits at the bottom of the word, with its sign. -/
def extendSign (k : Nat) (x : BitVec w) : BitVec w := x ||| -(x &&& 1#w <<< k)

theorem getLsbD_and_single (x : BitVec w) (k i : Nat) (hi : i < w) :
    (x &&& 1#w <<< k).getLsbD i = (decide (i = k) && x.getLsbD k) := by
  by_cases hik : i = k
  · subst hik
    simp [hi]
  · have hbit : (1#w <<< k).getLsbD i = false := by
      rw [← BitVec.twoPow_eq, BitVec.getLsbD_twoPow]
      simp [Ne.symm hik]
    simp [hbit, hik]

theorem getLsbD_extendSign (hk : k < w) (hhigh : ∀ i, k < i → i < w → x.getLsbD i = false)
    (hi : i < w) :
    (extendSign k x).getLsbD i = x.getLsbD (min i k) := by
  have hex : (∃ j < i, (x &&& 1#w <<< k).getLsbD j = true) ↔ k < i ∧ x.getLsbD k = true := by
    constructor
    · intro h
      obtain ⟨j, hj, hbit⟩ := h
      rw [getLsbD_and_single x k j (by omega)] at hbit
      simp only [Bool.and_eq_true, decide_eq_true_eq] at hbit
      exact ⟨hbit.1 ▸ hj, hbit.2⟩
    · intro h
      refine ⟨k, h.1, ?_⟩
      rw [getLsbD_and_single x k k hk, h.2]
      simp
  rw [extendSign, BitVec.getLsbD_or, BitVec.getLsbD_neg, getLsbD_and_single x k i hi]
  simp only [hex]
  rcases Nat.lt_trichotomy i k with hlt | heq | hgt
  · have hne : i ≠ k := by omega
    have hnot : ¬ k < i := by omega
    simp [hne, hnot, Nat.min_eq_left (Nat.le_of_lt hlt)]
  · simp [heq]
  · have hne : i ≠ k := by omega
    rw [hhigh i hgt hi, Nat.min_eq_right (Nat.le_of_lt hgt)]
    simp [hne, hi, hgt]

theorem sshiftRight_uniform_iff (hk : k < w) :
    (v.sshiftRight k = 0#w ∨ v.sshiftRight k = -1#w) ↔
      ∀ i, k ≤ i → i < w → v.getLsbD i = v.getLsbD k := by
  have hmsb : v.msb = v.getLsbD (w - 1) := BitVec.msb_eq_getLsbD_last v
  have hzero : (v.sshiftRight k).getLsbD 0 = v.getLsbD k := by
    rw [getLsbD_sshiftRight]
    simp [show ¬ w ≤ 0 by omega, hk]
  constructor
  · intro h i hki hi
    have hi' : (v.sshiftRight k).getLsbD (i - k) = v.getLsbD i := by
      rw [getLsbD_sshiftRight, if_pos (by omega)]
      simp [show ¬ w ≤ i - k by omega, Nat.add_sub_of_le hki]
    rw [← hi', ← hzero]
    rcases h with h | h
    · rw [h]
      simp
    · rw [h, neg_one_eq_allOnes]
      simp only [BitVec.getLsbD_allOnes]
      simp only [decide_eq_decide]
      omega
  · intro h
    have hall : ∀ i, i < w → (v.sshiftRight k).getLsbD i = v.getLsbD k := by
      intro i hi
      rw [getLsbD_sshiftRight]
      simp only [show ¬ w ≤ i by omega, decide_false, Bool.not_false, Bool.true_and]
      split
      · next hlt => exact h _ (by omega) hlt
      · rw [hmsb]
        exact h _ (by omega) (by omega)
    cases hbit : v.getLsbD k with
    | false =>
      left
      apply eq_of_getLsbD_eq
      intro i hi
      rw [hall i hi, hbit]
      simp
    | true =>
      right
      apply eq_of_getLsbD_eq
      intro i hi
      rw [hall i hi, hbit, neg_one_eq_allOnes]
      simp [hi]

theorem sshiftRight_fits_iff (hk : k < w) :
    (v.sshiftRight k = 0#w ∨ v.sshiftRight k = -1#w) ↔ FitsSigned k v := by
  have hzero : v.sshiftRight k = 0#w ↔ v.toInt / 2 ^ k = 0 := by
    rw [← toInt_inj, BitVec.toInt_sshiftRight, Int.shiftRight_eq_div_pow]
    simp
  have hneg : v.sshiftRight k = -1#w ↔ v.toInt / 2 ^ k = -1 := by
    rw [← toInt_inj, BitVec.toInt_sshiftRight, Int.shiftRight_eq_div_pow,
      neg_one_eq_allOnes, BitVec.toInt_allOnes, if_pos (by omega)]
    simp
  have hpow : (0 : Int) < 2 ^ k := Int.pow_pos (by decide)
  have hlo : -1 ≤ v.toInt / 2 ^ k ↔ -1 * 2 ^ k ≤ v.toInt := Int.le_ediv_iff_mul_le hpow
  have hhi : v.toInt / 2 ^ k < 1 ↔ v.toInt < 1 * 2 ^ k := Int.ediv_lt_iff_lt_mul hpow
  rw [Int.neg_one_mul] at hlo
  rw [Int.one_mul] at hhi
  rw [hzero, hneg, FitsSigned, ← hlo, ← hhi]
  omega

/-- A field extends to `v` exactly if `v` is in range and the field has its bits. -/
theorem extendSign_eq_self_iff (hk : k < w) (hhigh : ∀ i, k < i → i < w → x.getLsbD i = false) :
    extendSign k x = v ↔ FitsSigned k v ∧ ∀ i, i ≤ k → x.getLsbD i = v.getLsbD i := by
  rw [← sshiftRight_fits_iff hk, sshiftRight_uniform_iff hk]
  constructor
  · intro h
    have hbits : ∀ i, i < w → x.getLsbD (min i k) = v.getLsbD i := by
      intro i hi
      rw [← h, getLsbD_extendSign hk hhigh hi]
    refine ⟨?_, ?_⟩
    · intro i hki hi
      rw [← hbits i hi, ← hbits k hk, Nat.min_eq_right hki, Nat.min_self]
    · intro i hik
      rw [← hbits i (by omega), Nat.min_eq_left hik]
  · intro h
    obtain ⟨huniform, hbits⟩ := h
    apply eq_of_getLsbD_eq
    intro i hi
    rw [getLsbD_extendSign hk hhigh hi, hbits _ (Nat.min_le_right i k)]
    by_cases hki : k ≤ i
    · rw [Nat.min_eq_right hki, huniform i hki hi]
    · rw [Nat.min_eq_left (by omega)]

theorem fitsSigned_clearLow_iff (hk : k < w) (hpos : 0 < k) :
    FitsSigned k (v &&& ~~~1#w) ↔ FitsSigned k v := by
  have hbits : ∀ i, k ≤ i → i < w → (v &&& ~~~1#w).getLsbD i = v.getLsbD i := by
    intro i hki hi
    rw [getLsbD_clearLow v hi]
    simp [show i ≠ 0 by omega]
  rw [← sshiftRight_fits_iff hk, ← sshiftRight_fits_iff hk, sshiftRight_uniform_iff hk,
    sshiftRight_uniform_iff hk, hbits k (Nat.le_refl k) hk]
  constructor
  · intro h i hki hi
    rw [← hbits i hki hi, h i hki hi]
  · intro h i hki hi
    rw [hbits i hki hi, h i hki hi]

/-- A field extends to `v` without its lowest bit exactly if `v` is in range and the field has
its bits. -/
theorem extendSign_eq_iff (hk : k < w) (hpos : 0 < k)
    (hhigh : ∀ i, k < i → i < w → x.getLsbD i = false) :
    extendSign k x = v &&& ~~~1#w ↔
      FitsSigned k v ∧ ∀ i, i ≤ k → x.getLsbD i = (decide (i ≠ 0) && v.getLsbD i) := by
  rw [extendSign_eq_self_iff hk hhigh, fitsSigned_clearLow_iff hk hpos]
  apply and_congr_right
  intro _
  apply forall₂_congr
  intro i hik
  rw [getLsbD_clearLow v (by omega)]

/-! ## Counters -/

section Counters

variable {x : UInt32}

theorem toNat_inc (h : x + 1 ≠ 0) : (x + 1).toNat = x.toNat + 1 := by
  have hne : (x + 1).toNat ≠ 0 := fun h0 => h (UInt32.toNat_inj.mp h0)
  have hlt := x.toNat_lt
  rw [UInt32.toNat_add] at hne ⊢
  simp only [UInt32.toNat_one] at hne ⊢
  omega

theorem toNat_dec (h : x ≠ 0) : (x - 1).toNat = x.toNat - 1 := by
  have hpos : 0 < x.toNat := Nat.pos_of_ne_zero fun h0 => h (UInt32.toNat_inj.mp h0)
  have hle : (1 : UInt32) ≤ x := UInt32.le_iff_toNat_le.mpr hpos
  rw [UInt32.toNat_sub_of_le _ _ hle]
  rfl

theorem eq_one_of_dec (h : x - 1 = 0) (hx : x ≠ 0) : x = 1 := by
  have hdec := toNat_dec hx
  have hpos : x.toNat ≠ 0 := fun h0 => hx (UInt32.toNat_inj.mp h0)
  rw [h] at hdec
  have hz : (0 : UInt32).toNat = 0 := rfl
  apply UInt32.toNat_inj.mp
  show x.toNat = 1
  omega

theorem dec_of_inc_eq_zero (h : x + 1 = 0) : (0 : UInt32) - 1 = x := by
  rw [← h, UInt32.add_sub_cancel]

theorem one_lt_inc (hx : x ≠ 0) (h : x + 1 ≠ 0) : 1 < x + 1 := by
  have hpos : x.toNat ≠ 0 := fun h0 => hx (UInt32.toNat_inj.mp h0)
  rw [UInt32.lt_iff_toNat_lt, toNat_inc h]
  show 1 < x.toNat + 1
  omega

end Counters

end Omap4Hal.Lib

import Omap4Hal.Camera.Nv12Resize
import Omap4Hal.Lib.Bilinear

/- The samples of the resizing. The weights of a fraction are those of the bilinear interpolation
   (`weight_products`), so that the sum over four bytes fits and the value is that of the
   interpolation. A coordinate in the output leads to one in the input before the last sample. -/
namespace Omap4Hal.Camera.Nv12Resize

open Lib

/-! ## Weights -/

theorem weight_products {xf yf : UInt16} (hx : xf.toNat < 8) (hy : yf.toNat < 8) :
    (weight xf yf 0).toNat = (8 - xf.toNat) * (8 - yf.toNat) ∧
      (weight xf yf 1).toNat = xf.toNat * (8 - yf.toNat) ∧
      (weight xf yf 3).toNat = (8 - xf.toNat) * yf.toNat ∧
      (weight xf yf 2).toNat = xf.toNat * yf.toNat := by
  have htable : ∀ x < 8, ∀ y < 8, ∀ k < 4,
      (((bWeights.getD x []).getD y []).getD k 0).toNat =
        [(8 - x) * (8 - y), x * (8 - y), x * y, (8 - x) * y].getD k 0 := by
    decide +kernel
  have hentry := htable _ hx _ hy
  exact ⟨hentry 0 (by decide), hentry 1 (by decide), hentry 3 (by decide), hentry 2 (by decide)⟩

section Blend

variable {xf yf : UInt16} (hx : xf.toNat < 8) (hy : yf.toNat < 8) (a b c d : UInt8)

include hx hy

theorem weights_sum : (weight xf yf 0).toNat * a.toNat + (weight xf yf 1).toNat * b.toNat +
    (weight xf yf 3).toNat * c.toNat + (weight xf yf 2).toNat * d.toNat =
      bilinearSum 8 xf.toNat yf.toNat a.toNat b.toNat c.toNat d.toNat := by
  obtain ⟨h₀, h₁, h₃, h₂⟩ := weight_products hx hy
  rw [h₀, h₁, h₂, h₃, bilinearSum]

theorem sum_le : bilinearSum 8 xf.toNat yf.toNat a.toNat b.toNat c.toNat d.toNat ≤ 64 * 255 :=
  bilinearSum_le hx.le hy.le (Nat.le_of_lt_succ a.toNat_lt) (Nat.le_of_lt_succ b.toNat_lt)
    (Nat.le_of_lt_succ c.toNat_lt) (Nat.le_of_lt_succ d.toNat_lt)

theorem accumulate_toNat : (accumulate xf yf a b c d).toNat =
    bilinearSum 8 xf.toNat yf.toNat a.toNat b.toNat c.toNat d.toNat := by
  have hle := sum_le hx hy a b c d
  rw [← weights_sum hx hy] at hle ⊢
  simp only [accumulate, UInt16.toNat_add, UInt16.toNat_mul, UInt8.toNat_toUInt16]
  omega

theorem blend_toNat : (blend xf yf a b c d).toNat =
    bilinear 8 xf.toNat yf.toNat a.toNat b.toNat c.toNat d.toNat := by
  have hle := sum_le hx hy a b c d
  have hshift : (accumulate xf yf a b c d >>> 6).toNat = (accumulate xf yf a b c d).toNat / 64 :=
    (UInt16.toNat_shiftRight _ _).trans (Nat.shiftRight_eq_div_pow _ 6)
  rw [blend, UInt16.toNat_toUInt8, hshift, accumulate_toNat hx hy, bilinear]
  omega

theorem blendFits_eq : blendFits xf yf a b c d = [] := by
  have hle := sum_le hx hy a b c d
  rw [blendFits, weights_sum hx hy, fits, if_pos (by omega), fits, if_pos (by omega)]
  rfl

end Blend

/-! ## Coordinates -/

/-- The factor between pictures of `n` and `m` pixels; nine bits are the fraction. -/
def factor (n m : Nat) : Nat := (n - 1) * 512 / m

/-- The coordinate in the input that belongs to `k`, and the fraction of three bits. -/
def position (n m k : Nat) : Nat := k * factor n m / 512

def fraction (n m k : Nat) : Nat := k * factor n m / 64 % 8

theorem fraction_lt (n m k : Nat) : fraction n m k < 8 := Nat.mod_lt _ (by decide)

variable {n m k : Nat}

/-- A coordinate in the output does not lead beyond the last pixel but one. -/
theorem mul_factor_lt (hn : 2 ≤ n) (hk : k < m) :
    k * factor n m < (n - 1) * 512 := by
  have hle : m * factor n m ≤ (n - 1) * 512 := Nat.mul_div_le _ _
  rcases Nat.eq_zero_or_pos (factor n m) with hzero | hpos
  · rw [hzero]
    omega
  · exact lt_of_lt_of_le (Nat.mul_lt_mul_of_pos_right hk hpos) hle

theorem mul_factor_small (hn : n ≤ 65535) (hk : k < m) :
    k * factor n m < 2 ^ 25 := by
  rcases Nat.lt_or_ge n 2 with hsmall | hge
  · have hzero : factor n m = 0 := by
      rw [factor, show n - 1 = 0 by omega, Nat.zero_mul, Nat.zero_div]
    rw [hzero]
    omega
  · have hlt := mul_factor_lt hge hk
    omega

theorem position_lt (hn : 2 ≤ n) (hk : k < m) : position n m k + 1 < n := by
  have hlt := Nat.div_lt_of_lt_mul (Nat.mul_comm _ 512 ▸ mul_factor_lt hn hk)
  rw [position]
  omega

theorem position_mono {k' : Nat} (h : k ≤ k') : position n m k ≤ position n m k' :=
  Nat.div_le_div_right (Nat.mul_le_mul_right _ h)

section Coord

variable {i : UInt16} {resizeFactor : UInt32}

theorem resizeFactor_toNat {idx : UInt16} {codx : UInt32} (hidx : 1 ≤ idx.toNat) :
    (Nv12Resize.resizeFactor idx codx).toNat = factor idx.toNat codx.toNat := by
  have hlt := idx.toNat_lt
  have hsub : (idx.toUInt32 - 1).toNat = idx.toNat - 1 := by
    rw [UInt32.toNat_sub_of_le, UInt16.toNat_toUInt32]
    · rfl
    · rw [UInt32.le_iff_toNat_le, UInt16.toNat_toUInt32]
      exact hidx
  have hshift : ((idx.toUInt32 - 1) <<< 9).toNat = (idx.toNat - 1) * 512 := by
    rw [UInt32.toNat_shiftLeft, hsub]
    change (idx.toNat - 1) <<< 9 % 2 ^ 32 = _
    rw [Nat.shiftLeft_eq]
    omega
  rw [Nv12Resize.resizeFactor, UInt32.toNat_div, hshift, factor]

theorem product_toNat (h : i.toNat * resizeFactor.toNat < 2 ^ 25) :
    (i.toUInt32 * resizeFactor).toNat = i.toNat * resizeFactor.toNat := by
  rw [UInt32.toNat_mul, UInt16.toNat_toUInt32]
  omega

theorem coord_toNat (h : i.toNat * resizeFactor.toNat < 2 ^ 25) :
    (coord i resizeFactor).toNat = i.toNat * resizeFactor.toNat / 512 := by
  have hshift : ((i.toUInt32 * resizeFactor) >>> 9).toNat = i.toNat * resizeFactor.toNat / 512 := by
    rw [UInt32.toNat_shiftRight, product_toNat h]
    exact Nat.shiftRight_eq_div_pow _ 9
  rw [coord, UInt32.toNat_toUInt16, hshift]
  omega

theorem frac_toNat (h : i.toNat * resizeFactor.toNat < 2 ^ 25) :
    (frac i resizeFactor).toNat = i.toNat * resizeFactor.toNat / 64 % 8 := by
  have hshift : ((i.toUInt32 * resizeFactor) >>> 6).toNat = i.toNat * resizeFactor.toNat / 64 := by
    rw [UInt32.toNat_shiftRight, product_toNat h]
    exact Nat.shiftRight_eq_div_pow _ 6
  rw [frac, UInt32.toNat_toUInt16, UInt32.toNat_and, hshift]
  change (i.toNat * resizeFactor.toNat / 64 &&& (2 ^ 3 - 1)) % 2 ^ 16 = _
  rw [Nat.and_two_pow_sub_one_eq_mod]
  omega

theorem coordFits_eq (h : i.toNat * resizeFactor.toNat < 2 ^ 25) :
    coordFits i resizeFactor = [] := by
  rw [coordFits, fits, if_pos (by omega), fits, if_pos (by omega)]
  rfl

end Coord

end Omap4Hal.Camera.Nv12Resize

import Omap4Hal.Syslink.D2CReMap
import Omap4Hal.Tiler.BlockSizes

/- The geometry that is estimated for a remote block. In pages: an allocation of `H` lines whose
   stride is `S` holds a block of `w` by `h`, of which `L = w * h` is known. The width that is
   chosen is the least one at which `L` fits in `H` lines, raised to `S` or `S - 1`
   (`chosenWidth`). It is that of the block if `h` is at most `H`, and lower only by the allowance,
   if the stride is the width or one more, and if the width is below 16 pages, which is all that the
   16-bit parameter of `def_stride` passes on (`d2cReMap_geometry_iff`). -/
namespace Omap4Hal.Syslink.D2CReMap
open Lib
open Omap4Hal.Tiler (TilerFmt TilerBlockInfo TilerBufInfo defBpp defSize pageSize asInt
  tilerMaxNumBlocks strideOf strideOf_toNat defSize_area pageOffset_toNat foldl_defSize)
open UInt32 (ofInt toNat_add toNat_div toNat_inj toNat_mul toNat_sub toNat_toUInt16)

/-! ## Whole numbers -/

/-- The least width at which `L` pages fit in `H` lines, with the sum in 32 bits. -/
def neededWidth (L H : Nat) : Nat := (L + H + 1048575) % 1048576 / H

/-- The driver's stride may be larger than the width by this, but for 8 bits. -/
def slack (fmt : TilerFmt) : Nat := if fmt = .bit8 then 0 else 1

def chosenWidth (L H S slack : Nat) : Nat := max (neededWidth L H) (S - slack)

section Widths

variable {L H a S δ w h : Nat}

theorem neededWidth_le_iff (hH : 0 < H) (hroom : L + H ≤ 1048576) :
    neededWidth L H ≤ w ↔ L ≤ H * w := by
  rw [neededWidth, show (L + H + 1048575) % 1048576 = L + H - 1 by omega,
    Nat.div_le_iff_le_mul_add_pred hH]
  omega

theorem neededWidth_wrapped (hL : L < 1048576) (hH : H < 65536) (hwrap : 1048576 < L + H) :
    neededWidth L H = 0 := by
  rw [neededWidth]
  exact Nat.div_eq_of_lt (by omega)

theorem chosenWidth_eq_zero_iff (hH : 0 < H) (hL : L < 1048576) (hH' : H < 65536) :
    chosenWidth L H S δ = 0 ↔ (L = 0 ∨ 1048576 < L + H) ∧ S ≤ δ := by
  have hneeded : neededWidth L H = 0 ↔ L = 0 ∨ 1048576 < L + H := by
    by_cases hroom : L + H ≤ 1048576
    · have hle := neededWidth_le_iff (w := 0) hH hroom
      omega
    · exact iff_of_true (neededWidth_wrapped hL hH' (by omega)) (Or.inr (by omega))
  rw [chosenWidth, Nat.max_eq_zero_iff, hneeded, Nat.sub_eq_zero_iff_le]

/-- The size that the geometry gives is the length only below 16 pages of width, for a divisor. -/
theorem size_eq_iff (hw : 0 < w) (hle : w ≤ L) :
    L / w % 65536 * (w % 16) = L ↔ w ≤ 15 ∧ ∃ h < 65536, L = w * h := by
  constructor
  · intro hsize
    have hdiv : L / w * w ≤ L := Nat.div_mul_le_self L w
    have hpos : 0 < L / w := Nat.div_pos hle hw
    have hmod : L / w % 65536 ≤ L / w := Nat.mod_le _ _
    have hsmall : w ≤ 15 := by
      by_contra hlarge
      have hlt : w % 16 < w := by omega
      have hless : L / w % 65536 * (w % 16) < L := by
        calc L / w % 65536 * (w % 16) ≤ L / w * (w % 16) := Nat.mul_le_mul_right _ hmod
          _ < L / w * w := Nat.mul_lt_mul_of_pos_left hlt hpos
          _ ≤ L := hdiv
      omega
    rw [Nat.mod_eq_of_lt (show w < 16 by omega)] at hsize
    exact ⟨hsmall, L / w % 65536, Nat.mod_lt _ (by decide), by rw [Nat.mul_comm, hsize]⟩
  · rintro ⟨hsmall, h, hh, rfl⟩
    rw [Nat.mul_div_cancel_left h hw, Nat.mod_eq_of_lt hh, Nat.mod_eq_of_lt (by omega),
      Nat.mul_comm]

/-- A block of `w` by `h` pages in an allocation. -/
structure Geometry (L H a S δ w h : Nat) : Prop where
  area : L = w * h
  width : 1 ≤ w ∧ w ≤ 15
  allowance : a < H
  height : h ≤ H ∧ H ≤ h + a
  stride : S = w + δ ∨ S = w ∧ H * (w - 1) < w * h

theorem Geometry.chosenWidth_eq (hg : Geometry L H a S δ w h) (hH : H < 65536) :
    chosenWidth L H S δ = w := by
  obtain ⟨rfl, ⟨hpos, hsmall⟩, ha, ⟨hle, -⟩, hstride⟩ := hg
  have harea : w * h ≤ 15 * 65535 := Nat.mul_le_mul hsmall (by omega)
  have hneeded : ∀ v, neededWidth (w * h) H ≤ v ↔ w * h ≤ H * v := fun v =>
    neededWidth_le_iff (by omega) (by omega)
  have hfits : neededWidth (w * h) H ≤ w := by
    rw [hneeded, Nat.mul_comm H]
    exact Nat.mul_le_mul_left w hle
  rw [chosenWidth]
  rcases hstride with hS | ⟨hS, hleast⟩
  · omega
  · have hge : ¬ neededWidth (w * h) H ≤ w - 1 := by
      rw [hneeded]
      exact Nat.not_le.mpr hleast
    omega

theorem Geometry.sum_lt (hg : Geometry L H a S δ w h) (hH : H < 65536) : L + H < 1048576 := by
  obtain ⟨rfl, ⟨-, hsmall⟩, -, ⟨hle, -⟩, -⟩ := hg
  have harea : w * h ≤ 15 * 65535 := Nat.mul_le_mul hsmall (by omega)
  omega

theorem chosenWidth_right_iff (hL : L < 1048576) (hH : H < 65536) (hδ : δ ≤ 1) :
    (a < H ∧ chosenWidth L H S δ ≠ 0 ∧ chosenWidth L H S δ ≤ min S (L / (H - a)) ∧
      L / chosenWidth L H S δ % 65536 * (chosenWidth L H S δ % 16) = L) ↔
      ∃ w h, Geometry L H a S δ w h := by
  constructor
  · generalize hw : chosenWidth L H S δ = w
    rintro ⟨ha, hne, hmax, hsize⟩
    have hfits : w * (H - a) ≤ L :=
      (Nat.le_div_iff_mul_le (by omega)).mp (hmax.trans (Nat.min_le_right _ _))
    have hle : w ≤ L := (Nat.le_mul_of_pos_right w (by omega)).trans hfits
    obtain ⟨hsmall, h, hh, rfl⟩ := (size_eq_iff (Nat.pos_of_ne_zero hne) hle).mp hsize
    have harea : w * h ≤ 15 * 65535 := Nat.mul_le_mul hsmall (by omega)
    have hneeded : ∀ v, neededWidth (w * h) H ≤ v ↔ w * h ≤ H * v := fun v =>
      neededWidth_le_iff (by omega) (by omega)
    have hpos : 0 < w := Nat.pos_of_ne_zero hne
    have hS := hmax.trans (Nat.min_le_left _ _)
    rw [chosenWidth] at hw
    refine ⟨w, h, rfl, ⟨hpos, hsmall⟩, ha, ⟨?_, ?_⟩, ?_⟩
    · have hrow := (hneeded w).mp (by omega)
      rw [Nat.mul_comm H] at hrow
      exact Nat.le_of_mul_le_mul_left hrow hpos
    · have hrow := Nat.le_of_mul_le_mul_left hfits hpos
      omega
    · by_cases hstride : S = w + δ
      · exact Or.inl hstride
      · have hleast : ¬ w * h ≤ H * (w - 1) := by
          rw [← hneeded]
          omega
        exact Or.inr ⟨by omega, Nat.lt_of_not_le hleast⟩
  · rintro ⟨w, h, hg⟩
    rw [hg.chosenWidth_eq hH]
    obtain ⟨rfl, ⟨hpos, hsmall⟩, ha, ⟨hle, hge⟩, hstride⟩ := hg
    have hfits : w * (H - a) ≤ w * h := Nat.mul_le_mul_left w (by omega)
    refine ⟨ha, by omega, ?_, ?_⟩
    · exact Nat.le_min.mpr ⟨by omega, (Nat.le_div_iff_mul_le (by omega)).mpr hfits⟩
    · rw [size_eq_iff hpos (Nat.le_mul_of_pos_right w (by omega))]
      exact ⟨hsmall, h, by omega, rfl⟩

end Widths

/-! ## The words -/

section Words

variable {length : UInt32} {b : TilerBlockInfo}

theorem asInt_of_lt {x : UInt32} (hx : x.toNat < 2 ^ 31) : asInt x = x.toNat := by
  apply BitVec.toInt_eq_toNat_of_lt
  change 2 * x.toNat < 2 ^ 32
  omega

theorem asInt_div {x y : UInt32} (hy : 4096 ≤ y.toNat) :
    asInt (x / y) = (x.toNat / y.toNat : Nat) := by
  have hx := x.toNat_lt
  have hle : x.toNat / y.toNat ≤ x.toNat / 4096 := Nat.div_le_div_left hy (by decide)
  have hdiv : (x / y).toNat = x.toNat / y.toNat := toNat_div x y
  rw [asInt_of_lt (by omega), hdiv]

theorem ofInt_toNat {n : Nat} (hn : n < 2 ^ 32) : (ofInt n).toNat = n := by
  have hmod : ((n : Int) % 2 ^ 32).toNat = n := by omega
  rw [ofInt, hmod, UInt32.toNat_ofNat_of_lt' hn]

theorem area_toNat (width height : UInt16) :
    (area width height).toNat = 65536 * height.toNat + width.toNat := by
  have hheight := height.toNat_lt
  have hwidth : width.toNat < 2 ^ 16 := width.toNat_lt
  have hshift : (16 : UInt32).toNat % 32 = 16 := rfl
  rw [area, UInt32.toNat_or, UInt32.toNat_shiftLeft, UInt16.toNat_toUInt32,
    UInt16.toNat_toUInt32, hshift, Nat.shiftLeft_eq, Nat.mod_eq_of_lt (by omega), Nat.mul_comm]
  exact (Nat.two_pow_add_eq_or_of_lt hwidth _).symm

variable {height : UInt16}

theorem area_width {b : TilerBlockInfo} {width : UInt16} (hb : b.dim = area width height) :
    b.width = width := by
  have hwidth := width.toNat_lt
  apply UInt16.toNat_inj.mp
  rw [TilerBlockInfo.width, hb, toNat_toUInt16, area_toNat]
  omega

theorem area_height {b : TilerBlockInfo} {width : UInt16} (hb : b.dim = area width height) :
    b.height = height := by
  have hwidth := width.toNat_lt
  have hheight := height.toNat_lt
  have hshift : (16 : UInt32).toNat % 32 = 16 := rfl
  apply UInt16.toNat_inj.mp
  rw [TilerBlockInfo.height, hb, toNat_toUInt16, UInt32.toNat_shiftRight, hshift, area_toNat,
    Nat.shiftRight_eq_div_pow]
  omega

theorem maxAlloc_toNat (b : TilerBlockInfo) :
    (b.height.toUInt32 * pageSize).toNat = 4096 * b.height.toNat := by
  have hlt := b.height.toNat_lt
  have hpage : pageSize.toNat = 4096 := rfl
  rw [toNat_mul, UInt16.toNat_toUInt32, hpage, Nat.mod_eq_of_lt (by omega), Nat.mul_comm]

theorem allowance_le (fmt : TilerFmt) :
    31 ≤ (allowance fmt).toNat ∧ (allowance fmt).toNat ≤ 63 := by
  cases fmt <;> decide

theorem allowed_toNat (fmt : TilerFmt) :
    (allowance fmt * pageSize).toNat = 4096 * (allowance fmt).toNat := by
  cases fmt <;> rfl

/-- The difference is zero if the height is the allowance, and wraps if it is lower. -/
theorem minAlloc_toNat (b : TilerBlockInfo) :
    (b.height.toUInt32 * pageSize - allowance b.fmt * pageSize).toNat =
      (4294967296 - 4096 * (allowance b.fmt).toNat + 4096 * b.height.toNat) % 4294967296 := by
  rw [toNat_sub, maxAlloc_toNat, allowed_toNat]

theorem strideOf_pages {b : TilerBlockInfo} {w : Nat} {stride : UInt32}
    (hstride : stride.toNat = 4096 * w) (hb : b.dim = area (stride / defBpp b.fmt).toUInt16 height)
    :
    (strideOf b).toNat = 4096 * (w % 16) := by
  have hrow : b.rowBytes % 65536 = 4096 * (w % 16) := by
    rw [TilerBlockInfo.rowBytes, area_width hb, toNat_toUInt16, toNat_div, hstride]
    have hbpp : (defBpp b.fmt).toNat = 1 ∨ (defBpp b.fmt).toNat = 2 ∨ (defBpp b.fmt).toNat = 4 := by
      cases b.fmt <;> decide
    rcases hbpp with hbpp | hbpp | hbpp
    · rw [hbpp]
      omega
    · rw [hbpp]
      omega
    · rw [hbpp]
      omega
  rw [strideOf_toNat, hrow]
  omega

theorem defSize_pages {b : TilerBlockInfo} (hfmt : b.fmt ≠ .page) {w : Nat} {stride : UInt32}
    (hstride : stride.toNat = 4096 * w) (hb : b.dim = area (stride / defBpp b.fmt).toUInt16 height)
    :
    (defSize b).toNat = height.toNat * (4096 * (w % 16)) := by
  rw [defSize_area hfmt, area_height hb, strideOf_pages hstride hb]

end Words

/-! ## The estimation -/

/-- The width that is chosen, in pages. -/
def widthOf (length : UInt32) (b : TilerBlockInfo) : Nat :=
  chosenWidth (length.toNat / 4096) b.height.toNat (b.stride.toNat / 4096) (slack b.fmt)

section Estimation

variable {length : UInt32} {b : TilerBlockInfo}

theorem minPageWidth_eq (hlen : 4096 ∣ length.toNat) (hH : b.height.toNat ≠ 0) :
    asInt ((length + b.height.toUInt32 * pageSize - 1) / (b.height.toUInt32 * pageSize)) =
      neededWidth (length.toNat / 4096) b.height.toNat := by
  have hmax := maxAlloc_toNat b
  have hone : (1 : UInt32).toNat = 1 := rfl
  have hlt := length.toNat_lt
  have hheight := b.height.toNat_lt
  have hsum : (length + b.height.toUInt32 * pageSize - 1).toNat / 4096 =
      (length.toNat / 4096 + b.height.toNat + 1048575) % 1048576 := by
    rw [toNat_sub, toNat_add, hmax, hone]
    omega
  rw [asInt_div (by omega), hmax, ← Nat.div_div_eq_div_mul, hsum, neededWidth]

theorem maxPageWidth_eq (ha : (allowance b.fmt).toNat < b.height.toNat) :
    asInt (length / (b.height.toUInt32 * pageSize - allowance b.fmt * pageSize)) =
      (length.toNat / 4096 / (b.height.toNat - (allowance b.fmt).toNat) : Nat) := by
  have hallowance := allowance_le b.fmt
  have hheight := b.height.toNat_lt
  have hmin : (b.height.toUInt32 * pageSize - allowance b.fmt * pageSize).toNat =
      4096 * (b.height.toNat - (allowance b.fmt).toNat) := by
    rw [minAlloc_toNat]
    omega
  rw [asInt_div (by omega), hmin, ← Nat.div_div_eq_div_mul]

theorem widthOf_lt (length : UInt32) (b : TilerBlockInfo) : widthOf length b < 1048576 := by
  have hstride := b.stride.toNat_lt
  have hneeded : neededWidth (length.toNat / 4096) b.height.toNat < 1048576 :=
    Nat.lt_of_le_of_lt (Nat.div_le_self _ _) (Nat.mod_lt _ (by decide))
  exact Nat.max_lt.mpr ⟨hneeded, by omega⟩

theorem pageWidth_eq (length : UInt32) (b : TilerBlockInfo) :
    (let limit : Int := (b.stride.toNat / 4096 : Nat) - if b.fmt = .bit8 then 0 else 1
     if (neededWidth (length.toNat / 4096) b.height.toNat : Int) < limit then limit
     else neededWidth (length.toNat / 4096) b.height.toNat) = widthOf length b := by
  rw [widthOf, chosenWidth, slack]
  dsimp only
  split <;> split <;> omega

/-- The estimation in whole numbers. -/
structure EstimateOf (length : UInt32) (b : TilerBlockInfo) (e : Estimate) : Prop where
  fmt : e.block.fmt = b.fmt
  minWidth : e.minPageWidth = neededWidth (length.toNat / 4096) b.height.toNat
  width : e.pageWidth = widthOf length b
  maxWidth : (allowance b.fmt).toNat < b.height.toNat → e.maxPageWidth =
    (min (b.stride.toNat / 4096)
      (length.toNat / 4096 / (b.height.toNat - (allowance b.fmt).toNat)) : Nat)
  size : b.fmt ≠ .page → (defSize e.block).toNat =
    length.toNat / 4096 / widthOf length b % 65536 * (4096 * (widthOf length b % 16))

theorem alloc_zero_iff (b : TilerBlockInfo) :
    b.height.toUInt32 * pageSize = 0 ∨
      b.height.toUInt32 * pageSize - allowance b.fmt * pageSize = 0 ↔
      b.height.toNat = 0 ∨ b.height.toNat = (allowance b.fmt).toNat := by
  have hmax := maxAlloc_toNat b
  have hmin := minAlloc_toNat b
  have hallowance := allowance_le b.fmt
  have hheight := b.height.toNat_lt
  have hzero : (0 : UInt32).toNat = 0 := rfl
  rw [← toNat_inj, ← toNat_inj, hmax, hmin, hzero]
  omega

/-- The words of the block are variables here: the kernel would compute with those of an estimate
before it looks at the format. -/
theorem estimated_fmt (b : TilerBlockInfo) (least most width : Int) (dim stride : UInt32) :
    (Estimate.mk least most width { b with dim, stride }).block.fmt = b.fmt := rfl

theorem estimated_size {b : TilerBlockInfo} (hfmt : b.fmt ≠ .page) {dim stride : UInt32} {w : Nat}
    (hstride : stride.toNat = 4096 * w) {height : UInt16}
    (hdim : dim = area (stride / defBpp b.fmt).toUInt16 height) (least most width : Int) :
    (defSize (Estimate.mk least most width { b with dim, stride }).block).toNat =
      height.toNat * (4096 * (w % 16)) :=
  defSize_pages (b := { b with dim, stride }) hfmt hstride hdim

theorem estimate_eq (hlen : 4096 ∣ length.toNat) (hH : b.height.toNat ≠ 0)
    (ha : b.height.toNat ≠ (allowance b.fmt).toNat) :
    (widthOf length b = 0 ∧ estimate length b = none) ∨
      ∃ e, widthOf length b ≠ 0 ∧ estimate length b = some e ∧ EstimateOf length b e := by
  have hpage : pageSize.toNat = 4096 := rfl
  have hnot := mt (alloc_zero_iff b).mp (not_or.mpr ⟨hH, ha⟩)
  have hlimit : asInt (b.stride / pageSize) = (b.stride.toNat / 4096 : Nat) :=
    asInt_div (Nat.le_of_eq hpage.symm)
  have hwidth := pageWidth_eq length b
  have hlt := widthOf_lt length b
  dsimp only at hwidth
  rw [estimate, if_neg hnot]
  dsimp only
  rw [minPageWidth_eq hlen hH, hlimit, hwidth]
  by_cases hzero : widthOf length b = 0
  · rw [hzero]
    exact Or.inl ⟨rfl, if_pos rfl⟩
  · have hne : ¬ (widthOf length b : Int) = 0 := by omega
    rw [if_neg hne]
    refine Or.inr ⟨_, hzero, rfl, estimated_fmt b _ _ _ _ _, rfl, rfl, ?_, ?_⟩
    · intro hallowed
      dsimp only
      rw [maxPageWidth_eq hallowed]
      rcases Nat.le_total (b.stride.toNat / 4096)
        (length.toNat / 4096 / (b.height.toNat - (allowance b.fmt).toNat)) with hle | hle
      · rw [Nat.min_eq_left hle]
        split <;> omega
      · rw [Nat.min_eq_right hle]
        split <;> omega
    · intro hfmt
      have hword := ofInt_toNat (show widthOf length b < 2 ^ 32 by omega)
      have hstride : (pageSize * ofInt (widthOf length b)).toNat =
          4096 * widthOf length b := by
        rw [toNat_mul, hpage, hword, Nat.mod_eq_of_lt (by omega)]
      have hheight : (length / pageSize / ofInt (widthOf length b)).toUInt16.toNat =
          length.toNat / 4096 / widthOf length b % 65536 := by
        rw [toNat_toUInt16, toNat_div, toNat_div, hpage, hword]
      rw [← hheight]
      exact estimated_size hfmt hstride rfl _ _ _

/-- The inputs at which the estimation divides by zero: allocations without lines or with as many as
are allowed for, and those that give no width, because the length is zero or its sum with the lines
wraps and the stride is no larger than the slack. -/
def DividesByZero (length : UInt32) (b : TilerBlockInfo) : Prop :=
  b.height.toNat = 0 ∨ b.height.toNat = (allowance b.fmt).toNat ∨
    (length.toNat / 4096 = 0 ∨ 1048576 < length.toNat / 4096 + b.height.toNat) ∧
      b.stride.toNat / 4096 ≤ slack b.fmt

theorem estimate_none_iff (hlen : 4096 ∣ length.toNat) :
    estimate length b = none ↔ DividesByZero length b := by
  have hlt := length.toNat_lt
  have hheight := b.height.toNat_lt
  by_cases hzero : b.height.toNat = 0 ∨ b.height.toNat = (allowance b.fmt).toNat
  · refine iff_of_true (if_pos ((alloc_zero_iff b).mpr hzero)) ?_
    exact hzero.elim Or.inl fun h => Or.inr (Or.inl h)
  · obtain ⟨hH, ha⟩ := not_or.mp hzero
    have hwidth : widthOf length b = 0 ↔ DividesByZero length b := by
      rw [widthOf, chosenWidth_eq_zero_iff (Nat.pos_of_ne_zero hH) (by omega) (by omega),
        DividesByZero, or_iff_right hH, or_iff_right ha]
    rw [← hwidth]
    rcases estimate_eq hlen hH ha with ⟨hw, hnone⟩ | ⟨e, hw, hsome, -⟩
    · exact iff_of_true hnone hw
    · refine iff_of_false ?_ hw
      rw [hsome]
      exact Option.some_ne_none e

/-- The estimation of a 2D block: no unsigned difference wraps, the width that is chosen is between
the bounds, and the block has the length. -/
structure GoodEstimate (length : UInt32) (b : TilerBlockInfo) (e : Estimate) : Prop where
  noUnderflow : 0 < (length + b.height.toUInt32 * pageSize).toNat ∧
    (allowance b.fmt * pageSize).toNat ≤ (b.height.toUInt32 * pageSize).toNat
  between : e.minPageWidth ≤ e.pageWidth ∧ e.pageWidth ≤ e.maxPageWidth
  size : defSize e.block = length

/-- The condition: the length is that of a block of a width and a height in pages, with the
allocation that the driver describes. -/
def Fits (length : UInt32) (b : TilerBlockInfo) : Prop :=
  ∃ w h, Geometry (length.toNat / 4096) b.height.toNat (allowance b.fmt).toNat
    (b.stride.toNat / 4096) (slack b.fmt) w h

theorem slack_le (fmt : TilerFmt) : slack fmt ≤ 1 := by
  cases fmt <;> decide

theorem goodEstimate_iff (hlen : 4096 ∣ length.toNat) (hfmt : b.fmt ≠ .page) :
    (∃ e, estimate length b = some e ∧ GoodEstimate length b e) ↔ Fits length b := by
  have hlt := length.toNat_lt
  have hheight := b.height.toNat_lt
  have hallowance := allowance_le b.fmt
  have hallowed := allowed_toNat b.fmt
  have hmax := maxAlloc_toNat b
  have hiff := chosenWidth_right_iff (a := (allowance b.fmt).toNat) (S := b.stride.toNat / 4096)
    (show length.toNat / 4096 < 1048576 by omega) hheight (slack_le b.fmt)
  rw [← widthOf] at hiff
  constructor
  · rintro ⟨e, he, ⟨-, hunder⟩, ⟨-, hbelow⟩, hsize⟩
    apply hiff.mp
    have hdivides : ¬ DividesByZero length b := fun hzero => by
      rw [(estimate_none_iff hlen).mpr hzero] at he
      cases he
    obtain ⟨hH, hdivides⟩ := not_or.mp hdivides
    obtain ⟨ha, -⟩ := not_or.mp hdivides
    rcases estimate_eq hlen hH ha with ⟨-, hnone⟩ | ⟨e', hw, hsome, hof⟩
    · rw [he] at hnone
      cases hnone
    · cases he.symm.trans hsome
      have hlow : (allowance b.fmt).toNat < b.height.toNat := by omega
      have harea := hof.size hfmt
      rw [hof.width, hof.maxWidth hlow, Int.ofNat_le] at hbelow
      rw [hsize, Nat.mul_left_comm] at harea
      exact ⟨hlow, hw, hbelow, by omega⟩
  · rintro ⟨w, h, hg⟩
    have hsum := hg.sum_lt hheight
    obtain ⟨hlow, hw, hbelow, harea⟩ := hiff.mpr ⟨w, h, hg⟩
    have hfirst : 0 < (length + b.height.toUInt32 * pageSize).toNat := by
      rw [toNat_add, hmax, Nat.mod_eq_of_lt (by omega)]
      omega
    rcases estimate_eq hlen (by omega) (Nat.ne_of_gt hlow) with ⟨hzero, -⟩ | ⟨e, -, he, hof⟩
    · exact absurd hzero hw
    · refine ⟨e, he, ⟨hfirst, by omega⟩, ⟨?_, ?_⟩, ?_⟩
      · rw [hof.minWidth, hof.width, Int.ofNat_le]
        exact Nat.le_max_left _ _
      · rw [hof.width, hof.maxWidth hlow, Int.ofNat_le]
        exact hbelow
      · apply toNat_inj.mp
        rw [hof.size hfmt, Nat.mul_left_comm, harea]
        omega

end Estimation

/-! ## The blocks -/

/-- A 2D block at which the loop divides by zero. -/
def RemoteBlock.Traps (q : RemoteBlock) : Prop :=
  q.queried.fmt ≠ .page ∧ DividesByZero q.length q.queried

def RemoteBlock.Estimated (q : RemoteBlock) : Prop :=
  q.queried.fmt ≠ .page →
    ∃ e, estimate q.length q.queried = some e ∧ GoodEstimate q.length q.queried e

def RemoteBlock.Fitting (q : RemoteBlock) : Prop :=
  q.queried.fmt ≠ .page → Fits q.length q.queried

section Blocks

variable {q : RemoteBlock} {b : TilerBlockInfo}

theorem RemoteBlock.Usable.pages (h : q.Usable) : 4096 ∣ q.length.toNat := by
  have hoffset := pageOffset_toNat q.length
  rw [h.1] at hoffset
  exact Nat.dvd_of_mod_eq_zero hoffset.symm

theorem RemoteBlock.Usable.estimated_iff (h : q.Usable) : q.Estimated ↔ q.Fitting :=
  forall_congr' fun hfmt => goodEstimate_iff h.pages hfmt

theorem remapBlock_cases (q : RemoteBlock) :
    (¬ q.Usable ∧ remapBlock q = .failure) ∨ (q.Usable ∧ q.Traps ∧ remapBlock q = .divZero) ∨
      ∃ b, q.Usable ∧ ¬ q.Traps ∧ remapBlock q = .ok b := by
  rw [remapBlock]
  by_cases husable : q.Usable
  · rw [if_pos husable]
    by_cases hfmt : q.queried.fmt = .page
    · rw [if_pos hfmt]
      exact Or.inr (Or.inr ⟨_, husable, fun htraps => htraps.1 hfmt, rfl⟩)
    · rw [if_neg hfmt]
      have hnone := estimate_none_iff (b := q.queried) husable.pages
      cases he : estimate q.length q.queried with
      | none => exact Or.inr (Or.inl ⟨husable, ⟨hfmt, hnone.mp he⟩, rfl⟩)
      | some e =>
        refine Or.inr (Or.inr ⟨_, husable, fun htraps => ?_, rfl⟩)
        rw [hnone.mpr htraps.2] at he
        cases he
  · exact Or.inl ⟨husable, if_neg husable⟩

theorem remapBlock_size (h : remapBlock q = .ok b) (hest : q.Estimated) :
    defSize b = q.length := by
  rw [remapBlock] at h
  split at h
  · split at h
    next hfmt =>
      cases h
      exact if_pos hfmt
    next hfmt =>
      obtain ⟨e, he, hgood⟩ := hest hfmt
      rw [he] at h
      cases h
      exact hgood.size
  · cases h

/-- The blocks before the first one that is not usable. -/
def reached (qs : List RemoteBlock) : List RemoteBlock := qs.takeWhile fun q => decide q.Usable

theorem reached_cons_of_usable (h : q.Usable) (qs : List RemoteBlock) :
    reached (q :: qs) = q :: reached qs :=
  List.takeWhile_cons_of_pos (decide_eq_true h)

theorem reached_cons_of_not (h : ¬ q.Usable) (qs : List RemoteBlock) : reached (q :: qs) = [] :=
  List.takeWhile_cons_of_neg (by simpa using h)

theorem remapBlocks_cases (qs : List RemoteBlock) (blocks : List TilerBlockInfo) (size : UInt32) :
    ((∃ q ∈ reached qs, q.Traps) ∧ remapBlocks qs blocks size = .divZero) ∨
      ((∀ q ∈ reached qs, ¬ q.Traps) ∧ (∃ q ∈ qs, ¬ q.Usable) ∧
        remapBlocks qs blocks size = .failure) ∨
      ∃ bs, (∀ q ∈ reached qs, ¬ q.Traps) ∧ (∀ q ∈ qs, q.Usable) ∧
        List.Forall₂ (fun q b => remapBlock q = .ok b) qs bs ∧
        remapBlocks qs blocks size =
          .ok (blocks ++ bs, bs.foldl (fun size b => size + defSize b) size) := by
  induction qs generalizing blocks size with
  | nil =>
    refine Or.inr (Or.inr ⟨[], nofun, nofun, .nil, ?_⟩)
    rw [remapBlocks, List.append_nil, List.foldl_nil]
  | cons q qs ih =>
    rw [remapBlocks]
    rcases remapBlock_cases q with ⟨hnot, hq⟩ | ⟨husable, htraps, hq⟩ | ⟨b, husable, hgood, hq⟩
    · rw [hq, reached_cons_of_not hnot]
      exact Or.inr (Or.inl ⟨nofun, ⟨q, List.mem_cons_self, hnot⟩, rfl⟩)
    · rw [hq, reached_cons_of_usable husable]
      exact Or.inl ⟨⟨q, List.mem_cons_self, htraps⟩, rfl⟩
    · rw [hq, reached_cons_of_usable husable]
      rcases ih (blocks ++ [b]) (size + defSize b) with
        ⟨⟨q', hmem, htraps⟩, hrest⟩ | ⟨hnone, ⟨q', hmem, hnot⟩, hrest⟩ |
        ⟨bs, hnone, hall, hblocks, hrest⟩
      · exact Or.inl ⟨⟨q', List.mem_cons_of_mem q hmem, htraps⟩, hrest⟩
      · exact Or.inr (Or.inl ⟨List.forall_mem_cons.mpr ⟨hgood, hnone⟩,
          ⟨q', List.mem_cons_of_mem q hmem, hnot⟩, hrest⟩)
      · refine Or.inr (Or.inr ⟨b :: bs, List.forall_mem_cons.mpr ⟨hgood, hnone⟩,
          List.forall_mem_cons.mpr ⟨husable, hall⟩, .cons hq hblocks, ?_⟩)
        rw [List.foldl_cons, List.append_cons]
        exact hrest

def lengthSum (qs : List RemoteBlock) : Nat := wholeSize (fun q => q.length.toNat) qs

theorem bytes_eq_lengthSum {qs : List RemoteBlock} {bs : List TilerBlockInfo}
    (hblocks : List.Forall₂ (fun q b => remapBlock q = .ok b) qs bs)
    (hest : ∀ q ∈ qs, q.Estimated) : wholeSize TilerBlockInfo.bytes bs = lengthSum qs := by
  rw [lengthSum]
  induction hblocks with
  | nil => rfl
  | @cons q b qs bs hq _ ih =>
    obtain ⟨hfirst, hrest⟩ := List.forall_mem_cons.mp hest
    rw [wholeSize_cons, wholeSize_cons, ih hrest, TilerBlockInfo.bytes, remapBlock_size hq hfirst]

end Blocks

/-! ## The call -/

/-- The call gets to its blocks. -/
structure Starts (a : RemapArgs) (e : RemapEnv) : Prop where
  count : 0 < a.numBlocks ∧ a.numBlocks ≤ tilerMaxNumBlocks
  opened : 0 ≤ e.openRet

/-- SysLink, the driver and the kernel accept the call, so that it returns a pointer unless it
divides by zero. -/
structure Completes (a : RemapArgs) (e : RemapEnv) : Prop where
  starts : Starts a e
  usable : ∀ q ∈ a.work, q.Usable
  registered : e.rbufRet = 0 ∧ e.rbufOut.offset ≠ 0
  mapped : ∃ addr, e.mmapRet = some addr ∧ e.bufPtr addr ≠ 0

/-- The call returns, and a pointer only if every 2D block is estimated well and the size that is
mapped is the sum of the lengths. -/
def RemapRight (bufs : List ReMapData) (a : RemapArgs) (e : RemapEnv) : Prop :=
  ∃ r, d2cReMap bufs a e = some r ∧
    (r.ret = 0 ∨ (∀ q ∈ a.work, q.Estimated) ∧ r.size.toNat = lengthSum a.work)

section Call

variable {bufs : List ReMapData} {a : RemapArgs} {e : RemapEnv}

theorem starts_iff :
    Starts a e ↔ ¬ (a.numBlocks ≤ 0 ∨ tilerMaxNumBlocks < a.numBlocks ∨ e.openRet < 0) := by
  rw [not_or, not_or, Int.not_le, Int.not_lt, Int.not_lt]
  exact ⟨fun h => ⟨h.count.1, h.count.2, h.opened⟩, fun ⟨hpos, hle, hopen⟩ => ⟨⟨hpos, hle⟩, hopen⟩⟩

theorem d2cReMap_of_not_starts (h : ¬ Starts a e) :
    d2cReMap bufs a e = some { ret := 0, bufs } := by
  rw [d2cReMap, if_pos (not_not.mp (mt starts_iff.mpr h))]

/-- After the loop, a pointer is returned if the call completes, and the size is that of the
loop. -/
theorem Starts.d2cReMap_ok (bufs : List ReMapData) (h : Starts a e)
    (husable : ∀ q ∈ a.work, q.Usable) {blocks : List TilerBlockInfo} {size : UInt32}
    (hblocks : remapBlocks a.work [] 0 = .ok (blocks, size)) :
    ∃ r, d2cReMap bufs a e = some r ∧ (r.ret = 0 ∧ ¬ Completes a e ∨
      r.ret ≠ 0 ∧ Completes a e ∧ r.size = size) := by
  rw [d2cReMap, if_neg (starts_iff.mp h), hblocks]
  dsimp only
  split
  next hreg =>
    refine ⟨_, rfl, Or.inl ⟨rfl, fun hc => ?_⟩⟩
    exact hreg.elim (· hc.registered.1) hc.registered.2
  next hreg =>
    obtain ⟨hret, hoffset⟩ := not_or.mp hreg
    split
    next hmmap =>
      refine ⟨_, rfl, Or.inl ⟨rfl, fun hc => ?_⟩⟩
      obtain ⟨addr, haddr, -⟩ := hc.mapped
      rw [hmmap] at haddr
      cases haddr
    next addr hmmap =>
      by_cases hptr : e.bufPtr addr = 0
      · rw [if_pos (Or.inl hptr)]
        refine ⟨_, rfl, Or.inl ⟨hptr, fun hc => ?_⟩⟩
        obtain ⟨addr', haddr, hne⟩ := hc.mapped
        cases hmmap.symm.trans haddr
        exact hne hptr
      · have hc : Completes a e := ⟨h, husable, ⟨not_not.mp hret, hoffset⟩, addr, hmmap, hptr⟩
        split
        · exact ⟨_, rfl, Or.inr ⟨hptr, hc, rfl⟩⟩
        · exact ⟨_, rfl, Or.inr ⟨hptr, hc, rfl⟩⟩

/-- The condition under which the call is right. A call that fails after its blocks does so only if
none of them divides by zero; the blocks of a call that completes fit, and their lengths add up to
less than 4 GiB. -/
theorem d2cReMap_geometry_iff (bufs : List ReMapData) (a : RemapArgs) (e : RemapEnv) :
    RemapRight bufs a e ↔
      (Starts a e → ∀ q ∈ reached a.work, ¬ q.Traps) ∧
      (Completes a e → (∀ q ∈ a.work, q.Fitting) ∧ lengthSum a.work < 2 ^ 32) := by
  by_cases hstarts : Starts a e
  · rw [forall_prop_of_true hstarts]
    rcases remapBlocks_cases a.work [] 0 with
      ⟨⟨q, hq, htraps⟩, hloop⟩ | ⟨hnone, ⟨q, hq, hnot⟩, hloop⟩ | ⟨bs, hnone, hall, hblocks, hloop⟩
    · refine iff_of_false ?_ fun hcond => hcond.1 q hq htraps
      rintro ⟨r, hr, -⟩
      rw [d2cReMap, if_neg (starts_iff.mp hstarts), hloop] at hr
      cases hr
    · refine iff_of_true ⟨{ ret := 0, bufs }, ?_, Or.inl rfl⟩ ⟨hnone, fun hc => ?_⟩
      · rw [d2cReMap, if_neg (starts_iff.mp hstarts), hloop]
      · exact absurd (hc.usable q hq) hnot
    · obtain ⟨r, hr, hret⟩ := hstarts.d2cReMap_ok bufs hall hloop
      have hfitting : (∀ q ∈ a.work, q.Estimated) ↔ ∀ q ∈ a.work, q.Fitting :=
        forall₂_congr fun q hq => (hall q hq).estimated_iff
      rcases hret with ⟨hzero, hnot⟩ | ⟨hne, hc, hsize⟩
      · exact iff_of_true ⟨r, hr, Or.inl hzero⟩ ⟨hnone, fun hc => absurd hc hnot⟩
      · have hsum : (∀ q ∈ a.work, q.Estimated) →
            r.size.toNat = lengthSum a.work % 2 ^ 32 := fun hest => by
          rw [hsize, foldl_defSize, bytes_eq_lengthSum hblocks hest]
          exact congrArg (· % 2 ^ 32) (Nat.zero_add _)
        constructor
        · rintro ⟨r', hr', hright⟩
          cases hr.symm.trans hr'
          obtain ⟨hest, hlengths⟩ := hright.resolve_left hne
          refine ⟨hnone, fun _ => ⟨hfitting.mp hest, ?_⟩⟩
          rw [← hlengths]
          exact r.size.toNat_lt
        · rintro ⟨-, hcond⟩
          obtain ⟨hfit, hlt⟩ := hcond hc
          have hest := hfitting.mpr hfit
          refine ⟨r, hr, Or.inr ⟨hest, ?_⟩⟩
          rw [hsum hest, Nat.mod_eq_of_lt hlt]
  · refine iff_of_true ⟨_, d2cReMap_of_not_starts hstarts, Or.inl rfl⟩ ⟨?_, fun hc => ?_⟩
    · exact fun h => absurd h hstarts
    · exact absurd hc.starts hstarts

end Call

/-- 301 pages, in an allocation of 192 lines whose stride is two pages. -/
def oddBlock : RemoteBlock :=
  { length := 0x12D000, virtRet := 1, ssptr := 0x60000000, queryRet := 0
    queried :=
      { fmt := .bit8, dim := area 0 192, stride := 0x2000, ptr := 0, ssptr := 0x60000000 } }

def oddArgs : RemapArgs := ⟨1, [oddBlock], by decide⟩

def oddEnv : RemapEnv :=
  { openRet := 3, rbufRet := 0, rbufOut := ⟨[oddBlock.queried], 0x1000⟩
    mmapRet := some 0x40000000, callocOk := true }

/-- It is estimated as 2 by 150 pages, and the call returns a pointer to 300 of them. -/
theorem oddBlock_short :
    (d2cReMap [] oddArgs oddEnv).map (fun r => (r.ret, r.size)) =
        some (0x40000000, 300 * pageSize) ∧
      ¬ RemapRight [] oddArgs oddEnv := by
  have hcall : (d2cReMap [] oddArgs oddEnv).map (fun r => (r.ret, r.size)) =
      some (0x40000000, 300 * pageSize) := by decide
  refine ⟨hcall, ?_⟩
  rintro ⟨r, hr, hright⟩
  rw [hr, Option.map_some] at hcall
  obtain ⟨hret, hsize⟩ := Prod.mk.inj (Option.some.inj hcall)
  rcases hright with hzero | ⟨-, hsum⟩
  · rw [hret] at hzero
    exact absurd hzero (by decide)
  · rw [hsize] at hsum
    exact absurd hsum (by decide)

end Omap4Hal.Syslink.D2CReMap

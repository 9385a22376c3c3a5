import Omap4Hal.Lib.Tiling
import Omap4Hal.Lib.WordBits
import Omap4Hal.Tiler.MemMgr

/- The sizes of blocks. The bytes of a row pass through the parameter of `def_stride`, which is a
   number of pixels and has 16 bits: a row of 64 KiB or more has a stride that is too small. The
   size of an accepted block is otherwise exact, and that of an array if it is below 4 GiB
   (`block_sizes_iff`). -/
namespace Omap4Hal.Tiler
open Lib

/-! ## Pages -/

theorem pageStart_toNat (x : UInt32) :
    (x &&& ~~~(pageSize - 1)).toNat = x.toNat / 4096 * 4096 :=
  toNat_clearLowMask x.toBitVec (n := 12) (by decide)

theorem pageOffset_toNat (x : UInt32) : (x &&& (pageSize - 1)).toNat = x.toNat % 4096 := by
  rw [UInt32.toNat_and]
  exact Nat.and_two_pow_sub_one_eq_mod x.toNat 12

theorem asInt_pageOffset (x : UInt32) : asInt (x &&& (pageSize - 1)) = (x.toNat % 4096 : Nat) := by
  have hoffset := pageOffset_toNat x
  rw [← hoffset]
  apply BitVec.toInt_eq_toNat_of_lt
  change 2 * (x &&& (pageSize - 1)).toNat < _
  omega

/-! ## Blocks -/

def TilerBlockInfo.rowBytes (b : TilerBlockInfo) : Nat := b.width.toNat * (defBpp b.fmt).toNat

theorem defBpp_le (fmt : TilerFmt) : 1 ≤ (defBpp fmt).toNat ∧ (defBpp fmt).toNat ≤ 4 := by
  cases fmt <;> decide

theorem defStride_toNat (width : UInt16) :
    (defStride width).toNat = (4095 + width.toNat) / 4096 * 4096 := by
  have hlt := width.toNat_lt
  have hpage : (pageSize - 1).toNat = 4095 := rfl
  rw [defStride, pageStart_toNat, UInt32.toNat_add, hpage, UInt16.toNat_toUInt32,
    Nat.mod_eq_of_lt (by omega)]

theorem strideOf_toNat (b : TilerBlockInfo) :
    (strideOf b).toNat = (4095 + b.rowBytes % 65536) / 4096 * 4096 := by
  have hrow : (b.width.toUInt32 * defBpp b.fmt).toNat = b.rowBytes := by
    have hbpp := (defBpp_le b.fmt).2
    have hle : b.width.toNat * (defBpp b.fmt).toNat ≤ 65535 * 4 :=
      Nat.mul_le_mul (Nat.le_of_lt_succ b.width.toNat_lt) hbpp
    rw [UInt32.toNat_mul, UInt16.toNat_toUInt32, TilerBlockInfo.rowBytes,
      Nat.mod_eq_of_lt (by omega)]
  rw [strideOf, defStride_toNat, UInt32.toNat_toUInt16, hrow]

variable {b : TilerBlockInfo}

theorem defSize_area (hfmt : b.fmt ≠ .page) :
    (defSize b).toNat = b.height.toNat * (strideOf b).toNat := by
  have hstride : (strideOf b).toNat ≤ 65536 := by
    rw [strideOf_toNat]
    omega
  have hle : b.height.toNat * (strideOf b).toNat ≤ 65535 * 65536 :=
    Nat.mul_le_mul (Nat.le_of_lt_succ b.height.toNat_lt) hstride
  rw [defSize, if_neg hfmt, UInt32.toNat_mul, UInt16.toNat_toUInt32, Nat.mod_eq_of_lt (by omega)]

/-- What `check_block` accepts. -/
structure Accepted (b : TilerBlockInfo) (isPageSized : Bool) : Prop where
  len : b.fmt = .page → b.len ≠ 0
  area : b.fmt ≠ .page → b.width ≠ 0 ∧ b.height ≠ 0
  pages : isPageSized = true → 4096 ∣ (defSize b).toNat

theorem checkBlock_accepted {isPageSized : Bool} (h : checkBlock b isPageSized = errNone) :
    Accepted b isPageSized := by
  rw [checkBlock] at h
  split at h
  next => cases h
  split at h
  next => cases h
  next hpage =>
    split at h
    next => cases h
    next harea =>
      split at h
      next => cases h
      next hsized =>
        refine ⟨fun hfmt hlen => ?_, fun hfmt => ⟨fun hwidth => ?_, fun hheight => ?_⟩, ?_⟩
        · exact hpage ⟨hfmt, Or.inl (hlen ▸ Int.le_refl 0)⟩
        · exact harea ⟨hfmt, Or.inl hwidth⟩
        · exact harea ⟨hfmt, Or.inr (Or.inl hheight)⟩
        · intro hsizes
          rw [asInt_pageOffset] at hsized
          by_contra hdvd
          exact hsized ⟨hsizes, fun hmod => hdvd (Nat.dvd_of_mod_eq_zero (by omega))⟩

/-- The size of a block is that of its length, or of its rows with a stride of whole pages. -/
structure RightSize (b : TilerBlockInfo) : Prop where
  nonzero : defSize b ≠ 0
  len : b.fmt = .page → defSize b = b.len
  stride : b.fmt ≠ .page → pageSize.toNat ∣ (strideOf b).toNat ∧ b.rowBytes ≤ (strideOf b).toNat
  area : b.fmt ≠ .page → (defSize b).toNat = b.height.toNat * (strideOf b).toNat

theorem rightSize_iff {isPageSized : Bool} (h : Accepted b isPageSized) :
    RightSize b ↔ b.fmt = .page ∨ b.rowBytes < 2 ^ 16 := by
  have hstride := strideOf_toNat b
  constructor
  · intro hright
    by_cases hfmt : b.fmt = .page
    · exact Or.inl hfmt
    · have hle := (hright.stride hfmt).2
      exact Or.inr (by omega)
  · intro hnarrow
    by_cases hfmt : b.fmt = .page
    · have hsize : defSize b = b.len := if_pos hfmt
      exact ⟨hsize ▸ h.len hfmt, fun _ => hsize, (absurd hfmt ·), (absurd hfmt ·)⟩
    · obtain ⟨hwidth, hheight⟩ := h.area hfmt
      have hrow := hnarrow.resolve_left hfmt
      have hpos : 0 < b.rowBytes :=
        Nat.mul_pos (Nat.pos_of_ne_zero fun hz => hwidth (UInt16.toNat_inj.mp hz))
          (defBpp_le b.fmt).1
      have hheight' : 0 < b.height.toNat :=
        Nat.pos_of_ne_zero fun hz => hheight (UInt16.toNat_inj.mp hz)
      have harea := defSize_area hfmt
      refine ⟨fun hzero => ?_, (absurd · hfmt), fun _ => ⟨?_, by omega⟩, fun _ => harea⟩
      · have hsize : 0 < b.height.toNat * (strideOf b).toNat := Nat.mul_pos hheight' (by omega)
        rw [← harea, hzero] at hsize
        exact Nat.lt_irrefl 0 hsize
      · rw [hstride]
        exact Nat.dvd_mul_left _ _

/-! ## Arrays -/

/-- The size of a block as a number. -/
def TilerBlockInfo.bytes (b : TilerBlockInfo) : Nat := (defSize b).toNat

theorem foldl_defSize (blks : List TilerBlockInfo) (size : UInt32) :
    (blks.foldl (fun size b => size + defSize b) size).toNat =
      (size.toNat + wholeSize TilerBlockInfo.bytes blks) % 2 ^ 32 := by
  induction blks generalizing size with
  | nil => exact (Nat.mod_eq_of_lt size.toNat_lt).symm
  | cons b blks ih =>
    rw [List.foldl_cons, ih, UInt32.toNat_add, Nat.mod_add_mod, wholeSize_cons, Nat.add_assoc,
      TilerBlockInfo.bytes]

theorem tilerSize_toNat (blks : List TilerBlockInfo) :
    (tilerSize blks).toNat = wholeSize TilerBlockInfo.bytes blks % 2 ^ 32 := by
  rw [tilerSize, foldl_defSize]
  exact congrArg (· % 2 ^ 32) (Nat.zero_add _)

theorem checkBlocksFrom_ok {k : Int} {ix : Nat} {blks : List TilerBlockInfo}
    (h : checkBlocksFrom k ix blks = errNone) {i : Nat} (hb : blks[i]? = some b) :
    checkBlock b (decide (((ix + i : Nat) : Int) < k)) = errNone := by
  induction blks generalizing ix i with
  | nil => cases hb
  | cons c blks ih =>
    rw [checkBlocksFrom] at h
    split at h
    next hret => exact absurd h hret
    next hret =>
      cases i with
      | zero =>
        cases hb
        exact not_not.mp hret
      | succ i =>
        have hrest := ih h hb
        rwa [Nat.add_right_comm] at hrest

/-- Accepted blocks have the right sizes if their rows have fewer than 64 KiB, and accepted arrays
if they have fewer than 4 GiB. -/
theorem block_sizes_iff (b : TilerBlockInfo) (isPageSized : Bool) (blks : List TilerBlockInfo)
    (numBlocks numPagesizeBlocks : Int) :
    (checkBlock b isPageSized = errNone →
      (RightSize b ↔ b.fmt = .page ∨ b.rowBytes < 2 ^ 16)) ∧
    (checkBlocks blks numBlocks numPagesizeBlocks = errNone →
      ((tilerSize blks).toNat = wholeSize TilerBlockInfo.bytes blks ↔
        wholeSize TilerBlockInfo.bytes blks < 2 ^ 32)) := by
  constructor
  · intro h
    exact rightSize_iff (checkBlock_accepted h)
  · intro _
    rw [tilerSize_toNat]
    constructor
    · intro hexact
      rw [← hexact]
      exact Nat.mod_lt _ (by decide)
    · exact Nat.mod_eq_of_lt

/-- A row of 32768 pixels of 16 bits. -/
def wideBlock : TilerBlockInfo :=
  { fmt := .bit16, dim := 0x18000, stride := 0, ptr := 0, ssptr := 0 }

theorem block_sizes_iff_wide :
    (RightSize wideBlock ↔ wideBlock.fmt = .page ∨ wideBlock.rowBytes < 2 ^ 16) ∧
      ((tilerSize [wideBlock]).toNat = wholeSize TilerBlockInfo.bytes [wideBlock] ↔
        wholeSize TilerBlockInfo.bytes [wideBlock] < 2 ^ 32) :=
  ⟨(block_sizes_iff wideBlock true [wideBlock] 1 0).1 (by decide),
    (block_sizes_iff wideBlock true [wideBlock] 1 0).2 (by decide)⟩

/-- It is accepted as a block of whole pages, and has the size 0. -/
theorem wideBlock_not_right :
    ¬ ∀ b isPageSized, checkBlock b isPageSized = errNone → RightSize b := by
  intro hall
  exact (hall wideBlock true (by decide)).nonzero (by decide)

end Omap4Hal.Tiler

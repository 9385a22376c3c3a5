import Omap4Hal.Camera.Nv12Planes
import Omap4Hal.Lib.RowMajor

/- Which bytes the resizing reads and writes when the strides are the widths and nothing is cropped.
   The luma samples are always inside their plane. The chroma plane has half as many rows and
   columns, but its coordinates come from the factors of the whole picture, and half the output
   may lead to the last row or column, which has no neighbour (`resizeFrame_inside`). -/
namespace Omap4Hal.Camera.Nv12Resize

open Lib
open Rect

/-- The widths and heights considered. -/
structure EvenSize (n : Nat) : Prop where
  ge : 2 ≤ n
  le : n ≤ 65534
  even : 2 ∣ n

/-- The sizes of the input and the output. -/
structure Sizes (W H W' H' : Nat) : Prop where
  width : EvenSize W
  height : EvenSize H
  width' : EvenSize W'
  height' : EvenSize H'

/-- A picture whose rows follow each other without a gap. -/
def picture (W H : Nat) : ConvImage :=
  { uWidth := Int32.ofNat W, uHeight := Int32.ofNat H, uStride := Int32.ofNat W }

/-- The number of bytes of a plane. -/
def planeSize (W H : Nat) : Plane → Nat
  | .luma => W * H
  | .chroma => W * (H / 2)

/-- The run stays inside the planes, writes every byte of the output once and computes without a
value that wraps. -/
structure Inside (W H W' H' : Nat) (log : List Event) : Prop where
  reads : ∀ p, ∀ offset : Int, .read p offset ∈ log → 0 ≤ offset ∧ offset < planeSize W H p
  writes : ∀ p, ∀ offset : Int, ((written p log).map Prod.fst).count offset =
    if 0 ≤ offset ∧ offset < planeSize W' H' p then 1 else 0
  exact : .wrap ∉ log

/-! ## The setup -/

section Setup

variable {W H W' H' : Nat}

theorem EvenSize.toInt {n : Nat} (h : EvenSize n) : (Int32.ofNat n).toInt = n := by
  have hle := h.le
  exact Int32.toInt_ofNat_of_lt (by omega)

theorem EvenSize.toUInt32 {n : Nat} (h : EvenSize n) : (Int32.ofNat n).toUInt32.toNat = n := by
  have hle := h.le
  change (BitVec.ofNat 32 n).toNat = n
  rw [BitVec.toNat_ofNat]
  omega

theorem EvenSize.toUInt16 {n : Nat} (h : EvenSize n) :
    (Int32.ofNat n).toUInt32.toUInt16.toNat = n := by
  have hle := h.le
  rw [UInt32.toNat_toUInt16, h.toUInt32]
  omega

/-- Without a crop the loops are over the whole output. -/
def frameSetup (mem : Memory) (W H W' H' : Nat) : Setup :=
  setup mem (picture W H) (picture W' H') (full (picture W' H')) 0

structure Plain (c : Setup) (W H W' H' : Nat) : Prop where
  base : c.base = 0
  inStride : c.inStride.toInt = W
  factorX : c.resizeFactorX.toNat = factor W W'
  factorY : c.resizeFactorY.toNat = factor H H'
  skip : c.skip.toNat = 0
  skipFits : c.skipFits = []

theorem EvenSize.factor_eq {n m : Nat} (hn : EvenSize n) (hm : EvenSize m) :
    (resizeFactor (Int32.ofNat n).toUInt32.toUInt16 (Int32.ofNat m).toUInt32).toNat =
      factor n m := by
  have hge := hn.ge
  have hidx := hn.toUInt16
  rw [resizeFactor_toNat (by omega), hidx, hm.toUInt32]

theorem frameSetup_plain (h : Sizes W H W' H') (mem : Memory) :
    Plain (frameSetup mem W H W' H') W H W' H' := by
  have hstride : (frameSetup mem W H W' H').outStride.toInt = W' := h.width'.toInt
  have hcodx : (frameSetup mem W H W' H').codx.toNat = W' := h.width'.toUInt32
  refine ⟨rfl, h.width.toInt, h.width.factor_eq h.width', h.height.factor_eq h.height', ?_, ?_⟩
  · have hskip : (frameSetup mem W H W' H').skip = 0 := UInt32.sub_self _
    rw [hskip]
    rfl
  · rw [Setup.skipFits, hstride, hcodx, fits, if_pos (by omega)]

variable {c : Setup}

/-- The loops over a part of the output, which is the whole of it or a half. -/
theorem Plain.scaled (hc : Plain c W H W' H') (h : Sizes W H W' H') {rows cols : Nat}
    (hrows : rows ≤ H') (hcols : cols ≤ W') : Scaled c rows cols := by
  have hW := h.width.le
  have hH := h.height.le
  have hW' := h.width'.le
  have hH' := h.height'.le
  refine ⟨by omega, by omega, ?_, ?_⟩
  · intro row hrow
    rw [hc.factorY]
    exact mul_factor_small (by omega) (by omega)
  · intro col hcol
    rw [hc.factorX]
    exact mul_factor_small (by omega) (by omega)

theorem Plain.y_eq (hc : Plain c W H W' H') (row : Nat) :
    c.y row = position H H' row := by
  rw [Setup.y, hc.factorY, position]

theorem Plain.x_eq (hc : Plain c W H W' H') (col : Nat) :
    c.x col = position W W' col := by
  rw [Setup.x, hc.factorX, position]

theorem Plain.rowAt_eq (hc : Plain c W H W' H') (y : Nat) :
    c.rowAt y = (y * W : Nat) := by
  rw [Setup.rowAt, hc.base, hc.inStride, Int.zero_add, Int.natCast_mul]

theorem picture_accepted (h : Sizes W H W' H') : Accepted (picture W H) (picture W' H') := by
  have hW := h.width.ge
  have hH := h.height.ge
  have hidx := h.width.toUInt16
  have hidy := h.height.toUInt16
  have hstride := h.width.toInt
  refine ⟨rfl, rfl, ?_, ?_, ?_, rfl, rfl⟩
  · exact UInt16.le_iff_toNat_le.mpr (show 1 ≤ (Int32.ofNat W).toUInt32.toUInt16.toNat by omega)
  · exact UInt16.le_iff_toNat_le.mpr (show 1 ≤ (Int32.ofNat H).toUInt32.toUInt16.toNat by omega)
  · exact Int32.le_iff_toInt_le.mpr (show 1 ≤ (Int32.ofNat W).toInt by omega)

theorem sizeFits_picture (hW : EvenSize W) (hH : EvenSize H) : sizeFits (picture W H) = [] := by
  have hleW := hW.le
  have hleH := hH.le
  have hwidth : (picture W H).uWidth.toInt = W := hW.toInt
  have hheight : (picture W H).uHeight.toInt = H := hH.toInt
  rw [sizeFits, hwidth, hheight, fits, if_pos (by omega), fits, if_pos (by omega)]
  rfl

theorem resizeFrame_picture (h : Sizes W H W' H') (mem : Memory) :
    resizeFrame mem (picture W H) (picture W' H') none = some ⟨true,
      planeEvents (frameSetup mem W H W' H') H' W' lumaKind 0 ++
      planeEvents (frameSetup mem W H W' H') (H' / 2) (W' / 2) chromaKind 0⟩ := by
  have hleW := h.width'.le
  have hleH := h.height'.le
  have hwidth : (full (picture W' H')).uWidth.toNat = W' := h.width'.toUInt32
  have hheight : (full (picture W' H')).uHeight.toNat = H' := h.height'.toUInt32
  have hstart : start (picture W' H') (full (picture W' H')) = 0 := by
    simp [start, full]
  have hstartFits : startFits (picture W' H') (full (picture W' H')) = [] := by
    simp [startFits, full, fits]
  have hcrop : (none : Option Rect).getD (full (picture W' H')) = full (picture W' H') :=
    rfl
  have hoffset : (picture W H).uOffset = 0 := rfl
  have hhalf : (0 : Int32) / 2 = 0 := by decide
  rw [resizeFrame_eq mem (picture_accepted h) none hcrop (by omega) (by omega), resizeLog, hwidth,
    hheight, hstart, hstartFits, sizeFits_picture h.width h.height, hoffset, hhalf, frameSetup,
    List.append_nil, List.nil_append]

end Setup

/-! ## The planes of the input -/

/-- Half the output leads to a row (or a column) of the chroma plane that is not among the last
`k`, of a picture with `n` rows that is resized to `m`. -/
def HalfBefore (k n m : Nat) : Prop := (m / 2 - 1) * ((n - 1) * 512 / m) < 512 * (n / 2 - k)

instance (k n m : Nat) : Decidable (HalfBefore k n m) := inferInstanceAs (Decidable (_ < _))

/-- The row and the column of the last chroma sample have a neighbour; for the column this may be
the first of the row after the next. The offset of the last luma row is an `int`. -/
def StaysInside (W H W' H' : Nat) : Prop :=
  HalfBefore 1 H H' ∧ (HalfBefore 1 W W' ∨ HalfBefore 2 H H') ∧
    (H' - 1) * ((H - 1) * 512 / H') / 512 * W < 2 ^ 31

section Planes

variable {W H W' H' : Nat}

theorem halfBefore_iff {k n m : Nat} : HalfBefore k n m ↔ position n m (m / 2 - 1) < n / 2 - k := by
  rw [HalfBefore, position, factor, Nat.div_lt_iff_lt_mul (by decide), Nat.mul_comm 512]

theorem rowsFit_iff {c : Setup} (hc : Plain c W H W' H') {rows : Nat} (hrows : 0 < rows) :
    (∀ row < rows, c.RowFits row) ↔ position H H' (rows - 1) * W < 2 ^ 31 := by
  have hfits : ∀ row, c.RowFits row ↔ position H H' row * W < 2 ^ 31 := by
    intro row
    rw [Setup.RowFits, hc.y_eq, hc.inStride]
    norm_cast
  constructor
  · intro h
    exact (hfits _).mp (h _ (by omega))
  · intro h row hrow
    rw [hfits]
    calc position H H' row * W ≤ position H H' (rows - 1) * W :=
          Nat.mul_le_mul_right W (position_mono (by omega))
      _ < 2 ^ 31 := h

theorem luma_read_inside (h : Sizes W H W' H') {row col : Nat} (hrow : row < H') (hcol : col < W')
    {offset : Int} (ht : Touched (position H H' row * W : Nat) ((position H H' row * W : Nat) + W) 1
      (position W W' col) offset) : 0 ≤ offset ∧ offset < (W * H : Nat) := by
  have hy := position_lt h.height.ge hrow
  have hx := position_lt h.width.ge hcol
  obtain ⟨j, hj, hoffset⟩ := ht
  have hle : (position H H' row + 2) * W ≤ W * H := by
    rw [Nat.mul_comm W H]
    exact Nat.mul_le_mul_right W hy
  rw [Nat.add_mul] at hle
  omega

theorem half_position_lt {n m k : Nat} (hn : 2 ≤ n) (hk : 2 * k < m) :
    2 * position n m k + 1 < n := by
  have hlt := mul_factor_lt hn hk
  rw [Nat.mul_assoc] at hlt
  rw [position]
  omega

theorem row_le {W y k n : Nat} (h : y + k ≤ n) : y * W + k * W ≤ W * n := by
  calc y * W + k * W = W * (y + k) := by rw [← Nat.add_mul, Nat.mul_comm]
    _ ≤ W * n := Nat.mul_le_mul_left W h

theorem chroma_read_inside (h : Sizes W H W' H') (hrows : HalfBefore 1 H H')
    (hlast : HalfBefore 1 W W' ∨ HalfBefore 2 H H') {row col : Nat} (hrow : row < H' / 2)
    (hcol : col < W' / 2) {offset : Int}
    (ht : Touched (position H H' row * W : Nat) ((position H H' row * W : Nat) + W) 2
      (position W W' col) offset) : 0 ≤ offset ∧ offset < (W * (H / 2) : Nat) := by
  rw [halfBefore_iff] at hrows
  rw [halfBefore_iff, halfBefore_iff] at hlast
  have hge := h.width.ge
  have heven := h.width.even
  have hx := half_position_lt h.width.ge (show 2 * col < W' by omega)
  have hy := position_mono (n := H) (m := H') (show row ≤ H' / 2 - 1 by omega)
  have hx' := position_mono (n := W) (m := W') (show col ≤ W' / 2 - 1 by omega)
  obtain ⟨j, hj, hoffset⟩ := ht
  rcases hlast with hcols | hrows'
  · have hle := row_le (W := W) (show position H H' row + 2 ≤ H / 2 by omega)
    omega
  · have hle := row_le (W := W) (show position H H' row + 3 ≤ H / 2 by omega)
    omega

theorem last_chroma_read (h : Sizes W H W' H')
    (hlast : (position H H' (H' / 2 - 1) + 1) * W + 2 * position W W' (W' / 2 - 1) + 3 <
      W * (H / 2)) :
    HalfBefore 1 H H' ∧ (HalfBefore 1 W W' ∨ HalfBefore 2 H H') := by
  have heven := h.width.even
  simp only [halfBefore_iff]
  generalize position H H' (H' / 2 - 1) = y at *
  generalize position W W' (W' / 2 - 1) = x at *
  rw [Nat.mul_comm W] at hlast
  have hy : y + 1 < H / 2 := Nat.lt_of_mul_lt_mul_right (show (y + 1) * W < H / 2 * W by omega)
  refine ⟨by omega, ?_⟩
  by_cases hx : x < W / 2 - 1
  · exact Or.inl hx
  · right
    have hy' : y + 2 < H / 2 := by
      apply Nat.lt_of_mul_lt_mul_right (a := W)
      rw [Nat.add_mul] at hlast ⊢
      omega
    omega

end Planes

/-! ## The run -/

/-- The log of the call. -/
def frameLog (c : Setup) (W' H' : Nat) : List Event :=
  planeEvents c H' W' lumaKind 0 ++ planeEvents c (H' / 2) (W' / 2) chromaKind 0

section Run

variable {W H W' H' : Nat} {c : Setup}

theorem offsets_eq (p : Plane) (w rows cols : Nat) (hskip : c.skip.toNat = 0) :
    ((List.range rows).flatMap fun row : Nat => (List.range cols).flatMap fun col : Nat =>
      c.pixelWrites p w row col
        (0 + (w * cols + c.skip.toNat : Int) * row + w * col)).map Prod.fst =
      (List.range (w * cols * rows)).map Int.ofNat := by
  rw [← range_flatMap_range rows (w * cols), ← range_flatMap_range cols w, List.map_flatMap,
    List.map_flatMap]
  apply List.flatMap_congr
  intro row _
  rw [List.map_flatMap, List.map_flatMap, List.map_flatMap]
  apply List.flatMap_congr
  intro col _
  simp only [Setup.pixelWrites, List.map_map]
  apply List.map_congr_left
  intro j _
  simp [hskip]

theorem writes_once (h : Sizes W H W' H') (hc : Plain c W H W' H') (p : Plane) (offset : Int) :
    ((written p (frameLog c W' H')).map Prod.fst).count offset =
      if 0 ≤ offset ∧ offset < planeSize W' H' p then 1 else 0 := by
  have hluma := hc.scaled h (Nat.le_refl H') (Nat.le_refl W')
  have hchroma := hc.scaled h (Nat.div_le_self H' 2) (Nat.div_le_self W' 2)
  have heven := h.width'.even
  rw [frameLog, written_append, hluma.written_eq lumaKind_spec, hchroma.written_eq chromaKind_spec]
  cases p with
  | luma =>
    rw [if_pos rfl, if_neg (by decide), List.append_nil, offsets_eq _ _ _ _ hc.skip,
      count_map_range, planeSize, Nat.one_mul]
  | chroma =>
    rw [if_neg (by decide), if_pos rfl, List.nil_append, offsets_eq _ _ _ _ hc.skip,
      count_map_range, planeSize, Nat.mul_div_cancel' heven]

theorem Plain.stride_nonneg (hc : Plain c W H W' H') : 0 ≤ c.inStride.toInt := by
  rw [hc.inStride]
  exact Int.natCast_nonneg W

theorem wrap_not_mem_iff (h : Sizes W H W' H') (hc : Plain c W H W' H') :
    .wrap ∉ frameLog c W' H' ↔ ∀ row < H', c.RowFits row := by
  have hluma := hc.scaled h (Nat.le_refl H') (Nat.le_refl W')
  have hchroma := hc.scaled h (Nat.div_le_self H' 2) (Nat.div_le_self W' 2)
  rw [frameLog, List.mem_append, hluma.wrap_mem_iff lumaKind_spec hc.skipFits hc.stride_nonneg,
    hchroma.wrap_mem_iff chromaKind_spec hc.skipFits hc.stride_nonneg]
  constructor
  · intro hno row hrow
    by_contra hbad
    exact hno (Or.inl ⟨row, hrow, hbad⟩)
  · rintro hall (⟨row, hrow, hbad⟩ | ⟨row, hrow, hbad⟩)
    · exact hbad (hall row hrow)
    · exact hbad (hall row (by omega))

/-- The reads at the coordinates of a part of the output. -/
def ReadAt (W H W' H' : Nat) (rows cols w : Nat) (offset : Int) : Prop :=
  ∃ row < rows, ∃ col < cols, Touched (position H H' row * W : Nat)
    ((position H H' row * W : Nat) + W) w (position W W' col) offset

theorem read_mem_plane (h : Sizes W H W' H') (hc : Plain c W H W' H') {rows cols w : Nat}
    (hrows : rows ≤ H') (hcols : cols ≤ W') {kind : PixelKind} {p : Plane} (hspec : kind.Spec p w)
    (hfits : ∀ row < H', c.RowFits row) {q : Plane} {offset : Int} :
    .read q offset ∈ planeEvents c rows cols kind 0 ↔
      q = p ∧ ReadAt W H W' H' rows cols w offset := by
  rw [(hc.scaled h hrows hcols).read_mem_iff hspec hc.skipFits hc.stride_nonneg
    fun row hrow => hfits row (by omega)]
  simp only [hc.y_eq, hc.x_eq, hc.rowAt_eq, hc.inStride, ReadAt]

theorem reads_inside_iff (h : Sizes W H W' H') (hc : Plain c W H W' H')
    (hfits : ∀ row < H', c.RowFits row) :
    (∀ p, ∀ offset : Int, .read p offset ∈ frameLog c W' H' →
      0 ≤ offset ∧ offset < planeSize W H p) ↔
      HalfBefore 1 H H' ∧ (HalfBefore 1 W W' ∨ HalfBefore 2 H H') := by
  have hread : ∀ p, ∀ offset : Int, .read p offset ∈ frameLog c W' H' ↔
      (p = .luma ∧ ReadAt W H W' H' H' W' 1 offset) ∨
        p = .chroma ∧ ReadAt W H W' H' (H' / 2) (W' / 2) 2 offset := by
    intro p offset
    rw [frameLog, List.mem_append,
      read_mem_plane h hc (Nat.le_refl H') (Nat.le_refl W') lumaKind_spec hfits,
      read_mem_plane h hc (Nat.div_le_self H' 2) (Nat.div_le_self W' 2) chromaKind_spec hfits]
  simp only [hread]
  constructor
  · intro hin
    have hge := h.height'.ge
    have hge' := h.width'.ge
    have hlast := (hin .chroma
      ((position H H' (H' / 2 - 1) * W : Nat) + W + 2 * position W W' (W' / 2 - 1) + 3)
      (Or.inr ⟨rfl, _, by omega, _, by omega, 3, by decide, Or.inr rfl⟩)).2
    apply last_chroma_read h
    rw [Nat.add_mul, Nat.one_mul]
    rw [planeSize] at hlast
    omega
  · rintro ⟨hrows, hlast⟩ p offset (⟨rfl, hat⟩ | ⟨rfl, hat⟩)
    · obtain ⟨row, hrow, col, hcol, ht⟩ := hat
      exact luma_read_inside h hrow hcol ht
    · obtain ⟨row, hrow, col, hcol, ht⟩ := hat
      exact chroma_read_inside h hrows hlast hrow hcol ht

end Run

/-- The run stays inside the planes only for the sizes of `StaysInside`. -/
theorem resizeFrame_inside {W H W' H' : Nat} (h : Sizes W H W' H') (mem : Memory) :
    ∃ r, resizeFrame mem (picture W H) (picture W' H') none = some r ∧ r.ok = true ∧
      (Inside W H W' H' r.log ↔ StaysInside W H W' H') := by
  refine ⟨_, resizeFrame_picture h mem, rfl, ?_⟩
  have hc := frameSetup_plain h mem
  have hge := h.height'.ge
  have hrowsFit := rowsFit_iff hc (show 0 < H' by omega)
  have hwrap := wrap_not_mem_iff h hc
  constructor
  · rintro ⟨hreads, -, hexact⟩
    have hfits := hwrap.mp hexact
    obtain ⟨hrows, hlast⟩ := (reads_inside_iff h hc hfits).mp hreads
    exact ⟨hrows, hlast, hrowsFit.mp hfits⟩
  · rintro ⟨hrows, hlast, hoffset⟩
    have hfits := hrowsFit.mpr hoffset
    exact ⟨(reads_inside_iff h hc hfits).mpr ⟨hrows, hlast⟩, writes_once h hc, hwrap.mpr hfits⟩

theorem resizeFrame_inside_thumbnail :
    ∃ r, resizeFrame (fun _ _ => 0) (picture 640 480) (picture 160 120) none = some r ∧
      r.ok = true ∧ (Inside 640 480 160 120 r.log ↔ StaysInside 640 480 160 120) :=
  resizeFrame_inside ⟨⟨by decide, by decide, by decide⟩, ⟨by decide, by decide, by decide⟩,
    ⟨by decide, by decide, by decide⟩, ⟨by decide, by decide, by decide⟩⟩ _

/-- Twice the width and height: the last chroma row of the output needs a third row of the two. -/
theorem resizeFrame_outside :
    ¬ ∃ r, resizeFrame (fun _ _ => 0) (picture 4 4) (picture 8 8) none = some r ∧
      Inside 4 4 8 8 r.log := by
  have h : Sizes 4 4 8 8 := ⟨⟨by decide, by decide, by decide⟩, ⟨by decide, by decide, by decide⟩,
    ⟨by decide, by decide, by decide⟩, ⟨by decide, by decide, by decide⟩⟩
  have hc := frameSetup_plain h fun _ _ => 0
  have hfits := (rowsFit_iff hc (show 0 < 8 by decide)).mpr (by decide)
  rintro ⟨r, hr, hinside⟩
  rw [resizeFrame_picture h] at hr
  cases hr
  have hlast := (reads_inside_iff h hc hfits).mp hinside.reads
  exact absurd hlast.1 (by decide)

end Omap4Hal.Camera.Nv12Resize

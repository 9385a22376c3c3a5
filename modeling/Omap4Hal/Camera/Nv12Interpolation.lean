import Mathlib.Tactic.Ring
import Omap4Hal.Camera.Nv12Planes

/- The resizing is a bilinear interpolation. For any strides, offset and crop the bytes written are
   those of `outputBytes`: row after row, each component of a pixel interpolated between the four
   samples of the same component at the coordinates that belong to it. -/
namespace Omap4Hal.Camera.Nv12Resize

open Lib

/-- Component `j` of the sample at `x` and `y`; the chroma plane has Cb and Cr side by side. -/
def sampleAt (mem : Memory) (i : ConvImage) (p : Plane) (j x y : Nat) : UInt8 :=
  match p with
  | .luma => mem .luma (i.uOffset.toInt + y * i.uStride.toInt + 1 * x + j)
  | .chroma => mem .chroma ((i.uOffset / 2).toInt + y * i.uStride.toInt + 2 * x + j)

/-- The sample at the coordinates that belong to a pixel of the output, or `dx` and `dy` on. -/
def corner (mem : Memory) (i : ConvImage) (crop : Rect) (p : Plane) (j row col dx dy : Nat) : Nat :=
  (sampleAt mem i p j (position i.idx.toNat crop.uWidth.toNat col + dx)
    (position i.idy.toNat crop.uHeight.toNat row + dy)).toNat

def interpolated (mem : Memory) (i : ConvImage) (crop : Rect) (p : Plane) (j row col : Nat) : Nat :=
  bilinear 8 (fraction i.idx.toNat crop.uWidth.toNat col)
    (fraction i.idy.toNat crop.uHeight.toNat row) (corner mem i crop p j row col 0 0)
    (corner mem i crop p j row col 1 0) (corner mem i crop p j row col 0 1)
    (corner mem i crop p j row col 1 1)

/-- The distance between two rows of the output. -/
def rowStep (o : ConvImage) (crop : Rect) (cols : Nat) : Int :=
  cols + (o.uStride.toUInt32 - crop.uWidth).toNat

/-- The offsets and values of a plane of the output with `w` components. -/
def outputBytes (mem : Memory) (i o : ConvImage) (crop : Rect) (p : Plane) (w rows cols : Nat) :
    List (Int × Nat) :=
  (List.range rows).flatMap fun row : Nat => (List.range cols).flatMap fun col : Nat =>
    (List.range w).map fun j : Nat =>
      (start o crop + rowStep o crop (w * cols) * row + w * col + j,
        interpolated mem i crop p j row col)

/-- The columns and rows of a plane. -/
def columns : Plane → Nat → Nat
  | .luma, width => width
  | .chroma, width => width / 2

/-- All samples are in range: with its neighbours a coordinate is in the plane, and the offset of
its row is an `int`. The sizes of the output are those that a counter of 16 bits can reach. -/
structure SamplesInRange (i : ConvImage) (crop : Rect) : Prop where
  width : crop.uWidth.toNat ≤ 65535
  height : crop.uHeight.toNat ≤ 65535
  col : ∀ p, ∀ col < columns p crop.uWidth.toNat,
    position i.idx.toNat crop.uWidth.toNat col + 1 < columns p i.idx.toNat
  row : ∀ p, ∀ row < columns p crop.uHeight.toNat,
    position i.idy.toNat crop.uHeight.toNat row + 1 < columns p i.idy.toNat
  offset : ∀ row < crop.uHeight.toNat,
    position i.idy.toNat crop.uHeight.toNat row * i.uStride.toInt < 2 ^ 31

section Setup

variable {mem : Memory} {i o : ConvImage} {crop : Rect} {base : Int32}

theorem setup_factorX (h : Accepted i o) :
    (setup mem i o crop base).resizeFactorX.toNat = factor i.idx.toNat crop.uWidth.toNat :=
  resizeFactor_toNat (UInt16.le_iff_toNat_le.mp h.idx)

theorem setup_factorY (h : Accepted i o) :
    (setup mem i o crop base).resizeFactorY.toNat = factor i.idy.toNat crop.uHeight.toNat :=
  resizeFactor_toNat (UInt16.le_iff_toNat_le.mp h.idy)

theorem setup_x (h : Accepted i o) (col : Nat) :
    (setup mem i o crop base).x col = position i.idx.toNat crop.uWidth.toNat col := by
  rw [Setup.x, setup_factorX h, position]

theorem setup_y (h : Accepted i o) (row : Nat) :
    (setup mem i o crop base).y row = position i.idy.toNat crop.uHeight.toNat row := by
  rw [Setup.y, setup_factorY h, position]

variable {rows cols : Nat}

theorem setup_scaled (h : Accepted i o) (hrange : SamplesInRange i crop)
    (hrows : rows ≤ crop.uHeight.toNat) (hcols : cols ≤ crop.uWidth.toNat) :
    Scaled (setup mem i o crop base) rows cols := by
  have hidx := i.idx.toNat_lt
  have hidy := i.idy.toNat_lt
  have hwidth := hrange.width
  have hheight := hrange.height
  refine ⟨by omega, by omega, ?_, ?_⟩
  · intro row hrow
    rw [setup_factorY h]
    exact mul_factor_small (by omega) (by omega)
  · intro col hcol
    rw [setup_factorX h]
    exact mul_factor_small (by omega) (by omega)

theorem setup_rowFits (h : Accepted i o) (hrange : SamplesInRange i crop) {row : Nat}
    (hrow : row < crop.uHeight.toNat) : (setup mem i o crop base).RowFits row := by
  rw [Setup.RowFits, setup_y h]
  exact hrange.offset row hrow

theorem component_toNat (h : Accepted i o) (hrange : SamplesInRange i crop)
    (hrows : rows ≤ crop.uHeight.toNat) (hcols : cols ≤ crop.uWidth.toNat) {row col : Nat}
    (hrow : row < rows) (hcol : col < cols) (p : Plane) (row1 row2 : Int) (w x j : Nat) :
    (component mem p row1 row2 w x
        (frac (UInt16.ofNat col) (setup mem i o crop base).resizeFactorX)
        (frac (UInt16.ofNat row) (setup mem i o crop base).resizeFactorY) j).toNat =
      bilinear 8 (fraction i.idx.toNat crop.uWidth.toNat col)
        (fraction i.idy.toNat crop.uHeight.toNat row) (mem p (row1 + w * x + j)).toNat
        (mem p (row1 + w * x + j + w)).toNat (mem p (row2 + w * x + j)).toNat
        (mem p (row2 + w * x + j + w)).toNat := by
  have hscaled : Scaled (setup mem i o crop base) rows cols := setup_scaled h hrange hrows hcols
  have hrowsLe := hscaled.rows_le
  have hcolsLe := hscaled.cols_le
  have hx := frac_toNat (hscaled.col_product hcol)
  have hy := frac_toNat (hscaled.row_product hrow)
  rw [toNat_ofNat16 (by omega), setup_factorX h, ← fraction] at hx
  rw [toNat_ofNat16 (by omega), setup_factorY h, ← fraction] at hy
  rw [component, blend_toNat (frac_lt (hscaled.col_product hcol)) (hscaled.frac_row hrow), hx, hy]

theorem plane_interpolates (h : Accepted i o) (hrange : SamplesInRange i crop) {w : Nat}
    (hrows : rows ≤ crop.uHeight.toNat) (hcols : cols ≤ crop.uWidth.toNat) {kind : PixelKind}
    {p : Plane} (hspec : kind.Spec p w)
    (hsample : ∀ j x y,
      sampleAt mem i p j x y = mem p (base.toInt + y * i.uStride.toInt + w * x + j))
    :
    (written p (planeEvents (setup mem i o crop base) rows cols kind (start o crop))).map
      (fun e => (e.1, e.2.toNat)) = outputBytes mem i o crop p w rows cols := by
  have hscaled : Scaled (setup mem i o crop base) rows cols := setup_scaled h hrange hrows hcols
  have hstride : 0 ≤ (setup mem i o crop base).inStride.toInt := by
    have hpos := Int32.le_iff_toInt_le.mp h.stride
    exact Int.le_trans (by decide) hpos
  rw [hscaled.written_eq hspec, if_pos rfl, outputBytes, List.map_flatMap]
  apply List.flatMap_congr
  intro row hrow
  rw [List.mem_range] at hrow
  rw [List.map_flatMap]
  apply List.flatMap_congr
  intro col hcol
  rw [List.mem_range] at hcol
  rw [Setup.pixelWrites, List.map_map]
  apply List.map_congr_left
  intro j _
  have hfits : (setup mem i o crop base).RowFits row := setup_rowFits h hrange (by omega)
  have hright : ∀ (r : Int) (x : Nat), r + w * x + j + w = r + w * (x + 1 : Nat) + j := by
    intro r x
    push_cast
    ring
  have hbelow : ∀ y : Nat, base.toInt + y * i.uStride.toInt + i.uStride.toInt =
      base.toInt + (y + 1 : Nat) * i.uStride.toInt := by
    intro y
    push_cast
    ring
  refine Prod.ext ?_ ?_
  · simp only [Function.comp_apply, rowStep, Setup.skip, setup, Nat.cast_mul]
  · refine (component_toNat h hrange hrows hcols hrow hcol p _ _ w _ j).trans ?_
    rw [hscaled.row1_eq hstride hrow hfits, setup_x h, setup_y h, interpolated]
    simp only [corner, Nat.add_zero, hsample, ← hright, ← hbelow]
    rfl

end Setup

variable {i : ConvImage}

theorem interpolated_const {mem : Memory} {crop : Rect} {p : Plane} {j row col k : Nat}
    (h : ∀ dx ≤ 1, ∀ dy ≤ 1, corner mem i crop p j row col dx dy = k) :
    interpolated mem i crop p j row col = k := by
  rw [interpolated, h 0 (by decide) 0 (by decide), h 1 (by decide) 0 (by decide),
    h 0 (by decide) 1 (by decide), h 1 (by decide) 1 (by decide)]
  exact bilinear_const (by decide) (fraction_lt _ _ _).le (fraction_lt _ _ _).le k

/-- The value is between the smallest and the largest of the four samples. -/
def Between (mem : Memory) (i : ConvImage) (crop : Rect) (p : Plane) (j row col : Nat) : Prop :=
  min (min (corner mem i crop p j row col 0 0) (corner mem i crop p j row col 1 0))
      (min (corner mem i crop p j row col 0 1) (corner mem i crop p j row col 1 1)) ≤
    interpolated mem i crop p j row col ∧
  interpolated mem i crop p j row col ≤
    max (max (corner mem i crop p j row col 0 0) (corner mem i crop p j row col 1 0))
      (max (corner mem i crop p j row col 0 1) (corner mem i crop p j row col 1 1))

theorem interpolated_between (mem : Memory) (i : ConvImage) (crop : Rect) (p : Plane)
    (j row col : Nat) : Between mem i crop p j row col :=
  bilinear_between (by decide) (fraction_lt _ _ _).le (fraction_lt _ _ _).le _ _ _ _

/-- The components of a pixel. -/
def components : Plane → Nat
  | .luma => 1
  | .chroma => 2

/-- All samples of a picture have the value `k`. -/
def Constant (mem : Memory) (i : ConvImage) (k : Nat) : Prop :=
  ∀ p, ∀ j < components p, ∀ x < columns p i.idx.toNat, ∀ y < columns p i.idy.toNat,
    (sampleAt mem i p j x y).toNat = k

theorem outputBytes_const {mem : Memory} {o : ConvImage} {crop : Rect} {k : Nat}
    (hrange : SamplesInRange i crop) (hconst : Constant mem i k) (p : Plane) {e : Int × Nat}
    (he : e ∈ outputBytes mem i o crop p (components p) (columns p crop.uHeight.toNat)
      (columns p crop.uWidth.toNat)) :
    e.2 = k := by
  simp only [outputBytes, List.mem_flatMap, List.mem_map, List.mem_range] at he
  obtain ⟨row, hrow, col, hcol, j, hj, rfl⟩ := he
  have hx := hrange.col p col hcol
  have hy := hrange.row p row hrow
  apply interpolated_const
  intro dx hdx dy hdy
  exact hconst p j hj _ (by omega) _ (by omega)

theorem resizeLog_written (mem : Memory) {o : ConvImage} (h : Accepted i o) {crop : Rect}
    (hrange : SamplesInRange i crop) (p : Plane) :
    (written p (resizeLog mem i o crop)).map (fun e => (e.1, e.2.toNat)) =
      outputBytes mem i o crop p (components p) (columns p crop.uHeight.toNat)
        (columns p crop.uWidth.toNat) := by
  have hluma : Scaled (setup mem i o crop i.uOffset) crop.uHeight.toNat crop.uWidth.toNat :=
    setup_scaled h hrange (Nat.le_refl _) (Nat.le_refl _)
  have hchroma : Scaled (setup mem i o crop (i.uOffset / 2)) (crop.uHeight.toNat / 2)
      (crop.uWidth.toNat / 2) := setup_scaled h hrange (Nat.div_le_self _ 2) (Nat.div_le_self _ 2)
  have hlog : written p (resizeLog mem i o crop) =
      written p (planeEvents (setup mem i o crop i.uOffset) crop.uHeight.toNat crop.uWidth.toNat
        lumaKind (start o crop)) ++
      written p (planeEvents (setup mem i o crop (i.uOffset / 2)) (crop.uHeight.toNat / 2)
        (crop.uWidth.toNat / 2) chromaKind (start o crop)) := by
    simp only [resizeLog, sizeFits, startFits, written_append, written_fits, List.nil_append]
  cases p with
  | luma =>
    rw [hlog, hchroma.written_eq chromaKind_spec, if_neg (by decide), List.append_nil]
    exact plane_interpolates h hrange (Nat.le_refl _) (Nat.le_refl _) lumaKind_spec fun _ _ _ => rfl
  | chroma =>
    rw [hlog, hluma.written_eq lumaKind_spec, if_neg (by decide), List.nil_append]
    exact plane_interpolates h hrange (Nat.div_le_self _ 2) (Nat.div_le_self _ 2) chromaKind_spec
      fun _ _ _ => rfl

/-- Every byte written is the interpolation of the four samples of its component, which lies
between them; and a picture of one value is resized to that value. -/
theorem resizeFrame_interpolates (mem : Memory) {i o : ConvImage} (h : Accepted i o)
    (cropout : Option Rect) {crop : Rect} (hcrop : cropout.getD (Rect.full o) = crop)
    (hrange : SamplesInRange i crop) :
    ∃ r, resizeFrame mem i o cropout = some r ∧ r.ok = true ∧
      (∀ p, (written p r.log).map (fun e => (e.1, e.2.toNat)) =
        outputBytes mem i o crop p (components p) (columns p crop.uHeight.toNat)
          (columns p crop.uWidth.toNat)) ∧
      (∀ p j row col, Between mem i crop p j row col) ∧
      ∀ k, Constant mem i k → ∀ p, ∀ e ∈ written p r.log, e.2.toNat = k := by
  have hbytes := resizeLog_written mem h hrange
  refine ⟨_, resizeFrame_eq mem h cropout hcrop hrange.width hrange.height, rfl, hbytes,
    interpolated_between mem i crop, ?_⟩
  intro k hconst p e he
  have hmem : (e.1, e.2.toNat) ∈ outputBytes mem i o crop p (components p)
      (columns p crop.uHeight.toNat) (columns p crop.uWidth.toNat) :=
    hbytes p ▸ List.mem_map_of_mem he
  exact outputBytes_const hrange hconst p hmem

/-- A part of 8 by 8 pixels of a buffer whose rows are 4096 bytes apart, to 4 by 4 pixels. -/
theorem resizeFrame_interpolates_half :
    let mem : Memory := fun _ offset => UInt8.ofNat offset.toNat
    let i : ConvImage := { uWidth := 8, uHeight := 8, uStride := 4096, uOffset := 16 }
    let o : ConvImage := { uWidth := 4, uHeight := 4, uStride := 4096 }
    let crop : Rect := ⟨0, 0, 4, 4⟩
    ∃ r, resizeFrame mem i o none = some r ∧ r.ok = true ∧
      (∀ p, (written p r.log).map (fun e => (e.1, e.2.toNat)) =
        outputBytes mem i o crop p (components p) (columns p crop.uHeight.toNat)
          (columns p crop.uWidth.toNat)) ∧
      (∀ p j row col, Between mem i crop p j row col) ∧
      ∀ k, Constant mem i k → ∀ p, ∀ e ∈ written p r.log, e.2.toNat = k := by
  intro mem i o crop
  apply resizeFrame_interpolates mem ⟨rfl, rfl, by decide, by decide, by decide, rfl, rfl⟩ none rfl
  refine ⟨by decide, by decide, ?_, ?_, by decide⟩
  · rintro (_ | _) <;> decide
  · rintro (_ | _) <;> decide

end Omap4Hal.Camera.Nv12Resize

import Omap4Hal.Camera.Nv12Samples

/- What the resizing does to a plane. The loops leave a log in closed form, from which this module
   reads off when a value wraps (`Scaled.wrap_mem_iff`), which bytes are read
   (`Scaled.read_mem_iff`) and what is written where (`Scaled.written_eq`), for both planes at
   once: a pixel has one component in the luma plane and two in the chroma plane. -/
namespace Omap4Hal.Camera.Nv12Resize

open Lib
open List (append_nil mem_cons nil_append range)

/-! ## Logs -/

/-- What is written to a plane, with the offsets, in the order of the writes. -/
def written (p : Plane) (log : List Event) : List (Int × UInt8) :=
  log.filterMap fun
    | .write q offset value => if q = p then some (offset, value) else none
    | _ => none

@[simp] theorem written_append (p : Plane) (l₁ l₂ : List Event) :
    written p (l₁ ++ l₂) = written p l₁ ++ written p l₂ :=
  List.filterMap_append

theorem written_loopEvents {p q : Plane} {n : Nat} {events : UInt16 → Int → List Event}
    {g : Nat → Int → List (Int × UInt8)}
    (h : ∀ k < n, ∀ ptr, written q (events (UInt16.ofNat k) ptr) = if q = p then g k ptr else [])
    (advance ptr : Int) : written q (loopEvents n advance events ptr) =
      if q = p then (range n).flatMap fun k : Nat => g k (ptr + advance * k) else [] := by
  have hpass : written q (loopEvents n advance events ptr) = (range n).flatMap fun k : Nat =>
      if q = p then g k (ptr + advance * k) else [] := by
    rw [loopEvents, written, List.filterMap_flatMap]
    apply List.flatMap_congr
    intro k hk
    exact h k (List.mem_range.mp hk) _
  rw [hpass]
  split
  · rfl
  · simp

theorem written_eq_nil {p : Plane} {log : List Event} (h : ∀ q offset v, .write q offset v ∉ log) :
    written p log = [] := by
  rw [written, List.filterMap_eq_nil_iff]
  intro e he
  cases e with
  | read => rfl
  | wrap => rfl
  | write q offset v => exact absurd he (h q offset v)

theorem mem_loopEvents {e : Event} {n : Nat} {advance : Int} {events : UInt16 → Int → List Event}
    {ptr : Int} : e ∈ loopEvents n advance events ptr ↔
      ∃ k < n, e ∈ events (UInt16.ofNat k) (ptr + advance * k) := by
  simp [loopEvents]

@[simp] theorem mem_fits {e : Event} {c : Prop} [Decidable c] : e ∈ fits c ↔ e = .wrap ∧ ¬ c := by
  unfold fits
  split
  next hc => simp [hc]
  next hc => simp [hc]

@[simp] theorem written_fits (p : Plane) (c : Prop) [Decidable c] : written p (fits c) = [] :=
  written_eq_nil (by simp)

/-! ## Pixels -/

/-- The bytes of `w` components at a sample, of the sample on its right and of the two below. -/
def Touched (row1 row2 : Int) (w x : Nat) (offset : Int) : Prop :=
  ∃ j : Nat, j < 2 * w ∧ (offset = row1 + w * x + j ∨ offset = row2 + w * x + j)

/-- The value of component `j` of a pixel. -/
def component (mem : Memory) (p : Plane) (row1 row2 : Int) (w x : Nat) (xf yf : UInt16) (j : Nat) :
    UInt8 :=
  blend xf yf (mem p (row1 + w * x + j)) (mem p (row1 + w * x + j + w)) (mem p (row2 + w * x + j))
    (mem p (row2 + w * x + j + w))

/-- A pixel of `w` components: it reads the samples and writes one byte for each component. -/
structure PixelKind.Spec (kind : PixelKind) (p : Plane) (w : Nat) : Prop where
  advance : kind.advance = w
  events : ∀ {mem row1 row2 yf fx col}, yf.toNat < 8 → col.toNat * fx.toNat < 2 ^ 25 →
    ∃ reads : List Int,
      (∀ ptr, kind.events mem row1 row2 yf fx col ptr = reads.map (.read p) ++
        (range w).map fun j => .write p (ptr + j)
          (component mem p row1 row2 w (col.toNat * fx.toNat / 512) (frac col fx) yf j)) ∧
      ∀ offset, offset ∈ reads ↔ Touched row1 row2 w (col.toNat * fx.toNat / 512) offset

theorem sample_events {mem : Memory} {p : Plane} {ptr1 ptr2 step : Int} {xf yf : UInt16}
    (hx : xf.toNat < 8) (hy : yf.toNat < 8) : (sample mem p ptr1 ptr2 step xf yf).1 =
      [ptr1, ptr1 + step, ptr2, ptr2 + step].map (.read p) := by
  simp only [sample, blendFits_eq hx hy, append_nil]
  rfl

theorem frac_lt {i : UInt16} {fx : UInt32} (h : i.toNat * fx.toNat < 2 ^ 25) :
    (frac i fx).toNat < 8 := by
  rw [frac_toNat h]
  exact Nat.mod_lt _ (by decide)

theorem lumaKind_spec : lumaKind.Spec .luma 1 := by
  refine ⟨rfl, ?_⟩
  intro mem row1 row2 yf fx col hyf hcol
  generalize hx : col.toNat * fx.toNat / 512 = x
  refine ⟨[row1 + x, row1 + x + 1, row2 + x, row2 + x + 1], fun ptr => ?_, ?_⟩
  · simp only [lumaKind, lumaEvents, coordFits_eq hcol, sample_events (frac_lt hcol) hyf,
      coord_toNat hcol, nil_append, hx]
    simp [sample, component]
  · intro offset
    simp only [mem_cons, List.not_mem_nil, or_false, Touched]
    constructor
    · rintro (rfl | rfl | rfl | rfl)
      · exact ⟨0, by decide, Or.inl (by omega)⟩
      · exact ⟨1, by decide, Or.inl (by omega)⟩
      · exact ⟨0, by decide, Or.inr (by omega)⟩
      · exact ⟨1, by decide, Or.inr (by omega)⟩
    · rintro ⟨j, hj, h⟩
      omega

theorem chromaKind_spec : chromaKind.Spec .chroma 2 := by
  refine ⟨rfl, ?_⟩
  intro mem row1 row2 yf fx col hyf hcol
  generalize hx : col.toNat * fx.toNat / 512 = x
  refine ⟨[row1 + x * 2, row1 + x * 2 + 2, row2 + x * 2, row2 + x * 2 + 2] ++
    [row1 + 1 + x * 2, row1 + 1 + x * 2 + 2, row2 + 1 + x * 2, row2 + 1 + x * 2 + 2],
    fun ptr => ?_, ?_⟩
  · have hcr : ∀ row : Int, row + 1 + x * 2 = row + 2 * x + 1 := fun row => by omega
    have hcb : ∀ row : Int, row + x * 2 = row + 2 * x := fun row => by omega
    simp only [chromaKind, chromaEvents, coordFits_eq hcol, sample_events (frac_lt hcol) hyf,
      coord_toNat hcol, nil_append, List.map_append, hx]
    simp [sample, component, List.range_succ, hcr, hcb]
  · intro offset
    simp only [List.mem_append, mem_cons, List.not_mem_nil, or_false, Touched]
    constructor
    · rintro ((rfl | rfl | rfl | rfl) | (rfl | rfl | rfl | rfl))
      · exact ⟨0, by decide, Or.inl (by omega)⟩
      · exact ⟨2, by decide, Or.inl (by omega)⟩
      · exact ⟨0, by decide, Or.inr (by omega)⟩
      · exact ⟨2, by decide, Or.inr (by omega)⟩
      · exact ⟨1, by decide, Or.inl (by omega)⟩
      · exact ⟨3, by decide, Or.inl (by omega)⟩
      · exact ⟨1, by decide, Or.inr (by omega)⟩
      · exact ⟨3, by decide, Or.inr (by omega)⟩
    · rintro ⟨j, hj, h⟩
      omega

/-! ## Planes -/

/-- The products of the loops over `rows` and `cols` are small, as they are where the factors are
those of the picture. -/
structure Scaled (c : Setup) (rows cols : Nat) : Prop where
  rows_le : rows ≤ 65535
  cols_le : cols ≤ 65535
  row_lt : ∀ row < rows, row * c.resizeFactorY.toNat < 2 ^ 25
  col_lt : ∀ col < cols, col * c.resizeFactorX.toNat < 2 ^ 25

/-- The coordinates that belong to a row and a column of the output. -/
def Setup.y (c : Setup) (row : Nat) : Nat := row * c.resizeFactorY.toNat / 512

def Setup.x (c : Setup) (col : Nat) : Nat := col * c.resizeFactorX.toNat / 512

/-- The offset of the row is an `int`. -/
def Setup.RowFits (c : Setup) (row : Nat) : Prop := c.y row * c.inStride.toInt < 2 ^ 31

/-- The offset of a row of the input. -/
def Setup.rowAt (c : Setup) (y : Nat) : Int := c.base + y * c.inStride.toInt

section Planes

variable {c : Setup} {rows cols : Nat} {kind : PixelKind} {p : Plane} {w : Nat} {ptr : Int}

variable {row col : Nat}

theorem Scaled.row_product (h : Scaled c rows cols) (hrow : row < rows) :
    (UInt16.ofNat row).toNat * c.resizeFactorY.toNat < 2 ^ 25 := by
  have hle := h.rows_le
  rw [toNat_ofNat16 (by omega)]
  exact h.row_lt row hrow

theorem Scaled.col_product (h : Scaled c rows cols) (hcol : col < cols) :
    (UInt16.ofNat col).toNat * c.resizeFactorX.toNat < 2 ^ 25 := by
  have hle := h.cols_le
  rw [toNat_ofNat16 (by omega)]
  exact h.col_lt col hcol

theorem Scaled.coord_row (h : Scaled c rows cols) (hrow : row < rows) :
    (coord (UInt16.ofNat row) c.resizeFactorY).toNat = c.y row := by
  have hle := h.rows_le
  rw [coord_toNat (h.row_product hrow), toNat_ofNat16 (by omega), Setup.y]

theorem Scaled.frac_row (h : Scaled c rows cols) (hrow : row < rows) :
    (frac (UInt16.ofNat row) c.resizeFactorY).toNat < 8 := frac_lt (h.row_product hrow)

theorem Scaled.x_eq (h : Scaled c rows cols) (hcol : col < cols) :
    (UInt16.ofNat col).toNat * c.resizeFactorX.toNat / 512 = c.x col := by
  have hle := h.cols_le
  rw [toNat_ofNat16 (by omega), Setup.x]

theorem Scaled.y_lt (h : Scaled c rows cols) (hrow : row < rows) :
    c.y row < 2 ^ 16 := by
  have hlt := h.row_lt row hrow
  rw [Setup.y]
  omega

theorem Scaled.row1_eq (h : Scaled c rows cols) (hstride : 0 ≤ c.inStride.toInt) (hrow : row < rows)
    (hfits : c.RowFits row) :
    c.row1 (UInt16.ofNat row) = c.rowAt (c.y row) := by
  have hpos : 0 ≤ (c.y row : Int) * c.inStride.toInt :=
    Int.mul_nonneg (Int.natCast_nonneg _) hstride
  have hlt := h.y_lt hrow
  have hsmall : (Int32.ofNat (c.y row)).toInt = c.y row := Int32.toInt_ofNat_of_lt (by omega)
  rw [Setup.RowFits] at hfits
  rw [Setup.row1, Setup.rowAt, rowOffset, h.coord_row hrow, Int32.toInt_mul, hsmall,
    Int.bmod_eq_of_le (by omega) (by omega)]

theorem Scaled.mem_rowEvents (h : Scaled c rows cols) (hskip : c.skipFits = [])
    (hstride : 0 ≤ c.inStride.toInt) (hrow : row < rows) {e : Event} :
    e ∈ rowEvents c cols kind (UInt16.ofNat row) ptr ↔ (e = .wrap ∧ ¬ c.RowFits row) ∨
      ∃ col < cols, e ∈ kind.events c.mem (c.row1 (UInt16.ofNat row))
        (c.row1 (UInt16.ofNat row) + c.inStride.toInt) (frac (UInt16.ofNat row) c.resizeFactorY)
        c.resizeFactorX (UInt16.ofNat col) (ptr + kind.advance * col) := by
  have hpos : 0 ≤ (c.y row : Int) * c.inStride.toInt :=
    Int.mul_nonneg (Int.natCast_nonneg _) hstride
  have hfits : (-2 ^ 31 ≤ (c.y row : Int) * c.inStride.toInt ∧
      (c.y row : Int) * c.inStride.toInt < 2 ^ 31) ↔ c.RowFits row :=
    ⟨fun hr => hr.2, fun hr => ⟨by omega, hr⟩⟩
  rw [rowEvents, coordFits_eq (h.row_product hrow), hskip, append_nil, nil_append,
    List.mem_append, mem_loopEvents, rowFits, h.coord_row hrow, mem_fits, hfits]

theorem Scaled.wrap_mem_iff (h : Scaled c rows cols) (hspec : kind.Spec p w)
    (hskip : c.skipFits = []) (hstride : 0 ≤ c.inStride.toInt) :
    .wrap ∈ planeEvents c rows cols kind ptr ↔ ∃ row < rows, ¬ c.RowFits row := by
  rw [planeEvents, mem_loopEvents]
  constructor
  · rintro ⟨row, hrow, hmem⟩
    rcases (h.mem_rowEvents hskip hstride hrow).mp hmem with hwrap | ⟨col, hcol, hmem⟩
    · exact ⟨row, hrow, hwrap.2⟩
    · obtain ⟨reads, hevents, -⟩ := hspec.events (h.frac_row hrow) (h.col_product hcol)
      rw [hevents] at hmem
      simp at hmem
  · rintro ⟨row, hrow, hno⟩
    exact ⟨row, hrow, (h.mem_rowEvents hskip hstride hrow).mpr (Or.inl ⟨rfl, hno⟩)⟩

theorem Scaled.read_mem_iff (h : Scaled c rows cols) (hspec : kind.Spec p w)
    (hskip : c.skipFits = []) (hstride : 0 ≤ c.inStride.toInt) (hfits : ∀ row < rows, c.RowFits row)
    {q : Plane} {offset : Int} : .read q offset ∈ planeEvents c rows cols kind ptr ↔
      q = p ∧ ∃ row < rows, ∃ col < cols,
        Touched (c.rowAt (c.y row)) (c.rowAt (c.y row) + c.inStride.toInt) w (c.x col) offset := by
  rw [planeEvents, mem_loopEvents]
  have hpixel : ∀ row < rows, ∀ col < cols, ∀ ptr : Int,
      .read q offset ∈ kind.events c.mem (c.row1 (UInt16.ofNat row))
        (c.row1 (UInt16.ofNat row) + c.inStride.toInt) (frac (UInt16.ofNat row) c.resizeFactorY)
        c.resizeFactorX (UInt16.ofNat col) ptr ↔ q = p ∧
      Touched (c.rowAt (c.y row)) (c.rowAt (c.y row) + c.inStride.toInt) w (c.x col) offset := by
    intro row hrow col hcol ptr
    obtain ⟨reads, hevents, hreads⟩ := hspec.events (h.frac_row hrow) (h.col_product hcol)
    rw [h.row1_eq hstride hrow (hfits row hrow), hevents, ← h.x_eq hcol, ← hreads]
    simp [eq_comm, and_comm]
  constructor
  · rintro ⟨row, hrow, hmem⟩
    rcases (h.mem_rowEvents hskip hstride hrow).mp hmem with hwrap | ⟨col, hcol, hmem⟩
    · exact absurd hwrap.1 nofun
    · obtain ⟨hq, htouched⟩ := (hpixel row hrow col hcol _).mp hmem
      exact ⟨hq, row, hrow, col, hcol, htouched⟩
  · rintro ⟨hq, row, hrow, col, hcol, htouched⟩
    refine ⟨row, hrow, (h.mem_rowEvents hskip hstride hrow).mpr (Or.inr ⟨col, hcol, ?_⟩)⟩
    exact (hpixel row hrow col hcol _).mpr ⟨hq, htouched⟩

/-- The bytes written for a pixel. -/
def Setup.pixelWrites (c : Setup) (p : Plane) (w row col : Nat) (ptr : Int) : List (Int × UInt8) :=
  (range w).map fun j : Nat => (ptr + j,
    component c.mem p (c.row1 (UInt16.ofNat row)) (c.row1 (UInt16.ofNat row) + c.inStride.toInt) w
      (c.x col) (frac (UInt16.ofNat col) c.resizeFactorX)
      (frac (UInt16.ofNat row) c.resizeFactorY) j)

theorem Scaled.written_pixel (h : Scaled c rows cols) (hspec : kind.Spec p w) (hrow : row < rows)
    (hcol : col < cols) {q : Plane} :
    written q (kind.events c.mem (c.row1 (UInt16.ofNat row))
        (c.row1 (UInt16.ofNat row) + c.inStride.toInt) (frac (UInt16.ofNat row) c.resizeFactorY)
        c.resizeFactorX (UInt16.ofNat col) ptr) =
      if q = p then c.pixelWrites p w row col ptr else [] := by
  obtain ⟨reads, hevents, -⟩ := hspec.events (h.frac_row hrow) (h.col_product hcol)
  rw [hevents, h.x_eq hcol, written_append, written_eq_nil (by simp), nil_append]
  by_cases hq : q = p
  · rw [if_pos hq, hq, Setup.pixelWrites]
    simp [written, List.filterMap_map]
  · rw [if_neg hq]
    simp [written, List.filterMap_map, Ne.symm hq]

theorem Scaled.written_eq (h : Scaled c rows cols) (hspec : kind.Spec p w) {q : Plane} :
    written q (planeEvents c rows cols kind ptr) = if q = p then
      (range rows).flatMap fun row : Nat => (range cols).flatMap fun col : Nat =>
        c.pixelWrites p w row col (ptr + (w * cols + c.skip.toNat : Int) * row + w * col)
      else [] := by
  have hrows : ∀ row < rows, ∀ ptr : Int,
      written q (rowEvents c cols kind (UInt16.ofNat row) ptr) = if q = p then
        (range cols).flatMap fun col : Nat => c.pixelWrites p w row col (ptr + w * col)
        else [] := by
    intro row hrow ptr
    simp only [rowEvents, written_append, coordFits, rowFits, Setup.skipFits, written_fits,
      nil_append, append_nil]
    rw [written_loopEvents (fun col hcol ptr => h.written_pixel hspec hrow hcol), hspec.advance]
  rw [planeEvents, written_loopEvents hrows, hspec.advance]

end Planes

end Omap4Hal.Camera.Nv12Resize

import Mathlib.Tactic.Ring
import Omap4Hal.Lib.ByteCopies

/- The preview frame that the application gets, from a semi-planar frame with a stride
   (`copy2Dto1D` of `AppCallbackNotifier.cpp`, for YUV420SP and YUV420P).

   A row of chroma is taken in steps of 32, 16 and 8 bytes. The last one loads 16 bytes and stores
   one lane of each register, so that a width that is not a multiple of 16 leaves bytes of its rows
   unwritten (`preview_converts_iff`). -/
namespace Omap4Hal.Camera.PreviewConversion

open Lib
open List (cons flatMap_congr length_append length_map map_flatMap map_map mem_append_right
  mem_cons_self mem_flatMap mem_map mem_range range)

/-! ## The code -/

inductive PixelFormat where
  | yuv420sp
  | yuv420p

/-- The two planes of the source. -/
inductive Plane where
  | luma
  | chroma
  deriving DecidableEq

/-- The accesses to the destination and to the planes, by their offsets. -/
abbrev Log := List (Access Int (Plane × Int))

/-- `memcpy` from the luma plane -/
def copyRow (dst src : Int) (n : Nat) : Log :=
  (range n).flatMap fun i : Nat =>
    [.load (.luma, src + i), .store (dst + i) (.luma, src + i)]

/-- Step 1 of `copy2Dto1D`, with the check behind each row. -/
def lumaRows (stride row : Nat) (bufferSrcEnd bufferDstEnd : Int) : Nat → Int × Int → Log
  | 0, _ => []
  | n + 1, (bufferSrc, bufferDst) =>
    copyRow bufferDst bufferSrc row ++
      if bufferSrc + stride > bufferSrcEnd ∨ bufferDst + row > bufferDstEnd then []
      else lumaRows stride row bufferSrcEnd bufferDstEnd n (bufferSrc + stride, bufferDst + row)

/-- `vld2.8`: bytes are loaded in order, the even ones into the first register and the odd ones
into the second. -/
def vld2 (lanes : Nat) (src : Int) : Log :=
  (range (2 * lanes)).map fun i : Nat => .load (.chroma, src + i)

/-- What an assembler block does with the two registers: the pointers, how far they move when
bytes are loaded and lanes stored, and the stores of the first lanes. -/
structure Block (γ : Type) where
  src : γ → Int
  move : Nat → Nat → γ → γ
  put : Nat → γ → List (Int × Int)

/-- `vswp` and `vst2.8`, with the pointers `src` and `dst` -/
def swap : Block (Int × Int) where
  src p := p.1
  move loaded stored p := (p.1 + loaded, p.2 + (2 * stored : Nat))
  put lanes p := (range lanes).flatMap fun i =>
    [(p.2 + (2 * i : Nat), p.1 + (2 * i + 1 : Nat)), (p.2 + (2 * i + 1 : Nat), p.1 + (2 * i : Nat))]

/-- `vst1.8` for V and for U, with the pointers `src`, `dst_u` and `dst_v` -/
def split : Block (Int × Int × Int) where
  src p := p.1
  move loaded stored p := (p.1 + loaded, p.2.1 + stored, p.2.2 + stored)
  put lanes p :=
    ((range lanes).map fun i => (p.2.2 + (i : Nat), p.1 + (2 * i + 1 : Nat))) ++
      (range lanes).map fun i => (p.2.1 + (i : Nat), p.1 + (2 * i : Nat))

section Rows

variable {γ : Type} (b : Block γ)

/-- One step: so many lanes are loaded, and so many of them stored. -/
def Block.step (loaded stored : Nat) (p : γ) : Log :=
  vld2 loaded (b.src p) ++ (b.put stored p).map fun c => .store c.1 (.chroma, c.2)

/-- The assembler block for a row of `n` bytes: steps of 32 bytes, of 16 bytes, and those that are
to take 8 bytes, with the lane `[0]` of both registers stored. -/
def Block.row (n : Nat) (p : γ) : Log × γ :=
  let r32 := takeBlocks 32 (b.move 32 16) (b.step 16 16) n p
  let r16 := takeBlocks 16 (b.move 16 8) (b.step 8 8) r32.2.1 r32.2.2
  let r8 := takeBlocks 8 (b.move 16 1) (b.step 8 1) r16.2.1 r16.2.2
  (r32.1 ++ r16.1 ++ r8.1, r8.2.2)

/-- Step 2: the loop over the rows, which moves `bufferSrc_UV` on by `alignedRow / 2` units of two
bytes. -/
def Block.rows (width alignedRow n : Nat) (p : γ) : Log :=
  rounds (fun p => b.move (2 * (alignedRow / 2)) 0 (b.row width p).2) (fun p => (b.row width p).1)
    n p

end Rows

/-- `copy2Dto1D` for the two formats -/
def copy2Dto1D (width height stride offset length : Nat) (pixelFormat : PixelFormat) : Log :=
  let bufferDstEnd := width * height
  let bufferSrcEnd := length + offset
  let row := width
  let alignedRow := stride - width
  let xOff := offset % stride
  let yOff := offset / stride
  let bufferSrc_UV := stride / 2 * yOff + xOff
  lumaRows stride row bufferSrcEnd bufferDstEnd height (offset, 0) ++
    match pixelFormat with
    | .yuv420sp =>
      swap.rows width alignedRow (height / 2) ((bufferSrc_UV : Nat), (row * height : Nat))
    | .yuv420p =>
      split.rows width alignedRow (height / 2)
        ((bufferSrc_UV : Nat), (row * height + row * height / 4 : Nat), (row * height : Nat))

/-! ## Layouts -/

/-- The place of the V sample of a block in the destination. -/
def dstV (pixelFormat : PixelFormat) (width height i j : Nat) : Nat :=
  match pixelFormat with
  | .yuv420sp => width * height + (width * j + 2 * i)
  | .yuv420p => width * height + (width / 2 * j + i)

/-- And of the U sample: behind V, or in a plane of its own. -/
def dstU (pixelFormat : PixelFormat) (width height i j : Nat) : Nat :=
  match pixelFormat with
  | .yuv420sp => width * height + (width * j + (2 * i + 1))
  | .yuv420p => width * height + width / 2 * (height / 2) + (width / 2 * j + i)

/-- A rectangle of a frame with `rows` rows, which starts at `offset`. -/
structure Crop (width height stride offset length rows : Nat) : Prop where
  width_even : width % 2 = 0
  height_even : height % 2 = 0
  stride_even : stride % 2 = 0
  stride_pos : 0 < stride
  column_even : offset % stride % 2 = 0
  row_even : offset / stride % 2 = 0
  columns : offset % stride + width ≤ stride
  inside : offset / stride + height ≤ rows
  covered : stride * rows ≤ length

/-- Where a plane of the frame ends. -/
def planeSize (stride rows : Nat) : Plane → Nat
  | .luma => stride * rows
  | .chroma => stride * (rows / 2)

/-- The rectangle is converted: every byte of the destination is written once. -/
structure Converts (width height stride offset length rows : Nat) (pixelFormat : PixelFormat) :
    Prop where
  once : ((stores (copy2Dto1D width height stride offset length pixelFormat)).map Prod.fst).Perm
    ((range (width * height * 3 / 2)).map fun k : Nat => (k : Int))
  inside : ∀ s ∈ loads (copy2Dto1D width height stride offset length pixelFormat),
    0 ≤ s.2 ∧ s.2 < planeSize stride rows s.1
  luma : ∀ (src : Plane × Int → UInt8) (dst : Int → UInt8), ∀ x < width, ∀ y < height,
    perform src dst (stores (copy2Dto1D width height stride offset length pixelFormat))
        (width * y + x : Nat) =
      src (.luma, (stride * (offset / stride + y) + (offset % stride + x) : Nat))
  chroma : ∀ (src : Plane × Int → UInt8) (dst : Int → UInt8), ∀ i < width / 2, ∀ j < height / 2,
    perform src dst (stores (copy2Dto1D width height stride offset length pixelFormat))
        (dstU pixelFormat width height i j) =
      src (.chroma, (stride * (offset / stride / 2 + j) + (offset % stride + 2 * i) : Nat)) ∧
    perform src dst (stores (copy2Dto1D width height stride offset length pixelFormat))
        (dstV pixelFormat width height i j) =
      src (.chroma, (stride * (offset / stride / 2 + j) + (offset % stride + (2 * i + 1)) : Nat))

/-! ## Luma -/

theorem loads_copyRow (dst src : Int) (n : Nat) :
    loads (copyRow dst src n) = (range n).map fun i : Nat => (.luma, src + i) := by
  rw [copyRow, loads_flatMap, List.map_eq_flatMap]
  rfl

theorem stores_copyRow (dst src : Int) (n : Nat) :
    stores (copyRow dst src n) =
      (range n).map fun i : Nat => (dst + i, (.luma, src + i)) := by
  rw [copyRow, stores_flatMap, List.map_eq_flatMap]
  rfl

theorem lumaRows_eq {stride row n : Nat} {srcEnd dstEnd src dst : Int}
    (hsrc : src + stride * n ≤ srcEnd) (hdst : dst + row * n ≤ dstEnd) :
    lumaRows stride row srcEnd dstEnd n (src, dst) =
      (range n).flatMap fun y : Nat => copyRow (dst + row * y) (src + stride * y) row := by
  have hrounds : rounds (fun p : Int × Int => (p.1 + stride, p.2 + row))
      (fun p => copyRow p.2 p.1 row) n (src, dst) =
        (range n).flatMap fun y : Nat => copyRow (dst + row * y) (src + stride * y) row := by
    refine rounds_eq (fun i : Nat => (src + stride * i, dst + row * i)) ?_ ?_ n
    · simp
    · intro i
      simp only [Nat.cast_add, Nat.cast_one, Int.mul_add, Int.mul_one, Int.add_assoc]
  rw [← hrounds]
  clear hrounds
  induction n generalizing src dst with
  | zero => rfl
  | succ n ih =>
    push_cast at hsrc hdst
    rw [Int.mul_add, Int.mul_one] at hsrc hdst
    have hsrc' : (0 : Int) ≤ stride * n := Int.mul_nonneg (by omega) (by omega)
    have hdst' : (0 : Int) ≤ row * n := Int.mul_nonneg (by omega) (by omega)
    rw [lumaRows, if_neg (by omega), ih (by omega) (by omega)]
    rfl

/-! ## Blocks -/

section Rows

variable {γ : Type} {b : Block γ} {pair : γ → Nat → List (Int × Int)}

/-- What a block does with the pairs of bytes that it stores. -/
structure Block.Lawful (b : Block γ) (pair : γ → Nat → List (Int × Int)) : Prop where
  put : ∀ m p, (b.put m p).Perm ((range m).flatMap (pair p))
  pair_length : ∀ p i, (pair p i).length = 2
  pair_move : ∀ m p i, pair (b.move (2 * m) m p) i = pair p (m + i)
  src_move : ∀ l m p, b.src (b.move l m p) = b.src p + l
  move_zero : ∀ p, b.move 0 0 p = p
  move_move : ∀ l m l' m' p, b.move l' m' (b.move l m p) = b.move (l + l') (m + m') p

theorem loads_step (l m : Nat) (p : γ) : loads (b.step l m p) =
    (range (2 * l)).map fun i : Nat => (Plane.chroma, b.src p + i) := by
  rw [Block.step, loads_append, vld2, loads_map_load, loads_map_store, List.append_nil]

theorem stores_step (l m : Nat) (p : γ) :
    stores (b.step l m p) = (b.put m p).map fun c => (c.1, (Plane.chroma, c.2)) := by
  rw [Block.step, stores_append, vld2, stores_map_load, List.nil_append, stores_map_store]

theorem Block.Lawful.stores_rounds (h : b.Lawful pair) (m n : Nat) (p : γ) :
    (stores (rounds (b.move (2 * m) m) (b.step m m) n p)).Perm
      ((range (m * n)).flatMap fun i =>
        (pair p i).map fun c => (c.1, (Plane.chroma, c.2))) := by
  have hpointer : rounds (b.move (2 * m) m) (b.step m m) n p =
      (range n).flatMap fun k => b.step m m (b.move (2 * (m * k)) (m * k) p) := by
    refine rounds_eq (fun k => b.move (2 * (m * k)) (m * k) p) (h.move_zero p) (fun k => ?_) n
    rw [h.move_move, Nat.mul_succ, Nat.mul_add]
  have hpairs : (range (m * n)).flatMap (fun i =>
      (pair p i).map fun c => (c.1, (Plane.chroma, c.2))) =
        (range n).flatMap fun k => (range m).flatMap fun i =>
          (pair (b.move (2 * (m * k)) (m * k) p) i).map fun c => (c.1, (Plane.chroma, c.2)) := by
    simp only [h.pair_move]
    rw [← range_flatMap_range, List.flatMap_assoc]
    simp only [List.flatMap_map]
  rw [hpointer, stores_flatMap, hpairs]
  refine .flatMap_left _ fun k _ => ?_
  rw [stores_step, ← map_flatMap]
  exact (h.put m _).map _

theorem Block.Lawful.loads_rounds (h : b.Lawful pair) (m n : Nat) (p : γ) :
    loads (rounds (b.move (2 * m) m) (b.step m m) n p) =
      (range (2 * m * n)).map fun i : Nat => (Plane.chroma, b.src p + i) := by
  have hpointer : rounds (b.move (2 * m) m) (b.step m m) n p =
      (range n).flatMap fun k => b.step m m (b.move (2 * m * k) (m * k) p) := by
    refine rounds_eq (fun k => b.move (2 * m * k) (m * k) p) (h.move_zero p) (fun k => ?_) n
    rw [h.move_move, Nat.mul_succ, Nat.mul_succ]
  rw [hpointer, loads_flatMap, ← range_flatMap_range, map_flatMap]
  simp only [loads_step, h.src_move, map_map]
  refine flatMap_congr fun k _ => List.map_congr_left fun i _ => ?_
  simp [Int.add_assoc]

theorem Block.Lawful.iterate (h : b.Lawful pair) (l m n : Nat) (p : γ) :
    (b.move l m)^[n] p = b.move (l * n) (m * n) p := by
  induction n generalizing p with
  | zero => exact (h.move_zero p).symm
  | succ n ih =>
    rw [Function.iterate_succ_apply, ih, h.move_move, Nat.mul_succ, Nat.mul_succ, Nat.add_comm l,
      Nat.add_comm m]

theorem Block.row_eq (h : b.Lawful pair) {n : Nat} (hn : n % 16 = 0) (p : γ) :
    b.row n p = (rounds (b.move (2 * 16) 16) (b.step 16 16) (n / 32) p ++
      rounds (b.move (2 * 8) 8) (b.step 8 8) (n % 32 / 16)
        (b.move (2 * (16 * (n / 32))) (16 * (n / 32)) p), b.move n (n / 2) p) := by
  have hrest : n % 32 % 16 = 0 := by omega
  have hstart : 2 * (16 * (n / 32)) = 32 * (n / 32) := by omega
  have hbytes : 32 * (n / 32) + 16 * (n % 32 / 16) = n := by omega
  have hpairs : 16 * (n / 32) + 8 * (n % 32 / 16) = n / 2 := by omega
  simp only [Block.row, takeBlocks_eq (show 0 < 32 by decide),
    takeBlocks_eq (show 0 < 16 by decide), takeBlocks_eq (show 0 < 8 by decide),
    h.iterate, hrest, h.move_move, hbytes, hpairs, hstart]
  exact congrArg (·, b.move n (n / 2) p) (List.append_nil _)

theorem Block.Lawful.stores_row (h : b.Lawful pair) {n : Nat} (hn : n % 16 = 0) (p : γ) :
    (stores (b.row n p).1).Perm ((range (n / 2)).flatMap fun i =>
      (pair p i).map fun c => (c.1, (Plane.chroma, c.2))) := by
  have hpairs : n / 2 = 16 * (n / 32) + 8 * (n % 32 / 16) := by omega
  rw [b.row_eq h hn, stores_append, hpairs, List.range_add, List.flatMap_append, List.flatMap_map]
  refine (h.stores_rounds 16 _ p).append ?_
  refine (h.stores_rounds 8 _ _).trans (.of_eq ?_)
  simp only [h.pair_move]

theorem Block.Lawful.loads_row (h : b.Lawful pair) {n : Nat} (hn : n % 16 = 0) (p : γ) :
    loads (b.row n p).1 = (range n).map fun i : Nat => (Plane.chroma, b.src p + i) := by
  have hbytes : n = 32 * (n / 32) + 16 * (n % 32 / 16) := by omega
  rw [b.row_eq h hn, loads_append, h.loads_rounds, h.loads_rounds, h.src_move]
  conv_rhs => rw [hbytes, List.range_add, List.map_append, map_map]
  refine congrArg₂ (· ++ ·) rfl (List.map_congr_left fun i _ => ?_)
  refine congrArg (Prod.mk Plane.chroma) ?_
  show b.src p + (2 * (16 * (n / 32)) : Nat) + (i : Int) = b.src p + (32 * (n / 32) + i : Nat)
  omega

theorem Block.Lawful.length_rounds (h : b.Lawful pair) (l m : Nat) (f : γ → γ) (n : Nat) (p : γ) :
    (stores (rounds f (b.step l m) n p)).length = 2 * m * n := by
  induction n generalizing p with
  | zero => rfl
  | succ n ih =>
    have hput : (b.put m p).length = 2 * m := by
      rw [(h.put m p).length_eq, List.length_flatMap]
      simp [h.pair_length, Nat.mul_comm]
    rw [rounds, stores_append, length_append, ih, stores_step, length_map, hput,
      Nat.mul_succ, Nat.add_comm]

theorem Block.Lawful.length_row (h : b.Lawful pair) (n : Nat) (p : γ) :
    (stores (b.row n p).1).length = 32 * (n / 32) + 16 * (n % 32 / 16) + 2 * (n % 32 % 16 / 8) := by
  simp only [Block.row, takeBlocks_eq (show 0 < 32 by decide),
    takeBlocks_eq (show 0 < 16 by decide), takeBlocks_eq (show 0 < 8 by decide),
    stores_append, length_append, h.length_rounds]

theorem Block.Lawful.length_rows (h : b.Lawful pair) (width alignedRow n : Nat) (p : γ) :
    (stores (b.rows width alignedRow n p)).length =
      (32 * (width / 32) + 16 * (width % 32 / 16) + 2 * (width % 32 % 16 / 8)) * n := by
  rw [Block.rows]
  induction n generalizing p with
  | zero => rfl
  | succ n ih =>
    rw [rounds, stores_append, length_append, ih, h.length_row, Nat.mul_succ, Nat.add_comm]

theorem Block.Lawful.rows_eq (h : b.Lawful pair) {width stride : Nat} (hwidth : width % 16 = 0)
    (hstride : stride % 2 = 0) (hle : width ≤ stride) (n : Nat) (p : γ) :
    b.rows width (stride - width) n p =
      (range n).flatMap fun j => (b.row width (b.move (stride * j) (width / 2 * j) p)).1 := by
  refine rounds_eq (fun j => b.move (stride * j) (width / 2 * j) p) (h.move_zero p) (fun j => ?_) n
  have hbytes : width + 2 * ((stride - width) / 2) = stride := by omega
  rw [b.row_eq h hwidth, h.move_move, h.move_move, hbytes, Nat.mul_succ, Nat.mul_succ]
  rfl

theorem Block.Lawful.stores_rows (h : b.Lawful pair) {width stride : Nat} (hwidth : width % 16 = 0)
    (hstride : stride % 2 = 0) (hle : width ≤ stride) (n : Nat) (p : γ) :
    (stores (b.rows width (stride - width) n p)).Perm
      ((range n).flatMap fun j => (range (width / 2)).flatMap fun i =>
        (pair (b.move (stride * j) (width / 2 * j) p) i).map fun c =>
          (c.1, (Plane.chroma, c.2))) := by
  rw [h.rows_eq hwidth hstride hle, stores_flatMap]
  exact .flatMap_left _ fun j _ => h.stores_row hwidth _

theorem Block.Lawful.mem_stores_rows (h : b.Lawful pair) {width stride : Nat}
    (hwidth : width % 16 = 0) (hstride : stride % 2 = 0) (hle : width ≤ stride) {n i j : Nat}
    (hj : j < n) (hi : i < width / 2) {p : γ} {c : Int × Int}
    (hc : c ∈ pair (b.move (stride * j) (width / 2 * j) p) i) :
    (c.1, (Plane.chroma, c.2)) ∈ stores (b.rows width (stride - width) n p) := by
  rw [(h.stores_rows hwidth hstride hle n p).mem_iff]
  refine mem_flatMap.mpr ⟨j, mem_range.mpr hj, ?_⟩
  refine mem_flatMap.mpr ⟨i, mem_range.mpr hi, ?_⟩
  exact List.mem_map_of_mem hc

theorem Block.Lawful.mem_loads_rows (h : b.Lawful pair) {width stride : Nat}
    (hwidth : width % 16 = 0) (hstride : stride % 2 = 0) (hle : width ≤ stride) {n : Nat} {p : γ}
    {s : Plane × Int} (hs : s ∈ loads (b.rows width (stride - width) n p)) :
    ∃ j < n, ∃ i < width, s = (Plane.chroma, b.src p + (stride * j + i : Nat)) := by
  rw [h.rows_eq hwidth hstride hle, loads_flatMap] at hs
  obtain ⟨j, hj, hrow⟩ := mem_flatMap.mp hs
  rw [h.loads_row hwidth, h.src_move] at hrow
  obtain ⟨i, hi, rfl⟩ := mem_map.mp hrow
  refine ⟨j, mem_range.mp hj, i, mem_range.mp hi, congrArg (Prod.mk Plane.chroma) ?_⟩
  omega

end Rows

/-- The pair `i` of a row, with U and V exchanged. -/
def swapPair (p : Int × Int) (i : Nat) : List (Int × Int) :=
  [(p.2 + (2 * i : Nat), p.1 + (2 * i + 1 : Nat)), (p.2 + (2 * i + 1 : Nat), p.1 + (2 * i : Nat))]

theorem swap_lawful : swap.Lawful swapPair where
  put _ _ := .refl _
  pair_length _ _ := rfl
  pair_move m p i := by
    simp only [swapPair, swap, cons.injEq, Prod.mk.injEq, and_true]
    omega
  src_move _ _ _ := rfl
  move_zero p := by simp [swap]
  move_move l m l' m' p := by
    simp only [swap, Prod.mk.injEq]
    omega

/-- The pair `i` of a row, with V and U apart. -/
def splitPair (p : Int × Int × Int) (i : Nat) : List (Int × Int) :=
  [(p.2.2 + (i : Nat), p.1 + (2 * i + 1 : Nat)), (p.2.1 + (i : Nat), p.1 + (2 * i : Nat))]

theorem split_lawful : split.Lawful splitPair where
  put m p := by
    simp only [split, List.map_eq_flatMap]
    exact List.flatMap_append_perm _ _ _
  pair_length _ _ := rfl
  pair_move m p i := by
    simp only [splitPair, split, cons.injEq, Prod.mk.injEq, and_true]
    omega
  src_move _ _ _ := rfl
  move_zero p := by simp [split]
  move_move l m l' m' p := by
    simp only [split, Prod.mk.injEq]
    omega

/-! ## The whole frame -/

variable {width height stride offset length rows : Nat}

theorem Crop.luma (h : Crop width height stride offset length rows) :
    lumaRows stride width (length + offset : Nat) (width * height : Nat) height (offset, 0) =
      (range height).flatMap fun y : Nat =>
        copyRow (0 + width * y) (offset + stride * y) width := by
  have hcovered : stride * height ≤ length :=
    Nat.le_trans (Nat.mul_le_mul_left stride (Nat.le_trans (Nat.le_add_left _ _) h.inside))
      h.covered
  refine lumaRows_eq ?_ ?_
  · push_cast
    have hlt := Int.ofNat_le.mpr hcovered
    push_cast at hlt
    omega
  · push_cast
    omega

theorem copy2Dto1D_eq (h : Crop width height stride offset length rows)
    (pixelFormat : PixelFormat) : copy2Dto1D width height stride offset length pixelFormat =
      ((range height).flatMap fun y : Nat =>
        copyRow (0 + width * y) (offset + stride * y) width) ++
      match pixelFormat with
      | .yuv420sp => swap.rows width (stride - width) (height / 2)
          ((stride / 2 * (offset / stride) + offset % stride : Nat), (width * height : Nat))
      | .yuv420p => split.rows width (stride - width) (height / 2)
          ((stride / 2 * (offset / stride) + offset % stride : Nat),
            (width * height + width * height / 4 : Nat), (width * height : Nat)) := by
  rw [← h.luma]
  rfl

theorem length_stores (h : Crop width height stride offset length rows)
    (pixelFormat : PixelFormat) :
    (stores (copy2Dto1D width height stride offset length pixelFormat)).length =
      width * height +
        (32 * (width / 32) + 16 * (width % 32 / 16) + 2 * (width % 32 % 16 / 8)) *
          (height / 2) := by
  have hluma : (stores ((range height).flatMap fun y : Nat =>
      copyRow (0 + width * y) (offset + stride * y) width)).length = width * height := by
    simp [stores_flatMap, List.length_flatMap, stores_copyRow, Nat.mul_comm]
  rw [copy2Dto1D_eq h, stores_append, length_append, hluma]
  cases pixelFormat with
  | yuv420sp => rw [swap_lawful.length_rows]
  | yuv420p => rw [split_lawful.length_rows]

/-- Where every byte is stored the width is a multiple of 16, unless there are no rows. -/
theorem of_once (h : Crop width height stride offset length rows) {pixelFormat : PixelFormat}
    (honce : ((stores (copy2Dto1D width height stride offset length pixelFormat)).map
      Prod.fst).Perm ((range (width * height * 3 / 2)).map fun k : Nat => (k : Int))) :
    width % 16 = 0 ∨ height = 0 := by
  have hlength := honce.length_eq
  rw [length_map, length_stores h, length_map, List.length_range] at hlength
  obtain ⟨r, hr⟩ := Nat.dvd_of_mod_eq_zero h.height_even
  have hsize : width * height * 3 / 2 = 3 * (width * r) := by
    rw [hr, show width * (2 * r) * 3 = 2 * (3 * (width * r)) by ring]
    exact Nat.mul_div_cancel_left _ (by decide)
  have hluma : width * height = 2 * (width * r) := by
    rw [hr]
    ring
  have hrows : height / 2 = r := by omega
  rw [hsize, hluma, hrows] at hlength
  have hsame : (32 * (width / 32) + 16 * (width % 32 / 16) + 2 * (width % 32 % 16 / 8)) * r =
      width * r := by omega
  rcases Nat.eq_zero_or_pos r with hzero | hpos
  · exact Or.inr (by omega)
  · have hrow := Nat.eq_of_mul_eq_mul_right hpos hsame
    exact Or.inl (by omega)

theorem luma_dst (width height offset stride : Nat) :
    (stores ((range height).flatMap fun y : Nat =>
      copyRow (0 + width * y) (offset + stride * y) width)).map Prod.fst =
        (range (width * height)).map fun k => (0 : Int) + (k : Nat) := by
  rw [← rows_eq, stores_flatMap, map_flatMap]
  simp only [stores_copyRow, map_map, Nat.cast_add, Nat.cast_mul, ← Int.add_assoc]
  rfl

theorem swap_dst (hwidth : width % 16 = 0) (hstride : stride % 2 = 0) (hle : width ≤ stride)
    (n : Nat) (p : Int × Int) :
    ((stores (swap.rows width (stride - width) n p)).map Prod.fst).Perm
      ((range (width * n)).map fun k => p.2 + (k : Nat)) := by
  refine ((swap_lawful.stores_rows hwidth hstride hle n p).map Prod.fst).trans (.of_eq ?_)
  have hrow : ∀ j : Nat, ((range (width / 2)).flatMap fun i =>
      (swapPair (swap.move (stride * j) (width / 2 * j) p) i).map Prod.fst) =
        (range width).map fun k => p.2 + (width * j + k : Nat) := by
    intro j
    have hbytes : 2 * (width / 2) = width := by omega
    have hstart : 2 * (width / 2 * j) = width * j := by rw [← Nat.mul_assoc, hbytes]
    have hpairs := pairs_eq (p.2 + (width * j : Nat)) (width / 2)
    rw [hbytes] at hpairs
    simp only [Int.add_assoc, ← Nat.cast_add] at hpairs
    rw [← hpairs]
    refine flatMap_congr fun i _ => ?_
    show [p.2 + (2 * (width / 2 * j) : Nat) + (2 * i : Nat),
      p.2 + (2 * (width / 2 * j) : Nat) + (2 * i + 1 : Nat)] = _
    rw [hstart, Int.add_assoc, Int.add_assoc, ← Nat.cast_add, ← Nat.cast_add]
  rw [← rows_eq, map_flatMap]
  simp only [map_flatMap, map_map, ← hrow]
  rfl

theorem split_dst (hwidth : width % 16 = 0) (hstride : stride % 2 = 0) (hle : width ≤ stride)
    (n : Nat) (p : Int × Int × Int) :
    ((stores (split.rows width (stride - width) n p)).map Prod.fst).Perm
      (((range (width / 2 * n)).map fun k => p.2.2 + (k : Nat)) ++
        (range (width / 2 * n)).map fun k => p.2.1 + (k : Nat)) := by
  refine ((split_lawful.stores_rows hwidth hstride hle n p).map Prod.fst).trans ?_
  rw [← rows_eq, ← rows_eq, map_flatMap]
  simp only [map_flatMap, map_map]
  refine .trans (.of_eq ?_) (planes_perm (fun j i => p.2.2 + (width / 2 * j + i : Nat))
    (fun j i => p.2.1 + (width / 2 * j + i : Nat)) n (width / 2))
  refine flatMap_congr fun j _ => flatMap_congr fun i _ => ?_
  show [p.2.2 + (width / 2 * j : Nat) + (i : Int), p.2.1 + (width / 2 * j : Nat) + (i : Int)] = _
  rw [Int.add_assoc, Int.add_assoc, ← Nat.cast_add]

theorem Crop.first_block (h : Crop width height stride offset length rows) :
    stride / 2 * (offset / stride) + offset % stride =
      stride * (offset / stride / 2) + offset % stride := by
  obtain ⟨s, hs⟩ := Nat.dvd_of_mod_eq_zero h.stride_even
  obtain ⟨t, ht⟩ := Nat.dvd_of_mod_eq_zero h.row_even
  have hhalf : stride / 2 = s := by omega
  have hrow : offset / stride / 2 = t := by omega
  rw [hhalf, hrow, ht, hs]
  ring

theorem Crop.plane (h : Crop width height stride offset length rows) :
    width * height / 4 = width / 2 * (height / 2) := by
  obtain ⟨c, rfl⟩ := Nat.dvd_of_mod_eq_zero h.width_even
  obtain ⟨r, rfl⟩ := Nat.dvd_of_mod_eq_zero h.height_even
  rw [show 2 * c * (2 * r) = 4 * (c * r) by ring]
  simp only [Nat.mul_div_cancel_left _ (show 0 < 4 by decide),
    Nat.mul_div_cancel_left _ (show 0 < 2 by decide)]

theorem luma_source (offset stride x y : Nat) : (offset + stride * y + x : Int) =
    (stride * (offset / stride + y) + (offset % stride + x) : Nat) := by
  have hoffset := Nat.div_add_mod offset stride
  generalize offset / stride = q at hoffset
  generalize offset % stride = c at hoffset
  subst hoffset
  push_cast
  ring

theorem mem_luma (h : Crop width height stride offset length rows) (pixelFormat : PixelFormat)
    {x y : Nat} (hx : x < width) (hy : y < height) :
    (((width * y + x : Nat) : Int), (Plane.luma,
      ((stride * (offset / stride + y) + (offset % stride + x) : Nat) : Int))) ∈
        stores (copy2Dto1D width height stride offset length pixelFormat) := by
  rw [copy2Dto1D_eq h, stores_append, stores_flatMap]
  refine List.mem_append_left _ (mem_flatMap.mpr ⟨y, mem_range.mpr hy, ?_⟩)
  rw [stores_copyRow]
  refine mem_map.mpr ⟨x, mem_range.mpr hx, ?_⟩
  rw [← luma_source]
  push_cast
  rw [Int.zero_add]

section Converted

variable (h : Crop width height stride offset length rows) (hwidth : width % 16 = 0)

include h hwidth

theorem once (pixelFormat : PixelFormat) :
    ((stores (copy2Dto1D width height stride offset length pixelFormat)).map Prod.fst).Perm
      ((range (width * height * 3 / 2)).map fun k : Nat => (k : Int)) := by
  have hle : width ≤ stride := Nat.le_trans (Nat.le_add_left _ _) h.columns
  obtain ⟨r, hr⟩ := Nat.dvd_of_mod_eq_zero h.height_even
  obtain ⟨c, hc⟩ := Nat.dvd_of_mod_eq_zero h.width_even
  have hrows : height / 2 = r := by omega
  have hcolumns : width / 2 = c := by omega
  have hzero : (fun k : Nat => (k : Int)) = fun k : Nat => (0 : Int) + (k : Nat) := by
    funext k
    exact (Int.zero_add _).symm
  rw [copy2Dto1D_eq h, stores_append, List.map_append, luma_dst, hzero]
  cases pixelFormat with
  | yuv420sp =>
    have hsize : width * height * 3 / 2 = width * height + width * (height / 2) := by
      rw [hrows, hr, show width * (2 * r) * 3 = 2 * (width * (2 * r) + width * r) by ring]
      exact Nat.mul_div_cancel_left _ (by decide)
    rw [hsize, ← map_range_append, Int.zero_add]
    exact (swap_dst hwidth h.stride_even hle _ _).append_left _
  | yuv420p =>
    have hsize : width * height * 3 / 2 =
        width * height + width / 2 * (height / 2) + width / 2 * (height / 2) := by
      rw [hrows, hcolumns, hr, hc, show 2 * c * (2 * r) * 3 =
        2 * (2 * c * (2 * r) + c * r + c * r) by ring]
      exact Nat.mul_div_cancel_left _ (by decide)
    rw [hsize, ← map_range_append, ← map_range_append, List.append_assoc, Int.zero_add,
      Int.zero_add, h.plane]
    exact (split_dst hwidth h.stride_even hle _ _).append_left _

theorem inside (pixelFormat : PixelFormat) {s : Plane × Int}
    (hs : s ∈ loads (copy2Dto1D width height stride offset length pixelFormat)) :
    0 ≤ s.2 ∧ s.2 < planeSize stride rows s.1 := by
  have hle : width ≤ stride := Nat.le_trans (Nat.le_add_left _ _) h.columns
  have hcolumns := h.columns
  have hinside := h.inside
  have heven := h.height_even
  have hroweven := h.row_even
  have hchroma : ∀ j < height / 2, ∀ i < width,
      stride * (offset / stride / 2) + offset % stride + (stride * j + i) <
        stride * (rows / 2) := by
    intro j hj i hi
    have hplace := place_lt (show offset / stride / 2 + j < rows / 2 by omega)
      (show offset % stride + i < stride by omega)
    rw [Nat.mul_add] at hplace
    omega
  rw [copy2Dto1D_eq h, loads_append, h.first_block] at hs
  generalize stride * (offset / stride / 2) + offset % stride = first at hs hchroma
  rcases List.mem_append.mp hs with hluma | hs
  · rw [loads_flatMap] at hluma
    obtain ⟨y, hy, hrow⟩ := mem_flatMap.mp hluma
    rw [loads_copyRow] at hrow
    obtain ⟨x, hx, rfl⟩ := mem_map.mp hrow
    rw [mem_range] at hy hx
    have hplace := place_lt (show offset / stride + y < rows by omega)
      (show offset % stride + x < stride by omega)
    show (0 : Int) ≤ offset + stride * y + x ∧ (offset + stride * y + x : Int) < _
    rw [luma_source]
    exact ⟨Int.natCast_nonneg _, Int.ofNat_lt.mpr hplace⟩
  · cases pixelFormat with
    | yuv420sp =>
      obtain ⟨j, hj, i, hi, rfl⟩ := swap_lawful.mem_loads_rows hwidth h.stride_even hle hs
      have hlt := hchroma j hj i hi
      show (0 : Int) ≤ (first : Nat) + (stride * j + i : Nat) ∧
        ((first : Nat) + (stride * j + i : Nat) : Int) < (stride * (rows / 2) : Nat)
      omega
    | yuv420p =>
      obtain ⟨j, hj, i, hi, rfl⟩ := split_lawful.mem_loads_rows hwidth h.stride_even hle hs
      have hlt := hchroma j hj i hi
      show (0 : Int) ≤ (first : Nat) + (stride * j + i : Nat) ∧
        ((first : Nat) + (stride * j + i : Nat) : Int) < (stride * (rows / 2) : Nat)
      omega

theorem mem_chroma (pixelFormat : PixelFormat) {i j : Nat} (hi : i < width / 2)
    (hj : j < height / 2) :
    (((dstU pixelFormat width height i j : Nat) : Int), (Plane.chroma,
        ((stride * (offset / stride / 2 + j) + (offset % stride + 2 * i) : Nat) : Int))) ∈
          stores (copy2Dto1D width height stride offset length pixelFormat) ∧
      (((dstV pixelFormat width height i j : Nat) : Int), (Plane.chroma,
        ((stride * (offset / stride / 2 + j) + (offset % stride + (2 * i + 1)) : Nat) : Int))) ∈
          stores (copy2Dto1D width height stride offset length pixelFormat) := by
  have hle : width ≤ stride := Nat.le_trans (Nat.le_add_left _ _) h.columns
  have hbytes : 2 * (width / 2 * j) = width * j := by
    rw [← Nat.mul_assoc, show 2 * (width / 2) = width by omega]
  rw [copy2Dto1D_eq h, stores_append, h.first_block, Nat.mul_add]
  generalize offset / stride / 2 = q
  generalize offset % stride = column
  cases pixelFormat with
  | yuv420sp =>
    have hmem := @Block.Lawful.mem_stores_rows _ swap swapPair swap_lawful width stride hwidth
      h.stride_even hle (height / 2) i j hj hi
      ((stride * q + column : Nat), (width * height : Nat))
    constructor
    · refine mem_append_right _ ?_
      convert hmem (List.mem_cons_of_mem _ mem_cons_self) using 2
      · simp only [dstU, swap]
        omega
      · refine congrArg (Prod.mk Plane.chroma) ?_
        simp only [swap]
        omega
    · refine mem_append_right _ ?_
      convert hmem mem_cons_self using 2
      · simp only [dstV, swap]
        omega
      · refine congrArg (Prod.mk Plane.chroma) ?_
        simp only [swap]
        omega
  | yuv420p =>
    have hmem := @Block.Lawful.mem_stores_rows _ split splitPair split_lawful width stride hwidth
      h.stride_even hle (height / 2) i j hj hi ((stride * q + column : Nat),
        (width * height + width * height / 4 : Nat), (width * height : Nat))
    constructor
    · refine mem_append_right _ ?_
      convert hmem (List.mem_cons_of_mem _ mem_cons_self) using 2
      · simp only [dstU, split, h.plane]
        omega
      · refine congrArg (Prod.mk Plane.chroma) ?_
        simp only [split]
        omega
    · refine mem_append_right _ ?_
      convert hmem mem_cons_self using 2
      · simp only [dstV, split]
        omega
      · refine congrArg (Prod.mk Plane.chroma) ?_
        simp only [split]
        omega

theorem converts_of_width (pixelFormat : PixelFormat) :
    Converts width height stride offset length rows pixelFormat := by
  have honce := once h hwidth pixelFormat
  have hnodup : ((stores (copy2Dto1D width height stride offset length pixelFormat)).map
      Prod.fst).Nodup := honce.nodup_iff.mpr (List.nodup_range.map fun _ _ heq => Int.ofNat.inj heq)
  exact
    { once := honce
      inside := fun s hs => inside h hwidth pixelFormat hs
      luma := fun _ _ x hx y hy => perform_of_mem hnodup (mem_luma h pixelFormat hx hy)
      chroma := fun _ _ i hi j hj => by
        obtain ⟨hu, hv⟩ := mem_chroma h hwidth pixelFormat hi hj
        exact ⟨perform_of_mem hnodup hu, perform_of_mem hnodup hv⟩ }

end Converted

theorem converts_of_height (width stride offset length rows : Nat) (pixelFormat : PixelFormat) :
    Converts width 0 stride offset length rows pixelFormat := by
  have hnone : copy2Dto1D width 0 stride offset length pixelFormat = [] := by
    cases pixelFormat
    · rfl
    · rfl
  constructor
  case once => rw [hnone, Nat.mul_zero]; exact .refl _
  case inside =>
    rw [hnone]
    exact fun s hs => absurd hs List.not_mem_nil
  case luma => exact fun _ _ _ _ _ hy => absurd hy (Nat.not_lt_zero _)
  case chroma => exact fun _ _ _ _ _ hj => absurd hj (Nat.not_lt_zero _)

/-- The rectangle is converted exactly if its width is a multiple of 16, or it has no rows. -/
theorem preview_converts_iff (width height stride offset length rows : Nat)
    (pixelFormat : PixelFormat) (h : Crop width height stride offset length rows) :
    Converts width height stride offset length rows pixelFormat ↔
      width % 16 = 0 ∨ height = 0 := by
  constructor
  · exact fun hconverts => of_once h hconverts.once
  · rintro (hwidth | rfl)
    · exact converts_of_width h hwidth pixelFormat
    · exact converts_of_height width stride offset length rows pixelFormat

/-- A frame of 16 columns and two rows. -/
theorem converts_sixteen :
    Converts 16 2 16 0 32 2 .yuv420sp ↔ 16 % 16 = 0 ∨ 2 = 0 :=
  preview_converts_iff 16 2 16 0 32 2 .yuv420sp
    ⟨rfl, rfl, rfl, by decide, rfl, rfl, by decide, by decide, by decide⟩

/-- Of 24 columns only 18 bytes of a row of chroma are stored. -/
theorem tail_lost : ¬ ∀ (width height stride offset length rows : Nat)
    (pixelFormat : PixelFormat), Crop width height stride offset length rows →
      Converts width height stride offset length rows pixelFormat := by
  intro hall
  have hcrop : Crop 24 2 32 0 64 2 :=
    ⟨rfl, rfl, rfl, by decide, rfl, rfl, by decide, by decide, by decide⟩
  have hwidth := of_once hcrop (hall 24 2 32 0 64 2 .yuv420sp hcrop).once
  exact absurd hwidth (by decide)

end Omap4Hal.Camera.PreviewConversion

import Mathlib.Algebra.Group.Int.Defs
import Mathlib.Algebra.Group.Nat.Defs
import Omap4Hal.Lib.CountedLoop

/- The resizing of a picture in NV12 (camera/NV12_resize.c, `VT_resizeFrame_Video_opt2_lp`). The
   coordinates in the input are those in the output times a factor with nine bits of fraction,
   of which three select the weights of four neighbouring samples. The chroma plane has half
   the width and height, and uses the same factor.

   A run leaves a log: every byte read and written with its offset in the plane, and a mark for
   every intermediate value that its type cannot hold. The buffers of the two pictures are
   different. -/
namespace Omap4Hal.Camera.Nv12Resize

open Lib

inductive ImageFormat where
  | none
  | rgb565
  | rgb888
  | yCbCr420lp
  | yCbCr
  | yCbCr420FramePk
  deriving DecidableEq, Repr

/-- `structConvImage`; of `imgPtr` only whether it is set. -/
structure ConvImage where
  uWidth : Int32
  uHeight : Int32
  uStride : Int32
  eFormat : ImageFormat := .yCbCr420lp
  imgPtr : Bool := true
  uOffset : Int32 := 0

structure Rect where
  x : UInt32
  y : UInt32
  uWidth : UInt32
  uHeight : UInt32

inductive Plane where
  | luma
  | chroma
  deriving DecidableEq, Repr

/-- The bytes of the input, by the offset from `imgPtr` or `clrPtr`. -/
abbrev Memory : Type := Plane → Int → UInt8

inductive Event where
  | read (p : Plane) (offset : Int)
  | write (p : Plane) (offset : Int) (value : UInt8)
  /-- An intermediate value wrapped. -/
  | wrap
  deriving DecidableEq

/-- The mark for a value that may not fit. -/
def fits (c : Prop) [Decidable c] : List Event := if c then [] else [.wrap]

/-! ## The weights -/

/-- `bWeights[xf][yf]`: the weights of the samples A, B, D and C. -/
def bWeights : List (List (List UInt8)) :=
  [[[64, 0, 0, 0], [56, 0, 0, 8], [48, 0, 0, 16], [40, 0, 0, 24],
    [32, 0, 0, 32], [24, 0, 0, 40], [16, 0, 0, 48], [8, 0, 0, 56]],
   [[56, 8, 0, 0], [49, 7, 1, 7], [42, 6, 2, 14], [35, 5, 3, 21],
    [28, 4, 4, 28], [21, 3, 5, 35], [14, 2, 6, 42], [7, 1, 7, 49]],
   [[48, 16, 0, 0], [42, 14, 2, 6], [36, 12, 4, 12], [30, 10, 6, 18],
    [24, 8, 8, 24], [18, 6, 10, 30], [12, 4, 12, 36], [6, 2, 14, 42]],
   [[40, 24, 0, 0], [35, 21, 3, 5], [30, 18, 6, 10], [25, 15, 9, 15],
    [20, 12, 12, 20], [15, 9, 15, 25], [10, 6, 18, 30], [5, 3, 21, 35]],
   [[32, 32, 0, 0], [28, 28, 4, 4], [24, 24, 8, 8], [20, 20, 12, 12],
    [16, 16, 16, 16], [12, 12, 20, 20], [8, 8, 24, 24], [4, 4, 28, 28]],
   [[24, 40, 0, 0], [21, 35, 5, 3], [18, 30, 10, 6], [15, 25, 15, 9],
    [12, 20, 20, 12], [9, 15, 25, 15], [6, 10, 30, 18], [3, 5, 35, 21]],
   [[16, 48, 0, 0], [14, 42, 6, 2], [12, 36, 12, 4], [10, 30, 18, 6],
    [8, 24, 24, 8], [6, 18, 30, 10], [4, 12, 36, 12], [2, 6, 42, 14]],
   [[8, 56, 0, 0], [7, 49, 7, 1], [6, 42, 14, 2], [5, 35, 21, 3],
    [4, 28, 28, 4], [3, 21, 35, 5], [2, 14, 42, 6], [1, 7, 49, 7]]]

def weight (xf yf : UInt16) (k : Nat) : UInt8 :=
  ((bWeights.getD xf.toNat []).getD yf.toNat []).getD k 0

/-- `accum_1`, of 16 bits, after the four samples. -/
def accumulate (xf yf : UInt16) (in11 in12 in21 in22 : UInt8) : UInt16 :=
  (weight xf yf 0).toUInt16 * in11.toUInt16 + (weight xf yf 1).toUInt16 * in12.toUInt16 +
    (weight xf yf 3).toUInt16 * in21.toUInt16 + (weight xf yf 2).toUInt16 * in22.toUInt16

def blend (xf yf : UInt16) (in11 in12 in21 in22 : UInt8) : UInt8 :=
  (accumulate xf yf in11 in12 in21 in22 >>> 6).toUInt8

/-- The sum and the byte it becomes fit. -/
def blendFits (xf yf : UInt16) (in11 in12 in21 in22 : UInt8) : List Event :=
  let sum := (weight xf yf 0).toNat * in11.toNat + (weight xf yf 1).toNat * in12.toNat +
    (weight xf yf 3).toNat * in21.toNat + (weight xf yf 2).toNat * in22.toNat
  fits (sum < 2 ^ 16) ++ fits (sum / 64 < 2 ^ 8)

/-! ## Coordinates -/

/-- `x` and `y`. -/
def coord (i : UInt16) (resizeFactor : UInt32) : UInt16 :=
  ((i.toUInt32 * resizeFactor) >>> 9).toUInt16

/-- `xf` and `yf`. -/
def frac (i : UInt16) (resizeFactor : UInt32) : UInt16 :=
  (((i.toUInt32 * resizeFactor) >>> 6) &&& 7).toUInt16

def coordFits (i : UInt16) (resizeFactor : UInt32) : List Event :=
  fits (i.toNat * resizeFactor.toNat < 2 ^ 32) ++
    fits (i.toNat * resizeFactor.toNat / 512 < 2 ^ 16)

/-- `(y) * i_img_ptr->uStride`, of type `int`. -/
def rowOffset (y : UInt16) (uStride : Int32) : Int := (Int32.ofNat y.toNat * uStride).toInt

def rowFits (y : UInt16) (uStride : Int32) : List Event :=
  fits (-2 ^ 31 ≤ (y.toNat : Int) * uStride.toInt ∧ (y.toNat : Int) * uStride.toInt < 2 ^ 31)

/-- The four reads and the value of a sample; `step` is the distance to the sample on the right. -/
def sample (mem : Memory) (p : Plane) (ptr1 ptr2 step : Int) (xf yf : UInt16) :
    List Event × UInt8 :=
  let in11 := mem p ptr1
  let in12 := mem p (ptr1 + step)
  let in21 := mem p ptr2
  let in22 := mem p (ptr2 + step)
  ([.read p ptr1, .read p (ptr1 + step), .read p ptr2, .read p (ptr2 + step)] ++
      blendFits xf yf in11 in12 in21 in22,
    blend xf yf in11 in12 in21 in22)

/-! ## The two planes -/

/-- What the loops change: `ptr8`, or `ptr8Cb`, and the log. -/
structure Work where
  ptr8 : Int
  log : List Event := []

/-- The end of a pass over a pixel: what it has added to the log, and the step of the pointer. -/
def Work.append (s : Work) (advance : Int) (events : Int → List Event) : Work :=
  { ptr8 := s.ptr8 + advance, log := s.log ++ events s.ptr8 }

def lumaEvents (mem : Memory) (pu8Yrow1 pu8Yrow2 : Int) (yf : UInt16) (resizeFactorX : UInt32)
    (col : UInt16) (ptr8 : Int) : List Event :=
  let x : Int := (coord col resizeFactorX).toNat
  let xf := frac col resizeFactorX
  let r := sample mem .luma (pu8Yrow1 + x) (pu8Yrow2 + x) 1 xf yf
  coordFits col resizeFactorX ++ r.1 ++ [.write .luma ptr8 r.2]

def lumaPixel (mem : Memory) (pu8Yrow1 pu8Yrow2 : Int) (yf : UInt16) (resizeFactorX : UInt32)
    (col : UInt16) (s : Work) : Option Work :=
  some (s.append 1 (lumaEvents mem pu8Yrow1 pu8Yrow2 yf resizeFactorX col))

/-- Cb and Cr: `ptr8Cr` is one beyond `ptr8Cb`, and so are the pointers to the samples. The log has
the samples of Cb first. -/
def chromaEvents (mem : Memory) (pu8Cbr1 pu8Cbr2 : Int) (yf : UInt16) (resizeFactorX : UInt32)
    (col : UInt16) (ptr8Cb : Int) : List Event :=
  let x : Int := (coord col resizeFactorX).toNat
  let xf := frac col resizeFactorX
  let cb := sample mem .chroma (pu8Cbr1 + x * 2) (pu8Cbr2 + x * 2) 2 xf yf
  let cr := sample mem .chroma (pu8Cbr1 + 1 + x * 2) (pu8Cbr2 + 1 + x * 2) 2 xf yf
  coordFits col resizeFactorX ++ cb.1 ++ cr.1 ++
    [.write .chroma ptr8Cb cb.2, .write .chroma (ptr8Cb + 1) cr.2]

def chromaPixel (mem : Memory) (pu8Cbr1 pu8Cbr2 : Int) (yf : UInt16) (resizeFactorX : UInt32)
    (col : UInt16) (s : Work) : Option Work :=
  some (s.append 2 (chromaEvents mem pu8Cbr1 pu8Cbr2 yf resizeFactorX col))

/-- The parameters of the loops. -/
structure Setup where
  mem : Memory
  /-- The offset of the first row in the input. -/
  base : Int
  inStride : Int32
  outStride : Int32
  resizeFactorX : UInt32
  resizeFactorY : UInt32
  codx : UInt32
  cody : UInt32

/-- `o_img_ptr->uStride - codx`, which is unsigned. -/
def Setup.skip (c : Setup) : UInt32 := c.outStride.toUInt32 - c.codx

def Setup.skipFits (c : Setup) : List Event :=
  fits (0 ≤ c.outStride.toInt - c.codx.toNat ∧ c.outStride.toInt - c.codx.toNat < 2 ^ 32)

/-- A pass of the loop over the rows, with the loop over the columns inside. -/
def planeRow (c : Setup) (cols : UInt32)
    (pixel : Memory → Int → Int → UInt16 → UInt32 → UInt16 → Work → Option Work) (row : UInt16)
    (s : Work) : Option Work :=
  let y := coord row c.resizeFactorY
  let yf := frac row c.resizeFactorY
  let row1 := c.base + rowOffset y c.inStride
  let row2 := row1 + c.inStride.toInt
  (for16 cols (pixel c.mem row1 row2 yf c.resizeFactorX)
      { s with log := s.log ++ (coordFits row c.resizeFactorY ++ rowFits y c.inStride) }).map
    fun t => { ptr8 := t.ptr8 + c.skip.toNat, log := t.log ++ c.skipFits }

def lumaPlane (c : Setup) (s : Work) : Option Work :=
  for16 c.cody (planeRow c c.codx lumaPixel) s

def chromaPlane (c : Setup) (s : Work) : Option Work :=
  for16 (c.cody >>> 1) (planeRow c (c.codx >>> 1) chromaPixel) s

/-! ## The function -/

structure Resized where
  ok : Bool
  log : List Event

/-- `idx` and `idy`, of 16 bits. -/
def ConvImage.idx (i : ConvImage) : UInt16 := i.uWidth.toUInt32.toUInt16

def ConvImage.idy (i : ConvImage) : UInt16 := i.uHeight.toUInt32.toUInt16

def sizeFits (i : ConvImage) : List Event :=
  fits (0 ≤ i.uWidth.toInt ∧ i.uWidth.toInt < 2 ^ 16) ++
    fits (0 ≤ i.uHeight.toInt ∧ i.uHeight.toInt < 2 ^ 16)

/-- `((idx-1)<<9) / codx`; the division by zero is not modelled. -/
def resizeFactor (idx : UInt16) (codx : UInt32) : UInt32 := ((idx.toUInt32 - 1) <<< 9) / codx

def Rect.full (o : ConvImage) : Rect := ⟨0, 0, o.uWidth.toUInt32, o.uHeight.toUInt32⟩

def setup (mem : Memory) (i o : ConvImage) (crop : Rect) (base : Int32) : Setup :=
  { mem
    base := base.toInt
    inStride := i.uStride
    outStride := o.uStride
    resizeFactorX := resizeFactor i.idx crop.uWidth
    resizeFactorY := resizeFactor i.idy crop.uHeight
    codx := crop.uWidth
    cody := crop.uHeight }

/-- `cox + coy*o_img_ptr->uWidth`. -/
def start (o : ConvImage) (crop : Rect) : Int :=
  crop.x.toNat + (crop.y * o.uWidth.toUInt32).toNat

def startFits (o : ConvImage) (crop : Rect) : List Event :=
  fits (crop.y.toNat * o.uWidth.toUInt32.toNat < 2 ^ 32)

/-- `VT_resizeFrame_Video_opt2_lp`; `none` if a loop is never left. -/
def resizeFrame (mem : Memory) (i o : ConvImage) (cropout : Option Rect) : Option Resized :=
  if i.imgPtr = false ∨ o.imgPtr = false then some ⟨false, []⟩
  else
    let crop := cropout.getD (Rect.full o)
    if i.idx < 1 ∨ i.idy < 1 ∨ i.uStride < 1 then some ⟨false, sizeFits i⟩
    else if i.eFormat = .yCbCr420lp ∧ o.eFormat = .yCbCr420lp then
      match lumaPlane (setup mem i o crop i.uOffset)
        { ptr8 := start o crop, log := sizeFits i ++ startFits o crop } with
      | none => none
      | some s =>
        (chromaPlane (setup mem i o crop (i.uOffset / 2)) { s with ptr8 := start o crop }).map
          fun t => ⟨true, t.log⟩
    else some ⟨false, sizeFits i⟩

/-! ## The log of the loops -/

/-- What the passes of a loop add, each with the pointer where the ones before have left it. -/
def loopEvents (n : Nat) (advance : Int) (events : UInt16 → Int → List Event) (ptr : Int) :
    List Event :=
  (List.range n).flatMap fun k => events (UInt16.ofNat k) (ptr + advance * k)

theorem for16_append {body : UInt16 → Work → Option Work} {advance : Int}
    {events : UInt16 → Int → List Event} (h : ∀ i s, body i s = some (s.append advance (events i)))
    {n : UInt32} (hn : n.toNat ≤ 65535) (s : Work) :
    for16 n body s = some (s.append (advance * n.toNat) (loopEvents n.toNat advance events)) := by
  have hzero : s.append (advance * (0 : Nat)) (loopEvents 0 advance events) = s := by
    simp [Work.append, loopEvents]
  have hloop := for16_eq hn fun k _ =>
    show body (UInt16.ofNat k) (s.append (advance * k) (loopEvents k advance events)) =
      some (s.append (advance * (k + 1 : Nat)) (loopEvents (k + 1) advance events)) by
    rw [h]
    simp only [Work.append, loopEvents, List.range_succ, List.flatMap_append,
      List.flatMap_singleton, List.append_assoc, Int.natCast_add, Int.cast_ofNat_Int, Int.mul_add,
      Int.mul_one, Int.add_assoc]
  rwa [hzero] at hloop

/-- The kinds of pixels: how far the pointer goes, and what is added to the log. -/
structure PixelKind where
  pixel : Memory → Int → Int → UInt16 → UInt32 → UInt16 → Work → Option Work
  advance : Int
  events : Memory → Int → Int → UInt16 → UInt32 → UInt16 → Int → List Event
  pixel_eq : ∀ mem row1 row2 yf resizeFactorX col s,
    pixel mem row1 row2 yf resizeFactorX col s =
      some (s.append advance (events mem row1 row2 yf resizeFactorX col))

def lumaKind : PixelKind := ⟨lumaPixel, 1, lumaEvents, fun _ _ _ _ _ _ _ => rfl⟩

def chromaKind : PixelKind := ⟨chromaPixel, 2, chromaEvents, fun _ _ _ _ _ _ _ => rfl⟩

/-- The offset of the row of the input that a row of the output starts from. -/
def Setup.row1 (c : Setup) (row : UInt16) : Int :=
  c.base + rowOffset (coord row c.resizeFactorY) c.inStride

def rowEvents (c : Setup) (cols : Nat) (kind : PixelKind) (row : UInt16) (ptr : Int) :
    List Event :=
  coordFits row c.resizeFactorY ++ rowFits (coord row c.resizeFactorY) c.inStride ++
    loopEvents cols kind.advance (kind.events c.mem (c.row1 row) (c.row1 row + c.inStride.toInt)
      (frac row c.resizeFactorY) c.resizeFactorX) ptr ++ c.skipFits

theorem planeRow_eq (c : Setup) {cols : UInt32} (hcols : cols.toNat ≤ 65535) (kind : PixelKind)
    (row : UInt16) (s : Work) :
    planeRow c cols kind.pixel row s = some
      (s.append (kind.advance * cols.toNat + c.skip.toNat) (rowEvents c cols.toNat kind row)) := by
  rw [planeRow, for16_append (fun col t => kind.pixel_eq _ _ _ _ _ col t) hcols]
  simp only [Option.map_some, Work.append, rowEvents, Setup.row1, List.append_assoc, Int.add_assoc]

def planeEvents (c : Setup) (rows cols : Nat) (kind : PixelKind) (ptr : Int) : List Event :=
  loopEvents rows (kind.advance * cols + c.skip.toNat) (rowEvents c cols kind) ptr

theorem plane_eq (c : Setup) {rows cols : UInt32} (hrows : rows.toNat ≤ 65535)
    (hcols : cols.toNat ≤ 65535) (kind : PixelKind) (s : Work) :
    for16 rows (planeRow c cols kind.pixel) s = some
      (s.append ((kind.advance * cols.toNat + c.skip.toNat) * rows.toNat)
        (planeEvents c rows.toNat cols.toNat kind)) :=
  for16_append (planeRow_eq c hcols kind) hrows s

theorem lumaPlane_eq (c : Setup) (hrows : c.cody.toNat ≤ 65535) (hcols : c.codx.toNat ≤ 65535)
    (s : Work) : ∃ ptr8, lumaPlane c s = some ⟨ptr8,
      s.log ++ planeEvents c c.cody.toNat c.codx.toNat lumaKind s.ptr8⟩ :=
  ⟨_, plane_eq c hrows hcols lumaKind s⟩

theorem chromaPlane_eq (c : Setup) (hrows : c.cody.toNat ≤ 65535) (hcols : c.codx.toNat ≤ 65535)
    (s : Work) : ∃ ptr8, chromaPlane c s = some ⟨ptr8,
      s.log ++ planeEvents c (c.cody.toNat / 2) (c.codx.toNat / 2) chromaKind s.ptr8⟩ := by
  have hhalf : ∀ x : UInt32, (x >>> 1).toNat = x.toNat / 2 := by
    intro x
    rw [UInt32.toNat_shiftRight]
    rfl
  have hrows' : (c.cody >>> 1).toNat ≤ 65535 := by
    rw [hhalf]
    omega
  have hcols' : (c.codx >>> 1).toNat ≤ 65535 := by
    rw [hhalf]
    omega
  have hplane := plane_eq c hrows' hcols' chromaKind s
  rw [hhalf, hhalf] at hplane
  exact ⟨_, hplane⟩

/-- The pictures are such that the loops run: the pointers are set, the formats are supported and
the input is not empty. -/
structure Accepted (i o : ConvImage) : Prop where
  inPtr : i.imgPtr = true
  outPtr : o.imgPtr = true
  idx : 1 ≤ i.idx
  idy : 1 ≤ i.idy
  stride : 1 ≤ i.uStride
  inFormat : i.eFormat = .yCbCr420lp
  outFormat : o.eFormat = .yCbCr420lp

/-- The log of a call that resizes the picture. -/
def resizeLog (mem : Memory) (i o : ConvImage) (crop : Rect) : List Event :=
  sizeFits i ++ startFits o crop ++
    planeEvents (setup mem i o crop i.uOffset) crop.uHeight.toNat crop.uWidth.toNat lumaKind
      (start o crop) ++
    planeEvents (setup mem i o crop (i.uOffset / 2)) (crop.uHeight.toNat / 2)
      (crop.uWidth.toNat / 2) chromaKind (start o crop)

theorem resizeFrame_eq (mem : Memory) {i o : ConvImage} (h : Accepted i o) (cropout : Option Rect)
    {crop : Rect} (hcrop : cropout.getD (Rect.full o) = crop) (hwidth : crop.uWidth.toNat ≤ 65535)
    (hheight : crop.uHeight.toNat ≤ 65535) :
    resizeFrame mem i o cropout = some ⟨true, resizeLog mem i o crop⟩ := by
  have hptr : ¬ (i.imgPtr = false ∨ o.imgPtr = false) := by simp [h.inPtr, h.outPtr]
  have hsize : ¬ (i.idx < 1 ∨ i.idy < 1 ∨ i.uStride < 1) := by
    rintro (hlt | hlt | hlt)
    · exact absurd h.idx (UInt16.not_le.mpr hlt)
    · exact absurd h.idy (UInt16.not_le.mpr hlt)
    · exact absurd h.stride (Int32.not_le.mpr hlt)
  obtain ⟨ptr, hluma⟩ := lumaPlane_eq (setup mem i o crop i.uOffset) hheight hwidth
    { ptr8 := start o crop, log := sizeFits i ++ startFits o crop }
  obtain ⟨ptr', hchroma⟩ := chromaPlane_eq (setup mem i o crop (i.uOffset / 2)) hheight hwidth
    { ptr8 := start o crop
      log := sizeFits i ++ startFits o crop ++
        planeEvents (setup mem i o crop i.uOffset) crop.uHeight.toNat crop.uWidth.toNat lumaKind
          (start o crop) }
  rw [resizeFrame, if_neg hptr]
  simp only [hcrop]
  rw [if_neg hsize, if_pos ⟨h.inFormat, h.outFormat⟩, hluma]
  exact congrArg (Option.map fun t : Work => (⟨true, t.log⟩ : Resized)) hchroma

end Omap4Hal.Camera.Nv12Resize

import Omap4Hal.Camera.Nv12Resize

/- The JPEG encoder (camera/Encoder_libjpeg.cpp): `encode` converts the picture line by line, hands
   the lines to libjpeg and has the bytes that come back stored by the destination manager.

   libjpeg is an argument: the bytes it makes of the lines it was given. It stores them by the
   protocol of its destination managers (`DestMgr.emit`). Memory is given by offsets from a
   pointer; `malloc` gives memory, but for the buffer of the resized picture, which may be
   refused. -/
namespace Omap4Hal.Camera.JpegEncoder

open Function (update)
open Omap4Hal.Camera.Nv12Resize (ConvImage Event Plane resizeFrame)

/-! ## The destination manager -/

/-- `libjpeg_destination_mgr`; `next_output_byte` is the offset in `buf`. -/
structure DestMgr where
  buf : Nat → UInt8
  bufsize : Nat
  nextOutputByte : Nat := 0
  freeInBuffer : Nat := 0
  jpegsize : Nat := 0

def DestMgr.initDestination (d : DestMgr) : DestMgr :=
  { d with nextOutputByte := 0, freeInBuffer := d.bufsize, jpegsize := 0 }

def DestMgr.emptyOutputBuffer (d : DestMgr) : DestMgr :=
  { d with nextOutputByte := 0, freeInBuffer := d.bufsize }

def DestMgr.termDestination (d : DestMgr) : DestMgr :=
  { d with jpegsize := d.bufsize - d.freeInBuffer }

/-- libjpeg stores a byte, and calls `empty_output_buffer` when the buffer is full. -/
def DestMgr.emit (d : DestMgr) (byte : UInt8) : DestMgr :=
  let d₁ :=
    { d with
      buf := update d.buf d.nextOutputByte byte
      nextOutputByte := d.nextOutputByte + 1
      freeInBuffer := d.freeInBuffer - 1 }
  if d₁.freeInBuffer = 0 then d₁.emptyOutputBuffer else d₁

/-! ## Lines -/

/-- The bytes at a pointer. -/
abbrev Bytes : Type := Int → UInt8

/-- Three bytes of a line, and the offsets in the source that were read for them. -/
structure Pixel where
  y : UInt8
  u : UInt8
  v : UInt8
  reads : List Int
  deriving DecidableEq

/-- `nv21_to_yuv`; the number is `width` when the loop tests it, and is counted down before the
body. -/
def nv21ToYuv (src : Bytes) : Nat → Int → Int → List Pixel
  | 0, _, _ => []
  | width + 1, y, uv =>
    { y := src y, u := src (uv + 1), v := src uv, reads := [y, uv, uv + 1] } ::
      nv21ToYuv src width (y + 1) (if width % 2 = 0 then uv + 2 else uv)

/-- The loop of `uyvy_to_yuv`. The routine for multiples of 16 does the same for 16 pixels at a
time. -/
def uyvyPairs (src : Bytes) : Nat → Int → List Pixel
  | 0, _ => []
  | n + 1, p =>
    let reads := [p, p + 1, p + 2, p + 3]
    { y := src (p + 1), u := src p, v := src (p + 2), reads } ::
      { y := src (p + 3), u := src p, v := src (p + 2), reads } :: uyvyPairs src n (p + 4)

/-- For an odd width `row_tmp` stays as it is. -/
def uyvyToYuv (src : Bytes) (rowTmp : List Pixel) (p : Int) (width : Int32) : List Pixel :=
  if width % 2 ≠ 0 then rowTmp else uyvyPairs src (width.toNatClampNeg / 2) p

/-! ## The parameters -/

inductive Format where
  | yuv420sp
  | yuv422i
  | other
  deriving DecidableEq, Repr

structure Params where
  src : Option Bytes
  srcSize : Int32
  dst : Option (Nat → UInt8)
  dstSize : Int32
  quality : Int32
  inWidth : Int32
  inHeight : Int32
  outWidth : Int32
  outHeight : Int32
  rightCrop : Int32 := 0
  startOffset : Int32 := 0
  format : Option Format

/-- The check at the start of `encode`. -/
def Params.Checked (p : Params) : Prop :=
  2 ≤ p.inWidth ∧ 2 ≤ p.outWidth ∧ 2 ≤ p.inHeight ∧ 2 ≤ p.outHeight ∧ p.src ≠ none ∧
    p.dst ≠ none ∧ 1 ≤ p.quality ∧ 1 ≤ p.srcSize ∧ 1 ≤ p.dstSize ∧ p.format ≠ none

instance (p : Params) : Decidable p.Checked :=
  have : Decidable (p.src ≠ none) := decidable_of_iff p.src.isSome Option.isSome_iff_ne_none
  have : Decidable (p.dst ≠ none) := decidable_of_iff p.dst.isSome Option.isSome_iff_ne_none
  inferInstanceAs (Decidable (_ ∧ _ ∧ _ ∧ _ ∧ _ ∧ _ ∧ _ ∧ _ ∧ _ ∧ _))

def Params.Resizes (p : Params) : Prop := p.inWidth ≠ p.outWidth ∨ p.inHeight ≠ p.outHeight

instance (p : Params) : Decidable p.Resizes := inferInstanceAs (Decidable (_ ∨ _))

/-- What is decided outside. -/
structure Env where
  /-- `mCancelEncoding` when the loop tests it before a line; after the last one, at the end. -/
  cancel : Nat → Bool := fun _ => false
  /-- The buffer for the resized picture, with what it holds. -/
  resizeSrc : Option Bytes := none
  /-- `i_img_ptr.uOffset`, which `resize_nv12` does not set. -/
  uOffset : Int32 := 0

/-- A write of the resizing; the chroma plane follows the luma plane. -/
def store (clrPtr : Int) (buf : Bytes) : Event → Bytes
  | .write .luma offset value => update buf offset value
  | .write .chroma offset value => update buf (clrPtr + offset) value
  | _ => buf

/-- `resize_nv12` into a buffer; `none` if it never returns. -/
def resizeNv12 (p : Params) (src dst : Bytes) (uOffset : Int32) : Option Bytes :=
  let i : ConvImage :=
    { uWidth := p.inWidth, uHeight := p.inHeight, uStride := p.inWidth, uOffset }
  let o : ConvImage := { uWidth := p.outWidth, uHeight := p.outHeight, uStride := p.outWidth }
  let mem : Plane → Int → UInt8 := fun
    | .luma, offset => src offset
    | .chroma, offset => src ((p.inWidth * p.inHeight).toInt + offset)
  (resizeFrame mem i o none).map fun r =>
    r.log.foldl (store (p.outWidth * p.outHeight).toInt) dst

/-- The picture that is encoded. -/
def source (p : Params) (env : Env) (src : Bytes) : Option Bytes :=
  if p.Resizes then
    match env.resizeSrc with
    | some buf => resizeNv12 p src buf env.uOffset
    | none => some src
  else some src

/-! ## The loop over the lines -/

structure Rows where
  nextScanline : Nat := 0
  rowSrc : Int
  rowUv : Int
  rowTmp : List Pixel := []
  /-- The lines handed to libjpeg. -/
  lines : List (List Pixel) := []

def Params.bpp (p : Params) : Int32 := if p.format = some .yuv420sp then 1 else 2

/-- The columns that are encoded. -/
def Params.columns (p : Params) : Int32 := p.outWidth - p.rightCrop

def convertRow (p : Params) (src : Bytes) (s : Rows) : List Pixel :=
  if p.format = some .yuv420sp then nv21ToYuv src p.columns.toNatClampNeg s.rowSrc s.rowUv
  else uyvyToYuv src s.rowTmp s.rowSrc p.columns

/-- A pass of the loop; `jpeg_write_scanlines` takes the line. -/
def encodeRow (p : Params) (src : Bytes) (s : Rows) : Rows :=
  let line := convertRow p src s
  let next := s.nextScanline + 1
  { nextScanline := next
    rowSrc := s.rowSrc + (p.outWidth * p.bpp).toInt
    rowUv :=
      if p.format = some .yuv420sp ∧ next % 2 = 0 then s.rowUv + (p.outWidth * p.bpp).toInt
      else s.rowUv
    rowTmp := line
    lines := s.lines ++ [line] }

/-- The loop, with the number of lines that are left. -/
def encodeRows (p : Params) (src : Bytes) (cancel : Nat → Bool) : Nat → Rows → Rows
  | 0, s => s
  | n + 1, s =>
    if cancel s.nextScanline then s else encodeRows p src cancel n (encodeRow p src s)

def Params.firstRow (p : Params) : Rows :=
  { rowSrc := p.startOffset.toInt, rowUv := (p.outWidth * p.outHeight * p.bpp).toInt }

/-! ## The function -/

/-- What libjpeg is given. -/
structure Job where
  imageWidth : UInt32
  imageHeight : UInt32
  quality : Int32
  lines : List (List Pixel)

/-- The bytes that libjpeg stores while it takes the lines, and when it finishes. -/
structure Libjpeg where
  taken : Job → List UInt8
  finished : Job → List UInt8

def Libjpeg.stream (lib : Libjpeg) (job : Job) : List UInt8 := lib.taken job ++ lib.finished job

/-- `jpeg_size`, which is also returned, the lines that were handed over and the destination. -/
structure Encoded where
  jpegSize : Nat
  job : Option Job
  dest : DestMgr

def Params.destMgr (p : Params) : DestMgr :=
  { buf := p.dst.getD fun _ => 0, bufsize := p.dstSize.toNatClampNeg }

def Params.job (p : Params) (rows : Rows) : Job :=
  { imageWidth := p.columns.toUInt32
    imageHeight := p.outHeight.toUInt32
    quality := p.quality
    lines := rows.lines }

/-- libjpeg makes the picture, with the calls of the destination manager; a cancelled encoding is
not finished. -/
def compress (lib : Libjpeg) (dest : DestMgr) (job : Job) (cancelled : Bool) : DestMgr :=
  let dest₁ := (lib.taken job).foldl DestMgr.emit dest.initDestination
  if cancelled then dest₁ else ((lib.finished job).foldl DestMgr.emit dest₁).termDestination

/-- The formats that `encode` supports. -/
def Params.Supported (p : Params) : Prop :=
  p.format = some .yuv420sp ∨ p.format = some .yuv422i ∧ ¬ p.Resizes

instance (p : Params) : Decidable p.Supported := inferInstanceAs (Decidable (_ ∨ _))

/-- `encode` from the creation of the compressor on. -/
def encodeFrom (lib : Libjpeg) (p : Params) (env : Env) (src : Bytes) : Encoded :=
  let rows := encodeRows p src env.cancel p.outHeight.toNatClampNeg p.firstRow
  let dest := compress lib p.destMgr (p.job rows) (env.cancel rows.nextScanline)
  { jpegSize := dest.jpegsize, job := some (p.job rows), dest }

/-- `Encoder_libjpeg::encode`; `none` if the resizing never returns. -/
def encode (lib : Libjpeg) (p : Params) (env : Env) : Option Encoded :=
  if p.Checked ∧ p.Supported then
    (source p env (p.src.getD fun _ => 0)).map (encodeFrom lib p env)
  else some { jpegSize := p.destMgr.jpegsize, job := none, dest := p.destMgr }

theorem encode_eq {lib : Libjpeg} {p : Params} {env : Env} (hchecked : p.Checked)
    (hsupported : p.Supported) :
    encode lib p env = (source p env (p.src.getD fun _ => 0)).map (encodeFrom lib p env) :=
  if_pos ⟨hchecked, hsupported⟩

end Omap4Hal.Camera.JpegEncoder

import Omap4Hal.Tiler.MemMgr

/- Remapping the blocks of a remote buffer (syslink/d2c/phase1_d2c_remap.c), as it is compiled
   without stubs. The driver does not store the width and the height of a 2D block; they are
   estimated from the length, the height of the allocation and its stride (`estimate`). The checks
   of the estimation are traced only.

   The file has its own copies of `def_bpp`, `def_stride` and `def_size`, which are those of the
   allocator. What SysLink, the driver and the kernel answer are arguments. A division by zero does
   not return. -/
namespace Omap4Hal.Syslink.D2CReMap
open Omap4Hal.Tiler (TilerFmt TilerBlockInfo TilerBufInfo defBpp defSize pageSize asInt
  tilerMaxNumBlocks)

/-! ## The estimation -/

/-- The lines by which an allocation may be higher than its block. -/
def allowance (fmt : TilerFmt) : UInt32 := if fmt = .bit8 then 63 else 31

def area (width height : UInt16) : UInt32 := height.toUInt32 <<< 16 ||| width.toUInt32

/-- What is computed for a 2D block; `minPageWidth` is the one that the length gives, `pageWidth`
the one that is chosen. -/
structure Estimate where
  minPageWidth : Int
  maxPageWidth : Int
  pageWidth : Int
  block : TilerBlockInfo

/-- The block description of the driver is that of the allocation. -/
def estimate (length : UInt32) (b : TilerBlockInfo) : Option Estimate :=
  let maxAllocSize := b.height.toUInt32 * pageSize
  let minAllocSize := maxAllocSize - allowance b.fmt * pageSize
  if maxAllocSize = 0 ∨ minAllocSize = 0 then none
  else
    let minPageWidth := asInt ((length + maxAllocSize - 1) / maxAllocSize)
    let limit := asInt (b.stride / pageSize)
    let maxPageWidth :=
      let maxPageWidth := asInt (length / minAllocSize)
      if limit < maxPageWidth then limit else maxPageWidth
    let limit := limit - if b.fmt = .bit8 then 0 else 1
    let pageWidth := if minPageWidth < limit then limit else minPageWidth
    if pageWidth = 0 then none
    else
      let height := (length / pageSize / UInt32.ofInt pageWidth).toUInt16
      let stride := pageSize * UInt32.ofInt pageWidth
      let width := (stride / defBpp b.fmt).toUInt16
      some
        { minPageWidth, maxPageWidth, pageWidth
          block := { b with dim := area width height, stride } }

/-! ## The blocks -/

/-- A block of the call: its length, and what SysLink and the driver answer for it. -/
structure RemoteBlock where
  length : UInt32
  virtRet : Int
  ssptr : UInt32
  queryRet : Int
  queried : TilerBlockInfo

/-- The length is one of pages, and the block is known to SysLink and to the driver. -/
def RemoteBlock.Usable (q : RemoteBlock) : Prop :=
  q.length &&& (pageSize - 1) = 0 ∧ 0 < q.virtRet ∧ q.ssptr ≠ 0 ∧ q.queryRet = 0 ∧
    q.queried.ssptr ≠ 0

instance (q : RemoteBlock) : Decidable q.Usable :=
  inferInstanceAs (Decidable (_ ∧ _ ∧ _ ∧ _ ∧ _))

inductive Outcome (α : Type) where
  | divZero
  | failure
  | ok (a : α)

/-- A pass of the loop. -/
def remapBlock (q : RemoteBlock) : Outcome TilerBlockInfo :=
  if q.Usable then
    if q.queried.fmt = .page then .ok { q.queried with dim := q.length }
    else
      match estimate q.length q.queried with
      | none => .divZero
      | some e => .ok e.block
  else .failure

/-- The loop, with the blocks so far and their size. -/
def remapBlocks : List RemoteBlock → List TilerBlockInfo → UInt32 →
    Outcome (List TilerBlockInfo × UInt32)
  | [], blocks, size => .ok (blocks, size)
  | q :: qs, blocks, size =>
    match remapBlock q with
    | .divZero => .divZero
    | .failure => .failure
    | .ok b => remapBlocks qs (blocks ++ [b]) (size + defSize b)

/-! ## The call -/

structure ReMapData where
  bufPtr : UInt32
  tilerId : UInt32
  deriving DecidableEq, Repr

/-- What the driver and the kernel answer to the rest of the call. -/
structure RemapEnv where
  openRet : Int
  rbufRet : Int
  rbufOut : TilerBufInfo
  mmapRet : Option UInt32
  callocOk : Bool

/-- The arrays of the caller hold at least `num_blocks` elements. -/
structure RemapArgs where
  numBlocks : Int
  blocks : List RemoteBlock
  enough : numBlocks ≤ blocks.length

def RemapArgs.work (a : RemapArgs) : List RemoteBlock := a.blocks.take a.numBlocks.toNat

/-- The pointer returned, the blocks that were registered with the size that was mapped, and the
records. -/
structure Remapped where
  ret : UInt32
  blocks : List TilerBlockInfo := []
  size : UInt32 := 0
  bufs : List ReMapData

def RemapEnv.bufPtr (e : RemapEnv) (addr : UInt32) : UInt32 :=
  addr + ((e.rbufOut.blocks.head?.map (·.ssptr)).getD 0 &&& (pageSize - 1))

/-- `tiler_assisted_phase1_D2CReMap`; `none` if it divides by zero. A buffer whose record cannot be
stored is unregistered, but returned. -/
def d2cReMap (bufs : List ReMapData) (a : RemapArgs) (e : RemapEnv) : Option Remapped :=
  if a.numBlocks ≤ 0 ∨ tilerMaxNumBlocks < a.numBlocks ∨ e.openRet < 0 then
    some { ret := 0, bufs }
  else
    match remapBlocks a.work [] 0 with
    | .divZero => none
    | .failure => some { ret := 0, bufs }
    | .ok (blocks, size) =>
      if e.rbufRet ≠ 0 ∨ e.rbufOut.offset = 0 then some { ret := 0, blocks, bufs }
      else
        match e.mmapRet with
        | none => some { ret := 0, blocks, size, bufs }
        | some addr =>
          let ret := e.bufPtr addr
          if ret = 0 ∨ ¬ e.callocOk then some { ret, blocks, size, bufs }
          else some { ret, blocks, size, bufs := bufs ++ [⟨ret, e.rbufOut.offset⟩] }

end Omap4Hal.Syslink.D2CReMap

import Omap4Hal.Lib.Run

/- The TILER memory allocator (`tiler/memmgr.c`) as the Android build compiles
   it, that is without `STUB_TILER`.

   The static data of the C file is the state: `refCnt`, the device descriptor
   `td`, and the record list `bufs`. That list is a zeroed struct until `init`
   has run, and walking it before that dereferences a null `next`; so `bufs` is
   an `Option`, and a function that walks it too early is `none`.

   Everything the outside world decides during one call is an argument: what
   `open` returns, the system-space address each `TILIOC_GBUF`/`TILIOC_MBUF`
   hands out (`none` for a failed request, which leaves the block as it was),
   what `TILIOC_RBUF` and `TILIOC_QBUF` answer, where `mmap` puts the buffer,
   whether `calloc` finds memory. The calls that create buffers also return the
   list of requests they made, in order.

   Pointers and sizes are 32-bit. The allocator's two mutexes serialise the
   accesses, so the calls are modelled as atomic. -/
namespace Omap4Hal.Tiler
open Lib

/-- `enum tiler_fmt`; its values 1 to 4 are those of `pixel_fmt_t`. -/
inductive TilerFmt where
  | invalid
  | none
  | bit8
  | bit16
  | bit32
  | page
  deriving DecidableEq, Repr

def TilerFmt.toInt : TilerFmt → Int
  | .invalid => -1
  | .none => 0
  | .bit8 => 1
  | .bit16 => 2
  | .bit32 => 3
  | .page => 4

/-- `struct tiler_block_info`. The union `dim` is one word: the length of a 1D
block, or the width (low half) and height (high half) of a 2D one. -/
structure TilerBlockInfo where
  fmt : TilerFmt
  dim : UInt32
  stride : UInt32
  ptr : UInt32
  ssptr : UInt32
  deriving DecidableEq, Repr

def TilerBlockInfo.len (b : TilerBlockInfo) : UInt32 := b.dim
def TilerBlockInfo.width (b : TilerBlockInfo) : UInt16 := b.dim.toUInt16
def TilerBlockInfo.height (b : TilerBlockInfo) : UInt16 := (b.dim >>> 16).toUInt16

/-- `struct tiler_buf_info`, as the driver fills it in. -/
structure TilerBufInfo where
  blocks : List TilerBlockInfo
  offset : UInt32
  deriving DecidableEq, Repr

def pageSize : UInt32 := 0x1000
def tilerMaxNumBlocks : Int := 16
def errNone : Int := 0
def errGeneric : Int := 1
def enomem : Int := 12

/-- The `(int)` cast of the `NOT_I` and `CHK_I` macros. -/
def asInt (x : UInt32) : Int := x.toBitVec.toInt

/-- `ERR_ADD`: the first error is kept. -/
def errAdd (err e : Int) : Int := if err ≠ 0 then err else e

/-! ## Block arithmetic -/

/-- The parameter is a `pixels_t`, so callers' products are cut to 16 bits. -/
def defStride (width : UInt16) : UInt32 :=
  (pageSize - 1 + width.toUInt32) &&& ~~~(pageSize - 1)

def defBpp : TilerFmt → UInt32
  | .bit32 => 4
  | .bit16 => 2
  | _ => 1

def strideOf (b : TilerBlockInfo) : UInt32 :=
  defStride (b.width.toUInt32 * defBpp b.fmt).toUInt16

def defSize (b : TilerBlockInfo) : UInt32 :=
  if b.fmt = .page then b.len else b.height.toUInt32 * strideOf b

def tilerSize (blks : List TilerBlockInfo) : UInt32 :=
  blks.foldl (fun size b => size + defSize b) 0

def checkBlock (b : TilerBlockInfo) (isPageSized : Bool) : Int :=
  if b.fmt.toInt < 1 ∨ 4 < b.fmt.toInt then errGeneric
  else if b.fmt = .page ∧
      (asInt b.len ≤ 0 ∨ (b.stride ≠ 0 ∧ asInt (b.len % b.stride) ≠ 0)) then errGeneric
  else if b.fmt ≠ .page ∧
      (b.width = 0 ∨ b.height = 0 ∨ (b.stride ≠ 0 ∧ b.stride ≠ strideOf b)) then errGeneric
  else if isPageSized = true ∧ asInt (defSize b &&& (pageSize - 1)) ≠ 0 then errGeneric
  else errNone

/-- The loop of `check_blocks`, from block `ix` on. -/
def checkBlocksFrom (numPagesizeBlocks : Int) : Nat → List TilerBlockInfo → Int
  | _, [] => errNone
  | ix, b :: bs =>
    let ret := checkBlock b (decide ((ix : Int) < numPagesizeBlocks))
    if ret ≠ 0 then ret else checkBlocksFrom numPagesizeBlocks (ix + 1) bs

/-- `blks` is the part of the caller's array that `num_blocks` covers. -/
def checkBlocks (blks : List TilerBlockInfo) (numBlocks numPagesizeBlocks : Int) : Int :=
  if numBlocks ≤ 0 ∨ tilerMaxNumBlocks < numBlocks then errGeneric
  else checkBlocksFrom numPagesizeBlocks 0 blks

def resetBlocks (blks : List TilerBlockInfo) : List TilerBlockInfo :=
  blks.map fun b => { b with ssptr := 0, ptr := 0 }

/-! ## Static data -/

inductive BufType where
  | alloced
  | mapped
  deriving DecidableEq, Repr

/-- `struct _AllocData`, one record of the buffer cache. -/
structure AllocData where
  bufPtr : UInt32
  size : UInt32
  tilerId : UInt32
  bufType : BufType
  deriving DecidableEq, Repr

structure MemMgr where
  refCnt : Nat
  td : Int
  bufs : Option (List AllocData)
  deriving DecidableEq, Repr

/-- The static initialisers of the C file. -/
def MemMgr.initial : MemMgr := { refCnt := 0, td := -1, bufs := none }

/-- The records of the cache; there are none before `init`. -/
def MemMgr.records (s : MemMgr) : List AllocData := s.bufs.getD []

/-- `init`: makes the list head point at itself, once. -/
def init (s : MemMgr) : MemMgr := { s with bufs := some s.records }

def incRef (s : MemMgr) (openRet : Int) : Int × MemMgr :=
  let s₁ := { s with refCnt := s.refCnt + 1 }
  if s.refCnt = 0 then
    let s₂ := { init s₁ with td := openRet }
    if 0 ≤ openRet then (errNone, s₂)
    else (errGeneric, { s₂ with refCnt := s₂.refCnt - 1 })
  else (errNone, s₁)

def decRef (s : MemMgr) : Int × MemMgr :=
  if s.refCnt = 0 then (errGeneric, s)
  else
    let s₁ := { s with refCnt := s.refCnt - 1 }
    if s₁.refCnt = 0 then (errNone, { s₁ with td := -1 }) else (errNone, s₁)

/-- `DLIST_MADD_BEFORE` on the head appends at the end of the list. -/
def bufCacheAdd (s : MemMgr) (ad : AllocData) (callocOk : Bool) : Option (Int × MemMgr) :=
  if callocOk then s.bufs.map fun l => (0, { s with bufs := some (l ++ [ad]) })
  else some (-enomem, s)

def AllocData.covers (ad : AllocData) (ptr : UInt32) : Bool :=
  decide (ad.bufPtr ≤ ptr) && decide (ptr < ad.bufPtr + ad.size)

/-- `buf_cache_query` with the mask of both buffer types, the only one used. -/
def bufCacheQuery (s : MemMgr) (ptr : UInt32) : Option (UInt32 × UInt32) :=
  s.bufs.map fun l =>
    match l.find? (·.covers ptr) with
    | some ad => (ad.tilerId, ad.bufPtr)
    | none => (0, 0)

def AllocData.named (ad : AllocData) (bufPtr : UInt32) (ty : BufType) : Bool :=
  ad.bufPtr == bufPtr && ad.bufType == ty

def bufCacheDel (s : MemMgr) (bufPtr : UInt32) (ty : BufType) : Option (UInt32 × MemMgr) :=
  s.bufs.map fun l =>
    match l.find? (·.named bufPtr ty) with
    | some ad => (ad.tilerId, { s with bufs := some (l.eraseP (·.named bufPtr ty)) })
    | none => (0, s)

/-- `cache_check` also runs `init`. -/
def cacheCheck (s : MemMgr) : Int × MemMgr :=
  (if s.records.length = s.refCnt then errNone else errGeneric, init s)

/-! ## Creating buffers -/

/-- A request to the driver or the kernel, with what came of it. Blocks are
named by their index in the caller's array. -/
inductive Req where
  | gbuf (ix : Nat) (ssptr : Option UInt32)
  | fbuf (ix : Nat) (ssptr : UInt32)
  | mbuf (ix : Nat) (ssptr : Option UInt32)
  | umbuf (ix : Nat) (ssptr : UInt32)
  | rbuf (offset : Option UInt32)
  | urbuf (offset : UInt32)
  | mmap (addr : Option UInt32)
  | munmap (addr : UInt32)
  deriving DecidableEq, Repr

/-- What the world answers during one `MemMgr_Alloc` or `MemMgr_Map`. -/
structure CreateEnv where
  openRet : Int
  grant : Nat → Option UInt32
  rbufRet : Int
  rbufOut : TilerBufInfo
  mmapRet : Option UInt32
  callocOk : Bool

/-- The caller's array holds at least `num_blocks` elements, as `memmgr.h` asks. -/
structure BlockArray where
  blks : List TilerBlockInfo
  numBlocks : Int
  enough : numBlocks ≤ blks.length

/-- The blocks the call works on. -/
def BlockArray.work (a : BlockArray) : List TilerBlockInfo := a.blks.take a.numBlocks.toNat

def tilerAlloc (b : TilerBlockInfo) (grant : Option UInt32) : TilerBlockInfo :=
  let b₁ := { b with ptr := 0, ssptr := grant.getD b.ssptr }
  if b₁.fmt ≠ .page then { b₁ with stride := strideOf b₁ } else b₁

def tilerMap (b : TilerBlockInfo) (grant : Option UInt32) : TilerBlockInfo :=
  { b with ssptr := grant.getD b.ssptr }

/-- How one block is obtained and given back: whether the request is made at
all, the block after it, which addresses pass for success, and the requests. -/
structure Stage where
  tries : TilerBlockInfo → Bool
  after : TilerBlockInfo → Option UInt32 → TilerBlockInfo
  accepts : UInt32 → Bool
  req : Nat → Option UInt32 → Req
  undo : Nat → UInt32 → Req

-- `MemMgr_Alloc` takes every address that is not negative as an `int`, zero included
def allocStage : Stage where
  tries _ := true
  after := tilerAlloc
  accepts ssptr := decide (0 ≤ asInt ssptr)
  req := .gbuf
  undo := .fbuf

-- `MemMgr_Map` takes the positive ones only, and looks at `ptr` first
def mapStage : Stage where
  tries b := b.ptr != 0
  after := tilerMap
  accepts ssptr := decide (0 < asInt ssptr)
  req := .mbuf
  undo := .umbuf

/-- How the loop over the blocks ended: the blocks, the requests, and the index
the loop left early at. -/
structure LoopOut where
  blks : List TilerBlockInfo
  trace : List Req
  failed : Option Nat

def blockLoop (st : Stage) (grant : Nat → Option UInt32) : Nat → List TilerBlockInfo → LoopOut
  | _, [] => ⟨[], [], none⟩
  | ix, b :: bs =>
    if st.tries b then
      let b' := st.after b (grant ix)
      if st.accepts b'.ssptr then
        let o := blockLoop st grant (ix + 1) bs
        ⟨b' :: o.blks, st.req ix (grant ix) :: o.trace, o.failed⟩
      else ⟨b' :: bs, [st.req ix (grant ix)], some ix⟩
    else ⟨b :: bs, [], some ix⟩

/-- What a call that creates a buffer leaves: state, blocks, pointer, requests. -/
structure CreateResult where
  st : MemMgr
  blks : List TilerBlockInfo
  ret : UInt32
  trace : List Req

/-- The last loop of `tiler_mmap`: where each block starts in the buffer. -/
def fillPtrs (bufPtr : UInt32) : UInt32 → List TilerBlockInfo → List TilerBlockInfo
  | _, [] => []
  | size, b :: bs =>
    { b with ptr := (bufPtr + size) &&& ~~~(pageSize - 1) ||| (b.ssptr &&& (pageSize - 1)) } ::
      fillPtrs bufPtr (size + defSize b) bs

/-- Where the buffer starts once mapped at `addr`. -/
def CreateEnv.bufPtr (e : CreateEnv) (addr : UInt32) : UInt32 :=
  addr + ((e.rbufOut.blocks.head?.map (·.ssptr)).getD 0 &&& (pageSize - 1))

/-- When the record cannot be cached the buffer is unregistered, but `bufPtr` is
returned all the same. -/
def tilerMmap (s : MemMgr) (blks : List TilerBlockInfo) (ty : BufType) (e : CreateEnv) :
    Option CreateResult :=
  let size := tilerSize blks
  let id := e.rbufOut.offset
  if e.rbufRet ≠ 0 then some ⟨s, blks, 0, [.rbuf none]⟩
  else if id = 0 then some ⟨s, blks, 0, [.rbuf (some 0)]⟩
  else match e.mmapRet with
    | none => some ⟨s, blks, 0, [.rbuf (some id), .mmap none, .urbuf id]⟩
    | some addr =>
      let ptr := e.bufPtr addr
      if ptr = 0 then some ⟨s, blks, 0, [.rbuf (some id), .mmap (some addr), .urbuf id]⟩
      else (bufCacheAdd s ⟨ptr, size, id, ty⟩ e.callocOk).map fun r =>
        if r.1 ≠ 0 then ⟨r.2, blks, ptr, [.rbuf (some id), .mmap (some addr), .urbuf id]⟩
        else ⟨r.2, fillPtrs ptr 0 blks, ptr, [.rbuf (some id), .mmap (some addr)]⟩

/-- `while (ix) tiler_free(blks + --ix)`: the requests, last block first. -/
def undoFrom (undo : Nat → UInt32 → Req) (blks : List TilerBlockInfo) : Nat → List Req
  | 0 => []
  | ix + 1 => undo ix ((blks.drop ix).head?.elim 0 (·.ssptr)) :: undoFrom undo blks ix

/-- The error handling shared by both calls, entered with `ix` blocks to undo. -/
def unwind (st : Stage) (s : MemMgr) (blks : List TilerBlockInfo) (trace : List Req) (ix : Nat) :
    CreateResult :=
  ⟨(decRef s).2, resetBlocks blks, 0, trace ++ undoFrom st.undo blks ix⟩

/-- The recoverable portion shared by both calls, entered with a reference held. -/
def createBuffer (st : Stage) (ty : BufType) (s : MemMgr) (blks : List TilerBlockInfo)
    (e : CreateEnv) : Option CreateResult :=
  let o := blockLoop st e.grant 0 blks
  match o.failed with
  | some ix => some (unwind st s o.blks o.trace ix)
  | none => (tilerMmap s o.blks ty e).map fun m =>
    if m.ret ≠ 0 then { m with trace := o.trace ++ m.trace }
    else unwind st m.st m.blks (o.trace ++ m.trace) o.blks.length

/-- `DONE:` the cache check, and the untouched end of the caller's array. -/
def done (a : BlockArray) (r : CreateResult) : CreateResult :=
  { r with st := (cacheCheck r.st).2, blks := r.blks ++ a.blks.drop a.numBlocks.toNat }

def memMgrAlloc (s : MemMgr) (a : BlockArray) (e : CreateEnv) : Option CreateResult :=
  if checkBlocks a.work a.numBlocks (a.numBlocks - 1) ≠ 0 then
    some (done a ⟨s, a.work, 0, []⟩)
  else
    let r := incRef s e.openRet
    if r.1 ≠ 0 then some (done a ⟨r.2, a.work, 0, []⟩)
    else (createBuffer allocStage .alloced r.2 a.work e).map (done a)

/-- The extra demands of `MemMgr_Map`: one page-aligned 1D block. -/
def mapSupported (a : BlockArray) : Bool :=
  match a.work with
  | [b] => b.fmt == .page && asInt (b.len &&& (pageSize - 1)) == 0 && b.ptr &&& (pageSize - 1) == 0
  | _ => false

def memMgrMap (s : MemMgr) (a : BlockArray) (e : CreateEnv) : Option CreateResult :=
  if checkBlocks a.work a.numBlocks a.numBlocks ≠ 0 then some (done a ⟨s, a.work, 0, []⟩)
  else
    let r := incRef s e.openRet
    if r.1 ≠ 0 then some (done a ⟨r.2, a.work, 0, []⟩)
    else if !mapSupported a then some (done a (unwind mapStage r.2 a.work [] 0))
    else (createBuffer mapStage .mapped r.2 a.work e).map (done a)

/-! ## Releasing buffers -/

/-- What the world answers during one `MemMgr_Free` or `MemMgr_UnMap`. -/
structure ReleaseEnv where
  qbufRet : Int
  qbufOut : TilerBufInfo
  urbufRet : Int
  undoRet : Nat → Int
  munmapRet : Int

/-- The driver requests of a release, and the error they accumulate. -/
def releaseRet (e : ReleaseEnv) : Int :=
  if e.qbufRet ≠ 0 then e.qbufRet
  else errAdd ((List.range e.qbufOut.blocks.length).foldl (fun ret ix => errAdd ret (e.undoRet ix))
    e.urbufRet) e.munmapRet

/-- `MemMgr_Free` and `MemMgr_UnMap` differ in the buffer type they look for. -/
def releaseBuffer (ty : BufType) (s : MemMgr) (bufPtr : UInt32) (e : ReleaseEnv) :
    Option (Int × MemMgr) :=
  (bufCacheDel s bufPtr ty).map fun r =>
    if r.1 ≠ 0 then
      let d := decRef r.2
      (errAdd (releaseRet e) d.1, (cacheCheck d.2).2)
    else (errGeneric, (cacheCheck r.2).2)

def memMgrFree : MemMgr → UInt32 → ReleaseEnv → Option (Int × MemMgr) := releaseBuffer .alloced
def memMgrUnMap : MemMgr → UInt32 → ReleaseEnv → Option (Int × MemMgr) := releaseBuffer .mapped

/-! ## Queries -/

/-- What the world answers to `TilerMem_VirtToPhys`. -/
structure VirtEnv where
  openRet : Int
  gssp : UInt32

def tilerMemVirtToPhys (s : MemMgr) (e : VirtEnv) : UInt32 × MemMgr :=
  let r := incRef s e.openRet
  if r.1 = 0 then (e.gssp, (decRef r.2).2) else (0, r.2)

def tilerGetFmt (ssptr : UInt32) : TilerFmt :=
  if ssptr = 0 then .invalid
  else if ssptr < 0x60000000 then .none
  else if ssptr < 0x68000000 then .bit8
  else if ssptr < 0x70000000 then .bit16
  else if ssptr < 0x78000000 then .bit32
  else if ssptr < 0x80000000 then .page
  else .none

def memMgrIs1DBlock (s : MemMgr) (e : VirtEnv) : Bool × MemMgr :=
  let r := tilerMemVirtToPhys s e
  (tilerGetFmt r.1 == .page, r.2)

def memMgrIs2DBlock (s : MemMgr) (e : VirtEnv) : Bool × MemMgr :=
  let r := tilerMemVirtToPhys s e
  let fmt := tilerGetFmt r.1
  (fmt == .bit8 || fmt == .bit16 || fmt == .bit32, r.2)

def memMgrIsMapped (s : MemMgr) (e : VirtEnv) : Bool × MemMgr :=
  let r := tilerMemVirtToPhys s e
  let fmt := tilerGetFmt r.1
  (fmt == .bit8 || fmt == .bit16 || fmt == .bit32 || fmt == .page, r.2)

/-- What the world answers during one `MemMgr_GetStride`. -/
structure StrideEnv where
  openRet : Int
  qbufRet : Int
  qbufOut : TilerBufInfo
  virt : VirtEnv

/-- The walk through the blocks of a tracked buffer. -/
def strideAt (ptr : UInt32) : UInt32 → List TilerBlockInfo → UInt32
  | _, [] => 0
  | bufPtr, b :: bs =>
    let size := defSize b
    if bufPtr ≤ ptr ∧ ptr < bufPtr + size then b.stride else strideAt ptr (bufPtr + size) bs

-- the return after a failed `TILIOC_QBUF` leaves without `dec_ref`
def memMgrGetStride (s : MemMgr) (ptr : UInt32) (e : StrideEnv) : Option (UInt32 × MemMgr) :=
  (bufCacheQuery s ptr).map fun q =>
    let s₁ := (incRef s e.openRet).2
    if q.1 ≠ 0 then
      if e.qbufRet ≠ 0 then (0, s₁)
      else (strideAt ptr q.2 e.qbufOut.blocks, (decRef s₁).2)
    else
      let v := tilerMemVirtToPhys s₁ e.virt
      if v.1 = 0 then (0, (decRef v.2).2) else (pageSize, (decRef v.2).2)

inductive Call where
  | alloc (a : BlockArray) (e : CreateEnv)
  | free (bufPtr : UInt32) (e : ReleaseEnv)
  | map (a : BlockArray) (e : CreateEnv)
  | unMap (bufPtr : UInt32) (e : ReleaseEnv)
  | is1DBlock (e : VirtEnv)
  | is2DBlock (e : VirtEnv)
  | isMapped (e : VirtEnv)
  | getStride (ptr : UInt32) (e : StrideEnv)
  | virtToPhys (e : VirtEnv)

/-- The state a call leaves; `none` when it walks the list before `init`. -/
def step (s : MemMgr) : Call → Option MemMgr
  | .alloc a e => (memMgrAlloc s a e).map (·.st)
  | .free p e => (memMgrFree s p e).map (·.2)
  | .map a e => (memMgrMap s a e).map (·.st)
  | .unMap p e => (memMgrUnMap s p e).map (·.2)
  | .is1DBlock e => some (memMgrIs1DBlock s e).2
  | .is2DBlock e => some (memMgrIs2DBlock s e).2
  | .isMapped e => some (memMgrIsMapped s e).2
  | .getStride p e => (memMgrGetStride s p e).map (·.2)
  | .virtToPhys e => some (tilerMemVirtToPhys s e).2

/-- A state some sequence of calls leads to. -/
def Reachable (s : MemMgr) : Prop := ∃ calls, run step MemMgr.initial calls = some s

/-! ## What the creating calls do, case by case -/

/-- The buffer is registered under an id and mapped at `addr`. -/
def CreateEnv.MapsAt (e : CreateEnv) (addr : UInt32) : Prop :=
  e.rbufRet = 0 ∧ e.rbufOut.offset ≠ 0 ∧ e.mmapRet = some addr ∧ e.bufPtr addr ≠ 0

/-- The requests of `tiler_mmap` when it gives `NULL`. -/
def CreateEnv.unmappedTrace (e : CreateEnv) : List Req :=
  if e.rbufRet ≠ 0 then [.rbuf none]
  else if e.rbufOut.offset = 0 then [.rbuf (some 0)]
  else [.rbuf (some e.rbufOut.offset), .mmap e.mmapRet, .urbuf e.rbufOut.offset]

/-- The record `tiler_mmap` hands to the cache. -/
def CreateEnv.record (e : CreateEnv) (blks : List TilerBlockInfo) (ty : BufType) (addr : UInt32) :
    AllocData :=
  ⟨e.bufPtr addr, tilerSize blks, e.rbufOut.offset, ty⟩

/-- Block `ix` passes: it is asked for, and the address it then carries is taken. -/
def Stage.Passes (st : Stage) (grant : Nat → Option UInt32) (blks : List TilerBlockInfo)
    (ix : Nat) : Prop :=
  ∃ b, blks[ix]? = some b ∧ st.tries b = true ∧ st.accepts (st.after b (grant ix)).ssptr = true

/-- Block `ix` is the first that does not pass. -/
def Stage.StopsAt (st : Stage) (grant : Nat → Option UInt32) (blks : List TilerBlockInfo)
    (ix : Nat) : Prop :=
  ix < blks.length ∧ (∀ j, j < ix → st.Passes grant blks j) ∧ ¬ st.Passes grant blks ix

def Stage.PassesAll (st : Stage) (grant : Nat → Option UInt32) (blks : List TilerBlockInfo) :
    Prop :=
  ∀ ix, ix < blks.length → st.Passes grant blks ix

section Passing
variable {st : Stage} {grant : Nat → Option UInt32} {b : TilerBlockInfo}
  {blks bs : List TilerBlockInfo}

theorem Stage.passes_zero : st.Passes grant (b :: bs) 0 ↔
    st.tries b = true ∧ st.accepts (st.after b (grant 0)).ssptr = true := by
  simp only [Stage.Passes, List.getElem?_cons_zero, Option.some.injEq, exists_eq_left']

theorem Stage.stopsAt_zero (h : ¬ st.Passes grant (b :: bs) 0) : st.StopsAt grant (b :: bs) 0 :=
  ⟨by simp, fun j hj => absurd hj (by omega), h⟩

theorem Stage.stopsAt_succ {i : Nat} (h : st.Passes grant (b :: bs) 0)
    (hs : st.StopsAt (fun j => grant (j + 1)) bs i) : st.StopsAt grant (b :: bs) (i + 1) := by
  obtain ⟨hlt, hbefore, hno⟩ := hs
  refine ⟨by simpa using hlt, ?_, hno⟩
  intro j hj
  cases j with
  | zero => exact h
  | succ j => exact hbefore j (by omega)

theorem Stage.passesAll_cons (h : st.Passes grant (b :: bs) 0)
    (hs : st.PassesAll (fun j => grant (j + 1)) bs) : st.PassesAll grant (b :: bs) := by
  intro i hi
  cases i with
  | zero => exact h
  | succ i => exact hs i (by simpa using hi)

/-- The loop over the blocks that start at index `ix` of the array stops at the
first of them that does not pass. -/
theorem blockLoop_failed (st : Stage) (grant : Nat → Option UInt32) (ix : Nat)
    (bs : List TilerBlockInfo) :
    ((blockLoop st grant ix bs).failed = none ∧ st.PassesAll (fun j => grant (ix + j)) bs) ∨
    ∃ i, (blockLoop st grant ix bs).failed = some (ix + i) ∧
      st.StopsAt (fun j => grant (ix + j)) bs i := by
  induction bs generalizing ix with
  | nil => exact Or.inl ⟨rfl, fun i hi => absurd hi (by simp)⟩
  | cons b bs ih =>
    have hz : st.Passes (fun j => grant (ix + j)) (b :: bs) 0 ↔
        st.tries b = true ∧ st.accepts (st.after b (grant ix)).ssptr = true := Stage.passes_zero
    by_cases hp : st.tries b = true ∧ st.accepts (st.after b (grant ix)).ssptr = true
    · have heq : (blockLoop st grant ix (b :: bs)).failed =
          (blockLoop st grant (ix + 1) bs).failed := by
        simp only [blockLoop, hp.1, hp.2, if_true]
      have hshift : (fun j => grant (ix + 1 + j)) = fun j => grant (ix + (j + 1)) := by
        funext j
        rw [show ix + 1 + j = ix + (j + 1) by omega]
      have := ih (ix + 1)
      rw [hshift] at this
      rcases this with ⟨hf, hall⟩ | ⟨i, hf, hstop⟩
      · exact Or.inl ⟨heq.trans hf, Stage.passesAll_cons (hz.mpr hp) hall⟩
      · refine Or.inr ⟨i + 1, ?_, Stage.stopsAt_succ (hz.mpr hp) hstop⟩
        rw [heq, hf]
        congr 1
        omega
    · refine Or.inr ⟨0, ?_, Stage.stopsAt_zero (fun h => hp (hz.mp h))⟩
      simp only [blockLoop, Nat.add_zero]
      by_cases ht : st.tries b = true
      · have ha : ¬ st.accepts (st.after b (grant ix)).ssptr = true := fun ha => hp ⟨ht, ha⟩
        simp only [ht, ha, if_true, Bool.false_eq_true, if_false]
      · simp only [ht, Bool.false_eq_true, if_false]

theorem Stage.StopsAt.not_passesAll {ix : Nat} (h : st.StopsAt grant blks ix) :
    ¬ st.PassesAll grant blks := by
  intro hall
  exact h.2.2 (hall ix h.1)

theorem Stage.StopsAt.unique {i j : Nat} (hi : st.StopsAt grant blks i)
    (hj : st.StopsAt grant blks j) : i = j := by
  rcases Nat.lt_trichotomy i j with h | h | h
  · exact absurd (hj.2.1 i h) hi.2.2
  · exact h
  · exact absurd (hi.2.1 j h) hj.2.2

theorem blockLoop_failed_some {ix : Nat} (h : (blockLoop st grant 0 blks).failed = some ix) :
    st.StopsAt grant blks ix := by
  have := blockLoop_failed st grant 0 blks
  simp only [h, reduceCtorEq, false_and, false_or, Nat.zero_add, Option.some.injEq] at this
  obtain ⟨i, hi, hstop⟩ := this
  exact hi ▸ hstop

theorem blockLoop_failed_none :
    (blockLoop st grant 0 blks).failed = none ↔ st.PassesAll grant blks := by
  have := blockLoop_failed st grant 0 blks
  simp only [Nat.zero_add] at this
  rcases this with ⟨hf, hall⟩ | ⟨i, hf, hstop⟩
  · exact iff_of_true hf hall
  · exact iff_of_false (by simp [hf]) hstop.not_passesAll

end Passing

section Creating
variable {s : MemMgr} {blks : List TilerBlockInfo} {ty : BufType} {e : CreateEnv} {st : Stage}

theorem tilerMmap_unmapped (h : ∀ addr, ¬ e.MapsAt addr) :
    tilerMmap s blks ty e = some ⟨s, blks, 0, e.unmappedTrace⟩ := by
  unfold tilerMmap CreateEnv.unmappedTrace
  by_cases hr : e.rbufRet = 0
  swap
  · simp only [ne_eq, hr, not_false_iff, if_true]
  by_cases ho : e.rbufOut.offset = 0
  · simp only [ne_eq, hr, ho, not_true, if_true, if_false]
  simp only [ne_eq, hr, ho, not_true, if_false]
  cases hm : e.mmapRet with
  | none => rfl
  | some addr =>
    have hp : e.bufPtr addr = 0 := by
      by_contra hp
      exact h addr ⟨hr, ho, hm, hp⟩
    simp only [hp, if_true]

variable {addr : UInt32}

theorem tilerMmap_cached (h : e.MapsAt addr) (hc : e.callocOk = true) {l : List AllocData}
    (hb : s.bufs = some l) :
    tilerMmap s blks ty e = some
      ⟨{ s with bufs := some (l ++ [e.record blks ty addr]) }, fillPtrs (e.bufPtr addr) 0 blks,
        e.bufPtr addr, [.rbuf (some e.rbufOut.offset), .mmap (some addr)]⟩ := by
  obtain ⟨hr, ho, hm, hp⟩ := h
  simp [tilerMmap, hr, ho, hm, hp, hc, hb, bufCacheAdd, CreateEnv.record]

theorem tilerMmap_uncached (h : e.MapsAt addr) (hc : e.callocOk = false) :
    tilerMmap s blks ty e = some ⟨s, blks, e.bufPtr addr,
      [.rbuf (some e.rbufOut.offset), .mmap (some addr), .urbuf e.rbufOut.offset]⟩ := by
  obtain ⟨hr, ho, hm, hp⟩ := h
  simp [tilerMmap, hr, ho, hm, hp, hc, bufCacheAdd, enomem]

theorem createBuffer_failed {ix : Nat} (h : (blockLoop st e.grant 0 blks).failed = some ix) :
    createBuffer st ty s blks e = some (unwind st s (blockLoop st e.grant 0 blks).blks
      (blockLoop st e.grant 0 blks).trace ix) := by
  simp only [createBuffer, h]

variable (hf : (blockLoop st e.grant 0 blks).failed = none)
include hf

theorem createBuffer_unmapped (h : ∀ addr, ¬ e.MapsAt addr) :
    createBuffer st ty s blks e = some (unwind st s (blockLoop st e.grant 0 blks).blks
      ((blockLoop st e.grant 0 blks).trace ++ e.unmappedTrace)
      (blockLoop st e.grant 0 blks).blks.length) := by
  simp only [createBuffer, hf, tilerMmap_unmapped h, Option.map_some, ne_eq, not_true, if_false]

theorem createBuffer_cached (h : e.MapsAt addr) (hc : e.callocOk = true) {l : List AllocData}
    (hb : s.bufs = some l) :
    createBuffer st ty s blks e = some
      ⟨{ s with bufs := some (l ++ [e.record (blockLoop st e.grant 0 blks).blks ty addr]) },
        fillPtrs (e.bufPtr addr) 0 (blockLoop st e.grant 0 blks).blks, e.bufPtr addr,
        (blockLoop st e.grant 0 blks).trace ++
          [.rbuf (some e.rbufOut.offset), .mmap (some addr)]⟩ := by
  simp only [createBuffer, hf, tilerMmap_cached h hc hb, Option.map_some, ne_eq, h.2.2.2,
    not_false_iff, if_true]

theorem createBuffer_uncached (h : e.MapsAt addr) (hc : e.callocOk = false) :
    createBuffer st ty s blks e = some
      ⟨s, (blockLoop st e.grant 0 blks).blks, e.bufPtr addr, (blockLoop st e.grant 0 blks).trace ++
        [.rbuf (some e.rbufOut.offset), .mmap (some addr), .urbuf e.rbufOut.offset]⟩ := by
  simp only [createBuffer, hf, tilerMmap_uncached h hc, Option.map_some, ne_eq, h.2.2.2,
    not_false_iff, if_true]

end Creating

end Omap4Hal.Tiler

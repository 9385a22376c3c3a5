import Mathlib.Algebra.Group.Int.Defs
import Omap4Hal.Lib.Run

/- Buffers that a remote processor allocates on the host (procmgr/SysLinkMemUtils.c).
   `alloc` takes a TILER buffer from MemMgr, asks for its device address and records
   both in the address table; `free` looks the device address up and gives the buffer
   back. The answers of MemMgr, TilerMem and ProcMgr and of the allocator are
   arguments of each call.

   `Served` says what a caller may expect of each call, `ServedWhen` when it gets it;
   `memUtils_served_iff` is the equivalence, over every run. -/
namespace Omap4Hal.Procmgr.MemUtils

open Lib

/-! ## Constants (ProcMgr.h, mem_types.h) -/

def procMgrSuccess : Int := 0xf2ba * 2 ^ 12
def procMgrEInvalidArg : Int := procMgrSuccess + 1 - 2 ^ 31
def procMgrEMemory : Int := procMgrSuccess + 2 - 2 ^ 31

def pixelFmtPage : UInt32 := 4

inductive MapType where
  | virt
  | phys
  | tiler
  deriving DecidableEq

/-! ## Data -/

/-- `AllocParams`, one buffer of the marshalled request. -/
structure AllocParams where
  pixelFormat : UInt32
  width : UInt32
  height : UInt32
  length : UInt32
  stride : UInt32 := 0
  ptr : UInt32 := 0

/-- `MemAllocBlock`. The union `dim` is one word: the length, or the width in its low
half and the height in its high half. -/
structure MemAllocBlock where
  pixelFormat : UInt32 := 0
  dim : UInt32 := 0
  stride : UInt32 := 0
  ptr : UInt32 := 0

structure AddrNode where
  da : UInt32
  ua : UInt32
  size : UInt32

/-- The address table, and what the calls have done outside: the buffers that MemMgr
holds, the addresses `ProcMgr_unmap` has unmapped and those passed to `MemMgr_Free`. -/
structure State where
  addrTable : List AddrNode := []
  live : List UInt32 := []
  unmaps : List UInt32 := []
  frees : List UInt32 := []

def findNode (s : State) (da : UInt32) : Option AddrNode :=
  s.addrTable.find? fun node => node.da = da

/-- `node` says whether the memory for the node could be allocated. -/
def insertMapElement (s : State) (da ua size : UInt32) (node : Bool) : Int × State :=
  if node then (procMgrSuccess, { s with addrTable := s.addrTable ++ [⟨da, ua, size⟩] })
  else (procMgrEMemory, s)

/-- `List_remove` takes out the node that was found, the first with this address. -/
def removeMapElement (s : State) (da : UInt32) : UInt32 × State :=
  match findNode s da with
  | none => (0, s)
  | some node => (node.ua, { s with addrTable := s.addrTable.eraseP fun n => n.da = da })

/-! ## Mapping -/

structure MapReply where
  phys : UInt32
  opened : Int := 0
  mapped : Int := 0
  mappedAddr : UInt32 := 0
  closed : Int := 0

/-- `SysLinkMemUtils_map`: the status and what is stored in `*mappedAddr`. -/
def map (numOfBuffers : UInt32) (mappedAddr : UInt32) (memType : MapType) (r : MapReply) :
    Int × UInt32 :=
  if numOfBuffers > 1 then (procMgrEInvalidArg, mappedAddr)
  else if memType = .tiler then (procMgrSuccess, r.phys)
  else if r.opened < 0 then (r.opened, mappedAddr)
  else if r.mapped < 0 then (r.mapped, r.mappedAddr)
  else (r.closed, r.mappedAddr)

structure UnmapReply where
  opened : Int := 0
  unmapped : Int := 0
  closed : Int := 0

def unmap (s : State) (mappedAddr : UInt32) (r : UnmapReply) : Int × State :=
  if r.opened < 0 then (r.opened, s)
  else if r.unmapped < 0 then (r.unmapped, s)
  else (r.closed, { s with unmaps := s.unmaps ++ [mappedAddr] })

def memMgrFree (s : State) (ptr : UInt32) (status : Int) : Int × State :=
  (status, { s with
    frees := s.frees ++ [ptr]
    live := if status = 0 then s.live.erase ptr else s.live })

/-! ## alloc and free -/

def setWidth (dim : UInt32) (width : UInt16) : UInt32 := (dim &&& 0xffff0000) ||| width.toUInt32

def setHeight (dim : UInt32) (height : UInt16) : UInt32 :=
  (dim &&& (0xffff : UInt32)) ||| (height.toUInt32 <<< 16)

def heightOf (dim : UInt32) : UInt16 := (dim >>> 16).toUInt16

/-- Width and height are stored before the length, in the same word. -/
def packBlock (p : AllocParams) : MemAllocBlock :=
  let b : MemAllocBlock := { pixelFormat := p.pixelFormat }
  let b := { b with dim := setWidth b.dim p.width.toUInt16 }
  let b := { b with dim := setHeight b.dim p.height.toUInt16 }
  { b with dim := p.length }

def bufferSize (blocks : List MemAllocBlock) : UInt32 :=
  blocks.foldl (fun size b =>
    if b.pixelFormat = pixelFmtPage then size + b.dim
    else size + (heightOf b.dim).toUInt32 * b.stride) 0

/-- What the calls of `alloc` answer: `memBlock` and `node` are the two allocations,
`ptr` is that of `MemMgr_Alloc` (0 is NULL), which also fills in each block. -/
structure AllocReply where
  memBlock : Bool
  ptr : UInt32
  filled : Nat → UInt32 × UInt32 := fun _ => (0, 0)
  map : MapReply
  node : Bool
  unmap : UnmapReply := {}
  free : Int := 0

/-- The blocks as `MemMgr_Alloc` leaves them. -/
def fillBlocks (filled : Nat → UInt32 × UInt32) (blocks : List MemAllocBlock) :
    List MemAllocBlock :=
  blocks.mapIdx fun i b => { b with stride := (filled i).1, ptr := (filled i).2 }

/-- The request is returned with the strides and pointers. -/
def alloc (s : State) (args : List AllocParams) (r : AllocReply) :
    UInt32 × List AllocParams × State :=
  if !r.memBlock then (0, args, s)
  else if r.ptr = 0 then (0, args, s)
  else
    let s := { s with live := s.live ++ [r.ptr] }
    let memBlock := fillBlocks r.filled (args.map packBlock)
    let args := List.zipWith (fun p b => { p with stride := b.stride, ptr := b.ptr }) args memBlock
    let size := bufferSize memBlock
    let mapped := map 1 0 .tiler r.map
    let retAddr := mapped.2
    let inserted :=
      if mapped.1 = procMgrSuccess then insertMapElement s retAddr r.ptr size r.node
      else (mapped.1, s)
    if inserted.1 ≠ procMgrSuccess then
      let s := if retAddr ≠ 0 then (unmap inserted.2 retAddr r.unmap).2 else inserted.2
      (retAddr, args, (memMgrFree s r.ptr r.free).2)
    else (retAddr, args, inserted.2)

structure FreeReply where
  unmap : UnmapReply := {}
  free : Int := 0

/-- 0 is success. -/
def free (s : State) (bufPtr : UInt32) (r : FreeReply) : Int × State :=
  let removed := removeMapElement s bufPtr
  let ua := removed.1
  if ua = 0 then (1, removed.2)
  else
    -- the status of `MemMgr_Free` overwrites that of the unmap
    let s := (unmap removed.2 ua r.unmap).2
    let freed := memMgrFree s ua r.free
    (if freed.1 = 0 then 0 else 1, freed.2)

/-! ## Runs -/

/-- An allocation that was granted and not yet freed: the address the remote processor
was given, and the TILER buffer behind it. -/
structure Grant where
  addr : UInt32
  buf : UInt32

structure Tracked where
  s : State := {}
  grants : List Grant := []

inductive Call where
  | alloc (args : List AllocParams) (r : AllocReply)
  | free (bufPtr : UInt32) (r : FreeReply)

def step (t : Tracked) : Call → Option Tracked
  | .alloc args r =>
    let x := alloc t.s args r
    some ⟨x.2.2, if x.1 ≠ 0 then t.grants ++ [⟨x.1, r.ptr⟩] else t.grants⟩
  | .free bufPtr r =>
    let x := free t.s bufPtr r
    some ⟨x.2, if x.1 = 0 then t.grants.eraseP fun g => g.addr = bufPtr else t.grants⟩

/-! ## What the calls are for -/

/-- The call has recorded a live buffer under the address. -/
def Recorded (s : State) (addr : UInt32) (s' : State) : Prop :=
  ∃ node, s'.addrTable = s.addrTable ++ [node] ∧ node.da = addr ∧ node.ua ∈ s'.live

/-- What is expected of a call: a non-zero address means a recorded buffer; a free
succeeds exactly if the address is one that was granted and not yet freed, and then
unmaps this address and frees the buffer behind it. -/
def Served (t : Tracked) : Call → Prop
  | .alloc args r =>
    (alloc t.s args r).1 ≠ 0 ↔ Recorded t.s (alloc t.s args r).1 (alloc t.s args r).2.2
  | .free bufPtr r =>
    ((free t.s bufPtr r).1 = 0 ↔ ∃ g ∈ t.grants, g.addr = bufPtr) ∧
      ∀ g, t.grants.find? (fun g => g.addr = bufPtr) = some g →
        (free t.s bufPtr r).2.unmaps = t.s.unmaps ++ [g.addr] ∧
        (free t.s bufPtr r).2.frees = t.s.frees ++ [g.buf]

/-- When it gets it. An allocation: no memory, no buffer, or a device address and a
node, or neither. A free: an address that is not in the table, or one that is the user
address of its buffer as well, with the processor opened and the address unmapped, and
the buffer freed. -/
def ServedWhen (t : Tracked) : Call → Prop
  | .alloc _ r => r.memBlock = true → r.ptr ≠ 0 → (r.map.phys ≠ 0 ↔ r.node = true)
  | .free bufPtr r => ∀ node, findNode t.s bufPtr = some node →
      node.ua = bufPtr ∧ (0 ≤ r.unmap.opened ∧ 0 ≤ r.unmap.unmapped) ∧ r.free = 0

/-! ## One call -/

@[simp] theorem unmap_addrTable (s : State) (a : UInt32) (r : UnmapReply) :
    (unmap s a r).2.addrTable = s.addrTable := by
  rw [unmap]
  split_ifs <;> rfl

@[simp] theorem unmap_frees (s : State) (a : UInt32) (r : UnmapReply) :
    (unmap s a r).2.frees = s.frees := by
  rw [unmap]
  split_ifs <;> rfl

theorem unmap_unmaps (s : State) (a : UInt32) (r : UnmapReply) :
    (unmap s a r).2.unmaps =
      if 0 ≤ r.opened ∧ 0 ≤ r.unmapped then s.unmaps ++ [a] else s.unmaps := by
  rw [unmap]
  by_cases hopened : r.opened < 0
  · simp [hopened, Int.not_le.mpr hopened]
  · by_cases hunmapped : r.unmapped < 0
    · simp [hopened, hunmapped, Int.not_le.mpr hunmapped]
    · simp [hopened, hunmapped, Int.not_lt.mp hopened, Int.not_lt.mp hunmapped]

variable {r : AllocReply} {t : Tracked}

theorem alloc_refused (s : State) (args : List AllocParams)
    (h : ¬ (r.memBlock = true ∧ r.ptr ≠ 0)) :
    alloc s args r = (0, args, s) := by
  rw [alloc]
  by_cases hblock : r.memBlock = true
  · have hptr : r.ptr = 0 := by
      by_contra hptr
      exact h ⟨hblock, hptr⟩
    simp [hblock, hptr]
  · simp [hblock]

theorem alloc_recorded (s : State) (args : List AllocParams) (hblock : r.memBlock = true)
    (hptr : r.ptr ≠ 0) (hnode : r.node = true) :
    ∃ size, (alloc s args r).1 = r.map.phys ∧
      (alloc s args r).2.2.addrTable = s.addrTable ++ [⟨r.map.phys, r.ptr, size⟩] ∧
      (alloc s args r).2.2.live = s.live ++ [r.ptr] := by
  refine ⟨bufferSize (fillBlocks r.filled (args.map packBlock)), ?_⟩
  have hmap : map 1 0 .tiler r.map = (procMgrSuccess, r.map.phys) := rfl
  simp [alloc, hblock, hptr, hmap, insertMapElement, hnode]

theorem alloc_unrecorded (s : State) (args : List AllocParams) (hblock : r.memBlock = true)
    (hptr : r.ptr ≠ 0) (hnode : r.node = false) :
    (alloc s args r).1 = r.map.phys ∧ (alloc s args r).2.2.addrTable = s.addrTable := by
  have hmap : map 1 0 .tiler r.map = (procMgrSuccess, r.map.phys) := rfl
  have hfail : procMgrEMemory ≠ procMgrSuccess := by decide
  simp only [alloc, hblock, hptr, hmap, insertMapElement, hnode, hfail, memMgrFree, Bool.not_true,
    Bool.false_eq_true, if_false, if_true, ne_eq, not_false_eq_true, true_and]
  split
  · exact unmap_addrTable _ _ _
  · rfl

theorem not_recorded {s s' : State} {a : UInt32} (h : s'.addrTable = s.addrTable) :
    ¬ Recorded s a s' := by
  intro hrec
  obtain ⟨node, htable, _⟩ := hrec
  rw [h] at htable
  simp at htable

theorem alloc_served_iff (t : Tracked) (args : List AllocParams) (r : AllocReply) :
    Served t (.alloc args r) ↔ ServedWhen t (.alloc args r) := by
  rw [Served, ServedWhen]
  by_cases hbuf : r.memBlock = true ∧ r.ptr ≠ 0
  · obtain ⟨hblock, hptr⟩ := hbuf
    by_cases hnode : r.node = true
    · obtain ⟨size, hret, htable, hlive⟩ := alloc_recorded t.s args hblock hptr hnode
      have hrec : Recorded t.s r.map.phys (alloc t.s args r).2.2 :=
        ⟨⟨r.map.phys, r.ptr, size⟩, htable, rfl, by simp [hlive]⟩
      rw [hret]
      simp [hrec, hblock, hptr, hnode]
    · obtain ⟨hret, htable⟩ := alloc_unrecorded t.s args hblock hptr (by simpa using hnode)
      have hrec := not_recorded (a := r.map.phys) htable
      rw [hret]
      simp [hrec, hblock, hptr, hnode]
  · have hrec : ¬ Recorded t.s 0 t.s := not_recorded rfl
    rw [alloc_refused t.s args hbuf]
    refine ⟨?_, ?_⟩
    · intro _ hblock hptr
      exact absurd ⟨hblock, hptr⟩ hbuf
    · intro _
      exact ⟨fun h => absurd rfl h, fun h => absurd h hrec⟩

/-! ### free -/

theorem free_missing {s : State} {bufPtr : UInt32} (r : FreeReply)
    (h : findNode s bufPtr = none) : free s bufPtr r = (1, s) := by
  simp [free, removeMapElement, h]

theorem free_found {s : State} {bufPtr : UInt32} {node : AddrNode} (r : FreeReply)
    (h : findNode s bufPtr = some node) (hua : node.ua ≠ 0) :
    (free s bufPtr r).1 = (if r.free = 0 then 0 else 1) ∧
    (free s bufPtr r).2.addrTable = s.addrTable.eraseP (fun n => n.da = bufPtr) ∧
    (free s bufPtr r).2.unmaps =
      (if 0 ≤ r.unmap.opened ∧ 0 ≤ r.unmap.unmapped then s.unmaps ++ [node.ua]
        else s.unmaps) ∧
    (free s bufPtr r).2.frees = s.frees ++ [node.ua] := by
  simp [free, removeMapElement, h, hua, memMgrFree, unmap_unmaps]

/-- The table and the grants are the same list, and no entry is for NULL. -/
structure TableInv (t : Tracked) : Prop where
  grants : t.grants = t.s.addrTable.map fun n => ⟨n.da, n.ua⟩
  ua_ne : ∀ n ∈ t.s.addrTable, n.ua ≠ 0

theorem TableInv.find (hinv : TableInv t) (a : UInt32) :
    t.grants.find? (fun g => g.addr = a) = (findNode t.s a).map fun n => ⟨n.da, n.ua⟩ := by
  rw [hinv.grants, List.find?_map, findNode]
  rfl

theorem TableInv.granted_iff (hinv : TableInv t) (a : UInt32) :
    (∃ g ∈ t.grants, g.addr = a) ↔ (findNode t.s a).isSome := by
  rw [hinv.grants, findNode, List.find?_isSome]
  simp

theorem free_served_iff (hinv : TableInv t) (bufPtr : UInt32) (r : FreeReply) :
    Served t (.free bufPtr r) ↔ ServedWhen t (.free bufPtr r) := by
  rw [Served, ServedWhen, hinv.granted_iff, hinv.find]
  cases hfind : findNode t.s bufPtr with
  | none =>
    rw [free_missing r hfind]
    simp
  | some node =>
    have hda : node.da = bufPtr := by simpa using List.find?_some hfind
    have hua := hinv.ua_ne node (List.mem_of_find?_eq_some hfind)
    obtain ⟨hret, _, hunmaps, hfrees⟩ := free_found r hfind hua
    rw [hret, hunmaps, hfrees]
    refine ⟨?_, ?_⟩
    · intro h node' hnode'
      cases hnode'
      obtain ⟨hstatus, heffects⟩ := h
      obtain ⟨hunmap, _⟩ := heffects _ rfl
      have hanswers : 0 ≤ r.unmap.opened ∧ 0 ≤ r.unmap.unmapped := by
        by_contra hneg
        rw [if_neg hneg] at hunmap
        simp at hunmap
      rw [if_pos hanswers] at hunmap
      have hsame : node.ua = node.da := by simpa using hunmap
      refine ⟨hsame.trans hda, hanswers, ?_⟩
      by_contra hfree
      rw [if_neg hfree] at hstatus
      simp at hstatus
    · intro h
      obtain ⟨hsame, hanswers, hfree⟩ := h node rfl
      rw [if_pos hfree, if_pos hanswers]
      refine ⟨by simp, ?_⟩
      intro g hg
      cases hg
      simp [hsame, hda]

/-! ## Runs -/

theorem served_iff (hinv : TableInv t) (c : Call) : Served t c ↔ ServedWhen t c := by
  cases c with
  | alloc args r => exact alloc_served_iff t args r
  | free bufPtr r => exact free_served_iff hinv bufPtr r

theorem step_tableInv {t' : Tracked} {c : Call} (hinv : TableInv t) (hwhen : ServedWhen t c)
    (hstep : step t c = some t') : TableInv t' := by
  cases c with
  | alloc args r =>
    cases hstep
    by_cases hbuf : r.memBlock = true ∧ r.ptr ≠ 0
    · obtain ⟨hblock, hptr⟩ := hbuf
      have hboth : r.map.phys ≠ 0 ↔ r.node = true := hwhen hblock hptr
      by_cases hnode : r.node = true
      · obtain ⟨size, hret, htable, _⟩ := alloc_recorded t.s args hblock hptr hnode
        refine ⟨?_, ?_⟩
        · simp only [hret, htable, if_pos (hboth.mpr hnode), List.map_append, hinv.grants]
          rfl
        · simp only [htable, List.mem_append, List.mem_singleton]
          intro n hn
          rcases hn with hn | rfl
          · exact hinv.ua_ne n hn
          · exact hptr
      · obtain ⟨hret, htable⟩ := alloc_unrecorded t.s args hblock hptr (by simpa using hnode)
        refine ⟨?_, ?_⟩
        · simp only [hret, htable, if_neg (fun h => hnode (hboth.mp h)), hinv.grants]
        · simp only [htable]
          exact hinv.ua_ne
    · simp only [alloc_refused t.s args hbuf]
      exact ⟨hinv.grants, hinv.ua_ne⟩
  | free bufPtr r =>
    cases hstep
    cases hfind : findNode t.s bufPtr with
    | none =>
      simp only [free_missing r hfind]
      exact ⟨hinv.grants, hinv.ua_ne⟩
    | some node =>
      have hua := hinv.ua_ne node (List.mem_of_find?_eq_some hfind)
      obtain ⟨hret, htable, _⟩ := free_found r hfind hua
      obtain ⟨_, _, hfree⟩ := hwhen node hfind
      refine ⟨?_, ?_⟩
      · simp only [hret, htable, if_pos hfree, if_true, hinv.grants, List.eraseP_map]
        rfl
      · simp only [htable]
        intro n hn
        exact hinv.ua_ne n (List.mem_of_mem_eraseP hn)

/-- Over every sequence of calls and every outcome: every call does what is expected of
it exactly if every call meets `ServedWhen`. -/
theorem memUtils_served_iff (calls : List Call) :
    Guarded step Served {} calls ↔ Guarded step ServedWhen {} calls := by
  apply guarded_congr (J := TableInv)
  · intro t c hinv
    exact served_iff hinv c
  · intro t c t' hinv hwhen hstep
    exact step_tableInv hinv hwhen hstep
  · exact ⟨rfl, fun n hn => by cases hn⟩

/-- One page, at the user address 0x40001000 and the device address 0x60001000. -/
def onePage : Call :=
  .alloc [⟨4, 0, 0, 4096, 0, 0⟩] ⟨true, 0x40001000, fun _ => (0, 0x40001000),
    { phys := 0x60001000 }, true, {}, 0⟩

/-- The page is allocated and freed; what is unmapped is its user address. -/
theorem memUtils_unmaps_user_address :
    (run step {} [onePage, .free 0x60001000 {}]).map (fun t => t.s.unmaps) = some [0x40001000] ∧
    ¬ Guarded step Served {} [onePage, .free 0x60001000 {}] := by
  refine ⟨by decide, ?_⟩
  intro h
  have hfree := (h.2 _ rfl).1
  have hunmaps := (hfree.2 ⟨0x60001000, 0x40001000⟩ rfl).1
  exact absurd hunmaps (by decide)

end Omap4Hal.Procmgr.MemUtils

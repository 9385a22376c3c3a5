import Mathlib.Algebra.Group.Nat.Defs
import Mathlib.Logic.Function.Basic

/- The allocator for target memory of the ELF loader (`dlw_trgmem.c`): a doubly linked list of
   packets in host memory that describe the pool. Packets have numbers for their addresses; host
   memory is not exhausted, and a packet that is not allocated cannot be accessed. Target addresses
   and sizes are those of 32-bit machines, with the wrapping written out. -/
namespace Omap4Hal.Elfload

/-! ## The packets -/

structure Packet where
  packetAddr : Nat
  packetSize : Nat
  prevPacket : Option Nat
  nextPacket : Option Nat
  usedPacket : Bool
  deriving DecidableEq, Repr

structure TrgMem where
  packets : Nat → Option Packet
  /-- The packet that `DLIF_malloc` gives next. -/
  fresh : Nat
  trgMemHead : Option Nat

def TrgMem.set (m : TrgMem) (p : Nat) (pkt : Packet) : TrgMem :=
  { m with packets := Function.update m.packets p (some pkt) }

/-- A new packet. -/
def TrgMem.add (m : TrgMem) (pkt : Packet) : TrgMem :=
  { m.set m.fresh pkt with fresh := m.fresh + 1 }

/-- `DLIF_free` -/
def TrgMem.release (m : TrgMem) (p : Nat) : TrgMem :=
  { m with packets := Function.update m.packets p none }

def trgMinit (dynSeg size : Nat) : TrgMem where
  packets := fun p => if p = 0 then some ⟨dynSeg, size, none, none, false⟩ else none
  fresh := 1
  trgMemHead := some 0

/-- The next aligned address. The alignment is an `int`, so one of 2^31 is negative. -/
def trgAlign (origAddr alignment : Nat) : Nat :=
  if alignment ≤ 1 ∨ 2 ^ 31 ≤ alignment then origAddr
  else (origAddr + (alignment - 1)) % 2 ^ 32 &&& (2 ^ 32 - alignment)

def alignPad (addr alignment : Nat) : Nat := (trgAlign addr alignment + 2 ^ 32 - addr) % 2 ^ 32

/-! ## Freeing -/

/-- The packet takes in a free packet before it. -/
def mergePrev (m : TrgMem) (ptr : Nat) : Option Nat → Option TrgMem
  | none => some m
  | some prev => do
    let prevPkt ← m.packets prev
    if prevPkt.usedPacket then some m
    else
      let pkt ← m.packets ptr
      let m := m.set ptr { pkt with
        packetAddr := prevPkt.packetAddr
        packetSize := (pkt.packetSize + prevPkt.packetSize) % 2 ^ 32
        prevPacket := prevPkt.prevPacket }
      match prevPkt.prevPacket with
      | none => some (m.release prev)
      | some before => do
        let beforePkt ← m.packets before
        some ((m.set before { beforePkt with nextPacket := some ptr }).release prev)

/-- The packet takes in a free packet after it. -/
def mergeNext (m : TrgMem) (ptr : Nat) : Option Nat → Option TrgMem
  | none => some m
  | some next => do
    let nextPkt ← m.packets next
    if nextPkt.usedPacket then some m
    else
      let pkt ← m.packets ptr
      let m := m.set ptr { pkt with
        packetSize := (pkt.packetSize + nextPkt.packetSize) % 2 ^ 32
        nextPacket := nextPkt.nextPacket }
      match nextPkt.nextPacket with
      | none => some (m.release next)
      | some after => do
        let afterPkt ← m.packets after
        some ((m.set after { afterPkt with prevPacket := some ptr }).release next)

def trgFreePkt (m : TrgMem) (ptr : Nat) : Option TrgMem := do
  let pkt ← m.packets ptr
  let m ← mergePrev m ptr pkt.prevPacket
  let m ← mergeNext m ptr pkt.nextPacket
  let pkt ← m.packets ptr
  let head := if pkt.prevPacket = none then some ptr else m.trgMemHead
  some { m.set ptr { pkt with usedPacket := false } with trgMemHead := head }

/-! ## Allocating -/

/-- A packet for what is before the requested address. Neither the packet before it nor the head
of the list is made to point to it, and the size of the packet in use stays. -/
def splitFront (m : TrgMem) (ptr : Nat) (pkt : Packet) (reqAddr : Nat) : TrgMem × Option Nat :=
  if reqAddr > pkt.packetAddr then
    let front := ⟨pkt.packetAddr, reqAddr - pkt.packetAddr, pkt.prevPacket, some ptr, false⟩
    ((m.add front).set ptr { pkt with prevPacket := some m.fresh, packetAddr := reqAddr },
      some m.fresh)
  else (m, none)

/-- The padding becomes a packet, or part of the one that is before the requested address. The
field `usedPacket` of a new one is what the host memory holds. -/
def padFront (m : TrgMem) (ptr : Nat) (pkt : Packet) (alignment : Nat) (uninit : Bool) :
    Option Nat → Option TrgMem
  | none =>
    let pad := alignPad pkt.packetAddr alignment
    if pad = 0 then some m
    else
      let padding := ⟨pkt.packetAddr, pad, pkt.prevPacket, some ptr, uninit⟩
      some ((m.add padding).set ptr { pkt with
        prevPacket := some m.fresh
        packetSize := (pkt.packetSize + 2 ^ 32 - pad) % 2 ^ 32
        packetAddr := trgAlign pkt.packetAddr alignment })
  | some free =>
    let pad := alignPad pkt.packetAddr alignment
    if pad = 0 then some m
    else do
      let freePkt ← m.packets free
      some ((m.set free { freePkt with packetSize := (freePkt.packetSize + pad) % 2 ^ 32 }).set ptr
        { pkt with
          packetSize := (pkt.packetSize + 2 ^ 32 - pad) % 2 ^ 32
          packetAddr := trgAlign pkt.packetAddr alignment })

/-- The packet is in use; a packet for what is left behind it comes into the list. The packet
that was behind it keeps its pointer back. -/
def splitTail (m : TrgMem) (ptr : Nat) (pkt : Packet) (size : Nat) : TrgMem :=
  let used := { pkt with packetSize := size, usedPacket := true }
  if pkt.packetSize > size then
    let free := ⟨(pkt.packetAddr + size) % 2 ^ 32, pkt.packetSize - size, some ptr, pkt.nextPacket,
      false⟩
    (m.add free).set ptr { used with nextPacket := some m.fresh }
  else m.set ptr used

def trgAllocPkt (m : TrgMem) (ptr size alignment reqAddr : Nat) (uninit : Bool) :
    Option (Nat × TrgMem) := do
  let pkt ← m.packets ptr
  let split := splitFront m ptr pkt reqAddr
  let pkt ← split.1.packets ptr
  let m ← padFront split.1 ptr pkt alignment uninit split.2
  let pkt ← m.packets ptr
  some (pkt.packetAddr, splitTail m ptr pkt size)

/-- The packet has room for the size at an aligned address. -/
def Packet.fits (pkt : Packet) (size alignment : Nat) : Bool :=
  let pad := alignPad pkt.packetAddr alignment
  !pkt.usedPacket && decide (pad < pkt.packetSize) && decide (size ≤ pkt.packetSize - pad)

/-- The loop for the smallest free packet that is large enough. `best` is the one found so far
with its size. It has as many rounds as there can be packets; a list that is longer is a ring. -/
def bestFit (m : TrgMem) (size alignment : Nat) :
    Nat → Option Nat → Option (Nat × Nat) → Option (Option (Nat × Nat))
  | _, none, best => some best
  | 0, some _, _ => none
  | k + 1, some p, best => do
    let pkt ← m.packets p
    let better := pkt.fits size alignment && best.all fun b => decide (pkt.packetSize < b.2)
    bestFit m size alignment k pkt.nextPacket (if better then some (p, pkt.packetSize) else best)

/-- The loop for the packet that contains an address. -/
def findAddr (m : TrgMem) (reqAddr : Nat) : Nat → Option Nat → Option (Option Nat)
  | _, none => some none
  | 0, some _ => none
  | k + 1, some p => do
    let pkt ← m.packets p
    if reqAddr < pkt.packetAddr ∨ (pkt.packetAddr + pkt.packetSize) % 2 ^ 32 ≤ reqAddr then
      findAddr m reqAddr k pkt.nextPacket
    else some (some p)

/-- A request without an address. -/
def mallocAnywhere (m : TrgMem) (size alignment : Nat) (uninit : Bool) :
    Option (Option Nat × TrgMem) := do
  match ← bestFit m size alignment m.fresh m.trgMemHead none with
  | none => some (none, m)
  | some (p, _) =>
    let pkt ← m.packets p
    let (addr, m) ← trgAllocPkt m p size alignment pkt.packetAddr uninit
    some (some addr, m)

/-- A request for an address. That the packet is free is not checked. -/
def mallocAt (m : TrgMem) (reqAddr size alignment : Nat) (uninit : Bool) :
    Option (Option Nat × TrgMem) :=
  if trgAlign reqAddr alignment ≠ reqAddr then some (none, m)
  else do
    match ← findAddr m reqAddr m.fresh m.trgMemHead with
    | none => some (none, m)
    | some p =>
      let pkt ← m.packets p
      if size ≤ pkt.packetSize then
        let (addr, m) ← trgAllocPkt m p size alignment reqAddr uninit
        if addr ≠ reqAddr then none else some (some addr, m)
      else some (none, m)

def trgMalloc (m : TrgMem) (reqAddr size alignment : Nat) (uninit : Bool) :
    Option (Option Nat × TrgMem) :=
  if size = 0 then some (none, m)
  else if reqAddr = 2 ^ 32 - 1 then mallocAnywhere m size alignment uninit
  else mallocAt m reqAddr size alignment uninit

/-- A request as the loader makes it. -/
structure Request where
  relocatable : Bool
  targetAddress : UInt32
  memsz : UInt32
  align : UInt32
  deriving DecidableEq, Repr

def Request.alignment (r : Request) : Nat := if r.align ≠ 0 then r.align.toNat else 1

def Request.reqAddr (r : Request) : Nat :=
  if r.relocatable then 2 ^ 32 - 1 else r.targetAddress.toNat

def dltmmMalloc (m : TrgMem) (r : Request) (uninit : Bool) : Option (Option Nat × TrgMem) :=
  trgMalloc m r.reqAddr r.memsz.toNat r.alignment uninit

/-- The loop for the last packet in use that does not begin behind the address. -/
def findUsed (m : TrgMem) (addr : Nat) : Nat → Option Nat → Option Nat → Option (Option Nat)
  | _, none, prev => some prev
  | 0, some _, _ => none
  | k + 1, some p, prev => do
    let pkt ← m.packets p
    if pkt.usedPacket = false then findUsed m addr k pkt.nextPacket prev
    else if pkt.packetAddr ≤ addr then findUsed m addr k pkt.nextPacket (some p)
    else some prev

def dltmmFree (m : TrgMem) (addr : Nat) : Option TrgMem := do
  match ← findUsed m addr m.fresh m.trgMemHead none with
  | none => none
  | some p => trgFreePkt m p

end Omap4Hal.Elfload

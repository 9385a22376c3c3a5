import Omap4Hal.Domx.Proxy

/- The stubs of `omx_rpc_stub.c` that send a structure of the caller. A stub allocates a packet
   of `RPC_PACKET_SIZE` bytes, writes fields of fixed size one after the other and then the
   structure, as many bytes as its first word says. Two of the stubs copy the same number of
   bytes back from the packet of the reply.

   `struct omx_packet` is of the kernel (`linux/rpmsg_omx.h`): what is used of it are the places
   of its fields, a parameter here. All other accesses are noted with their place in the packet
   and what is written.

   `stubs_inside_iff` is the result: nothing compares the size of the structure with the room
   that is left, so that it has to fit by itself. -/
namespace Omap4Hal.Domx.Stub

def rpcPacketSize : Nat := 0xF0

/-- The places of the fields of `struct omx_packet`. The header comes before the data, and
there is room for the fields that every request has. -/
structure OmxPacket where
  desc : Nat
  msgId : Nat
  flags : Nat
  fxnIdx : Nat
  result : Nat
  dataSize : Nat
  data : Nat
  header : desc + 2 ≤ data ∧ msgId + 2 ≤ data ∧ flags + 4 ≤ data ∧ fxnIdx + 4 ≤ data ∧
    result + 4 ≤ data ∧ dataSize + 4 ≤ data
  room : data + 28 ≤ rpcPacketSize

/-- The memory of the caller. -/
def Memory := UInt32 → UInt8

/-- `RPC_UTIL_GETSTRUCTSIZE` -/
def Memory.structSize (mem : Memory) (p : UInt32) : UInt32 :=
  (mem p).toUInt32 ||| (mem (p + 1)).toUInt32 <<< 8 ||| (mem (p + 2)).toUInt32 <<< 16 |||
    (mem (p + 3)).toUInt32 <<< 24

def Memory.read (mem : Memory) (p : UInt32) (n : Nat) : List UInt8 :=
  (List.range n).map fun i => mem (p + UInt32.ofNat i)

/-- `n` bytes are written from `p` on. -/
def Memory.write (mem : Memory) (p : UInt32) (n : Nat) (bytes : Nat → UInt8) : Memory :=
  fun a => if (a - p).toNat < n then bytes (a - p).toNat else mem a

/-! ## Marshalling -/

inductive Chunk where
  | half (v : UInt16)
  | word (v : UInt32)
  | block (bytes : List UInt8)
  deriving DecidableEq

def Chunk.size : Chunk → Nat
  | .half _ => 2
  | .word _ => 4
  | .block bytes => bytes.length

/-- A packet that is filled: `nPos`, and what has been written where. -/
structure Filling where
  nPos : UInt32 := 0
  writes : List (Nat × Chunk) := []

section Fields
variable (pkt : OmxPacket)

/-- `RPC_SETFIELDVALUE`; handles, indices and enumerations are words as well. -/
def Filling.setFieldValue (f : Filling) (v : UInt32) : Filling where
  nPos := f.nPos + 4
  writes := f.writes ++ [(pkt.data + f.nPos.toNat, .word v)]

/-- `RPC_SETFIELDCOPYGEN` -/
def Filling.setFieldCopyGen (f : Filling) (mem : Memory) (ptr size : UInt32) : Filling where
  nPos := f.nPos + size
  writes := f.writes ++ [(pkt.data + f.nPos.toNat, .block (mem.read ptr size.toNat))]

/-- `RPC_getPacket` and `RPC_initPacket`. -/
def initPacket (nFxnIdx : UInt32) : Filling where
  writes := [(0, .block (List.replicate rpcPacketSize 0)), (pkt.desc, .half 0x100),
    (pkt.msgId, .half 0), (pkt.flags, .word 0x8000), (pkt.fxnIdx, .word (nFxnIdx ||| 0x80000000)),
    (pkt.result, .word 0), (pkt.dataSize, .word (UInt32.ofNat rpcPacketSize))]

/-- `RPC_OMX_MAP_INFO_NONE` or `RPC_OMX_MAP_INFO_ONE_BUF`, and `nOffset`. The difference of the
two pointers has a sign. -/
def mapInfo (pComp pLocBufNeedMap : UInt32) : UInt32 × UInt32 :=
  if pLocBufNeedMap ≠ 0 ∧ pLocBufNeedMap - pComp < 0x80000000 then
    (1, pLocBufNeedMap - pComp + 16)
  else (0, 0)

/-- The packets of `RPC_SetParameter` and the three functions like it. -/
def fillStruct (mem : Memory) (nFxnIdx hComp nIndex pComp pLocBufNeedMap : UInt32) : Filling :=
  let info := mapInfo pComp pLocBufNeedMap
  let f := (((initPacket pkt nFxnIdx).setFieldValue pkt info.1).setFieldValue pkt info.2)
  let f := (f.setFieldValue pkt hComp).setFieldValue pkt nIndex
  f.setFieldCopyGen pkt mem pComp (mem.structSize pComp)

def commandMarkBuffer : UInt32 := 4
/-- `sizeof(OMX_MARKTYPE)` -/
def sizeMarkType : UInt32 := 8

def fillCommand (mem : Memory) (nFxnIdx hComp eCmd nParam pCmdData : UInt32) : Filling :=
  let f := (((initPacket pkt nFxnIdx).setFieldValue pkt 0).setFieldValue pkt 0)
  let f := ((f.setFieldValue pkt hComp).setFieldValue pkt eCmd).setFieldValue pkt nParam
  if pCmdData ≠ 0 ∧ eCmd = commandMarkBuffer then
    f.setFieldCopyGen pkt mem pCmdData sizeMarkType
  else if pCmdData ≠ 0 then
    f.setFieldCopyGen pkt mem pCmdData (mem.structSize pCmdData)
  else f

end Fields

/-! ## The stubs -/

structure Reply where
  result : UInt32
  /-- The bytes of the packet. -/
  bytes : Nat → UInt8

/-- What the system answers: whether there is memory for the packet, whether `write` succeeds,
and the reply or the error of `TIMM_OSAL_ReadFromPipe`. -/
structure StubEnv where
  malloc : Bool
  written : Bool
  reply : Except UInt32 Reply

/-- What a stub returns and leaves, with its accesses: what was written to the packet of the
request, and the places and numbers of bytes that were read from the reply. -/
structure StubResult where
  err : RpcError
  eCompReturn : Option UInt32
  mem : Memory
  writes : List (Nat × Chunk)
  reads : List (Nat × Nat)

def rpcErrorUndefined : RpcError := .other 0x81001

/-- `RPC_sendPacket_sync` and what follows it, where the result of the component is all that
is read from the reply. -/
def send (pkt : OmxPacket) (mem : Memory) (e : StubEnv) (f : Filling) : StubResult :=
  if e.written = false then ⟨rpcErrorUndefined, none, mem, f.writes, []⟩
  else match e.reply with
    | .error code => ⟨.other code, none, mem, f.writes, []⟩
    | .ok r => ⟨.none, some r.result, mem, f.writes, [(pkt.result, 4)]⟩

def noPacket (mem : Memory) : StubResult := ⟨.insufficientResources, none, mem, [], []⟩

/-- `RPC_SetParameter` and `RPC_SetConfig`. -/
def setStub (nFxnIdx : UInt32) (pkt : OmxPacket) (hComp : UInt32) (mem : Memory) (e : StubEnv)
    (nIndex pComp pLocBufNeedMap : UInt32) : StubResult :=
  if e.malloc = false then noPacket mem
  else send pkt mem e (fillStruct pkt mem nFxnIdx hComp nIndex pComp pLocBufNeedMap)

/-- `RPC_GetParameter` and `RPC_GetConfig`: the structure comes back in the place in which it
was sent, `nDataOffset`. -/
def getStub (nFxnIdx : UInt32) (pkt : OmxPacket) (hComp : UInt32) (mem : Memory) (e : StubEnv)
    (nIndex pComp pLocBufNeedMap : UInt32) : StubResult :=
  if e.malloc = false then noPacket mem
  else
    let nDataOffset := 16
    let structSize := (mem.structSize pComp).toNat
    let r := send pkt mem e (fillStruct pkt mem nFxnIdx hComp nIndex pComp pLocBufNeedMap)
    match e.written, e.reply with
    | true, .ok reply =>
      if reply.result = 0 then
        { r with
          mem := mem.write pComp structSize fun i => reply.bytes (pkt.data + nDataOffset + i)
          reads := r.reads ++ [(pkt.data + nDataOffset, structSize)] }
      else r
    | _, _ => r

def rpcSetParameter := setStub 1
def rpcGetParameter := getStub 2
def rpcSetConfig := setStub 5
def rpcGetConfig := getStub 6

def rpcSendCommand (pkt : OmxPacket) (hComp : UInt32) (mem : Memory) (e : StubEnv)
    (eCmd nParam pCmdData : UInt32) : StubResult :=
  if e.malloc = false then noPacket mem
  else send pkt mem e (fillCommand pkt mem 8 hComp eCmd nParam pCmdData)

inductive StubCall where
  | setParameter (nParamIndex pCompParam pLocBufNeedMap : UInt32)
  | getParameter (nParamIndex pCompParam pLocBufNeedMap : UInt32)
  | setConfig (nConfigIndex pCompConfig pLocBufNeedMap : UInt32)
  | getConfig (nConfigIndex pCompConfig pLocBufNeedMap : UInt32)
  | sendCommand (eCmd nParam pCmdData : UInt32)

def perform (pkt : OmxPacket) (hComp : UInt32) (mem : Memory) (e : StubEnv) :
    StubCall → StubResult
  | .setParameter i p loc => rpcSetParameter pkt hComp mem e i p loc
  | .getParameter i p loc => rpcGetParameter pkt hComp mem e i p loc
  | .setConfig i p loc => rpcSetConfig pkt hComp mem e i p loc
  | .getConfig i p loc => rpcGetConfig pkt hComp mem e i p loc
  | .sendCommand eCmd nParam p => rpcSendCommand pkt hComp mem e eCmd nParam p

/-- All accesses lie within the packets. -/
def StubResult.Inside (r : StubResult) : Prop :=
  (∀ w ∈ r.writes, w.1 + w.2.size ≤ rpcPacketSize) ∧
  ∀ x ∈ r.reads, x.1 + x.2 ≤ rpcPacketSize

/-- An error is returned and nothing was copied. -/
def StubResult.Refused (r : StubResult) : Prop := r.err ≠ .none ∧ r.writes = [] ∧ r.reads = []

/-- The structure of the caller fits into what is left of a packet. -/
def Fits (pkt : OmxPacket) (mem : Memory) : StubCall → Prop
  | .setParameter _ p _ | .getParameter _ p _ | .setConfig _ p _ | .getConfig _ p _ =>
      pkt.data + 16 + (mem.structSize p).toNat ≤ rpcPacketSize
  | .sendCommand eCmd _ p => p ≠ 0 → eCmd ≠ commandMarkBuffer →
      pkt.data + 20 + (mem.structSize p).toNat ≤ rpcPacketSize

/-! ## The fields of fixed size -/

theorem length_read (mem : Memory) (p : UInt32) (n : Nat) : (mem.read p n).length = n := by
  simp [Memory.read]

/-- All writes so far are inside. -/
def Filling.Inside (f : Filling) : Prop := ∀ w ∈ f.writes, w.1 + w.2.size ≤ rpcPacketSize

theorem initPacket_inside (pkt : OmxPacket) (nFxnIdx : UInt32) :
    (initPacket pkt nFxnIdx).Inside := by
  obtain ⟨hdesc, hmsg, hflags, hfxn, hresult, hsize⟩ := pkt.header
  have hroom := pkt.room
  intro w hw
  simp only [initPacket, List.mem_cons, List.not_mem_nil, or_false] at hw
  rcases hw with rfl | rfl | rfl | rfl | rfl | rfl | rfl
  · simp [Chunk.size]
  all_goals
    simp only [Chunk.size]
    omega

theorem setFieldValue_inside (pkt : OmxPacket) {f : Filling} (h : f.Inside) (v : UInt32)
    (hpos : f.nPos.toNat ≤ 16) : (f.setFieldValue pkt v).Inside := by
  have hroom := pkt.room
  intro w hw
  rcases List.mem_append.mp hw with hw | hw
  · exact h w hw
  · obtain rfl := List.mem_singleton.mp hw
    simp only [Chunk.size]
    omega

theorem setFieldCopyGen_inside_iff {pkt : OmxPacket} {f : Filling} (h : f.Inside) (mem : Memory)
    (ptr size : UInt32) : (f.setFieldCopyGen pkt mem ptr size).Inside ↔
      pkt.data + f.nPos.toNat + size.toNat ≤ rpcPacketSize := by
  constructor
  · intro hinside
    have hlast := hinside (pkt.data + f.nPos.toNat, .block (mem.read ptr size.toNat))
      (List.mem_append_right _ (List.mem_singleton_self _))
    simpa only [Chunk.size, length_read] using hlast
  · intro hfits w hw
    rcases List.mem_append.mp hw with hw | hw
    · exact h w hw
    · obtain rfl := List.mem_singleton.mp hw
      simpa only [Chunk.size, length_read] using hfits

theorem fillStruct_inside_iff (pkt : OmxPacket) (mem : Memory)
    (nFxnIdx hComp nIndex pComp pLocBufNeedMap : UInt32) :
    (fillStruct pkt mem nFxnIdx hComp nIndex pComp pLocBufNeedMap).Inside ↔
      pkt.data + 16 + (mem.structSize pComp).toNat ≤ rpcPacketSize := by
  have h₀ := initPacket_inside pkt nFxnIdx
  have h₁ := setFieldValue_inside pkt h₀ (mapInfo pComp pLocBufNeedMap).1
    (by decide : (0 : Nat) ≤ 16)
  have h₂ := setFieldValue_inside pkt h₁ (mapInfo pComp pLocBufNeedMap).2
    (by decide : (4 : Nat) ≤ 16)
  have h₃ := setFieldValue_inside pkt h₂ hComp (by decide : (8 : Nat) ≤ 16)
  have h₄ := setFieldValue_inside pkt h₃ nIndex (by decide : (12 : Nat) ≤ 16)
  exact setFieldCopyGen_inside_iff h₄ mem pComp (mem.structSize pComp)

theorem fillCommand_inside_iff (pkt : OmxPacket) (mem : Memory)
    (nFxnIdx hComp eCmd nParam pCmdData : UInt32) :
    (fillCommand pkt mem nFxnIdx hComp eCmd nParam pCmdData).Inside ↔
      (pCmdData ≠ 0 → eCmd ≠ commandMarkBuffer →
        pkt.data + 20 + (mem.structSize pCmdData).toNat ≤ rpcPacketSize) := by
  have h₀ := initPacket_inside pkt nFxnIdx
  have h₁ := setFieldValue_inside pkt h₀ 0 (by decide : (0 : Nat) ≤ 16)
  have h₂ := setFieldValue_inside pkt h₁ 0 (by decide : (4 : Nat) ≤ 16)
  have h₃ := setFieldValue_inside pkt h₂ hComp (by decide : (8 : Nat) ≤ 16)
  have h₄ := setFieldValue_inside pkt h₃ eCmd (by decide : (12 : Nat) ≤ 16)
  have h₅ := setFieldValue_inside pkt h₄ nParam (by decide : (16 : Nat) ≤ 16)
  unfold fillCommand
  by_cases hnull : pCmdData = 0
  · simp only [hnull, ne_eq, not_true, false_and, if_false, false_implies, iff_true]
    exact h₅
  by_cases hmark : eCmd = commandMarkBuffer
  · -- `OMX_MARKTYPE` always fits
    rw [if_pos ⟨hnull, hmark⟩, setFieldCopyGen_inside_iff (hmark ▸ h₅)]
    have hroom := pkt.room
    refine ⟨fun _ _ hne => absurd hmark hne, fun _ => ?_⟩
    show pkt.data + 20 + 8 ≤ rpcPacketSize
    omega
  · rw [if_neg (fun h => hmark h.2), if_pos hnull, setFieldCopyGen_inside_iff h₅]
    exact ⟨fun h _ _ => h, fun h => h hnull hmark⟩

/-! ## The calls -/

theorem send_inside_iff (pkt : OmxPacket) (mem : Memory) (e : StubEnv) (f : Filling) :
    (send pkt mem e f).Inside ↔ f.Inside := by
  have hresult : pkt.result + 4 ≤ rpcPacketSize := by
    have hheader := pkt.header
    have hroom := pkt.room
    omega
  unfold send
  split
  · simp [StubResult.Inside, Filling.Inside]
  split
  · simp [StubResult.Inside, Filling.Inside]
  · simp [StubResult.Inside, Filling.Inside, hresult]

variable {e : StubEnv}

theorem setStub_inside_iff (hmalloc : e.malloc = true) (nFxnIdx : UInt32) (pkt : OmxPacket)
    (hComp : UInt32) (mem : Memory) (nIndex pComp pLocBufNeedMap : UInt32) :
    (setStub nFxnIdx pkt hComp mem e nIndex pComp pLocBufNeedMap).Inside ↔
      pkt.data + 16 + (mem.structSize pComp).toNat ≤ rpcPacketSize := by
  rw [setStub, if_neg (by simp [hmalloc]), send_inside_iff, fillStruct_inside_iff]

theorem getStub_inside_iff (hmalloc : e.malloc = true) (nFxnIdx : UInt32) (pkt : OmxPacket)
    (hComp : UInt32) (mem : Memory) (nIndex pComp pLocBufNeedMap : UInt32) :
    (getStub nFxnIdx pkt hComp mem e nIndex pComp pLocBufNeedMap).Inside ↔
      pkt.data + 16 + (mem.structSize pComp).toNat ≤ rpcPacketSize := by
  have hsend := send_inside_iff pkt mem e
    (fillStruct pkt mem nFxnIdx hComp nIndex pComp pLocBufNeedMap)
  rw [fillStruct_inside_iff] at hsend
  rw [getStub, if_neg (by simp [hmalloc])]
  dsimp only
  split
  · split
    · -- the copy back has the place and the size of the copy into the request
      constructor
      · intro h
        exact h.2 (pkt.data + 16, _) (List.mem_append_right _ (List.mem_singleton_self _))
      · intro h
        refine ⟨(hsend.mpr h).1, ?_⟩
        intro x hx
        rcases List.mem_append.mp hx with hx | hx
        · exact (hsend.mpr h).2 x hx
        · obtain rfl := List.mem_singleton.mp hx
          exact h
    · exact hsend
  · exact hsend

theorem perform_inside_iff (hmalloc : e.malloc = true) (pkt : OmxPacket) (hComp : UInt32)
    (mem : Memory) (c : StubCall) :
    (perform pkt hComp mem e c).Inside ↔ Fits pkt mem c := by
  cases c with
  | setParameter i p loc => exact setStub_inside_iff hmalloc ..
  | getParameter i p loc => exact getStub_inside_iff hmalloc ..
  | setConfig i p loc => exact setStub_inside_iff hmalloc ..
  | getConfig i p loc => exact getStub_inside_iff hmalloc ..
  | sendCommand eCmd nParam p =>
    show (rpcSendCommand ..).Inside ↔ _
    rw [rpcSendCommand, if_neg (by simp [hmalloc]), send_inside_iff, fillCommand_inside_iff]
    rfl

theorem perform_noPacket (hmalloc : e.malloc = false) (pkt : OmxPacket) (hComp : UInt32)
    (mem : Memory) (c : StubCall) : perform pkt hComp mem e c = noPacket mem := by
  cases c with
  | sendCommand eCmd nParam p => exact if_pos hmalloc
  | _ => exact if_pos hmalloc

theorem StubResult.Refused.inside {r : StubResult} (h : r.Refused) : r.Inside := by
  obtain ⟨-, hwrites, hreads⟩ := h
  rw [StubResult.Inside, hwrites, hreads]
  simp

/-- A stub stays inside its packets, or refuses without copying, exactly if there is no memory
for the packet or the structure of the caller fits. -/
theorem stubs_inside_iff (pkt : OmxPacket) (hComp : UInt32) (mem : Memory) (e : StubEnv)
    (c : StubCall) :
    ((perform pkt hComp mem e c).Inside ∨ (perform pkt hComp mem e c).Refused) ↔
      (e.malloc = false ∨ Fits pkt mem c) := by
  cases hmalloc : e.malloc with
  | false =>
    rw [perform_noPacket hmalloc]
    simp [StubResult.Refused, noPacket]
  | true =>
    have hiff := perform_inside_iff hmalloc pkt hComp mem c
    constructor
    · intro h
      exact .inr (hiff.mp (h.elim id StubResult.Refused.inside))
    · intro h
      exact .inl (hiff.mpr (h.resolve_left (by simp)))

/-- `struct omx_packet` as the kernel has it. -/
def kernelPacket : OmxPacket where
  desc := 0
  msgId := 2
  flags := 4
  fxnIdx := 8
  result := 12
  dataSize := 16
  data := 20
  header := by decide
  room := by decide

/-- A structure at `0x1000` with `nSize = 0x400`. -/
def largeStruct : Memory := fun a => if a = 0x1001 then 4 else 0

/-- `RPC_SetParameter` copies 1024 bytes to where 204 are left, and returns success. -/
theorem stubs_not_inside :
    (perform kernelPacket 0x77 largeStruct ⟨true, true, .ok ⟨0, fun _ => 0⟩⟩
        (.setParameter 0x6000001 0x1000 0)).err = .none ∧
    ¬ ∀ pkt hComp mem e c,
      (perform pkt hComp mem e c).Inside ∨ (perform pkt hComp mem e c).Refused := by
  refine ⟨rfl, ?_⟩
  intro hall
  have h := (hall kernelPacket 0x77 largeStruct ⟨true, true, .ok ⟨0, fun _ => 0⟩⟩
    (.setParameter 0x6000001 0x1000 0)).elim id StubResult.Refused.inside
  have hfits : 20 + 16 + (largeStruct.structSize 0x1000).toNat ≤ rpcPacketSize :=
    (perform_inside_iff rfl _ _ _ _).mp h
  exact absurd hfits (by decide)

end Omap4Hal.Domx.Stub

import Omap4Hal.Domx.Stub
import Omap4Hal.Lib.ByteWords

/- The buffers in the packets of the stubs. A packet begins with the number of buffers that the
   kernel has to map and the place of the first of their pointers; the place is written before the
   fields it counts over.

   The places are right in all six functions. The number is not always: `RPC_UseBuffer` announces
   three buffers as soon as there is a metadata buffer, and sends a `NULL` pointer in the middle
   when there is no second plane. That, a `NULL` pointer for a buffer that is announced
   unconditionally, and a place that the caller gives outside of the structure that is copied are
   the ways in which a packet goes wrong (`buffersAnnounced_iff`). -/
namespace Omap4Hal.Domx.Stub
open Lib

/-! ## The packets -/

/-- What `RPC_EmptyThisBuffer` reads of an `OMX_BUFFERHEADERTYPE` and its
`OMX_TI_PLATFORMPRIVATE`. -/
structure SentHeader where
  nFilledLen : UInt32
  nOffset : UInt32
  nFlags : UInt32
  nTimeStamp : UInt64
  hMarkTargetComponent : UInt32
  pMarkData : UInt32
  nAllocLen : UInt32
  nOutputPortIndex : UInt32
  nInputPortIndex : UInt32
  pBuffer : UInt32
  pAuxBuf1 : UInt32

section Fields
variable (pkt : OmxPacket)

/-- `RPC_SETFIELDVALUE` of an `OMX_TICKS`. -/
def Filling.setFieldTicks (f : Filling) (v : UInt64) : Filling where
  nPos := f.nPos + 8
  writes := f.writes ++ [(pkt.data + f.nPos.toNat,
    .block (wordBytes v.toUInt32 ++ wordBytes (v >>> 32).toUInt32))]

/-- `eMapInfo` of `RPC_UseBuffer`: the last test that succeeds counts. -/
def useMapInfo (pAuxBuf1 pMetaDataBuffer : UInt32) : UInt32 :=
  let eMapInfo : UInt32 := 1
  let eMapInfo := if pAuxBuf1 ≠ 0 then 2 else eMapInfo
  if pMetaDataBuffer ≠ 0 then 3 else eMapInfo

def fillUseBuffer (hComp nPortIndex pAppPrivate nSizeBytes pBuffer pAuxBuf1
    pMetaDataBuffer : UInt32) : Filling :=
  let eMapInfo := useMapInfo pAuxBuf1 pMetaDataBuffer
  let nOffset := 4 + 4 + 4 + 4 + 4 + 4
  let f := ((initPacket pkt 3).setFieldValue pkt eMapInfo).setFieldValue pkt nOffset
  let f := (f.setFieldValue pkt hComp).setFieldValue pkt nPortIndex
  let f := (f.setFieldValue pkt pAppPrivate).setFieldValue pkt nSizeBytes
  let f := f.setFieldValue pkt pBuffer
  let f := if 2 ≤ eMapInfo then f.setFieldValue pkt pAuxBuf1 else f
  if 3 ≤ eMapInfo then f.setFieldValue pkt pMetaDataBuffer else f

def emptyMapInfo (bMapBuffer : Bool) (pAuxBuf1 : UInt32) : UInt32 :=
  if bMapBuffer then (if pAuxBuf1 = 0 then 1 else 2) else 0

def fillEmptyThisBuffer (hComp : UInt32) (h : SentHeader) (bufHdrRemote : UInt32)
    (bMapBuffer : Bool) : Filling :=
  let eMapInfo := emptyMapInfo bMapBuffer h.pAuxBuf1
  let nOffset := if bMapBuffer then 4 + 4 + 4 + 4 + 3 * 4 + 8 + 4 + 4 + 3 * 4 else 0
  let f := ((initPacket pkt 14).setFieldValue pkt eMapInfo).setFieldValue pkt nOffset
  let f := (f.setFieldValue pkt hComp).setFieldValue pkt bufHdrRemote
  let f := (f.setFieldValue pkt h.nFilledLen).setFieldValue pkt h.nOffset
  let f := f.setFieldValue pkt h.nFlags
  let f := (f.setFieldTicks pkt h.nTimeStamp).setFieldValue pkt h.hMarkTargetComponent
  let f := (f.setFieldValue pkt h.pMarkData).setFieldValue pkt h.nAllocLen
  let f := (f.setFieldValue pkt h.nOutputPortIndex).setFieldValue pkt h.nInputPortIndex
  if bMapBuffer then
    let f := f.setFieldValue pkt h.pBuffer
    if eMapInfo = 2 then f.setFieldValue pkt h.pAuxBuf1 else f
  else f

end Fields

def rpcEmptyThisBuffer (pkt : OmxPacket) (hComp : UInt32) (mem : Memory) (e : StubEnv)
    (h : SentHeader) (bufHdrRemote : UInt32) (bMapBuffer : Bool) : StubResult :=
  if e.malloc = false then noPacket mem
  else send pkt mem e (fillEmptyThisBuffer pkt hComp h bufHdrRemote bMapBuffer)

/-- Up to the result of the component; the header that follows it in the reply is in `UseEnv`. -/
def rpcUseBuffer (pkt : OmxPacket) (hComp : UInt32) (mem : Memory) (e : StubEnv)
    (nPortIndex pAppPrivate nSizeBytes pBuffer pAuxBuf1 pMetaDataBuffer : UInt32) : StubResult :=
  if e.malloc = false then noPacket mem
  else send pkt mem e
    (fillUseBuffer pkt hComp nPortIndex pAppPrivate nSizeBytes pBuffer pAuxBuf1 pMetaDataBuffer)

/-- The four functions that send a structure of the caller. -/
inductive StructStub where
  | setParameter
  | getParameter
  | setConfig
  | getConfig
  deriving DecidableEq

def StructStub.stub : StructStub → OmxPacket → UInt32 → Memory → StubEnv → UInt32 → UInt32 →
    UInt32 → StubResult
  | .setParameter => rpcSetParameter
  | .getParameter => rpcGetParameter
  | .setConfig => rpcSetConfig
  | .getConfig => rpcGetConfig

inductive MapCall where
  | struct (fn : StructStub) (nIndex pComp pLocBufNeedMap : UInt32)
  | useBuffer (nPortIndex pAppPrivate nSizeBytes pBuffer pAuxBuf1 pMetaDataBuffer : UInt32)
  | emptyThisBuffer (h : SentHeader) (bufHdrRemote : UInt32) (bMapBuffer : Bool)

def MapCall.perform (pkt : OmxPacket) (hComp : UInt32) (mem : Memory) (e : StubEnv) :
    MapCall → StubResult
  | .struct fn i p loc => fn.stub pkt hComp mem e i p loc
  | .useBuffer port app n p aux md => rpcUseBuffer pkt hComp mem e port app n p aux md
  | .emptyThisBuffer h r b => rpcEmptyThisBuffer pkt hComp mem e h r b

/-! ## What is required -/

def Chunk.bytes : Chunk → List UInt8
  | .half v => [UInt8.ofNat v.toNat, UInt8.ofNat (v.toNat / 256)]
  | .word v => wordBytes v
  | .block bytes => bytes

/-- A packet after one more write. -/
def overlay (content : Nat → UInt8) (w : Nat × Chunk) : Nat → UInt8 := fun a =>
  if w.1 ≤ a then w.2.bytes.getD (a - w.1) (content a) else content a

/-- The bytes of a packet after the writes, in order. -/
def contentOf (writes : List (Nat × Chunk)) : Nat → UInt8 := writes.foldl overlay fun _ => 0

/-- The pointer that is stored at a place of the caller's memory. -/
def Memory.pointerAt (mem : Memory) (loc : UInt32) : UInt32 :=
  wordAt (fun i => mem (loc + UInt32.ofNat i)) 0

/-- The pointers of the buffers that need mapping. `RPC_UseBuffer` has mapped the metadata buffer of
`RPC_EmptyThisBuffer`. -/
def MapCall.buffers (mem : Memory) : MapCall → List UInt32
  | .struct _ _ _ loc => if loc = 0 then [] else [mem.pointerAt loc]
  | .useBuffer _ _ _ p aux md => p :: [aux, md].filter (· ≠ 0)
  | .emptyThisBuffer h _ b => if b then h.pBuffer :: [h.pAuxBuf1].filter (· ≠ 0) else []

/-- The packet announces the buffers: their number is its first word, and its second word is the
place of their pointers, none of which is `NULL`. -/
structure Announces (pkt : OmxPacket) (content : Nat → UInt8) (buffers : List UInt32) : Prop where
  inside : pkt.data + (wordAt content (pkt.data + 4)).toNat + 4 * (wordAt content pkt.data).toNat ≤
    rpcPacketSize
  pointers : (List.range (wordAt content pkt.data).toNat).map (fun i =>
    wordAt content (pkt.data + (wordAt content (pkt.data + 4)).toNat + 4 * i)) = buffers
  nonNull : ∀ p ∈ buffers, p ≠ 0

/-- The fields fit in the packet. -/
def MapCall.Fits (pkt : OmxPacket) (mem : Memory) : MapCall → Prop
  | .struct _ _ p _ => pkt.data + 16 + (mem.structSize p).toNat ≤ rpcPacketSize
  | .useBuffer _ _ _ _ aux md => pkt.data + 24 + 4 * (useMapInfo aux md).toNat ≤ rpcPacketSize
  | .emptyThisBuffer h _ b =>
    pkt.data + 56 + 4 * (emptyMapInfo b h.pAuxBuf1).toNat ≤ rpcPacketSize

/-- The place the caller gives has a pointer in the structure that is copied. A pointer that only
begins there is whole if the rest of it is zero, as the packet is. -/
structure Located (pkt : OmxPacket) (mem : Memory) (pComp loc : UInt32) : Prop where
  within : (loc - pComp).toNat < (mem.structSize pComp).toNat
  room : pkt.data + 16 + (loc - pComp).toNat + 4 ≤ rpcPacketSize
  rest : ∀ k, k < 4 → (mem.structSize pComp).toNat ≤ (loc - pComp).toNat + k →
    mem (loc + UInt32.ofNat k) = 0
  nonNull : mem.pointerAt loc ≠ 0

/-- Every buffer that is announced is there. -/
def MapCall.AllThere (pkt : OmxPacket) (mem : Memory) : MapCall → Prop
  | .struct _ _ p loc => loc ≠ 0 → Located pkt mem p loc
  | .useBuffer _ _ _ p aux md => p ≠ 0 ∧ (md ≠ 0 → aux ≠ 0)
  | .emptyThisBuffer h _ b => b = true → h.pBuffer ≠ 0

/-! ## What is in a packet -/

/-- The data of a packet: `bs`, and zeros behind. -/
structure Laid (pkt : OmxPacket) (f : Filling) (bs : List UInt8) : Prop where
  pos : f.nPos.toNat = bs.length
  bytes : ∀ i, contentOf f.writes (pkt.data + i) = bytesOfList bs i

theorem contentOf_append (writes : List (Nat × Chunk)) (w : Nat × Chunk) :
    contentOf (writes ++ [w]) = overlay (contentOf writes) w := by
  rw [contentOf, List.foldl_append]
  rfl

theorem overlay_after {content : Nat → UInt8} {w : Nat × Chunk} {a : Nat}
    (h : w.1 + w.2.bytes.length ≤ a) : overlay content w a = content a := by
  rw [overlay, if_pos (by omega), List.getD_eq_default _ _ (by omega)]

theorem initPacket_laid (pkt : OmxPacket) (nFxnIdx : UInt32) :
    Laid pkt (initPacket pkt nFxnIdx) [] := by
  obtain ⟨hdesc, hmsg, hflags, hfxn, hresult, hsize⟩ := pkt.header
  refine ⟨rfl, fun i => ?_⟩
  simp only [initPacket, contentOf, List.foldl_cons, List.foldl_nil]
  rw [overlay_after (by simp [Chunk.bytes]; omega), overlay_after (by simp [Chunk.bytes]; omega),
    overlay_after (by simp [Chunk.bytes]; omega), overlay_after (by simp [Chunk.bytes]; omega),
    overlay_after (by simp [Chunk.bytes]; omega), overlay_after (by simp [Chunk.bytes]; omega)]
  rw [overlay, if_pos (by omega)]
  simp only [Chunk.bytes, List.getD_eq_getElem?_getD, List.getElem?_replicate]
  split <;> rfl

variable {pkt : OmxPacket} {f : Filling} {bs : List UInt8}

theorem Laid.append (h : Laid pkt f bs) {c : Chunk} {pos : UInt32}
    (hpos : pos.toNat = bs.length + c.bytes.length) :
    Laid pkt ⟨pos, f.writes ++ [(pkt.data + f.nPos.toNat, c)]⟩ (bs ++ c.bytes) := by
  refine ⟨by rw [hpos, List.length_append], fun i => ?_⟩
  rw [contentOf_append, h.pos, overlay, h.bytes]
  by_cases hi : bs.length ≤ i
  · rw [if_pos (by show pkt.data + bs.length ≤ pkt.data + i; omega), bytesOfList, bytesOfList,
      List.getD_eq_default _ _ hi, List.getD_append_right _ _ _ _ hi]
    congr 1
    show pkt.data + i - (pkt.data + bs.length) = i - bs.length
    omega
  · rw [if_neg (by show ¬ pkt.data + bs.length ≤ pkt.data + i; omega), bytesOfList, bytesOfList,
      List.getD_append _ _ _ _ (by omega)]

theorem Laid.setFieldValue (h : Laid pkt f bs) (v : UInt32) (hlen : bs.length ≤ 240) :
    Laid pkt (f.setFieldValue pkt v) (bs ++ wordBytes v) := by
  refine h.append ?_
  have hpos := h.pos
  rw [UInt32.toNat_add, hpos]
  show (bs.length + 4) % 2 ^ 32 = bs.length + 4
  omega

theorem Laid.setFieldTicks (h : Laid pkt f bs) (v : UInt64) (hlen : bs.length ≤ 240) :
    Laid pkt (f.setFieldTicks pkt v)
      (bs ++ (wordBytes v.toUInt32 ++ wordBytes (v >>> 32).toUInt32)) := by
  refine h.append ?_
  have hpos := h.pos
  rw [UInt32.toNat_add, hpos]
  show (bs.length + 8) % 2 ^ 32 = bs.length + 8
  omega

theorem Laid.setFieldCopyGen (h : Laid pkt f bs) (mem : Memory) (ptr size : UInt32)
    (hlen : bs.length + size.toNat ≤ 240) :
    Laid pkt (f.setFieldCopyGen pkt mem ptr size) (bs ++ mem.read ptr size.toNat) := by
  refine h.append (c := .block (mem.read ptr size.toNat)) ?_
  have hpos := h.pos
  rw [UInt32.toNat_add, hpos]
  show (bs.length + size.toNat) % 2 ^ 32 = bs.length + (mem.read ptr size.toNat).length
  rw [length_read]
  omega

theorem Laid.wordAt (h : Laid pkt f bs) (i : Nat) :
    wordAt (contentOf f.writes) (pkt.data + i) = Lib.wordAt (bytesOfList bs) i := by
  refine wordAt_inj.mpr fun k _ => ?_
  rw [Nat.add_assoc, h.bytes]

theorem Laid.setFieldValues (vs : List UInt32) (h : Laid pkt f bs)
    (hlen : bs.length + 4 * vs.length ≤ 240) :
    Laid pkt (vs.foldl (fun f v => f.setFieldValue pkt v) f) (bs ++ vs.flatMap wordBytes) := by
  induction vs generalizing f bs with
  | nil => simpa using h
  | cons v vs ih =>
    rw [List.length_cons] at hlen
    rw [List.foldl_cons, List.flatMap_cons, ← List.append_assoc]
    refine ih (h.setFieldValue v (by omega)) ?_
    rw [List.length_append, length_wordBytes]
    omega

theorem wordAt_first (v : UInt32) (bs : List UInt8) :
    wordAt (bytesOfList (wordBytes v ++ bs)) 0 = v :=
  wordAt_append [] v bs

theorem wordAt_second (v w : UInt32) (bs : List UInt8) :
    wordAt (bytesOfList (wordBytes v ++ (wordBytes w ++ bs))) 4 = w :=
  wordAt_append (wordBytes v) w bs

theorem Laid.announces_iff {n off : UInt32} {buffers : List UInt32}
    (h : Laid pkt f (wordBytes n ++ (wordBytes off ++ bs))) :
    Announces pkt (contentOf f.writes) buffers ↔
      pkt.data + off.toNat + 4 * n.toNat ≤ rpcPacketSize ∧
      (List.range n.toNat).map (fun i => Lib.wordAt
        (bytesOfList (wordBytes n ++ (wordBytes off ++ bs))) (off.toNat + 4 * i)) = buffers ∧
      ∀ p ∈ buffers, p ≠ 0 := by
  have hcount : Lib.wordAt (contentOf f.writes) pkt.data = n := by
    have hword := h.wordAt 0
    rw [Nat.add_zero, wordAt_first] at hword
    exact hword
  have hplace : Lib.wordAt (contentOf f.writes) (pkt.data + 4) = off := by
    rw [h.wordAt 4, wordAt_second]
  have hwords : ∀ i, Lib.wordAt (contentOf f.writes) (pkt.data + off.toNat + 4 * i) = Lib.wordAt
      (bytesOfList (wordBytes n ++ (wordBytes off ++ bs))) (off.toNat + 4 * i) := by
    intro i
    rw [Nat.add_assoc, h.wordAt]
  constructor
  · rintro ⟨hinside, hpointers, hnull⟩
    simp only [hcount, hplace, hwords] at hinside hpointers
    exact ⟨hinside, hpointers, hnull⟩
  · rintro ⟨hinside, hpointers, hnull⟩
    exact ⟨by rw [hcount, hplace]; exact hinside,
      by simp only [hcount, hplace, hwords]; exact hpointers, hnull⟩

/-- The pointers are the last fields, and the place is that behind the others. -/
theorem announces_row_iff {pre : List UInt8} {n off : UInt32} {sent buffers : List UInt32}
    (h : Laid pkt f (wordBytes n ++ (wordBytes off ++ (pre ++ sent.flatMap wordBytes))))
    (hn : n.toNat = sent.length) (hoff : sent ≠ [] → off.toNat = 8 + pre.length)
    (hnone : sent = [] → off = 0)
    (hroom : pkt.data + 8 + pre.length + 4 * sent.length ≤ rpcPacketSize) :
    Announces pkt (contentOf f.writes) buffers ↔ sent = buffers ∧ ∀ p ∈ buffers, p ≠ 0 := by
  rw [h.announces_iff, hn]
  by_cases hs : sent = []
  · have hinside : pkt.data + off.toNat + 4 * sent.length ≤ rpcPacketSize := by
      rw [hnone hs, hs]
      show pkt.data + 0 + 0 ≤ rpcPacketSize
      omega
    rw [and_iff_right hinside, hs]
    rfl
  · have hinside : pkt.data + off.toNat + 4 * sent.length ≤ rpcPacketSize := by
      rw [hoff hs]
      omega
    have hlen : (wordBytes n ++ (wordBytes off ++ pre)).length = off.toNat := by
      rw [hoff hs]
      simp only [List.length_append, length_wordBytes]
      omega
    have hrow := wordAt_flatMap (wordBytes n ++ (wordBytes off ++ pre)) sent
    rw [hlen, List.append_assoc, List.append_assoc] at hrow
    rw [and_iff_right hinside, hrow]

/-! ## `RPC_UseBuffer` and `RPC_EmptyThisBuffer` -/

/-- The pointers at the end of the packet of `RPC_UseBuffer`. -/
def useSent (pBuffer pAuxBuf1 pMetaDataBuffer : UInt32) : List UInt32 :=
  pBuffer :: (if pAuxBuf1 = 0 ∧ pMetaDataBuffer = 0 then []
    else if pMetaDataBuffer = 0 then [pAuxBuf1] else [pAuxBuf1, pMetaDataBuffer])

theorem useMapInfo_eq (p aux md : UInt32) :
    (useMapInfo aux md).toNat = (useSent p aux md).length := by
  by_cases haux : aux = 0 <;> by_cases hmd : md = 0 <;> simp [useMapInfo, useSent, haux, hmd]

theorem fillUseBuffer_eq (pkt : OmxPacket) (hComp port app n p aux md : UInt32) :
    fillUseBuffer pkt hComp port app n p aux md =
      (([useMapInfo aux md, 24, hComp, port, app, n] ++ useSent p aux md).foldl
        (fun f v => f.setFieldValue pkt v) (initPacket pkt 3)) := by
  have hle : (2 : UInt32) ≤ useMapInfo aux md ↔ ¬ (aux = 0 ∧ md = 0) := by
    by_cases haux : aux = 0 <;> by_cases hmd : md = 0 <;> simp [useMapInfo, haux, hmd]
  have hle' : (3 : UInt32) ≤ useMapInfo aux md ↔ md ≠ 0 := by
    by_cases haux : aux = 0 <;> by_cases hmd : md = 0 <;> simp [useMapInfo, haux, hmd]
  simp only [fillUseBuffer, hle, hle', useSent]
  by_cases haux : aux = 0 <;> by_cases hmd : md = 0 <;> simp [haux, hmd]

theorem useBuffer_announces_iff (mem : Memory) (hComp port app n p aux md : UInt32)
    (hfits : (MapCall.useBuffer port app n p aux md).Fits pkt mem) :
    Announces pkt (contentOf (fillUseBuffer pkt hComp port app n p aux md).writes)
        (MapCall.buffers mem (.useBuffer port app n p aux md)) ↔
      p ≠ 0 ∧ (md ≠ 0 → aux ≠ 0) := by
  have hcount := useMapInfo_eq p aux md
  have hne : useSent p aux md ≠ [] := List.cons_ne_nil _ _
  rw [MapCall.Fits, hcount] at hfits
  have hlaid := (initPacket_laid pkt 3).setFieldValues
    ([useMapInfo aux md, 24, hComp, port, app, n] ++ useSent p aux md)
    (by simp [rpcPacketSize] at hfits ⊢; omega)
  have hrow : Laid pkt (fillUseBuffer pkt hComp port app n p aux md)
      (wordBytes (useMapInfo aux md) ++ (wordBytes 24 ++ ([hComp, port, app, n].flatMap wordBytes ++
        (useSent p aux md).flatMap wordBytes))) := by
    rw [fillUseBuffer_eq]
    simpa using hlaid
  rw [announces_row_iff hrow hcount (fun _ => by simp) (fun h => absurd h hne) (by simp; omega)]
  by_cases haux : aux = 0 <;> by_cases hmd : md = 0 <;>
    simp [MapCall.buffers, useSent, haux, hmd]

/-- The pointers at the end of the packet of `RPC_EmptyThisBuffer`. -/
def emptySent (h : SentHeader) (bMapBuffer : Bool) : List UInt32 :=
  if bMapBuffer then h.pBuffer :: (if h.pAuxBuf1 = 0 then [] else [h.pAuxBuf1]) else []

theorem emptyMapInfo_eq (h : SentHeader) (b : Bool) :
    (emptyMapInfo b h.pAuxBuf1).toNat = (emptySent h b).length := by
  cases b <;> by_cases haux : h.pAuxBuf1 = 0 <;> simp [emptyMapInfo, emptySent, haux]

def emptyOffset (b : Bool) : UInt32 := if b then 56 else 0

theorem fillEmptyThisBuffer_eq (pkt : OmxPacket) (hComp : UInt32) (h : SentHeader) (r : UInt32)
    (b : Bool) :
    fillEmptyThisBuffer pkt hComp h r b =
      (([h.hMarkTargetComponent, h.pMarkData, h.nAllocLen, h.nOutputPortIndex,
        h.nInputPortIndex] ++ emptySent h b).foldl (fun f v => f.setFieldValue pkt v)
        (([emptyMapInfo b h.pAuxBuf1, emptyOffset b, hComp, r, h.nFilledLen, h.nOffset,
          h.nFlags].foldl (fun f v => f.setFieldValue pkt v) (initPacket pkt 14)).setFieldTicks pkt
          h.nTimeStamp)) := by
  cases b with
  | false => rfl
  | true =>
    by_cases haux : h.pAuxBuf1 = 0
    · simp [fillEmptyThisBuffer, emptyMapInfo, emptySent, emptyOffset, haux]
    · simp [fillEmptyThisBuffer, emptyMapInfo, emptySent, emptyOffset, haux]

theorem emptyThisBuffer_announces_iff (mem : Memory) (hComp : UInt32) (h : SentHeader) (r : UInt32)
    (b : Bool) (hfits : (MapCall.emptyThisBuffer h r b).Fits pkt mem) :
    Announces pkt (contentOf (fillEmptyThisBuffer pkt hComp h r b).writes)
        (MapCall.buffers mem (.emptyThisBuffer h r b)) ↔
      (b = true → h.pBuffer ≠ 0) := by
  have hcount := emptyMapInfo_eq h b
  rw [MapCall.Fits, hcount] at hfits
  have hroom : 56 + 4 * (emptySent h b).length ≤ 240 := by
    simp only [rpcPacketSize] at hfits
    omega
  have hfirst := (initPacket_laid pkt 14).setFieldValues
    [emptyMapInfo b h.pAuxBuf1, emptyOffset b, hComp, r, h.nFilledLen, h.nOffset, h.nFlags]
    (by simp)
  have hlaid := (hfirst.setFieldTicks h.nTimeStamp (by simp)).setFieldValues
    ([h.hMarkTargetComponent, h.pMarkData, h.nAllocLen, h.nOutputPortIndex, h.nInputPortIndex] ++
      emptySent h b) (by simp; omega)
  have hrow : Laid pkt (fillEmptyThisBuffer pkt hComp h r b)
      (wordBytes (emptyMapInfo b h.pAuxBuf1) ++ (wordBytes (emptyOffset b) ++
        ([hComp, r, h.nFilledLen, h.nOffset, h.nFlags, h.nTimeStamp.toUInt32,
          (h.nTimeStamp >>> 32).toUInt32, h.hMarkTargetComponent, h.pMarkData, h.nAllocLen,
          h.nOutputPortIndex, h.nInputPortIndex].flatMap wordBytes ++
        (emptySent h b).flatMap wordBytes))) := by
    rw [fillEmptyThisBuffer_eq]
    simpa using hlaid
  have hmapped : emptySent h b ≠ [] ↔ b = true := by cases b <;> simp [emptySent]
  rw [announces_row_iff hrow hcount (fun hs => by simp [emptyOffset, hmapped.mp hs])
    (fun hs => by
      cases b with
      | false => rfl
      | true => exact absurd hs (hmapped.mpr rfl))
    (by simp; omega)]
  cases b <;> by_cases haux : h.pAuxBuf1 = 0 <;>
    simp [MapCall.buffers, emptySent, haux]

/-! ## The stubs that send a structure -/

theorem loc_add (pComp loc : UInt32) (k : Nat) :
    pComp + UInt32.ofNat ((loc - pComp).toNat + k) = loc + UInt32.ofNat k := by
  rw [UInt32.ofNat_add, UInt32.ofNat_toNat, ← UInt32.add_assoc, UInt32.add_comm pComp,
    UInt32.sub_add_cancel]

theorem bytesOfList_read (pre : List UInt8) (mem : Memory) (pComp : UInt32) (size i : Nat) :
    bytesOfList (pre ++ mem.read pComp size) (pre.length + i) =
      if i < size then mem (pComp + UInt32.ofNat i) else 0 := by
  rw [bytesOfList, List.getD_append_right _ _ _ _ (by omega), Nat.add_sub_cancel_left,
    List.getD_eq_getElem?_getD, Memory.read, List.getElem?_map]
  by_cases hi : i < size
  · rw [List.getElem?_range hi, if_pos hi]
    rfl
  · rw [List.getElem?_eq_none (by simpa using hi), if_neg hi]
    rfl

theorem fillStruct_laid {mem : Memory} {pComp : UInt32}
    (hfits : pkt.data + 16 + (mem.structSize pComp).toNat ≤ rpcPacketSize)
    (nFxnIdx hComp nIndex loc : UInt32) :
    Laid pkt (fillStruct pkt mem nFxnIdx hComp nIndex pComp loc)
      (wordBytes (mapInfo pComp loc).1 ++ (wordBytes (mapInfo pComp loc).2 ++
        (wordBytes hComp ++ (wordBytes nIndex ++
          mem.read pComp (mem.structSize pComp).toNat)))) := by
  have hwords := (initPacket_laid pkt nFxnIdx).setFieldValues
    [(mapInfo pComp loc).1, (mapInfo pComp loc).2, hComp, nIndex] (by simp)
  have hlaid := hwords.setFieldCopyGen mem pComp (mem.structSize pComp) (by
    simp only [rpcPacketSize] at hfits
    simp
    omega)
  simpa [fillStruct] using hlaid

theorem sentWord_iff (mem : Memory) (n off hComp nIndex pComp loc : UInt32) (size : Nat) :
    wordAt (bytesOfList (wordBytes n ++ (wordBytes off ++ (wordBytes hComp ++ (wordBytes nIndex ++
        mem.read pComp size))))) (16 + (loc - pComp).toNat) = mem.pointerAt loc ↔
      ∀ k, k < 4 → size ≤ (loc - pComp).toNat + k → mem (loc + UInt32.ofNat k) = 0 := by
  have hbyte : ∀ k, bytesOfList (wordBytes n ++ (wordBytes off ++ (wordBytes hComp ++
      (wordBytes nIndex ++ mem.read pComp size)))) (16 + (loc - pComp).toNat + k) =
      if (loc - pComp).toNat + k < size then mem (loc + UInt32.ofNat k) else 0 := by
    intro k
    have hread := bytesOfList_read (wordBytes n ++ (wordBytes off ++ (wordBytes hComp ++
      wordBytes nIndex))) mem pComp size ((loc - pComp).toNat + k)
    simp only [List.append_assoc] at hread
    rw [loc_add, ← Nat.add_assoc] at hread
    exact hread
  rw [Memory.pointerAt, wordAt_inj]
  refine forall₂_congr fun k hk => ?_
  rw [hbyte, Nat.zero_add]
  by_cases hsize : (loc - pComp).toNat + k < size
  · rw [if_pos hsize]
    exact iff_of_true rfl fun h => by omega
  · rw [if_neg hsize, eq_comm]
    exact ⟨fun h _ => h, fun h => h (by omega)⟩

theorem fillStruct_announces_iff {mem : Memory} {pComp : UInt32}
    (hfits : pkt.data + 16 + (mem.structSize pComp).toNat ≤ rpcPacketSize)
    (nFxnIdx hComp nIndex loc : UInt32) :
    Announces pkt (contentOf (fillStruct pkt mem nFxnIdx hComp nIndex pComp loc).writes)
        (if loc = 0 then [] else [mem.pointerAt loc]) ↔
      (loc ≠ 0 → Located pkt mem pComp loc) := by
  have hsize : (mem.structSize pComp).toNat ≤ 240 := by
    simp only [rpcPacketSize] at hfits
    omega
  rw [(fillStruct_laid hfits nFxnIdx hComp nIndex loc).announces_iff]
  by_cases hloc : loc = 0
  · have hinfo : mapInfo pComp loc = (0, 0) := by simp [mapInfo, hloc]
    have hroom := pkt.room
    rw [hinfo, if_pos hloc]
    refine iff_of_true ⟨?_, rfl, by simp⟩ fun h => absurd hloc h
    show pkt.data + 0 + 0 ≤ rpcPacketSize
    omega
  rw [if_neg hloc]
  by_cases hnear : loc - pComp < 0x80000000
  · have hlt : (loc - pComp).toNat < 2147483648 := UInt32.lt_iff_toNat_lt.mp hnear
    have hinfo : mapInfo pComp loc = (1, loc - pComp + 16) := by simp [mapInfo, hloc, hnear]
    have hplace : (loc - pComp + 16).toNat = 16 + (loc - pComp).toNat := by
      rw [UInt32.toNat_add]
      show ((loc - pComp).toNat + 16) % 2 ^ 32 = _
      omega
    rw [hinfo]
    simp only [hplace, UInt32.toNat_one, List.range_one, List.map_cons, List.map_nil, Nat.mul_zero,
      Nat.add_zero, Nat.mul_one, List.cons.injEq, and_true, sentWord_iff, List.mem_singleton,
      forall_eq]
    constructor
    · rintro ⟨hroom, hrest, hnull⟩ _
      refine ⟨?_, by omega, hrest, hnull⟩
      -- a pointer behind the structure would be zero
      by_contra hout
      have hzero := fun k hk => hrest k hk (by omega)
      have hword : mem.pointerAt loc = wordOf 0 0 0 0 := wordOf_inj.mpr
        ⟨hzero 0 (by omega), hzero 1 (by omega), hzero 2 (by omega), hzero 3 (by omega)⟩
      exact hnull hword
    · intro h
      obtain ⟨hwithin, hroom, hrest, hnull⟩ := h hloc
      exact ⟨by omega, hrest, hnull⟩
  · -- before the structure, or too far behind it
    have hge : ¬ (loc - pComp).toNat < 2147483648 :=
      fun h => hnear (UInt32.lt_iff_toNat_lt.mpr h)
    have hinfo : mapInfo pComp loc = (0, 0) := by simp [mapInfo, hnear]
    rw [hinfo]
    refine iff_of_false (fun h => ?_) (fun h => ?_)
    · have hnil := h.2.1
      cases hnil
    · have hwithin := (h hloc).within
      omega

/-! ## The calls -/

@[simp] theorem send_writes (pkt : OmxPacket) (mem : Memory) (e : StubEnv) (f : Filling) :
    (send pkt mem e f).writes = f.writes := by
  unfold send
  split
  · rfl
  split <;> rfl

theorem setStub_writes {e : StubEnv} (hmalloc : e.malloc = true) (nFxnIdx : UInt32)
    (pkt : OmxPacket) (hComp : UInt32) (mem : Memory) (nIndex pComp loc : UInt32) :
    (setStub nFxnIdx pkt hComp mem e nIndex pComp loc).writes =
      (fillStruct pkt mem nFxnIdx hComp nIndex pComp loc).writes := by
  rw [setStub, if_neg (by simp [hmalloc]), send_writes]

theorem getStub_writes {e : StubEnv} (hmalloc : e.malloc = true) (nFxnIdx : UInt32)
    (pkt : OmxPacket) (hComp : UInt32) (mem : Memory) (nIndex pComp loc : UInt32) :
    (getStub nFxnIdx pkt hComp mem e nIndex pComp loc).writes =
      (fillStruct pkt mem nFxnIdx hComp nIndex pComp loc).writes := by
  rw [getStub, if_neg (by simp [hmalloc])]
  dsimp only
  split
  · split <;> rw [send_writes]
  · rw [send_writes]

def StructStub.index : StructStub → UInt32
  | .setParameter => 1
  | .getParameter => 2
  | .setConfig => 5
  | .getConfig => 6

theorem StructStub.stub_writes (fn : StructStub) {e : StubEnv} (hmalloc : e.malloc = true)
    (pkt : OmxPacket) (hComp : UInt32) (mem : Memory) (nIndex pComp loc : UInt32) :
    (fn.stub pkt hComp mem e nIndex pComp loc).writes =
      (fillStruct pkt mem fn.index hComp nIndex pComp loc).writes := by
  cases fn with
  | setParameter => exact setStub_writes hmalloc ..
  | getParameter => exact getStub_writes hmalloc ..
  | setConfig => exact setStub_writes hmalloc ..
  | getConfig => exact getStub_writes hmalloc ..

/-- A call whose fields fit announces its buffers exactly if they are all there. -/
theorem buffersAnnounced_iff (pkt : OmxPacket) (hComp : UInt32) (mem : Memory) (e : StubEnv)
    (c : MapCall) (hmalloc : e.malloc = true) (hfits : c.Fits pkt mem) :
    Announces pkt (contentOf (c.perform pkt hComp mem e).writes) (c.buffers mem) ↔
      c.AllThere pkt mem := by
  cases c with
  | struct fn i p loc =>
    have hiff := fillStruct_announces_iff hfits fn.index hComp i loc
    rw [← fn.stub_writes hmalloc] at hiff
    exact hiff
  | useBuffer port app n p aux md =>
    rw [MapCall.perform, rpcUseBuffer, if_neg (by simp [hmalloc]), send_writes,
      useBuffer_announces_iff mem hComp port app n p aux md hfits]
    rfl
  | emptyThisBuffer h r b =>
    rw [MapCall.perform, rpcEmptyThisBuffer, if_neg (by simp [hmalloc]), send_writes,
      emptyThisBuffer_announces_iff mem hComp h r b hfits]
    rfl

def okEnv : StubEnv := ⟨true, true, .ok ⟨0, fun _ => 0⟩⟩

/-- A buffer with metadata, and no second plane. -/
def metaUse : MapCall := .useBuffer 0 0x5000 4096 0x3000 0 0x4000

theorem metaUse_announces_iff :
    Announces kernelPacket (contentOf (metaUse.perform kernelPacket 0x77 (fun _ => 0) okEnv).writes)
      (metaUse.buffers fun _ => 0) ↔ metaUse.AllThere kernelPacket fun _ => 0 :=
  buffersAnnounced_iff kernelPacket 0x77 (fun _ => 0) okEnv metaUse rfl (by
    show kernelPacket.data + 24 + 4 * (useMapInfo 0 0x4000).toNat ≤ rpcPacketSize
    decide)

/-- Three buffers are announced, and the second pointer is `NULL`. -/
theorem metaUse_not_announced :
    ¬ Announces kernelPacket
      (contentOf (metaUse.perform kernelPacket 0x77 (fun _ => 0) okEnv).writes)
      (metaUse.buffers fun _ => 0) := by
  intro h
  have hpointers := h.pointers
  revert hpointers
  decide

end Omap4Hal.Domx.Stub

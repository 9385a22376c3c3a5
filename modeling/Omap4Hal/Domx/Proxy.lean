import Omap4Hal.Lib.Run
import Omap4Hal.Lib.SlotTable

/- The buffer side of the OMX proxy (`omx_proxy_common.c`, compiled with
   `ALLOCATE_TILER_BUFFER_IN_PROXY`): registering, allocating and freeing buffers,
   handing them to the remote component, and the two callbacks that give them
   back. `Config` is the build and the two ion flags of the component.

   A buffer header is heap memory, named by its address; `heap` holds the headers
   that are allocated and not freed, with their platform private structure. An
   access to any other address is `none`: the call does not return. Between
   calls the client writes the headers it owns (`Call.write`).

   What the outside world decides during one call is an argument: the addresses
   `TIMM_OSAL_Malloc` finds, what the remote side answers to each query and to
   the call itself, what ion or the TILER allocator hand out. -/
namespace Omap4Hal.Domx
open Lib

/-- `OMX_ERRORTYPE`, the values the proxy produces or tests by name. -/
inductive OmxError where
  | none
  | insufficientResources
  | undefined
  | badParameter
  | notImplemented
  | hardware
  | noMore
  | versionMismatch
  | timeout
  | unsupportedIndex
  | other (code : UInt32)
  deriving DecidableEq, Repr

/-- `RPC_OMX_ERRORTYPE`, likewise. -/
inductive RpcError where
  | none
  | insufficientResources
  | badParameter
  | hardware
  | unsupportedIndex
  | timeout
  | other (code : UInt32)
  deriving DecidableEq, Repr

/-- The switch of `PROXY_checkRpcError`. -/
def RpcError.toOmx : RpcError → OmxError
  | .none => .none
  | .hardware => .hardware
  | .insufficientResources => .insufficientResources
  | .badParameter => .badParameter
  | .unsupportedIndex => .unsupportedIndex
  | .timeout => .timeout
  | .other _ => .undefined

/-- `PROXY_checkRpcError`: the value of `eError`, and whether control leaves for
`EXIT`. It does so for an error of the component only; an error of the transport
sets `eError` and falls through, as does `OMX_ErrorNoMore`. -/
def checkRpcError (rpc : RpcError) (comp : OmxError) : OmxError × Bool :=
  match rpc with
  | .none => (comp, decide (comp ≠ .none ∧ comp ≠ .noMore))
  | r => (r.toOmx, false)

/-! ## State -/

structure ProxyBufferInfo where
  pBufHeader : UInt32
  pBufHeaderRemote : UInt32
  pYBuffer : UInt32
  pMetaDataBuffer : UInt32
  mmapFd : Int
  mmapFdMetadataBuff : Int
  deriving DecidableEq, Repr

/-- A slot as `TIMM_OSAL_Memset` leaves it. -/
def ProxyBufferInfo.zero : ProxyBufferInfo := ⟨0, 0, 0, 0, 0, 0⟩

/-- The fields of an `OMX_BUFFERHEADERTYPE` the proxy reads or writes. -/
structure HeaderFields where
  nSize : UInt32
  nVersionMajor : UInt8
  nVersionMinor : UInt8
  pBuffer : UInt32
  nAllocLen : UInt32
  nFilledLen : UInt32
  nOffset : UInt32
  hMarkTargetComponent : UInt32
  pMarkData : UInt32
  nTimeStamp : Int
  nFlags : UInt32
  deriving DecidableEq, Repr

/-- A header with its `OMX_TI_PLATFORMPRIVATE`. -/
structure BufHeader where
  fields : HeaderFields
  pMetaDataBuffer : UInt32
  nMetaDataSize : UInt32
  deriving DecidableEq, Repr

/-- `PROXY_COMPONENT_PRIVATE`, the part about buffers, and the header heap. -/
structure Proxy where
  tBufList : Nat → ProxyBufferInfo
  nTotalBuffers : Nat
  nAllocatedBuffers : Nat
  heap : UInt32 → Option BufHeader

def maxNumProxyBuffers : Nat := 32
def linuxPageSize : UInt32 := 4096
def headerSize : UInt32 := 80
def omxVerMajor : UInt8 := 1
def omxVerMinor : UInt8 := 1

/-- A freshly initialised proxy. -/
def Proxy.initial : Proxy := ⟨fun _ => .zero, 0, 0, fun _ => none⟩

def Proxy.live (s : Proxy) (p : UInt32) : Bool := (s.heap p).isSome

/-- `TIMM_OSAL_Malloc` hands out an address that is neither `NULL` nor in use;
any other answer is read as `NULL`. -/
def Proxy.malloc (s : Proxy) (found : Option UInt32) : Option UInt32 :=
  found.filter fun p => p != 0 && !s.live p

def Proxy.setSlot (s : Proxy) (i : Nat) (b : ProxyBufferInfo) : Proxy :=
  { s with tBufList := Function.update s.tBufList i b }

def Proxy.setHeader (s : Proxy) (p : UInt32) (h : Option BufHeader) : Proxy :=
  { s with heap := Function.update s.heap p h }

/-- The slot holds a header pointer. -/
def Proxy.occupied (s : Proxy) (i : Nat) : Bool := (s.tBufList i).pBufHeader != 0

/-- "Pick up 1st empty slot", the search of both registering functions. -/
def Proxy.emptySlot (s : Proxy) : Nat := firstFree s.occupied s.nTotalBuffers

/-- The search for a header of the client's. -/
def Proxy.slotOf (s : Proxy) (p : UInt32) : Option Nat :=
  findBelow (fun i => (s.tBufList i).pBufHeader == p) s.nTotalBuffers

/-- The search for a header of the remote side's. -/
def Proxy.slotOfRemote (s : Proxy) (r : UInt32) : Option Nat :=
  findBelow (fun i => (s.tBufList i).pBufHeaderRemote == r) s.nTotalBuffers

/-- How the proxy was built and set up. -/
structure Config where
  useIonBuild : Bool
  bUseIon : Bool
  bMapIonBuffers : Bool
  deriving DecidableEq, Repr

/-- `bUseIon && bMapIonBuffers`, in an ion build. -/
def Config.maps (cfg : Config) : Bool := cfg.useIonBuild && cfg.bUseIon && cfg.bMapIonBuffers

/-- A request to ion, the kernel or the TILER allocator. -/
inductive MemReq where
  | ionAlloc (len : UInt32) (handle : Option UInt32)
  | ionFree (handle : UInt32)
  | ionMap (handle : UInt32) (len : UInt32) (result : Option (UInt32 × Int))
  | munmap (addr len : UInt32)
  | close (fd : Int)
  | memMgrAlloc (ptr : Option UInt32)
  | memMgrFree (ptr : UInt32)
  deriving DecidableEq, Repr

/-- `(n + LINUX_PAGE_SIZE - 1) & ~(LINUX_PAGE_SIZE - 1)`. -/
def roundToPage (n : UInt32) : UInt32 := (n + linuxPageSize - 1) &&& ~~~(linuxPageSize - 1)

/-! ## Registering a buffer -/

/-- What the world answers during one `PROXY_UseBuffer`. -/
structure UseEnv where
  hdrAddr : Option UInt32
  hdrMem : HeaderFields
  platOk : Bool
  strideErr : OmxError
  nStride : UInt32
  numLinesErr : OmxError
  metaErr : OmxError
  metaEnabled : Bool
  metaSize : UInt32
  metaAlloc : Option UInt32
  rpc : RpcError
  comp : OmxError
  remoteHdr : UInt32
  reply : HeaderFields
  metaMap : Option (UInt32 × Int)

/-- What `PROXY_UseBuffer` leaves: the state, the error, the header handed to the
caller and the slot it was stored in. -/
structure UseResult where
  st : Proxy
  err : OmxError
  hdr : Option UInt32
  stored : Option Nat
  reqs : List MemReq

/-- The checks of `PROXY_UseBuffer` before the metadata buffer: an error, or the
address of the new header. The header is freed again on every error. -/
def useChecks (s : Proxy) (hasPtr : Bool) (e : UseEnv) : Except OmxError UInt32 :=
  if hasPtr = false then .error .badParameter
  else if ¬ s.nTotalBuffers < maxNumProxyBuffers then .error .insufficientResources
  else match s.malloc e.hdrAddr with
    | none => .error .insufficientResources
    | some p =>
      if e.platOk = false then .error .insufficientResources
      else if e.strideErr ≠ .none then .error e.strideErr
      else if e.nStride = linuxPageSize ∧ e.numLinesErr ≠ .none then .error e.numLinesErr
      else if e.metaErr ≠ .none then .error e.metaErr
      else .ok p

/-- The metadata buffer as the platform private structure first has it: the
handle or pointer, and its size. -/
def useMetaData (cfg : Config) (e : UseEnv) : UInt32 × UInt32 :=
  if e.metaEnabled then
    (e.metaAlloc.getD 0, if cfg.useIonBuild then roundToPage e.metaSize else e.metaSize)
  else (0, 0)

def useMetaReqs (cfg : Config) (e : UseEnv) : List MemReq :=
  if e.metaEnabled = false then []
  else if cfg.useIonBuild then [.ionAlloc (roundToPage e.metaSize) e.metaAlloc]
  else [.memMgrAlloc e.metaAlloc]

/-- An ion build notes the handle in the slot at once, whatever comes of it. -/
def noteMetaData (cfg : Config) (s : Proxy) (e : UseEnv) : Proxy :=
  if cfg.useIonBuild && e.metaEnabled then
    s.setSlot s.emptySlot
      { s.tBufList s.emptySlot with pMetaDataBuffer := (useMetaData cfg e).1 }
  else s

/-- The remote call succeeded: only then are the header and the remote header
filled in. -/
def UseEnv.answered (e : UseEnv) : Bool := e.rpc == .none && e.comp == .none

/-- The header as the remote call leaves it; `nSize` and `pBuffer` stay local. -/
def useHeader (cfg : Config) (pBuffer : UInt32) (e : UseEnv) : BufHeader :=
  ⟨if e.answered then { e.reply with nSize := headerSize, pBuffer := pBuffer }
    else { e.hdrMem with pBuffer := pBuffer },
    (useMetaData cfg e).1, (useMetaData cfg e).2⟩

/-- Storing the header in the slot picked at the start, with the counters. -/
def storeHeader (s : Proxy) (slot : Nat) (p remote : UInt32) : Proxy :=
  { s.setSlot slot { s.tBufList slot with pBufHeader := p, pBufHeaderRemote := remote } with
    nAllocatedBuffers := s.nAllocatedBuffers + 1
    nTotalBuffers := max s.nTotalBuffers (s.nAllocatedBuffers + 1) }

/-- The end of `PROXY_UseBuffer`, from the mapping of the metadata buffer on, with
`eError` as `PROXY_checkRpcError` left it. -/
def useFinish (cfg : Config) (s : Proxy) (slot : Nat) (p pBuffer : UInt32) (err : OmxError)
    (e : UseEnv) : UseResult :=
  let h := useHeader cfg pBuffer e
  let remote := if e.answered then e.remoteHdr else 0
  if cfg.maps && e.metaEnabled then
    match e.metaMap with
    | none =>
      -- a plain return: the new header is neither stored nor freed
      ⟨s.setHeader p (some h), .insufficientResources, none, none,
        useMetaReqs cfg e ++ [.ionMap h.pMetaDataBuffer h.nMetaDataSize none]⟩
    | some (addr, fd) =>
      let s₁ := s.setSlot slot { s.tBufList slot with mmapFdMetadataBuff := fd }
      let s₂ :=
        s₁.setHeader p (if err = .none then some { h with pMetaDataBuffer := addr } else none)
      ⟨storeHeader s₂ slot p remote, err, some p, some slot,
        useMetaReqs cfg e ++ [.ionMap h.pMetaDataBuffer h.nMetaDataSize (some (addr, fd))]⟩
  else
    -- `EXIT:` frees the header on any error, also when it was just stored
    ⟨storeHeader (s.setHeader p (if err = .none then some h else none)) slot p remote, err, some p,
      some slot, useMetaReqs cfg e⟩

def proxyUseBuffer (cfg : Config) (s : Proxy) (hasPtr : Bool) (pBuffer : UInt32) (e : UseEnv) :
    UseResult :=
  match useChecks s hasPtr e with
  | .error err => ⟨s, err, none, none, []⟩
  | .ok p =>
    if e.metaEnabled && !cfg.useIonBuild && e.metaAlloc.isNone then
      ⟨s, .insufficientResources, none, none, useMetaReqs cfg e⟩
    else
      let r := checkRpcError e.rpc e.comp
      let s₁ := noteMetaData cfg s e
      if r.2 then ⟨s₁, r.1, none, none, useMetaReqs cfg e⟩
      else useFinish cfg s₁ s.emptySlot p pBuffer r.1 e

/-! ## Allocating a buffer -/

/-- What the world answers during one `PROXY_AllocateBuffer`, the call of
`PROXY_UseBuffer` inside it included. -/
structure AllocEnv where
  strideErr : OmxError
  nStride : UInt32
  dimErr : OmxError
  portDefErr : OmxError
  mem : Option UInt32
  use : UseEnv
  map : Option (UInt32 × Int)

/-- `stored` is the slot of `PROXY_UseBuffer`, `filled` the slot this function
writes its own resources to. -/
structure AllocResult where
  st : Proxy
  err : OmxError
  hdr : Option UInt32
  stored : Option Nat
  filled : Option Nat
  reqs : List MemReq

/-- The error of the two queries for the size of a 2D buffer. -/
def AllocEnv.paramErr (e : AllocEnv) : OmxError :=
  if e.dimErr = .unsupportedIndex then e.portDefErr else e.dimErr

/-- `pMemptr`, or the error that ends the call, with the requests made. `metaPort`
says that the port takes encoder metadata pointers. -/
def allocMemory (cfg : Config) (metaPort : Bool) (nSize : UInt32) (e : AllocEnv) :
    Except OmxError UInt32 × List MemReq :=
  let memMgr : Except OmxError UInt32 × List MemReq :=
    (match e.mem with
      | some ptr => .ok ptr
      | none => .error .insufficientResources, [.memMgrAlloc e.mem])
  if e.strideErr ≠ .none then (.error e.strideErr, [])
  else if e.nStride = linuxPageSize ∧ metaPort = false then
    if cfg.useIonBuild then (.error .notImplemented, [])
    else if e.paramErr ≠ .none then (.error e.paramErr, [])
    else memMgr
  else if cfg.useIonBuild then
    if cfg.bUseIon then
      (match e.mem with
        | some handle => .ok handle
        | none => .error .insufficientResources, [.ionAlloc nSize e.mem])
    else (.ok 0, [])
  else memMgr

/-- What `PROXY_AllocateBuffer` does once `PROXY_UseBuffer` has succeeded. -/
def allocFinish (cfg : Config) (s : Proxy) (slot : Nat) (pMemptr nSize : UInt32) (u : UseResult)
    (e : AllocEnv) : AllocResult :=
  let s₁ := s.setSlot slot { s.tBufList slot with pYBuffer := pMemptr }
  if cfg.maps then
    match e.map with
    | none =>
      ⟨s₁, .insufficientResources, u.hdr, u.stored, some slot, [.ionMap pMemptr nSize none]⟩
    | some (addr, fd) =>
      let s₂ := s₁.setSlot slot { s₁.tBufList slot with mmapFd := fd }
      let p := u.hdr.getD 0
      let s₃ := s₂.setHeader p
        ((s₂.heap p).map fun h => { h with fields := { h.fields with pBuffer := addr } })
      ⟨s₃, .none, u.hdr, u.stored, some slot, [.ionMap pMemptr nSize (some (addr, fd))]⟩
  else ⟨s₁, .none, u.hdr, u.stored, some slot, []⟩

def proxyAllocateBuffer (cfg : Config) (s : Proxy) (hasPtr metaPort : Bool) (nSizeBytes : UInt32)
    (e : AllocEnv) : AllocResult :=
  if hasPtr = false then ⟨s, .badParameter, none, none, none, []⟩
  else
    let nSize := roundToPage nSizeBytes
    let m := allocMemory cfg metaPort nSize e
    match m.1 with
    | .error err => ⟨s, err, none, none, none, m.2⟩
    | .ok pMemptr =>
      let currentBuffer := s.emptySlot
      let u := proxyUseBuffer cfg s true pMemptr e.use
      if u.err ≠ .none then
        ⟨u.st, u.err, u.hdr, u.stored, none, m.2 ++ u.reqs ++
          [if cfg.useIonBuild then .ionFree pMemptr else .memMgrFree pMemptr]⟩
      else
        let r := allocFinish cfg u.st currentBuffer pMemptr nSize u e
        { r with reqs := m.2 ++ u.reqs ++ r.reqs }

/-! ## Freeing a buffer -/

def chkVersion (h : HeaderFields) : OmxError :=
  if h.nSize ≠ headerSize then .badParameter
  else if h.nVersionMajor = omxVerMajor ∧ (h.nVersionMinor = omxVerMinor ∨ h.nVersionMinor = 0) then
    .none
  else .versionMismatch

/-- What the remote side answers to a call that carries nothing back. -/
structure RpcEnv where
  rpc : RpcError
  comp : OmxError
  deriving DecidableEq, Repr

structure FreeResult where
  st : Proxy
  err : OmxError
  reqs : List MemReq

/-- The releases of an ion build: `munmap` and `close` of a mapped buffer first. -/
def ionRelease (cfg : Config) (addr len : UInt32) (fd : Int) (handle : UInt32) : List MemReq :=
  if cfg.bUseIon then
    (if cfg.bMapIonBuffers then [.munmap addr len, .close fd] else []) ++ [.ionFree handle]
  else []

def freeReqs (cfg : Config) (b : ProxyBufferInfo) (h : BufHeader) : List MemReq :=
  (if b.pYBuffer = 0 then []
    else if cfg.useIonBuild then
      ionRelease cfg h.fields.pBuffer h.fields.nAllocLen b.mmapFd b.pYBuffer
    else [.memMgrFree b.pYBuffer]) ++
  (if h.pMetaDataBuffer = 0 then []
    else if cfg.useIonBuild then
      ionRelease cfg h.pMetaDataBuffer h.nMetaDataSize b.mmapFdMetadataBuff b.pMetaDataBuffer
    else [.memMgrFree h.pMetaDataBuffer])

/-- The slot is cleared whatever the remote side answers. -/
def proxyFreeBuffer (cfg : Config) (s : Proxy) (p : UInt32) (e : RpcEnv) : Option FreeResult :=
  if p = 0 then some ⟨s, .badParameter, []⟩
  else (s.heap p).map fun h =>
    if chkVersion h.fields ≠ .none then ⟨s, chkVersion h.fields, []⟩
    else match s.slotOf p with
      | none => ⟨s, .badParameter, []⟩
      | some i =>
        let s₁ := (s.setHeader p none).setSlot i .zero
        ⟨{ s₁ with nAllocatedBuffers := s.nAllocatedBuffers - 1 }, (checkRpcError e.rpc e.comp).1,
          freeReqs cfg (s.tBufList i) h⟩

/-! ## Handing buffers to the remote component -/

/-- What the world answers about the mark of a buffer in `PROXY_EmptyThisBuffer`. -/
structure MarkEnv where
  isProxyErr : OmxError
  bIsProxy : Bool
  markAddr : Option UInt32
  hasPrivate : Bool
  hRemote : UInt32

/-- The header as it is sent, or the header and the error the call ends with. -/
def markHeader (h : HeaderFields) (e : MarkEnv) : Except (HeaderFields × OmxError) HeaderFields :=
  if h.hMarkTargetComponent = 0 then .ok h
  else if e.isProxyErr ≠ .none then .error (h, e.isProxyErr)
  else match e.markAddr with
    | none => .error ({ h with pMarkData := 0 }, .insufficientResources)
    | some m =>
      if e.bIsProxy then
        if e.hasPrivate then .ok { h with pMarkData := m, hMarkTargetComponent := e.hRemote }
        else .error (h, .badParameter)
      else .ok { h with pMarkData := m }

/-- On an error the original mark is put back. -/
def emptyHeader (h : HeaderFields) (m : MarkEnv) (e : RpcEnv) : HeaderFields × OmxError :=
  match markHeader h m with
  | .error r => r
  | .ok h' =>
    let err := (checkRpcError e.rpc e.comp).1
    (if err = .none then h' else h, err)

def proxyEmptyThisBuffer (s : Proxy) (p : UInt32) (m : MarkEnv) (e : RpcEnv) :
    Option (OmxError × Proxy) :=
  if p = 0 then some (.badParameter, s)
  else (s.heap p).map fun h =>
    if chkVersion h.fields ≠ .none then (chkVersion h.fields, s)
    else match s.slotOf p with
      | none => (.badParameter, s)
      | some _ =>
        let r := emptyHeader h.fields m e
        (r.2, s.setHeader p (some { h with fields := r.1 }))

def proxyFillThisBuffer (s : Proxy) (p : UInt32) (e : RpcEnv) : Option (OmxError × Proxy) :=
  if p = 0 then some (.badParameter, s)
  else (s.heap p).map fun h =>
    if chkVersion h.fields ≠ .none then (chkVersion h.fields, s)
    else match s.slotOf p with
      | none => (.badParameter, s)
      | some _ => ((checkRpcError e.rpc e.comp).1, s)

/-! ## Callbacks of the remote component -/

/-- A call of one of the client's callback functions. -/
inductive ClientEvent where
  | emptyBufferDone (hdr : UInt32)
  | fillBufferDone (hdr : UInt32)
  | eventError (err : OmxError)
  deriving DecidableEq, Repr

/-- The common body of the two callbacks: the first slot below the mark with this
remote header is taken, and its header written. -/
def bufferDone (s : Proxy) (remoteBufHdr : UInt32) (update : HeaderFields → HeaderFields)
    (done : UInt32 → ClientEvent) : Option (List ClientEvent × Proxy) :=
  match s.slotOfRemote remoteBufHdr with
  | none => some ([.eventError .badParameter], s)
  | some i =>
    let p := (s.tBufList i).pBufHeader
    (s.heap p).map fun h =>
      ([done p], s.setHeader p (some { h with fields := update h.fields }))

/-- What both callbacks carry. -/
structure DoneArgs where
  nFilledLen : UInt32
  nOffset : UInt32
  nFlags : UInt32
  deriving DecidableEq, Repr

/-- The mark is cleared: it is spent, or was passed on by the component. -/
def emptyDoneFields (a : DoneArgs) (h : HeaderFields) : HeaderFields :=
  { h with nFilledLen := a.nFilledLen, nOffset := a.nOffset, nFlags := a.nFlags,
           hMarkTargetComponent := 0, pMarkData := 0 }

def proxyEmptyBufferDone (s : Proxy) (remoteBufHdr : UInt32) (a : DoneArgs) :
    Option (List ClientEvent × Proxy) :=
  bufferDone s remoteBufHdr (emptyDoneFields a) .emptyBufferDone

/-- `mark` is what `pMarkData` points to, component and data, if it is not `NULL`. -/
def fillDoneFields (a : DoneArgs) (nTimeStamp : Int) (mark : Option (UInt32 × UInt32))
    (h : HeaderFields) : HeaderFields :=
  let h₁ := { h with nFilledLen := a.nFilledLen, nOffset := a.nOffset, nFlags := a.nFlags,
                     nTimeStamp := nTimeStamp }
  match mark with
  | none => h₁
  | some (comp, data) => { h₁ with pMarkData := data, hMarkTargetComponent := comp }

def proxyFillBufferDone (s : Proxy) (remoteBufHdr : UInt32) (a : DoneArgs) (nTimeStamp : Int)
    (mark : Option (UInt32 × UInt32)) : Option (List ClientEvent × Proxy) :=
  bufferDone s remoteBufHdr (fillDoneFields a nTimeStamp mark) .fillBufferDone

inductive Call where
  | useBuffer (hasPtr : Bool) (pBuffer : UInt32) (e : UseEnv)
  | allocateBuffer (hasPtr metaPort : Bool) (nSizeBytes : UInt32) (e : AllocEnv)
  | freeBuffer (p : UInt32) (e : RpcEnv)
  | emptyThisBuffer (p : UInt32) (m : MarkEnv) (e : RpcEnv)
  | fillThisBuffer (p : UInt32) (e : RpcEnv)
  | emptyBufferDone (remoteBufHdr : UInt32) (a : DoneArgs)
  | fillBufferDone (remoteBufHdr : UInt32) (a : DoneArgs) (nTimeStamp : Int)
      (mark : Option (UInt32 × UInt32))
  | write (p : UInt32) (fields : HeaderFields)

def step (cfg : Config) (s : Proxy) : Call → Option Proxy
  | .useBuffer hasPtr pBuffer e => some (proxyUseBuffer cfg s hasPtr pBuffer e).st
  | .allocateBuffer hasPtr metaPort n e => some (proxyAllocateBuffer cfg s hasPtr metaPort n e).st
  | .freeBuffer p e => (proxyFreeBuffer cfg s p e).map (·.st)
  | .emptyThisBuffer p m e => (proxyEmptyThisBuffer s p m e).map (·.2)
  | .fillThisBuffer p e => (proxyFillThisBuffer s p e).map (·.2)
  | .emptyBufferDone r a => (proxyEmptyBufferDone s r a).map (·.2)
  | .fillBufferDone r a t mark => (proxyFillBufferDone s r a t mark).map (·.2)
  | .write p fields => (s.heap p).map fun h => s.setHeader p (some { h with fields := fields })

end Omap4Hal.Domx

import Omap4Hal.Domx.BufferTable
import Omap4Hal.Lib.Ledger

/- What the proxy takes and gives back: ion handles, mappings with their descriptors, buffer
   headers and their platform private structures. `PROXY_FreeBuffer` releases what belongs to
   one slot, `PROXY_ComponentDeInit` what the client has not freed.

   The log has all requests to ion and the kernel that the calls of `Proxy` make, in order,
   with the `TIMM_OSAL_Malloc` and `TIMM_OSAL_Free` of the two blocks of a header, and for each
   whether `ion_fd` was open. The two functions that release write the same code twice; the
   second closes `ion_fd` first, and takes the handle of a metadata buffer from the other of
   the two fields with that name. -/
namespace Omap4Hal.Domx
open Lib

/-! ## The log -/

inductive Thing where
  | handle (h : UInt32)
  | mapping (addr len : UInt32)
  | descriptor (fd : Int)
  | header (p : UInt32)
  /-- The platform private structure of a header. -/
  | platform (p : UInt32)
  deriving DecidableEq

inductive Deed where
  | mem (r : MemReq)
  | malloc (t : Thing)
  | free (t : Thing)
  deriving DecidableEq

def Deed.taken : Deed → List Thing
  | .mem (.ionAlloc _ (some h)) => [.handle h]
  | .mem (.ionMap _ len (some (addr, fd))) => [.mapping addr len, .descriptor fd]
  | .malloc t => [t]
  | _ => []

def Deed.given : Deed → List Thing
  | .mem (.ionFree h) => [.handle h]
  | .mem (.munmap addr len) => [.mapping addr len]
  | .mem (.close fd) => [.descriptor fd]
  | .free t => [t]
  | _ => []

/-! ## What the calls do -/

/-- The blocks that `PROXY_UseBuffer` allocates. -/
def useMallocs (s : Proxy) (hasPtr : Bool) (e : UseEnv) : List Thing :=
  if hasPtr = false ∨ ¬ s.nTotalBuffers < maxNumProxyBuffers then []
  else match s.malloc e.hdrAddr with
    | none => []
    | some p => if e.platOk then [.header p, .platform p] else [.header p]

/-- The header of a block. -/
def Thing.owner : Thing → UInt32
  | .header p | .platform p => p
  | _ => 0

/-- `PROXY_UseBuffer`: blocks whose header is not allocated afterwards were freed at `EXIT`. -/
def useDeeds (cfg : Config) (s : Proxy) (hasPtr : Bool) (pBuffer : UInt32) (e : UseEnv) :
    List Deed :=
  let r := proxyUseBuffer cfg s hasPtr pBuffer e
  (useMallocs s hasPtr e).map .malloc ++ r.reqs.map .mem ++
    ((useMallocs s hasPtr e).reverse.filter fun t => !r.st.live t.owner).map .free

def allocDeeds (cfg : Config) (s : Proxy) (hasPtr metaPort : Bool) (nSizeBytes : UInt32)
    (e : AllocEnv) : List Deed :=
  if hasPtr = false then []
  else
    let nSize := roundToPage nSizeBytes
    let m := allocMemory cfg metaPort nSize e
    match m.1 with
    | .error _ => m.2.map .mem
    | .ok pMemptr =>
      let u := proxyUseBuffer cfg s true pMemptr e.use
      m.2.map .mem ++ useDeeds cfg s true pMemptr e.use ++
        if u.err ≠ .none then
          [.mem (if cfg.useIonBuild then .ionFree pMemptr else .memMgrFree pMemptr)]
        else (allocFinish cfg u.st s.emptySlot pMemptr nSize u e).reqs.map .mem

/-- What `PROXY_FreeBuffer` does to a slot. -/
def slotFrees (cfg : Config) (b : ProxyBufferInfo) (h : BufHeader) : List Deed :=
  (freeReqs cfg b h).map .mem ++ [.free (.platform b.pBufHeader), .free (.header b.pBufHeader)]

def freeDeeds (cfg : Config) (s : Proxy) (p : UInt32) : List Deed :=
  if p = 0 then []
  else match s.heap p with
    | none => []
    | some h =>
      if chkVersion h.fields ≠ .none then []
      else match s.slotOf p with
        | none => []
        | some i => slotFrees cfg (s.tBufList i) h

def callDeeds (cfg : Config) (s : Proxy) : Call → List Deed
  | .useBuffer hasPtr pBuffer e => useDeeds cfg s hasPtr pBuffer e
  | .allocateBuffer hasPtr metaPort n e => allocDeeds cfg s hasPtr metaPort n e
  | .freeBuffer p _ => freeDeeds cfg s p
  | _ => []

/-! ## Runs, and the end -/

structure Release where
  proxy : Proxy := .initial
  ionOpen : Bool := true
  log : List (Deed × Bool) := []

def Release.did (w : Release) (deeds : List Deed) (s : Proxy) : Release :=
  { w with proxy := s, log := w.log ++ deeds.map fun d => (d, w.ionOpen) }

def Release.step (cfg : Config) (w : Release) (c : Call) : Option Release :=
  (Domx.step cfg w.proxy c).map fun s => w.did (callDeeds cfg w.proxy c) s

/-- The requests of `PROXY_ComponentDeInit` for a slot. The handle of the metadata buffer is
taken from the platform private structure. -/
def deInitReqs (cfg : Config) (b : ProxyBufferInfo) (h : BufHeader) : List MemReq :=
  (if b.pYBuffer = 0 then []
    else if cfg.useIonBuild then
      ionRelease cfg h.fields.pBuffer h.fields.nAllocLen b.mmapFd b.pYBuffer
    else [.memMgrFree b.pYBuffer]) ++
  (if h.pMetaDataBuffer = 0 then []
    else if cfg.useIonBuild then
      ionRelease cfg h.pMetaDataBuffer h.nMetaDataSize b.mmapFdMetadataBuff h.pMetaDataBuffer
    else [.memMgrFree h.pMetaDataBuffer])

def deInitDeeds (cfg : Config) (b : ProxyBufferInfo) (h : BufHeader) : List Deed :=
  (deInitReqs cfg b h).map .mem ++ [.free (.platform b.pBufHeader), .free (.header b.pBufHeader)]

/-- One pass of the loop of `PROXY_ComponentDeInit`. -/
def Release.deInitSlot (cfg : Config) (w : Release) (i : Nat) : Option Release :=
  let b := w.proxy.tBufList i
  if b.pBufHeader = 0 then some w
  else (w.proxy.heap b.pBufHeader).map fun h =>
    w.did (deInitDeeds cfg b h) ((w.proxy.setHeader b.pBufHeader none).setSlot i .zero)

def Release.componentDeInit (cfg : Config) (w : Release) : Option Release :=
  (List.range w.proxy.nTotalBuffers).foldlM (Release.deInitSlot cfg) { w with ionOpen := false }

/-! ## What is required -/

/-- Everything that was taken is given back once, and ion handles while `ion_fd` is open. -/
structure AllReleased (w : Release) : Prop where
  once : Balanced (w.log.flatMap fun d => d.1.taken) (w.log.flatMap fun d => d.1.given) []
  opened : ∀ d ∈ w.log, ∀ h, d.1 = .mem (.ionFree h) → d.2 = true

/-- The builds that have `ion_fd`: `bUseIon` is set wherever the proxy is set up, and ion
buffers are mapped or not. -/
def ionSetup (bMapIonBuffers : Bool) : Config := ⟨true, true, bMapIonBuffers⟩

/-- All allocations and remote calls of a `PROXY_UseBuffer` succeed; neither a handle nor a
mapped address is `NULL`. -/
structure UseSucceeds (cfg : Config) (s : Proxy) (e : UseEnv) : Prop where
  header : s.malloc e.hdrAddr ≠ none
  platform : e.platOk = true
  stride : e.strideErr = .none
  numLines : e.numLinesErr = .none
  metaInfo : e.metaErr = .none
  metaHandle : e.metaEnabled = true → ∃ h, e.metaAlloc = some h ∧ h ≠ 0
  metaMapped : cfg.maps = true → e.metaEnabled = true →
    ∃ addr fd, e.metaMap = some (addr, fd) ∧ addr ≠ 0
  rpc : e.rpc = .none
  comp : e.comp = .none

/-- The same of a `PROXY_AllocateBuffer`; the remote component notes the size of the buffer. -/
structure AllocSucceeds (cfg : Config) (s : Proxy) (nSizeBytes : UInt32) (e : AllocEnv) :
    Prop where
  stride : e.strideErr = .none
  handle : ∃ h, e.mem = some h ∧ h ≠ 0
  use : UseSucceeds cfg s e.use
  allocLen : e.use.reply.nAllocLen = roundToPage nSizeBytes
  mapped : cfg.maps = true → ∃ addr fd, e.map = some (addr, fd)

def Succeeds (cfg : Config) (w : Release) : Call → Prop
  | .useBuffer _ _ e => UseSucceeds cfg w.proxy e
  | .allocateBuffer _ _ n e => AllocSucceeds cfg w.proxy n e
  | .freeBuffer p _ => p = 0 ∨ (w.proxy.heap p).isSome
  | _ => False

/-- No buffer with ion memory, of its own or for metadata, is left. -/
def NoIonLeft (s : Proxy) : Prop :=
  ∀ i h, s.occupied i = true → s.heap (s.tBufList i).pBufHeader = some h →
    (s.tBufList i).pYBuffer = 0 ∧ h.pMetaDataBuffer = 0

end Omap4Hal.Domx

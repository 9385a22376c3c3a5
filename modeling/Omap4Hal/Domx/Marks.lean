import Omap4Hal.Domx.Proxy
import Omap4Hal.Lib.Ledger

/- The buffer marks of the proxy (`PROXY_EmptyThisBuffer`, `PROXY_SendCommand`,
   `PROXY_FillBufferDone` and `PROXY_EventHandler`). A mark of the client's is replaced by a
   wrapper, `PROXY_MARK_DATA`, that has the original; the remote component gives the wrapper
   back in a buffer or in an event, and the client gets what is in it.

   The proxy is the one of `Proxy`, with the wrappers that are allocated beside it. An access
   to any other address is `none`. A call is one step: its remote call is answered within it,
   and what comes after an answer without error leaves the wrapper alone.

   The history has the wrappers that were allocated and freed, the marks that were accepted,
   those that are still with the remote component, what the client received, and for each
   call that returned an error the mark of its caller before and after. -/
namespace Omap4Hal.Domx
open Lib
open Function (update)

/-! ## State -/

/-- The mark in an `OMX_BUFFERHEADERTYPE` or an `OMX_MARKTYPE`. -/
structure Mark where
  hMarkTargetComponent : UInt32
  pMarkData : UInt32
  deriving DecidableEq

structure ProxyMarkData where
  hComponentActual : UInt32
  pMarkDataActual : UInt32
  deriving DecidableEq

def HeaderFields.mark (h : HeaderFields) : Mark := ⟨h.hMarkTargetComponent, h.pMarkData⟩

def HeaderFields.setMark (h : HeaderFields) (k : Mark) : HeaderFields :=
  { h with hMarkTargetComponent := k.hMarkTargetComponent, pMarkData := k.pMarkData }

/-- What the client gets, with the mark that it had sent. -/
inductive Receipt where
  | fillBufferDone (sent got : Mark)
  | eventMark (sent : Mark) (pEventData : UInt32)

structure Marking where
  proxy : Proxy := .initial
  /-- The wrappers that are allocated. -/
  marks : UInt32 → Option ProxyMarkData := fun _ => none
  /- history -/
  mallocs : List UInt32 := []
  frees : List UInt32 := []
  accepted : List Mark := []
  /-- The wrappers that the remote component has. -/
  pending : List (UInt32 × Mark) := []
  received : List Receipt := []
  refused : List (Mark × Mark) := []

/-- `TIMM_OSAL_Malloc`, as for headers. -/
def Marking.malloc (w : Marking) (found : Option UInt32) : Option UInt32 :=
  found.filter fun a => a != 0 && (w.marks a).isNone

def Marking.wrap (w : Marking) (a : UInt32) (d : ProxyMarkData) : Marking :=
  { w with marks := update w.marks a (some d), mallocs := w.mallocs ++ [a] }

/-- `TIMM_OSAL_Free`. -/
def Marking.free (w : Marking) (a : UInt32) : Option Marking :=
  (w.marks a).map fun _ => { w with marks := update w.marks a none, frees := w.frees ++ [a] }

/-! ## Sending a mark -/

/-- How far a call has got: `eError`, the mark of its caller, and the wrapper. -/
structure MarkResult where
  st : Marking
  err : OmxError
  mark : Mark
  wrapper : Option UInt32

/-- The mark is replaced by a wrapper, and its target by the remote handle if it is a proxy. -/
def Marking.wrapMark (w : Marking) (k : Mark) (m : MarkEnv) : MarkResult :=
  if m.isProxyErr ≠ .none then ⟨w, m.isProxyErr, k, none⟩
  else match w.malloc m.markAddr with
    | none => ⟨w, .insufficientResources, { k with pMarkData := 0 }, none⟩
    | some a =>
      let w := w.wrap a ⟨k.hMarkTargetComponent, k.pMarkData⟩
      if m.bIsProxy then
        if m.hasPrivate then ⟨w, .none, ⟨m.hRemote, a⟩, some a⟩
        else ⟨w, .badParameter, { k with pMarkData := a }, some a⟩
      else ⟨w, .none, { k with pMarkData := a }, some a⟩

/-- `EXIT` of `PROXY_EmptyThisBuffer`: the mark is put back from the wrapper. -/
def MarkResult.restore (r : MarkResult) : Option MarkResult :=
  if r.err ≠ .none ∧ r.wrapper ≠ none then
    (r.st.marks r.mark.pMarkData).bind fun d =>
      (r.st.free r.mark.pMarkData).map fun w =>
        ⟨w, r.err, ⟨d.hComponentActual, d.pMarkDataActual⟩, none⟩
  else some r

/-- `PROXY_EmptyThisBuffer`, once the header is found. -/
def Marking.emptyMark (w : Marking) (k : Mark) (m : MarkEnv) (e : RpcEnv) : Option MarkResult :=
  let r := if k.hMarkTargetComponent ≠ 0 then w.wrapMark k m else ⟨w, .none, k, none⟩
  let r := if r.err ≠ .none then r else { r with err := (checkRpcError e.rpc e.comp).1 }
  r.restore

/-- `EXIT` of `PROXY_SendCommand`: the wrapper is freed. -/
def MarkResult.drop (r : MarkResult) : Option MarkResult :=
  match r.wrapper with
  | some a =>
    if r.err ≠ .none then (r.st.free a).map fun w => { r with st := w, wrapper := none }
    else some r
  | none => some r

/-- `PROXY_SendCommand` with `OMX_CommandMarkBuffer`, once the target is checked. -/
def Marking.sendMark (w : Marking) (k : Mark) (m : MarkEnv) (e : RpcEnv) : Option MarkResult :=
  let r := w.wrapMark k m
  if r.err ≠ .none then r.drop
  else
    -- after the remote call the mark is put back, for a proxy only
    let r := if m.bIsProxy then { r with mark := k } else r
    { r with err := (checkRpcError e.rpc e.comp).1 }.drop

/-- The history of a call that was made with the mark `k`. -/
def MarkResult.note (k : Mark) (r : MarkResult) : Marking :=
  if r.err ≠ .none then { r.st with refused := r.st.refused ++ [(k, r.mark)] }
  else match r.wrapper with
    | some a =>
      { r.st with pending := r.st.pending ++ [(a, k)], accepted := r.st.accepted ++ [k] }
    | none => r.st

def Marking.emptyThisBuffer (w : Marking) (p : UInt32) (m : MarkEnv) (e : RpcEnv) :
    Option Marking :=
  if p = 0 then some w
  else (w.proxy.heap p).bind fun h =>
    let k := h.fields.mark
    if chkVersion h.fields ≠ .none then
      some (MarkResult.note k ⟨w, chkVersion h.fields, k, none⟩)
    else match w.proxy.slotOf p with
      | none => some (MarkResult.note k ⟨w, .badParameter, k, none⟩)
      | some _ =>
        (w.emptyMark k m e).map fun r =>
          let h := { h with fields := h.fields.setMark r.mark }
          { r.note k with proxy := w.proxy.setHeader p (some h) }

/-- `OMX_COMMANDTYPE`: all others are only passed on. -/
inductive OmxCommand where
  | markBuffer
  | other

def Marking.sendCommand (w : Marking) (eCmd : OmxCommand) (pCmdData : Option Mark) (m : MarkEnv)
    (e : RpcEnv) : Option Marking :=
  match eCmd, pCmdData with
  | .other, _ | .markBuffer, none => some w
  | .markBuffer, some k =>
    if k.hMarkTargetComponent = 0 then some (MarkResult.note k ⟨w, .badParameter, k, none⟩)
    else (w.sendMark k m e).map (·.note k)

/-! ## Getting it back -/

/-- The client gets what was in a wrapper. -/
def Marking.receive (w : Marking) (a : UInt32) (receipt : Mark → Receipt) : Marking :=
  match w.pending.lookup a with
  | some k =>
    { w with
      pending := w.pending.filter fun p => p.1 ≠ a
      received := w.received ++ [receipt k] }
  | none => w

/-- The client finds the mark in the header. -/
def Marking.fillBufferDone (w : Marking) (remoteBufHdr : UInt32) (a : DoneArgs) (nTimeStamp : Int)
    (pMarkData : UInt32) : Option Marking :=
  match w.proxy.slotOfRemote remoteBufHdr with
  | none => some w
  | some i =>
    if pMarkData = 0 then
      (proxyFillBufferDone w.proxy remoteBufHdr a nTimeStamp none).map fun o =>
        { w with proxy := o.2 }
    else (w.marks pMarkData).bind fun d =>
      (proxyFillBufferDone w.proxy remoteBufHdr a nTimeStamp
        (some (d.hComponentActual, d.pMarkDataActual))).bind fun o =>
      (w.free pMarkData).bind fun w =>
      (o.2.heap (w.proxy.tBufList i).pBufHeader).map fun h =>
        { w with proxy := o.2 }.receive pMarkData fun k => .fillBufferDone k h.fields.mark

/-- `OMX_EventMark`. Without event data the client gets an error event. -/
def Marking.eventMark (w : Marking) (pEventData : UInt32) : Option Marking :=
  if pEventData = 0 then some w
  else (w.marks pEventData).bind fun d =>
    (w.free pEventData).map fun w =>
      w.receive pEventData fun k => .eventMark k d.pMarkDataActual

/-! ## Runs -/

inductive MarkCall where
  | emptyThisBuffer (p : UInt32) (m : MarkEnv) (e : RpcEnv)
  | sendCommand (eCmd : OmxCommand) (pCmdData : Option Mark) (m : MarkEnv) (e : RpcEnv)
  | fillBufferDone (remoteBufHdr : UInt32) (a : DoneArgs) (nTimeStamp : Int) (pMarkData : UInt32)
  | eventMark (pEventData : UInt32)
  /-- Any other call of the proxy. -/
  | other (c : Call)

def Marking.step (cfg : Config) (w : Marking) : MarkCall → Option Marking
  | .emptyThisBuffer p m e => w.emptyThisBuffer p m e
  | .sendCommand eCmd pCmdData m e => w.sendCommand eCmd pCmdData m e
  | .fillBufferDone r a t x => w.fillBufferDone r a t x
  | .eventMark x => w.eventMark x
  | .other c => (Domx.step cfg w.proxy c).map fun s => { w with proxy := s }

def Receipt.sent : Receipt → Mark
  | .fillBufferDone k _ | .eventMark k _ => k

/-- The client gets its own mark: in an event, the data of it. -/
def Receipt.Right : Receipt → Prop
  | .fillBufferDone k got => got = k
  | .eventMark k pEventData => pEventData = k.pMarkData

/-- The client receives each mark that was accepted and is no longer with the remote
component, once and as it was; all other wrappers have been freed, once; and who got an
error has the mark that he had. -/
structure MarksSound (w : Marking) : Prop where
  right : ∀ r ∈ w.received, r.Right
  once : Balanced w.accepted (w.received.map Receipt.sent) (w.pending.map Prod.snd)
  freed : Balanced w.mallocs w.frees (w.pending.map Prod.fst)
  restored : ∀ r ∈ w.refused, r.2 = r.1

/-- The remote header is that of a live buffer. -/
def Proxy.Live (s : Proxy) (remoteBufHdr : UInt32) : Prop :=
  ∃ i h, s.slotOfRemote remoteBufHdr = some i ∧ s.heap (s.tBufList i).pBufHeader = some h

/-- The client uses headers that are allocated; the remote component gives back wrappers
that it has, in live buffers or in events. -/
def Echoes (cfg : Config) (w : Marking) : MarkCall → Prop
  | .emptyThisBuffer p _ _ => p = 0 ∨ (w.proxy.heap p).isSome
  | .sendCommand .. => True
  | .fillBufferDone r _ _ x => w.proxy.Live r ∧ (x = 0 ∨ ∃ k, (x, k) ∈ w.pending)
  | .eventMark x => x = 0 ∨ ∃ k, (x, k) ∈ w.pending
  | .other c => (Domx.step cfg w.proxy c).isSome ∧
    (∀ p m e, c ≠ .emptyThisBuffer p m e) ∧ ∀ r a t mark, c ≠ .fillBufferDone r a t mark

/-- The call gets to the allocation of the wrapper for `k`. -/
structure AllocatesMark (w : Marking) (p : UInt32) (m : MarkEnv) (k : Mark) : Prop where
  header : ∃ h, w.proxy.heap p = some h ∧ chkVersion h.fields = .none ∧ h.fields.mark = k
  found : w.proxy.slotOf p ≠ none
  target : k.hMarkTargetComponent ≠ 0
  known : m.isProxyErr = .none

/-- A failed allocation loses no mark data; a command with a mark finds the private
structure of a target that is a proxy, and is not refused where the target is none. -/
def MarkOk (w : Marking) : MarkCall → Prop
  | .emptyThisBuffer p m _ => p ≠ 0 → ∀ k, AllocatesMark w p m k → w.malloc m.markAddr = none →
    k.pMarkData = 0
  | .sendCommand eCmd pCmdData m e => ∀ k, eCmd = .markBuffer → pCmdData = some k →
    k.hMarkTargetComponent ≠ 0 → m.isProxyErr = .none →
    match w.malloc m.markAddr with
    | none => k.pMarkData = 0
    | some a => (if m.bIsProxy then m.hasPrivate = true
        else (checkRpcError e.rpc e.comp).1 = .none) ∨ k.pMarkData = a
  | _ => True

end Omap4Hal.Domx

import Omap4Hal.Lib.KeyedVector
import Omap4Hal.Lib.Run

/- The buffers of the preview window (`ANativeWindowDisplayAdapter.cpp`). The adapter dequeues the
   buffers of a native window, keeps their handles in two maps that are indexed by buffer, and
   lists in `mFramesWithCameraAdapterMap` those that the camera has. Every operation of the window
   may fail, and the window may be given up in the middle (ENODEV).

   A call is `none` where it goes through a NULL window, reads a map where there is no entry, or
   gives a buffer to the window that the window has. -/
namespace Omap4Hal.Camera.WindowBuffers

open Lib

/-! ## The adapter -/

/-- What an operation of the window answers; 0 is success. -/
abbrev Answer := Int

def enodev : Answer := 19

/-- A buffer of the window: the pointer that the window gives out, and the gralloc handle that it
points to. -/
structure Buffer where
  hndl : UInt32
  handle : Int32
  deriving DecidableEq

inductive DisplayState where
  | init
  | started
  | stopped
  | exited
  deriving DecidableEq

structure Adapter where
  /-- Whether there is a window. -/
  mANativeWindow : Bool := true
  mDisplayState : DisplayState := .init
  mDisplayEnabled : Bool := false
  mPaused : Bool := false
  mSuspend : Bool := false
  mBufferCount : Nat := 0
  /-- The arrays of handles, without what was not set yet; `none` is NULL. -/
  mBufferHandleMap : Option (List (Option UInt32)) := none
  mGrallocHandleMap : Option (List (Option Int32)) := none
  mFramesWithCameraAdapterMap : KeyedVector Int32 Int := .empty
  mXOff : UInt32 := 0xFFFFFFFF
  mYOff : UInt32 := 0xFFFFFFFF
  /-- The buffers that the window has given out and not got back. -/
  dequeued : List Buffer := []

structure DisplayFrame where
  /-- 0 is NULL. -/
  mBuffer : Int32
  mOffset : UInt32
  /-- Whether the type of the frame is SNAPSHOT_FRAME. -/
  snapshot : Bool

/-- The answers of the window during `allocateBuffer`. -/
structure Answers where
  usage : Answer
  count : Answer
  geometry : Answer
  /-- `get_min_undequeued_buffer_count` -/
  undequeued : Nat
  dequeue : Nat → Except Answer Buffer
  /-- `cancel_buffer` for the buffers that are not needed, by buffer. -/
  cancel : Nat → Answer
  /-- `cancel_buffer` at `fail`, by buffer. -/
  undo : Nat → Answer
  /-- `cancel_buffer` in `freeBuffer`, in the order of the calls. -/
  free : Nat → Answer

/-- How many buffers are cancelled again; none if the window wants more than there are. -/
def Answers.spare (w : Answers) (numBufs : Nat) : Nat :=
  if w.undequeued ≤ numBufs then w.undequeued else 0

namespace Adapter

variable (a : Adapter)

def bufferHandle (i : Nat) : Option UInt32 :=
  if i < a.mBufferCount then a.mBufferHandleMap.bind fun map => map[i]?.join else none

def grallocHandle (i : Nat) : Option Int32 :=
  if i < a.mBufferCount then a.mGrallocHandleMap.bind fun map => map[i]?.join else none

/-- Where an operation answers ENODEV, the window is given up. -/
def abandon (err : Answer) : Adapter :=
  if err = enodev then { a with mANativeWindow := false } else a

/-- `cancel_buffer` or `enqueue_buffer`: the window has the buffer if it answers 0. -/
def giveBack (hndl : UInt32) (err : Answer) : Option Adapter :=
  if a.mANativeWindow ∧ ∃ b ∈ a.dequeued, b.hndl = hndl then
    some (if err = 0 then { a with dequeued := a.dequeued.filter fun b => b.hndl ≠ hndl } else a)
  else none

/-! ### Allocation -/

/-- The buffer that `dequeue_buffer` answers, as the `i`-th. -/
def store (i : Nat) (b : Buffer) : Adapter :=
  { a with
    mBufferHandleMap := a.mBufferHandleMap.map fun map => map.set i (some b.hndl)
    mGrallocHandleMap := a.mGrallocHandleMap.map fun map => map.set i (some b.handle)
    mFramesWithCameraAdapterMap := a.mFramesWithCameraAdapterMap.add b.handle i
    dequeued := b :: a.dequeued }

/-- The loop that dequeues `n` buffers, from the `i`-th on, and where it fails. -/
def dequeueLoop (dequeue : Nat → Except Answer Buffer) :
    Nat → Nat → Adapter → Option Nat × Adapter
  | 0, _, a => (none, a)
  | n + 1, i, a =>
    match dequeue i with
    | .error err => (some i, a.abandon err)
    | .ok b => dequeueLoop dequeue n (i + 1) (a.store i b)

/-- The loops that cancel `n` buffers, from the `i`-th on, and where they fail. -/
def cancelLoop (cancel : Nat → Answer) : Nat → Nat → Adapter → Option (Option Nat × Adapter)
  | 0, _, a => some (none, a)
  | n + 1, i, a => do
    let hndl ← a.bufferHandle i
    let a ← a.giveBack hndl (cancel i)
    if cancel i ≠ 0 then some (some i, a)
    else
      let handle ← a.grallocHandle i
      cancelLoop cancel n (i + 1)
        { a with mFramesWithCameraAdapterMap := a.mFramesWithCameraAdapterMap.remove handle }

/-- The loop of `returnBuffersToWindow`, and whether it comes to its end. -/
def returnLoop (free : Nat → Answer) : List Int → Nat → Adapter → Option (Bool × Adapter)
  | [], _, a => some (true, a)
  | value :: values, k, a =>
    if value < 0 ∨ (a.mBufferCount : Int) ≤ value then returnLoop free values (k + 1) a
    else do
      let _ ← a.grallocHandle value.toNat
      let hndl ← a.bufferHandle value.toNat
      let a ← a.giveBack hndl (free k)
      if free k ≠ 0 then some (false, a.abandon (free k)) else returnLoop free values (k + 1) a

def returnBuffersToWindow (free : Nat → Answer) : Option Adapter :=
  if a.mANativeWindow then
    (returnLoop free (a.mFramesWithCameraAdapterMap.entries.map Prod.snd) 0 a).map fun r =>
      if r.1 then { r.2 with mFramesWithCameraAdapterMap := .empty } else r.2
  else some { a with mFramesWithCameraAdapterMap := .empty }

/-- With `mGrallocHandleMap`, or with NULL. -/
def freeBuffer (pass : Bool) (free : Nat → Answer) : Option Adapter :=
  let a := if pass then a else { a with mGrallocHandleMap := none }
  (a.returnBuffersToWindow free).map fun a =>
    { a with mGrallocHandleMap := none, mBufferHandleMap := none }

/-- From `fail` on, where `i` buffers are to be cancelled, up to the first error. -/
def fail (w : Answers) (i : Nat) : Option (Bool × Adapter) := do
  let (_, a) ← cancelLoop w.undo i 0 a
  let a ← a.freeBuffer true w.free
  some (false, a)

/-- The loops that get the buffers. The buffers that are kept are locked, which may fail and changes
nothing here; the others are cancelled again. -/
def getBuffers (numBufs : Nat) (w : Answers) : Option (Bool × Adapter) :=
  match dequeueLoop w.dequeue numBufs 0 a with
  | (some i, a) => a.fail w i
  | (none, a) =>
    match cancelLoop w.cancel (w.spare numBufs) (numBufs - w.spare numBufs) a with
    | none => none
    | some (some i, a) => (a.abandon (w.cancel i)).fail w i
    | some (none, a) => some (true, a)

/-- The adapter with new maps of handles. -/
def blank (numBufs : Nat) : Adapter := { a with
  mBufferHandleMap := some (List.replicate numBufs none)
  mGrallocHandleMap := some (List.replicate numBufs none) }

/-- Whether the buffers were allocated. -/
def allocateBuffer (numBufs : Nat) (w : Answers) : Option (Bool × Adapter) :=
  let a := a.blank numBufs
  if ¬ a.mANativeWindow then some (false, a)
  else if w.usage ≠ 0 then some (false, a.abandon w.usage)
  else if w.count ≠ 0 then some (false, a.abandon w.count)
  else
    let a := { a with mBufferCount := numBufs }
    if w.geometry ≠ 0 then some (false, a.abandon w.geometry) else a.getBuffers numBufs w

/-! ### The display -/

/-- The display thread is told to start. -/
def enableDisplay : Adapter :=
  if a.mDisplayEnabled then a
  else { a with mDisplayState := .started, mDisplayEnabled := true }

def disableDisplay (cancelBuffer : Bool) (free : Nat → Answer) : Option Adapter :=
  if ¬ a.mDisplayEnabled then some a
  else
    let a := { a with
      mDisplayState := .stopped
      mDisplayEnabled := false
      mXOff := 0xFFFFFFFF
      mYOff := 0xFFFFFFFF }
    if cancelBuffer then a.returnBuffersToWindow free
    else some { a with mANativeWindow := false, mFramesWithCameraAdapterMap := .empty }

def pauseDisplay (pause : Bool) : Adapter := { a with mPaused := pause }

/-- The index of the buffer, or `mBufferCount`. -/
def findBuffer (buffer : Int32) : Nat :=
  (List.range a.mBufferCount).findIdx fun i => a.grallocHandle i = some buffer

def setCrop (mOffset : UInt32) : Option Adapter :=
  let xOff := mOffset % 4096
  let yOff := mOffset / 4096
  if a.mXOff ≠ xOff ∨ a.mYOff ≠ yOff then
    if a.mANativeWindow then some { a with mXOff := xOff, mYOff := yOff } else none
  else some a

/-- Whether a frame is shown, and not only given back. -/
def Shows (frame : DisplayFrame) : Prop :=
  a.mDisplayState = .started ∧ (¬ a.mPaused ∨ frame.snapshot) ∧ ¬ a.mSuspend

instance (frame : DisplayFrame) : Decidable (a.Shows frame) :=
  inferInstanceAs (Decidable (_ ∧ _))

/-- What comes before a frame is given to the window. -/
def prepare (frame : DisplayFrame) : Option Adapter :=
  if a.Shows frame then a.setCrop frame.mOffset else some a

/-- `err` is the answer of `enqueue_buffer` or `cancel_buffer`. -/
def PostFrame (frame : DisplayFrame) (err : Answer) : Option Adapter :=
  if a.mGrallocHandleMap = none ∨ frame.mBuffer = 0 then some a
  else do
    let i := a.findBuffer frame.mBuffer
    let a ← a.prepare frame
    let _ ← a.grallocHandle i
    let hndl ← a.bufferHandle i
    let a ← a.giveBack hndl err
    some { a with
      mFramesWithCameraAdapterMap := a.mFramesWithCameraAdapterMap.remove frame.mBuffer }

def findHandle (hndl : UInt32) : Nat :=
  (List.range a.mBufferCount).findIdx fun i => a.bufferHandle i = some hndl

/-- `locked` is the answer of `lock_buffer`, and `mapped` whether one of the attempts to lock the
handle succeeds. -/
def handleFrameReturn (dequeue : Except Answer Buffer) (locked : Answer) (mapped : Bool) :
    Option Adapter :=
  if ¬ a.mANativeWindow then some a
  else
    match dequeue with
    | .error err => some (a.abandon err)
    | .ok b =>
      let a := { a with dequeued := b :: a.dequeued }
      if locked ≠ 0 then some (a.abandon locked)
      else do
        let i : Nat := a.findHandle b.hndl
        let handle ← a.grallocHandle i
        if ¬ mapped then some a
        else some { a with
          mFramesWithCameraAdapterMap := a.mFramesWithCameraAdapterMap.add handle i }

end Adapter

/-! ## Runs -/

inductive Call where
  | allocateBuffer (numBufs : Nat) (w : Answers)
  | freeBuffer (pass : Bool) (free : Nat → Answer)
  | postFrame (frame : DisplayFrame) (err : Answer)
  | handleFrameReturn (dequeue : Except Answer Buffer) (locked : Answer) (mapped : Bool)
  | enableDisplay
  | disableDisplay (cancelBuffer : Bool) (free : Nat → Answer)
  | pauseDisplay (pause : Bool)

def step (a : Adapter) : Call → Option Adapter
  | .allocateBuffer numBufs w => (a.allocateBuffer numBufs w).map Prod.snd
  | .freeBuffer pass free => a.freeBuffer pass free
  | .postFrame frame err => a.PostFrame frame err
  | .handleFrameReturn dequeue locked mapped => a.handleFrameReturn dequeue locked mapped
  | .enableDisplay => some a.enableDisplay
  | .disableDisplay cancelBuffer free => a.disableDisplay cancelBuffer free
  | .pauseDisplay pause => some (a.pauseDisplay pause)

/-- Different buffers differ in both pointers. -/
def Apart (b b' : Buffer) : Prop := b.hndl ≠ b'.hndl ∧ b.handle ≠ b'.handle

/-- What is expected of the window: it gives out no buffer that it has not, it does not change the
number of its buffers while some are out, and the handle of a buffer stays what it was. -/
def Window (a : Adapter) : Call → Prop
  | .allocateBuffer _ w => (a.dequeued ≠ [] → w.count ≠ 0) ∧
      (∀ i b, w.dequeue i = .ok b → b.handle ≠ 0) ∧
      ∀ i j b b', i ≠ j → w.dequeue i = .ok b → w.dequeue j = .ok b' → Apart b b'
  | .handleFrameReturn (.ok b) _ _ => b.handle ≠ 0 ∧ (∀ b' ∈ a.dequeued, Apart b b') ∧
      ∀ i, a.bufferHandle i = some b.hndl → a.grallocHandle i = some b.handle
  | _ => True

/-- The camera has the buffers that are dequeued, and the map lists them. -/
structure Sound (a : Adapter) : Prop where
  nodup : a.dequeued.Nodup
  keys : ∀ h, h ∈ a.mFramesWithCameraAdapterMap.keys ↔ ∃ b ∈ a.dequeued, b.handle = h

/-- What should hold of a call: it returns, the map is right, and a failing `allocateBuffer` keeps
no buffer. -/
def Keeps (a : Adapter) (c : Call) : Prop :=
  (∃ a', step a c = some a' ∧ Sound a') ∧
    match c with
    | .allocateBuffer numBufs w =>
      ∀ a', a.allocateBuffer numBufs w = some (false, a') → a'.dequeued = a.dequeued
    | _ => True

/-- The maps of handles have the buffers that are dequeued. -/
def Filed (a : Adapter) : Prop := ∀ b ∈ a.dequeued, ∃ i, a.bufferHandle i = some b.hndl

/-- All buffers can be given back: there is a window, the maps have them, and either no
`cancel_buffer` fails or the first does. -/
def Returns (a : Adapter) (free : Nat → Answer) : Prop :=
  a.mANativeWindow ∧ Filed a ∧ ((∀ k, free k = 0) ∨ free 0 ≠ 0)

/-- The first of `n` indexes, from the `i`-th on, of which something holds. -/
def firstFrom (p : Nat → Bool) : Nat → Nat → Option Nat
  | 0, _ => none
  | n + 1, i => if p i then some i else firstFrom p n (i + 1)

def Fails : Except Answer Buffer → Bool
  | .error _ => true
  | .ok _ => false

/-- The errors during `allocateBuffer` that it copes with. -/
def Copes (numBufs : Nat) (w : Answers) : Prop :=
  match firstFrom (fun i => Fails (w.dequeue i)) numBufs 0 with
  | some i => i = 0 ∨ w.dequeue i ≠ .error enodev ∧
      ((∀ j < i, w.undo j = 0) ∨ ∀ k, w.free k = 0)
  | none =>
    -- only the first of the buffers that are not needed
    match firstFrom (fun i => w.cancel i ≠ 0) (w.spare numBufs) (numBufs - w.spare numBufs) with
    | some i => i = numBufs - w.spare numBufs ∧ w.cancel i ≠ enodev ∧ ∀ k, w.free k = 0
    | none => True

/-- The calls that keep the buffers in order. -/
def Lucky (a : Adapter) : Call → Prop
  | .allocateBuffer numBufs w => a.mANativeWindow → w.usage = 0 → w.count = 0 →
      w.geometry = 0 → Copes numBufs w
  | .freeBuffer pass free => a.dequeued = [] ∨ pass ∧ Returns a free
  | .postFrame frame err => a.mGrallocHandleMap = none ∨ frame.mBuffer = 0 ∨
      a.mANativeWindow ∧ Filed a ∧ (∃ b ∈ a.dequeued, b.handle = frame.mBuffer) ∧ err = 0
  | .handleFrameReturn (.ok b) locked mapped => a.mANativeWindow →
      locked = 0 ∧ mapped ∧ ∃ i, a.bufferHandle i = some b.hndl
  | .handleFrameReturn (.error _) _ _ | .enableDisplay | .pauseDisplay _ => True
  | .disableDisplay cancelBuffer free => a.mDisplayEnabled → a.dequeued = [] ∨
      cancelBuffer ∧ Returns a free

end Omap4Hal.Camera.WindowBuffers

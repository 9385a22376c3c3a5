import Omap4Hal.Lib.KeyedVector
import Omap4Hal.Lib.Run

/- The frames of the camera adapter (BaseCameraAdapter.cpp). A frame goes out in a buffer
   of the device, to all subscribers of the frame types in its mask; each of them returns
   it, and the buffer goes back to the device (`fillThisBuffer`) when no count is left.

   A delivery is `setInitFrameRefCount` (one step), then `sendFrameToSubscribers`, with a
   step for each frame type and one for each callback, so that frames can be returned in
   between; deliveries of different buffers overlap in any way. `returnFrame` lowers the
   count, looks at `mRecording`, and adds the count of another type, in three steps;
   `mReturnFrameLock` keeps a second one out. `stopVideoCapture` holds no lock: its test,
   each pass of its loop, each `returnFrame` in it, `clear()` and `mRecording = false` are
   steps of their own. `startVideoCapture` holds `mVideoBufferLock` and is one step; the
   lock of `setState` keeps the two apart. Reading a count and writing it back is one step:
   only `clear()` could come between, and a frame counts as held until then. Looking up a key
   that is not in a table is a failed assertion (`none`).

   The history has who holds which buffer, and what has been given to the device. The
   deliveries of video frames that `stopVideoCapture` takes back are no longer held. -/
namespace Omap4Hal.Camera

open Lib
open Function (update)

/-! ## State -/

/-- The frame types that the adapter supports, in the order of their bits. -/
inductive FrameType where
  | previewFrameSync
  | imageFrame
  | videoFrameSync
  | frameDataSync
  | rawFrame
  | snapshotFrame
  deriving DecidableEq

/-- The tables of reference counts: `mPreviewBuffersAvailable` and so on. -/
inductive Store where
  | preview
  | video
  | capture
  | previewData
  deriving DecidableEq

/-- The vectors of subscribers: `mFrameSubscribers` and so on. -/
inductive Audience where
  | frame
  | image
  | video
  | frameData
  | raw

namespace FrameType

def all : List FrameType :=
  [previewFrameSync, imageFrame, videoFrameSync, frameDataSync, rawFrame, snapshotFrame]

def bit : FrameType → Nat
  | previewFrameSync => 0
  | imageFrame => 3
  | videoFrameSync => 4
  | frameDataSync => 6
  | rawFrame => 8
  | snapshotFrame => 9

def store : FrameType → Store
  | imageFrame | rawFrame => .capture
  | previewFrameSync | snapshotFrame => .preview
  | frameDataSync => .previewData
  | videoFrameSync => .video

def audience : FrameType → Audience
  | imageFrame => .image
  | rawFrame => .raw
  | previewFrameSync | snapshotFrame => .frame
  | videoFrameSync => .video
  | frameDataSync => .frameData

/-- The frame types for which `mFrameQueue` is looked up. -/
def needsQueue : FrameType → Bool
  | previewFrameSync | videoFrameSync | snapshotFrame => true
  | _ => false

end FrameType

/-- The supported types of a mask; the loops over its bits only log the others. -/
def typesOf (mask : Nat) : List FrameType := FrameType.all.filter fun t => mask.testBit t.bit

/-- The tables for image buffers and for data keep `bool`s. -/
def Store.stored : Store → Int → Int
  | .preview, n | .video, n => n
  | .capture, n | .previewData, n => if n = 0 then 0 else 1

/-- Where `sendFrameToSubscribers` is: before a frame type, or before the callback with
index `i` of `n`; with the types that are left. -/
inductive Sending where
  | next (t : FrameType) (rest : List FrameType)
  | calling (t : FrameType) (i n : Nat) (rest : List FrameType)

/-- A `returnFrame` that has lowered the count: what is left of it, and, when it has looked at
`mRecording`, the type whose count it adds. `stop` says that `stopVideoCapture` calls it. -/
structure Return where
  buf : Int
  own : FrameType
  refCount : Int
  other : Option (Option FrameType) := none
  stop : Bool

/-- Where `stopVideoCapture` is: before a pass of its loop, before the `returnFrame` of the
pass or in it, or before `mRecording = false`. -/
inductive StopPlace where
  | pass (i : Nat)
  | taking (i : Nat) (buf : Int)
  | inReturn (i : Nat)
  | cleared
  deriving DecidableEq

structure Frames where
  available : Store → KeyedVector Int Int
  recording : Bool := false
  /-- For each subscriber, whether its callback is set. -/
  subscribers : Audience → List Bool
  /-- The keys of `mFrameQueue`. -/
  frameQueue : List Int
  sending : Int → Option Sending := fun _ => none
  returning : Option Return := none
  stopping : Option StopPlace := none
  /- history -/
  held : Int → FrameType → Nat
  /-- Deliveries that are announced by the reference counts and still to be made. -/
  due : Int → FrameType → Nat := fun _ _ => 0
  /-- What is left of a video count when its holders have been taken back. -/
  stale : Int → Nat := fun _ => 0
  withDevice : Int → Bool
  /-- Of the frame that a buffer has now: the deliveries made, and the calls of
  `fillThisBuffer`. -/
  delivered : Int → Nat
  filled : Int → Nat := fun _ => 0
  /-- All calls of `fillThisBuffer`, each with the number of holders at that time. -/
  fills : List (Int × Nat) := []

def Frames.holders (w : Frames) (buf : Int) : Nat := (FrameType.all.map (w.held buf)).sum

/-! ## Reference counts -/

def Frames.getFrameRefCount (w : Frames) (buf : Int) (t : FrameType) : Option Int :=
  (w.available t.store).valueFor buf

def Frames.setFrameRefCount (w : Frames) (buf : Int) (t : FrameType) (refCount : Int) : Frames :=
  { w with available :=
      update w.available t.store ((w.available t.store).add buf (t.store.stored refCount)) }

def Frames.setInitFrameRefCount (w : Frames) (buf : Int) (mask : Nat) : Frames :=
  (typesOf mask).foldl
    (fun w t => w.setFrameRefCount buf t (w.subscribers t.audience).length) w

def Frames.fillThisBuffer (w : Frames) (buf : Int) : Frames :=
  { w with
    withDevice := update w.withDevice buf true
    filled := update w.filled buf (w.filled buf + 1)
    fills := w.fills ++ [(buf, w.holders buf)] }

/-- The type whose count `returnFrame` adds to that of its own. -/
def Frames.otherType (w : Frames) (t : FrameType) : Option FrameType :=
  if w.recording ∧ t = .videoFrameSync then some .previewFrameSync
  else if w.recording ∧ t = .previewFrameSync then some .videoFrameSync
  else if w.recording ∧ t = .snapshotFrame then some .videoFrameSync
  else none

/-- `returnFrame` until it has lowered the count. -/
def Frames.returnFrame (w : Frames) (buf : Int) (t : FrameType) (stop : Bool) : Option Frames :=
  if buf = 0 then some w
  else do
    let refCount ← w.getFrameRefCount buf t
    if 0 < refCount then
      return { w.setFrameRefCount buf t (refCount - 1) with
        returning := some { buf := buf, own := t, refCount := refCount - 1, stop := stop } }
    -- returned when the count is already zero
    else return w

def Frames.look (w : Frames) : Option Frames :=
  w.returning.map fun r => { w with returning := some { r with other := some (w.otherType r.own) } }

def StopPlace.next : StopPlace → StopPlace
  | .inReturn i => .pass (i + 1)
  | p => p

/-- The rest of `returnFrame`. -/
def Frames.endReturn (w : Frames) : Option Frames := do
  let r ← w.returning
  let other ← (← r.other).elim (some 0) (w.getFrameRefCount r.buf)
  let w := { w with
    returning := none
    stopping := if r.stop then w.stopping.map StopPlace.next else w.stopping }
  return if r.refCount + other = 0 then w.fillThisBuffer r.buf else w

/-! ## Deliveries -/

def Sending.ofTypes : List FrameType → Option Sending
  | [] => none
  | t :: rest => some (.next t rest)

def Frames.count (w : Frames) (s : Store) (buf : Int) : Int :=
  ((w.available s).valueFor buf).getD 0

/-- A frame comes from the device. -/
def Frames.deliver (w : Frames) (buf : Int) (mask : Nat) : Frames :=
  let w := w.setInitFrameRefCount buf mask
  { w with
    sending := update w.sending buf (Sending.ofTypes (typesOf mask))
    due := update w.due buf fun t => if t ∈ typesOf mask then (w.count t.store buf).toNat else 0
    withDevice := update w.withDevice buf false
    delivered := update w.delivered buf 0
    filled := update w.filled buf 0 }

/-- `sendFrameToSubscribers` is left. -/
def Frames.stopSending (w : Frames) (buf : Int) : Frames :=
  { w with sending := update w.sending buf none }

/-- `__sendFrameToSubscribers` up to its loop. -/
def Frames.send (w : Frames) (buf : Int) : Option Frames :=
  match w.sending buf with
  | some (.next t rest) =>
    if t.needsQueue ∧ w.frameQueue = [] then some (w.stopSending buf)
    else if t.needsQueue ∧ buf ∉ w.frameQueue then none
    else do
      let refCount ← w.getFrameRefCount buf t
      if refCount ≤ 0 ∨ (w.subscribers t.audience).length < refCount then
        return w.stopSending buf
      else
        return { w with sending := update w.sending buf (some (.calling t 0 refCount.toNat rest)) }
  | _ => none

/-- One pass of that loop. -/
def Frames.callback (w : Frames) (buf : Int) : Option Frames :=
  match w.sending buf with
  | some (.calling t i n rest) =>
    match (w.subscribers t.audience)[i]? with
    | none => none
    | some false => some (w.stopSending buf)
    | some true =>
      some { w with
        sending := update w.sending buf
          (if i + 1 < n then some (.calling t (i + 1) n rest) else Sending.ofTypes rest)
        held := update w.held buf (update (w.held buf) t (w.held buf t + 1))
        due := update w.due buf (update (w.due buf) t (w.due buf t - 1))
        delivered := update w.delivered buf (w.delivered buf + 1) }
  | _ => none

/-! ## Returning, and video capture -/

/-- A subscriber returns a frame. -/
def Frames.giveBack (w : Frames) (buf : Int) (t : FrameType) : Option Frames :=
  let w := { w with held := update w.held buf (update (w.held buf) t (w.held buf t - 1)) }
  w.returnFrame buf t false

/-- `startVideoCapture`; nothing happens if it is already on. -/
def Frames.startVideoCapture (w : Frames) : Frames :=
  if w.recording then w
  else
    { w with
      available := update w.available .video
        ((w.available .preview).keys.foldl (fun v k => v.add k 0) (w.available .video))
      recording := true }

/-- The `returnFrame` of `stopVideoCapture`: the holders of the video frame in the buffer are
taken back. It finds the count zero if the last of them has returned it since. -/
def Frames.takeBack (w : Frames) (i : Nat) (buf : Int) : Option Frames := do
  let refCount ← w.getFrameRefCount buf .videoFrameSync
  if 0 < refCount then
    let w := { w with
      stopping := some (.inReturn i)
      held := update w.held buf (update (w.held buf) .videoFrameSync 0)
      due := update w.due buf (update (w.due buf) .videoFrameSync 0)
      stale := update w.stale buf (refCount - 1).toNat }
    w.returnFrame buf .videoFrameSync true
  else return { w with stopping := some (.pass (i + 1)) }

/-- `stopVideoCapture` is called; nothing happens if there is no capture. -/
def Frames.stopVideoCapture (w : Frames) : Frames :=
  if w.recording then { w with stopping := some (.pass 0) } else w

/-- `mVideoBuffersAvailable.clear()`. -/
def Frames.clearVideo (w : Frames) : Frames :=
  { w with
    available := update w.available .video .empty
    stopping := some .cleared
    stale := fun _ => 0 }

/-- The next step of `stopVideoCapture` outside of `returnFrame`. -/
def Frames.stopStep (w : Frames) : Option Frames :=
  match w.stopping with
  | some (.pass i) =>
    match (w.available .video).keys[i]? with
    | none => some w.clearVideo
    | some buf => do
      let refCount ← w.getFrameRefCount buf .videoFrameSync
      return { w with stopping := some (if 0 < refCount then .taking i buf else .pass (i + 1)) }
  | some (.taking i buf) => w.takeBack i buf
  | some .cleared => some { w with recording := false, stopping := none }
  | _ => none

/-! ## Runs -/

inductive FrameEvent where
  | deliver (buf : Int) (mask : Nat)
  | send (buf : Int)
  | callback (buf : Int)
  | giveBack (buf : Int) (t : FrameType)
  | look
  | endReturn
  | startVideoCapture
  | stopVideoCapture
  | stopStep

def Frames.step (w : Frames) : FrameEvent → Option Frames
  | .deliver buf mask => some (w.deliver buf mask)
  | .send buf => w.send buf
  | .callback buf => w.callback buf
  | .giveBack buf t => w.giveBack buf t
  | .look => w.look
  | .endReturn => w.endReturn
  | .startVideoCapture => some w.startVideoCapture
  | .stopVideoCapture => some w.stopVideoCapture
  | .stopStep => w.stopStep

/-- The adapter with its buffers loaded. The provider still holds the preview buffers in
`kept`, with the count 1; all others can be queued and are with the device. -/
def Frames.initial (preview kept capture previewData : List Int)
    (subscribers : Audience → List Bool) (frameQueue : List Int) : Frames where
  available
    | .preview => kept.foldl (fun v k => v.add k 1) (preview.foldl (fun v k => v.add k 0) .empty)
    | .video => .empty
    | .capture => capture.foldl (fun v k => v.add k 0) .empty
    | .previewData => previewData.foldl (fun v k => v.add k 0) .empty
  subscribers := subscribers
  frameQueue := frameQueue
  held buf t := if buf ∈ kept ∧ t = .previewFrameSync then 1 else 0
  withDevice buf := decide (buf ∉ kept)
  delivered buf := if buf ∈ kept then 1 else 0

/-! ## Who may hold a buffer -/

/-- A `returnFrame` of the buffer is under way. -/
def Frames.InReturn (w : Frames) (buf : Int) : Prop := ∃ r, w.returning = some r ∧ r.buf = buf

/-- No buffer was given to the device while somebody held it; the frame that a buffer has
is given back at most once, and has been once it is all delivered, nobody holds it and the
last return is over. -/
structure Owned (w : Frames) : Prop where
  unheld : ∀ f ∈ w.fills, f.2 = 0
  once : ∀ buf, w.filled buf ≤ 1
  back : ∀ buf, 0 < w.delivered buf → w.sending buf = none → w.holders buf = 0 →
    ¬ w.InReturn buf → w.filled buf = 1

/-- The table of the buffers that frames of a type come in: video frames come in preview
buffers. -/
def Store.source : Store → Store
  | .video => .preview
  | s => s

/-- What the device, the subscribers and the program can do: a frame comes in a buffer that
the device has and that was loaded for its types; a delivery is returned once; and the locks
are respected. -/
def Possible (w : Frames) : FrameEvent → Prop
  | .deliver buf mask => buf ≠ 0 ∧ w.withDevice buf = true ∧ w.sending buf = none ∧
    (w.frameQueue = [] ∨ buf ∈ w.frameQueue) ∧
    ∀ t ∈ typesOf mask, buf ∈ (w.available t.store.source).keys
  | .send buf => ∃ t rest, w.sending buf = some (.next t rest)
  | .callback buf => ∃ t i n rest, w.sending buf = some (.calling t i n rest)
  | .giveBack buf t => buf ≠ 0 ∧ 0 < w.held buf t ∧ w.returning = none
  | .look => ∃ r, w.returning = some r ∧ r.other = none
  | .endReturn => ∃ r t, w.returning = some r ∧ r.other = some t
  | .startVideoCapture | .stopVideoCapture => w.stopping = none
  | .stopStep =>
    match w.stopping with
    | some (.pass _) | some .cleared => True
    | some (.taking _ _) => w.returning = none
    | _ => False

/-- The counts of these two tables are added up. -/
def Together (t u : FrameType) : Prop :=
  t.store = .preview ∧ u.store = .video ∨ t.store = .video ∧ u.store = .preview

instance : DecidableRel Together := fun t u =>
  inferInstanceAs (Decidable (t.store = .preview ∧ u.store = .video ∨
    t.store = .video ∧ u.store = .preview))

/-- `mRecording` is set, and the table of video buffers is there. -/
def Frames.Filming (w : Frames) : Prop := w.recording = true ∧ w.stopping ≠ some .cleared

/-- A mask has one type, or a preview or snapshot frame with a video frame. -/
structure MaskOk (w : Frames) (mask : Nat) : Prop where
  together : (typesOf mask).Pairwise Together
  video : .videoFrameSync ∈ typesOf mask → w.Filming
  callbacks : ∀ t ∈ typesOf mask, ∀ b ∈ w.subscribers t.audience, b = true

def Sending.types : Sending → List FrameType
  | .next t rest => t :: rest
  | .calling t _ _ rest => t :: rest

/-- No video frame in the buffer is being delivered. -/
def Frames.Silent (w : Frames) (buf : Int) : Prop :=
  ∀ s ∈ w.sending buf, .videoFrameSync ∉ s.types

/-- The `returnFrame` of a preview or snapshot frame does not look at `mRecording` between
`clear()` and `mRecording = false`, nor, for the last of its buffer, while a stale video count
is in the table. -/
def LookOk (w : Frames) : Prop :=
  ∀ r ∈ w.returning, r.own.store = .preview → w.recording = true →
    w.stopping ≠ some .cleared ∧ (w.stale r.buf ≠ 0 → r.refCount ≠ 0)

/-- The holders of a buffer are taken back while no video frame in it is being delivered, and
where there are several of them, a preview or snapshot frame in the same buffer is held too.
The table is cleared when nobody holds a video frame, none is being delivered and no
`returnFrame` is about to look there. At `mRecording = false` no `returnFrame` of a video frame
has still to look at it while a preview or snapshot frame in the same buffer is held. -/
def StopOk (w : Frames) : Prop :=
  match w.stopping with
  | some (.taking _ buf) =>
      (w.count .video buf ≤ 1 ∨ 0 < w.count .preview buf) ∧ w.Silent buf
  | some (.pass i) => (w.available .video).keys.length ≤ i →
      (∀ buf ∈ (w.available .video).keys,
        w.held buf .videoFrameSync + w.due buf .videoFrameSync = 0 ∧ w.Silent buf) ∧
        ∀ r ∈ w.returning, r.other ≠ some (some .videoFrameSync)
  | some .cleared => ∀ r ∈ w.returning, r.own = .videoFrameSync → r.other = none →
      w.count .preview r.buf = 0
  | _ => True

def FrameOk (w : Frames) (e : FrameEvent) : Prop :=
  Possible w e ∧
    match e with
    | .deliver _ mask => MaskOk w mask
    | .look => LookOk w
    | .stopStep => StopOk w
    | _ => True

/-! ## The guards can be evaluated -/

section Evaluate

variable (w : Frames)

instance : DecidablePred (Possible w)
  | .deliver buf mask => inferInstanceAs (Decidable (buf ≠ 0 ∧ w.withDevice buf = true ∧
      w.sending buf = none ∧ (w.frameQueue = [] ∨ buf ∈ w.frameQueue) ∧
      ∀ t ∈ typesOf mask, buf ∈ (w.available t.store.source).keys))
  | .send buf =>
    match h : w.sending buf with
    | some (.next t rest) => isTrue ⟨t, rest, h⟩
    | some (.calling ..) | none => isFalse (by simp [Possible, h])
  | .callback buf =>
    match h : w.sending buf with
    | some (.calling t i n rest) => isTrue ⟨t, i, n, rest, h⟩
    | some (.next ..) | none => isFalse (by simp [Possible, h])
  | .giveBack buf t =>
    inferInstanceAs (Decidable (buf ≠ 0 ∧ 0 < w.held buf t ∧ w.returning = none))
  | .look => inferInstanceAs (Decidable (∃ r ∈ w.returning, r.other = none))
  | .endReturn =>
    decidable_of_iff (∃ r ∈ w.returning, r.other ≠ none)
      (by simp [Possible, Option.ne_none_iff_exists'])
  | .startVideoCapture | .stopVideoCapture => inferInstanceAs (Decidable (w.stopping = none))
  | .stopStep =>
    match h : w.stopping with
    | some (.pass _) | some .cleared => isTrue (by simp [Possible, h])
    | some (.taking _ _) => decidable_of_iff (w.returning = none) (by simp [Possible, h])
    | some (.inReturn _) | none => isFalse (by simp [Possible, h])

instance (buf : Int) : Decidable (w.Silent buf) :=
  inferInstanceAs (Decidable (∀ s ∈ w.sending buf, .videoFrameSync ∉ s.types))

instance (mask : Nat) : Decidable (MaskOk w mask) :=
  decidable_of_iff ((typesOf mask).Pairwise Together ∧
      (.videoFrameSync ∈ typesOf mask → w.recording = true ∧ w.stopping ≠ some .cleared) ∧
      ∀ t ∈ typesOf mask, ∀ b ∈ w.subscribers t.audience, b = true)
    ⟨fun h => ⟨h.1, h.2.1, h.2.2⟩, fun h => ⟨h.together, h.video, h.callbacks⟩⟩

instance : Decidable (LookOk w) := inferInstanceAs (Decidable (∀ r ∈ w.returning,
  r.own.store = .preview → w.recording = true →
    w.stopping ≠ some .cleared ∧ (w.stale r.buf ≠ 0 → r.refCount ≠ 0)))

instance : Decidable (StopOk w) :=
  match h : w.stopping with
  | some (.taking _ buf) =>
    decidable_of_iff ((w.count .video buf ≤ 1 ∨ 0 < w.count .preview buf) ∧ w.Silent buf)
      (by rw [StopOk, h])
  | some (.pass i) =>
    decidable_of_iff ((w.available .video).keys.length ≤ i →
      (∀ buf ∈ (w.available .video).keys,
        w.held buf .videoFrameSync + w.due buf .videoFrameSync = 0 ∧ w.Silent buf) ∧
        ∀ r ∈ w.returning, r.other ≠ some (some .videoFrameSync)) (by rw [StopOk, h])
  | some .cleared =>
    decidable_of_iff (∀ r ∈ w.returning, r.own = .videoFrameSync → r.other = none →
      w.count .preview r.buf = 0) (by rw [StopOk, h])
  | some (.inReturn _) | none => isTrue (by simp [StopOk, h])

instance : DecidablePred (FrameOk w)
  | .deliver buf mask =>
    inferInstanceAs (Decidable (Possible w (.deliver buf mask) ∧ MaskOk w mask))
  | .look => inferInstanceAs (Decidable (Possible w .look ∧ LookOk w))
  | .stopStep => inferInstanceAs (Decidable (Possible w .stopStep ∧ StopOk w))
  | .send buf => inferInstanceAs (Decidable (Possible w (.send buf) ∧ True))
  | .callback buf => inferInstanceAs (Decidable (Possible w (.callback buf) ∧ True))
  | .giveBack buf t => inferInstanceAs (Decidable (Possible w (.giveBack buf t) ∧ True))
  | .endReturn => inferInstanceAs (Decidable (Possible w .endReturn ∧ True))
  | .startVideoCapture => inferInstanceAs (Decidable (Possible w .startVideoCapture ∧ True))
  | .stopVideoCapture => inferInstanceAs (Decidable (Possible w .stopVideoCapture ∧ True))

end Evaluate

end Omap4Hal.Camera

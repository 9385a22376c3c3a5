import Mathlib.Order.Nat
import Omap4Hal.Lib.KeyedVector
import Omap4Hal.Lib.Ledger
import Omap4Hal.Lib.Run
import Omap4Hal.Lib.TaggedQueue

/- The frames that the camera adapter gives to the application (AppCallbackNotifier.cpp).
   `frameCallback` queues a frame. The notification thread takes it out under `mLock` and, by its
   type, copies it for the application and returns it to the adapter, hands it over as a
   recording frame, or starts an encoder for it, which it enters in `gEncoderQueue` after that.
   The thread of the encoder ends in `EncoderDoneCb`, which releases the output memory and the
   EXIF table and returns the frame. `stop` cancels the encoders that are in the queue, and releases
   what they have.

   A step is a critical section, or a call where there is none; the steps of the notification
   thread, of the encoders, of the thread that controls the notifier and of the application are
   taken in any order. The frames have different buffers, so that a buffer stands for its frame,
   and for the encoder that it is the source of.

   `Accounted` says that every frame is in one place and everything is released once, and
   `Orderly` which steps keep it so. -/
namespace Omap4Hal.Camera.CallbackNotifier
open Lib

/-! ## State -/

inductive FrameType where
  | previewFrameSync
  | previewFrame
  | imageFrameSync
  | imageFrame
  | videoFrameSync
  | videoFrame
  | frameDataSync
  | frameData
  | rawFrame
  | snapshotFrame
  | other (mask : Nat)
  deriving DecidableEq

/-- ENCODE_RAW_YUV422I_TO_JPEG -/
def encodeRaw : Nat := 1

def hasExifData : Nat := 2

/-- An address of 0 is NULL. -/
structure CameraFrame where
  mBuffer : Nat
  mFrameType : FrameType
  mQuirks : Nat := 0
  mCookie2 : Nat := 0

/-- The frame as it is returned. -/
def CameraFrame.ident (f : CameraFrame) : Nat × FrameType := (f.mBuffer, f.mFrameType)

/-- The messages that decide how a frame is handled. -/
inductive CameraMsg where
  | rawImage
  | videoFrame
  | previewFrame

/-- `camera_memory_t`: NULL, or with its data. -/
abbrev Memory := Option Nat

def Memory.hasData : Memory → Bool
  | none => false
  | some data => data ≠ 0

inductive NotifierState where
  | stopped
  | started
  deriving DecidableEq

/-- Where the thread of an encoder is: it encodes, or it is in `EncoderDoneCb`, before it takes
`mLock`, before it tests the state of the notifier, or before one of the calls that follow. -/
inductive Place where
  | encoding
  | completing
  | testing
  | releasing
  | deleting
  | looking
  | removing
  | returning
  deriving DecidableEq

/-- `mainJpeg` is whether `main_jpeg` was allocated; `output` and `exif` are `mCookie2` and
`mCookie3`, and `cookie2` the EXIF table that `EncoderDoneCb` still has. -/
structure Encoder where
  buffer : Nat
  type : FrameType
  mainJpeg : Bool
  output : Memory
  exif : Nat
  canceled : Bool := false
  place : Place := .encoding
  cookie2 : Nat := exif

/-- What `getCookies` gives of an encoder in the queue. -/
structure Cookies where
  buffer : Nat
  output : Memory
  exif : Nat

/-- Where the notification thread is: between two frames, with a frame, or before it enters an
encoder that runs in the queue. -/
inductive Notifying where
  | idle
  | processing (f : CameraFrame)
  | adding (cookies : Cookies)

/-- Where `stop` is in its loop. -/
inductive Stopping where
  | idle
  | looking
  | releasing (cookies : Cookies)
  | removing

/-- A frame with the application, and the address that it was handed over with. -/
structure RecordingFrame where
  mem : Nat
  frame : Nat

structure Config where
  hasCameraHal : Bool
  hasDataCb : Bool
  hasNotifyCb : Bool
  mMeasurementEnabled : Bool
  mUseMetaDataBufferMode : Bool
  mUseVideoBuffers : Bool

structure State where
  config : Config
  mNotifierState : NotifierState := .stopped
  mFrameQ : List CameraFrame := []
  notifying : Notifying := .idle
  /-- The encoders whose thread has not ended, in any order. -/
  encoders : List Encoder := []
  gEncoderQueue : KeyedVector Nat Cookies := {}
  stopping : Stopping := .idle
  mRecording : Bool := false
  mRecordingLock : Bool := false
  /-- From a buffer to the data of its metadata memory, and back. -/
  mVideoMetadataBufferMemoryMap : KeyedVector Nat Nat := {}
  mVideoMetadataBufferReverseMap : KeyedVector Nat Nat := {}
  mVideoMap : KeyedVector Nat Nat := {}
  recordingFrames : List RecordingFrame := []
  /-- A lookup of a key that is not there. -/
  failedAssertion : Bool := false
  /- history: frames given and returned, output memories and EXIF tables that encoders got, and
  those released and deleted -/
  given : List (Nat × FrameType) := []
  returned : List (Nat × FrameType) := []
  outputs : List Nat := []
  released : List Nat := []
  exifs : List Nat := []
  deleted : List Nat := []

/-! ## The notification thread -/

def State.returnFrame (s : State) (buffer : Nat) (type : FrameType) : State :=
  { s with returned := s.returned ++ [(buffer, type)] }

/-- They return the frame whether or not it was copied. -/
def State.copyAndSendPictureFrame (s : State) (f : CameraFrame) : State :=
  s.returnFrame f.mBuffer f.mFrameType

def State.copyAndSendPreviewFrame (s : State) (f : CameraFrame) : State :=
  s.returnFrame f.mBuffer f.mFrameType

/-- The branches of `notifyFrame`. -/
inductive Branch where
  | raw
  | encode
  | image
  | video
  | snapshot
  | preview
  | frameData
  | unsupported
  deriving DecidableEq

def Config.branch (c : Config) (f : CameraFrame) (enabled : CameraMsg → Bool) : Branch :=
  let data := c.hasCameraHal && c.hasDataCb
  if f.mFrameType = .rawFrame ∧ data ∧ c.hasNotifyCb then .raw
  else if f.mFrameType = .imageFrame ∧ data ∧ f.mQuirks &&& encodeRaw ≠ 0 then .encode
  else if f.mFrameType = .imageFrame ∧ data then .image
  else if f.mFrameType = .videoFrameSync ∧ data ∧ enabled .videoFrame then .video
  else if f.mFrameType = .snapshotFrame ∧ data ∧ c.hasNotifyCb then .snapshot
  else if f.mFrameType = .previewFrameSync ∧ data ∧ enabled .previewFrame then .preview
  else if f.mFrameType = .frameDataSync ∧ data ∧ enabled .previewFrame then .frameData
  else .unsupported

/-- The enabled messages when a frame is handled, and what the allocations give. -/
structure Allocations where
  enabled : CameraMsg → Bool
  rawPicture : Memory
  mainJpeg : Bool
  fakebuf : Memory

/-- `encoder->run()` -/
def State.startEncoder (s : State) (f : CameraFrame) (a : Allocations) : State :=
  let exif := if f.mQuirks &&& hasExifData ≠ 0 then f.mCookie2 else 0
  let encoder : Encoder :=
    { buffer := f.mBuffer
      type := f.mFrameType
      mainJpeg := a.mainJpeg
      output := a.rawPicture
      exif := exif }
  { s with
    encoders := s.encoders ++ [encoder]
    outputs := s.outputs ++ if a.rawPicture.isSome then [f.mBuffer] else []
    exifs := s.exifs ++ if exif ≠ 0 then [f.mBuffer] else []
    notifying := .adding ⟨f.mBuffer, a.rawPicture, exif⟩ }

/-- The callback for the timestamp, and the unlock. -/
def State.handOver (s : State) (f : CameraFrame) (mem : Nat) : State :=
  { s with
    recordingFrames := s.recordingFrames ++ [⟨mem, f.mBuffer⟩]
    notifying := .idle }

/-- The `break` in the branch of the recording: it skips the unlock. -/
def State.skipUnlock (s : State) : State :=
  { s with mRecordingLock := true, notifying := .idle }

/-- A lookup fails, with the lock held. -/
def State.failLocked (s : State) : State :=
  { s with mRecordingLock := true, failedAssertion := true }

/-- `none` waits for `mRecordingLock`. -/
def State.recordFrame (s : State) (f : CameraFrame) (a : Allocations) : Option State :=
  if s.mRecordingLock then none
  else if !s.mRecording then some { s with notifying := .idle }
  else if s.config.mUseMetaDataBufferMode then
    match s.mVideoMetadataBufferMemoryMap.valueFor f.mBuffer with
    | none => some s.failLocked
    | some data =>
      if data = 0 ∨ f.mBuffer = 0 then some s.skipUnlock
      else if s.config.mUseVideoBuffers ∧ s.mVideoMap.valueFor f.mBuffer = none then
        some s.failLocked
      else some (s.handOver f data)
  else if !a.fakebuf.hasData ∨ f.mBuffer = 0 then some s.skipUnlock
  -- `fakebuf->data` is set to the buffer
  else some (s.handOver f f.mBuffer)

/-- `notifyFrame`, with the frame that it has taken. -/
def State.process (s : State) (f : CameraFrame) (a : Allocations) : Option State :=
  let done := { s with notifying := .idle }
  match s.config.branch f a.enabled with
  | .raw =>
    if a.enabled .rawImage then some (done.copyAndSendPictureFrame f)
    else some (done.returnFrame f.mBuffer f.mFrameType)
  | .encode => some (s.startEncoder f a)
  | .image => some (done.copyAndSendPictureFrame f)
  | .video => s.recordFrame f a
  | .snapshot | .preview =>
    if !s.config.mMeasurementEnabled then some (done.copyAndSendPreviewFrame f)
    else some (done.returnFrame f.mBuffer f.mFrameType)
  | .frameData => some (done.copyAndSendPreviewFrame f)
  | .unsupported => some (done.returnFrame f.mBuffer f.mFrameType)

/-- The next step of `notifyFrame`. -/
def State.notifyFrame (s : State) (a : Allocations) : Option State :=
  match s.notifying with
  | .idle =>
    match s.mFrameQ with
    | [] => some s
    | f :: rest => some { s with mFrameQ := rest, notifying := .processing f }
  | .processing f => s.process f a
  | .adding cookies =>
    some { s with
      gEncoderQueue := s.gEncoderQueue.add cookies.buffer cookies
      notifying := .idle }

/-! ## The encoders -/

def State.put (s : State) (e : Encoder) : State := { s with encoders := s.encoders ++ [e] }

/-- `main_param->src` -/
def Encoder.src (e : Encoder) : Nat := if e.mainJpeg then e.buffer else 0

/-- The next step of the thread of `e`, which is taken out of `encoders`. -/
def State.turn (s : State) (e : Encoder) (jpegSize : Nat) : State :=
  match e.place with
  | .encoding =>
    -- the callback does nothing for an encoder that was cancelled
    if e.canceled then s else s.put { e with place := .completing }
  | .completing =>
    if e.mainJpeg ∧ e.output.hasData ∧ 0 < jpegSize ∧ e.cookie2 ≠ 0 then
      { s with deleted := s.deleted ++ [e.buffer] }.put { e with place := .testing, cookie2 := 0 }
    else s.put { e with place := .testing }
  | .testing =>
    if s.mNotifierState = .started then s.put { e with place := .releasing } else s
  | .releasing =>
    if e.mainJpeg ∧ e.output.isSome then
      { s with released := s.released ++ [e.buffer] }.put { e with place := .deleting }
    else s.put { e with place := .deleting }
  | .deleting =>
    if e.cookie2 ≠ 0 then
      { s with deleted := s.deleted ++ [e.buffer] }.put { e with place := .looking, cookie2 := 0 }
    else s.put { e with place := .looking }
  | .looking =>
    match s.gEncoderQueue.valueFor e.src with
    | none => { s with failedAssertion := true }.put e
    | some _ => s.put { e with place := .removing }
  | .removing =>
    { s with gEncoderQueue := s.gEncoderQueue.remove e.src }.put { e with place := .returning }
  | .returning => s.returnFrame e.src e.type

def State.encoderStep (s : State) (buffer jpegSize : Nat) : Option State :=
  (takeFirst (fun e : Encoder => e.buffer = buffer) s.encoders).map fun r =>
    { s with encoders := r.2 }.turn r.1 jpegSize

/-! ## The thread that controls the notifier -/

def State.startRecording (s : State) : Option State :=
  if s.mRecordingLock then none else some { s with mRecording := true }

/-- With `releaseSharedVideoBuffers`. -/
def State.stopRecording (s : State) : Option State :=
  if s.mRecordingLock then none
  else if !s.mRecording then some s
  else if s.config.mUseMetaDataBufferMode then
    some { s with
      mRecording := false
      mVideoMetadataBufferMemoryMap := {}
      mVideoMetadataBufferReverseMap := {}
      mVideoMap := if s.config.mUseVideoBuffers then {} else s.mVideoMap }
  else some { s with mRecording := false }

/-- A buffer for the recording, what `mRequestMemory` gives for it, and the buffer of the video. -/
structure VideoBuffer where
  buffer : Nat
  memory : Memory
  vidBuf : Option Nat

/-- The loop of `initSharedVideoBuffers`. -/
def State.addVideoBuffers (s : State) : List VideoBuffer → State
  | [] => s
  | b :: rest =>
    match b.memory with
    | none => s
    | some data =>
      if data = 0 then s
      else
        { s with
          mVideoMetadataBufferMemoryMap := s.mVideoMetadataBufferMemoryMap.add b.buffer data
          mVideoMetadataBufferReverseMap := s.mVideoMetadataBufferReverseMap.add data b.buffer
          mVideoMap := b.vidBuf.elim s.mVideoMap (s.mVideoMap.add b.buffer) }.addVideoBuffers rest

def State.initSharedVideoBuffers (s : State) (buffers : List VideoBuffer) : State :=
  if s.config.mUseMetaDataBufferMode then s.addVideoBuffers buffers else s

def State.flushAndReturnFrames (s : State) : State :=
  { s with mFrameQ := [], returned := s.returned ++ s.mFrameQ.map CameraFrame.ident }

def State.start (s : State) : State :=
  if s.mNotifierState = .started then s
  else { s with mNotifierState := .started, gEncoderQueue := {} }

def State.stop (s : State) : State :=
  if s.mNotifierState ≠ .started then s
  else { s with mNotifierState := .stopped, stopping := .looking }

/-- `encoder->cancel()`; it waits for the thumbnail at most. -/
def State.cancel (s : State) (buffer : Nat) : State :=
  { s with encoders := s.encoders.map fun e =>
      if e.buffer = buffer then { e with canceled := true } else e }

/-- `removeItemsAt(0)` -/
def removeFirst (v : KeyedVector Nat Cookies) : KeyedVector Nat Cookies :=
  ⟨v.entries.tail, v.sorted.tail⟩

/-- The next step of the loop of `stop`; the first one is `isEmpty()`, `valueAt(0)` and `cancel()`
together. -/
def State.stopStep (s : State) : Option State :=
  match s.stopping with
  | .idle => none
  | .looking =>
    match s.gEncoderQueue.entries with
    | [] => some { s with stopping := .idle }
    | (_, cookies) :: _ => some { s.cancel cookies.buffer with stopping := .releasing cookies }
  | .releasing cookies =>
    some { s with
      released := s.released ++ if cookies.output.isSome then [cookies.buffer] else []
      deleted := s.deleted ++ if cookies.exif ≠ 0 then [cookies.buffer] else []
      stopping := .removing }
  | .removing =>
    if s.gEncoderQueue.entries = [] then some { s with failedAssertion := true }
    else some { s with gEncoderQueue := removeFirst s.gEncoderQueue, stopping := .looking }

/-- `word` is the first word that `mem` points to. -/
def State.releaseRecordingFrame (s : State) (mem word : Nat) : State :=
  if mem = 0 then s
  else if s.config.mUseMetaDataBufferMode then
    match s.mVideoMetadataBufferReverseMap.valueFor mem with
    | none => { s with failedAssertion := true }
    | some frame => s.returnFrame frame .videoFrameSync
  else s.returnFrame word .videoFrameSync

/-- The application gives back a frame that it has. -/
def State.giveBack (s : State) (frame word : Nat) : Option State :=
  (takeFirst (fun r : RecordingFrame => r.frame = frame) s.recordingFrames).map fun r =>
    { s with recordingFrames := r.2 }.releaseRecordingFrame r.1.mem word

/-! ## Runs -/

/-- A call of the thread that controls the notifier. -/
inductive Control where
  | startRecording
  | stopRecording
  | initSharedVideoBuffers (buffers : List VideoBuffer)
  | flushAndReturnFrames
  | start
  | stop

def State.control (s : State) : Control → Option State
  | .startRecording => s.startRecording
  | .stopRecording => s.stopRecording
  | .initSharedVideoBuffers buffers => some (s.initSharedVideoBuffers buffers)
  | .flushAndReturnFrames => some s.flushAndReturnFrames
  | .start => some s.start
  | .stop => some s.stop

inductive Step where
  | frameCallback (f : CameraFrame)
  | notifyFrame (a : Allocations)
  | encoder (buffer jpegSize : Nat)
  | control (c : Control)
  | stopStep
  | giveBack (frame word : Nat)

/-- `none` is a step that is not possible: the thread is not there, waits for a lock, or the frame
has a buffer that was used before. -/
def next (s : State) : Step → Option State
  | .frameCallback f =>
    if f.mBuffer ∈ s.given.map Prod.fst then none
    else some { s with mFrameQ := s.mFrameQ ++ [f], given := s.given ++ [f.ident] }
  | .notifyFrame a => s.notifyFrame a
  | .encoder buffer jpegSize => s.encoderStep buffer jpegSize
  | .control c =>
    match s.stopping with
    | .idle => s.control c
    | _ => none
  | .stopStep => s.stopStep
  | .giveBack frame word => s.giveBack frame word

def start (config : Config) : State := { config := config }

/-! ## Accounts -/

def Notifying.frames : Notifying → List (Nat × FrameType)
  | .processing f => [f.ident]
  | _ => []

/-- An encoder that is cancelled before its callback begins does not process its frame any more. -/
def Encoder.frames (e : Encoder) : List (Nat × FrameType) :=
  if e.place = .encoding ∧ e.canceled then [] else [(e.buffer, e.type)]

/-- The output memory that the thread of the encoder has still to release. -/
def Encoder.liveOutput (e : Encoder) : List Nat :=
  match e.place with
  | .encoding | .completing | .testing | .releasing => if e.output.isSome then [e.buffer] else []
  | _ => []

/-- The EXIF table that the thread of the encoder has still to delete. -/
def Encoder.liveExif (e : Encoder) : List Nat :=
  match e.place with
  | .looking | .removing | .returning => []
  | _ => if e.cookie2 ≠ 0 then [e.buffer] else []

/-- The frames whose processing has not ended. -/
def State.inProcess (s : State) : List (Nat × FrameType) :=
  s.mFrameQ.map CameraFrame.ident ++ s.notifying.frames ++ s.encoders.flatMap Encoder.frames

/-- The frames that were handed over as recording frames. -/
def State.withApplication (s : State) : List (Nat × FrameType) :=
  s.recordingFrames.map fun r => (r.frame, .videoFrameSync)

/-- Every frame given is in one place: it is in process, or was handed to the application, or was
returned. What an encoder got is still to be released, or was released, once. -/
structure Accounted (s : State) : Prop where
  different : (s.given.map Prod.fst).Nodup
  frames : Balanced s.given s.returned (s.inProcess ++ s.withApplication)
  outputs : Balanced s.outputs s.released (s.encoders.flatMap Encoder.liveOutput)
  exifs : Balanced s.exifs s.deleted (s.encoders.flatMap Encoder.liveExif)
  lock : (∀ f, s.notifying ≠ .processing f) → s.mRecordingLock = false
  assertions : s.failedAssertion = false

/-- The recording takes the frame: it is on, and has the memory for it. -/
structure Recordable (s : State) (f : CameraFrame) (a : Allocations) : Prop where
  recording : s.mRecording = true
  buffer : f.mBuffer ≠ 0
  metadata : s.config.mUseMetaDataBufferMode = true →
    ∃ data, s.mVideoMetadataBufferMemoryMap.valueFor f.mBuffer = some data ∧ data ≠ 0
  videoBuffer : s.config.mUseMetaDataBufferMode = true → s.config.mUseVideoBuffers = true →
    s.mVideoMap.valueFor f.mBuffer ≠ none
  fakebuf : s.config.mUseMetaDataBufferMode = false → a.fakebuf.hasData = true

/-- `EncoderDoneCb` finds the notifier started and its encoder in the queue, and has the memory
of `main_jpeg`. -/
structure TurnOk (s : State) (e : Encoder) : Prop where
  testing : e.place = .testing → s.mNotifierState = .started
  releasing : e.place = .releasing → e.output.isSome = true → e.mainJpeg = true
  looking : e.place = .looking → s.gEncoderQueue.valueFor e.src ≠ none
  returning : e.place = .returning → e.src = e.buffer

/-- `stop` finds no encoder, or one whose callback has begun, without memory or EXIF table, and the
queue as it was. -/
def StopOk (s : State) : Prop :=
  match s.stopping with
  | .idle => True
  | .looking => ∀ p ∈ s.gEncoderQueue.entries.head?, ∀ e ∈ s.encoders,
      e.buffer = p.2.buffer → e.place ≠ .encoding
  | .releasing cookies => cookies.output = none ∧ cookies.exif = 0
  | .removing => s.gEncoderQueue.entries ≠ []

/-- The address with which a frame is given back leads to its buffer. -/
def LeadsBack (s : State) (r : RecordingFrame) (word : Nat) : Prop :=
  if s.config.mUseMetaDataBufferMode then
    s.mVideoMetadataBufferReverseMap.valueFor r.mem = some r.frame
  else word = r.frame

/-- The steps that keep the accounts. -/
def Orderly (s : State) : Step → Prop
  | .notifyFrame a => ∀ f, s.notifying = .processing f →
    s.config.branch f a.enabled = .video → Recordable s f a
  | .encoder buffer _ => ∀ e rest,
    takeFirst (fun e : Encoder => e.buffer = buffer) s.encoders = some (e, rest) → TurnOk s e
  | .stopStep => StopOk s
  | .giveBack frame word => ∀ r rest,
    takeFirst (fun r : RecordingFrame => r.frame = frame) s.recordingFrames = some (r, rest) →
      LeadsBack s r word
  | .frameCallback _ | .control _ => True

end Omap4Hal.Camera.CallbackNotifier

import Omap4Hal.Lib.KeyedVector
import Omap4Hal.Lib.Loop
import Omap4Hal.Lib.Run

/- The state machine of the camera adapter (BaseCameraAdapter.cpp). A command asks
   `setState` for the next state, runs an operation of the device and commits the state or
   rolls it back; `mLock` is held from `setState` on.

   What an operation of the device answers, and what it does to the buffer tables (the
   deriving classes share them), is an argument of the command. The constructor does not
   set `mNextState`: it starts with any value, and `other` is one that no enumerator has.
   A command that waits for a lock it holds itself does not return (`none`).

   `commands_transactional_iff` says which commands are transactions, and from which
   states `rollbackToInitializedState` gets back. -/
namespace Omap4Hal.Camera

open Lib
open Option (bind_eq_bind bind_some)

/-! ## State -/

inductive AdapterState where
  | intialized
  | loadedPreview
  | preview
  | loadedCapture
  | capture
  | bracketing
  | af
  | zoom
  | video
  | videoAf
  | videoZoom
  | videoLoadedCapture
  | videoCapture
  | afZoom
  | bracketingZoom
  | other (bits : UInt32)
  deriving DecidableEq

inductive CameraCommands where
  | startPreview
  | stopPreview
  | startVideo
  | stopVideo
  | startImageCapture
  | stopImageCapture
  | performAutofocus
  | cancelAutofocus
  | previewFlushBuffers
  | startSmoothZoom
  | stopSmoothZoom
  | useBuffersPreview
  | setTimeout
  | cancelTimeout
  | startBracketCapture
  | stopBracketCapture
  | queryResolutionPreview
  | queryBufferSizeImageCapture
  | queryBufferSizePreviewData
  | useBuffersImageCapture
  | useBuffersPreviewData
  | timeoutExpired
  | startFd
  | stopFd
  | switchToExecuting
  | useBuffersVideoCapture
  deriving DecidableEq

inductive CameraMode where
  | preview
  | imageCapture
  | video
  | measurement

/-- The operations of the device. -/
inductive DeviceOp where
  | useBuffers (mode : CameraMode) (num length queueable : Nat)
  | startSmoothZoom (targetIdx : Int)
  | stopSmoothZoom
  | startPreview
  | stopPreview
  | startVideoCapture
  | stopVideoCapture
  | takePicture
  | stopImageCapture
  | startBracketing (range : Int)
  | stopBracketing
  | autoFocus
  | cancelAutoFocus
  | getFrameSize
  | getPictureBufferSize (bufferCount : Int)
  | getFrameDataSize (bufferCount : Int)
  | startFaceDetection
  | stopFaceDetection
  | switchToExecuting

/-- Buffers of one kind: the array, the length of a buffer, and the reference counts. -/
structure BufferTable where
  buffers : Nat → Int := fun _ => 0
  length : Nat := 0
  available : KeyedVector Int Int := .empty

structure Tables where
  preview : BufferTable := {}
  video : BufferTable := {}
  capture : BufferTable := {}
  previewData : BufferTable := {}

structure Adapter where
  state : AdapterState := .intialized
  next : AdapterState
  locked : Bool := false
  tables : Tables := {}
  /-- The operations of the device so far. -/
  ops : List DeviceOp := []

structure BuffersDescriptor where
  buffers : Nat → Int
  length : Nat
  count : Nat
  maxQueueable : Nat

/-- What an operation of the device answers and does to the tables. -/
structure Outcome where
  status : Int
  effect : Tables → Tables

def noError : Int := 0
def einval : Int := 22
def invalidOperation : Int := -38

/-! ## The states -/

/-- The switch of `setState`; `none` is INVALID_OPERATION. -/
def selectState : AdapterState → CameraCommands → Option AdapterState
  | .intialized, .useBuffersPreview => some .loadedPreview
  | .intialized, .queryResolutionPreview => some .intialized
  | .intialized, .queryBufferSizeImageCapture => some .intialized
  | .intialized, .queryBufferSizePreviewData => some .intialized
  | .loadedPreview, .startPreview => some .preview
  | .loadedPreview, .queryBufferSizeImageCapture => some .loadedPreview
  | .loadedPreview, .queryBufferSizePreviewData => some .loadedPreview
  | .loadedPreview, .useBuffersPreviewData => some .loadedPreview
  | .preview, .stopPreview => some .intialized
  | .preview, .performAutofocus => some .af
  | .preview, .startSmoothZoom => some .zoom
  | .preview, .useBuffersImageCapture => some .loadedCapture
  | .preview, .startVideo => some .video
  | .preview, .cancelAutofocus => some .preview
  | .preview, .queryBufferSizeImageCapture => some .preview
  | .preview, .stopSmoothZoom => some .preview
  | .loadedCapture, .startImageCapture => some .capture
  | .loadedCapture, .startBracketCapture => some .bracketing
  | .capture, .stopImageCapture => some .preview
  | .capture, .stopBracketCapture => some .preview
  | .bracketing, .stopImageCapture => some .preview
  | .bracketing, .stopBracketCapture => some .preview
  | .bracketing, .startImageCapture => some .capture
  | .af, .cancelAutofocus => some .preview
  | .af, .startSmoothZoom => some .afZoom
  | .zoom, .cancelAutofocus => some .zoom
  | .zoom, .stopSmoothZoom => some .preview
  | .zoom, .performAutofocus => some .afZoom
  | .zoom, .startVideo => some .videoZoom
  | .video, .stopVideo => some .preview
  | .video, .performAutofocus => some .videoAf
  | .video, .startSmoothZoom => some .videoZoom
  | .video, .useBuffersImageCapture => some .videoLoadedCapture
  | .video, .queryBufferSizeImageCapture => some .video
  | .videoAf, .cancelAutofocus => some .video
  | .videoLoadedCapture, .startImageCapture => some .videoCapture
  | .videoCapture, .stopImageCapture => some .video
  | .afZoom, .stopSmoothZoom => some .af
  | .afZoom, .cancelAutofocus => some .zoom
  | .videoZoom, .stopSmoothZoom => some .video
  | .videoZoom, .stopVideo => some .zoom
  | .bracketingZoom, .stopSmoothZoom => some .bracketing
  | _, _ => none

/-- `setState` returns with `mLock` held, whatever it answers. -/
def setState (a : Adapter) (operation : CameraCommands) : Option (Int × Adapter) :=
  if a.locked then none
  else
    match selectState a.state operation with
    | some next => some (noError, { a with locked := true, next := next })
    | none => some (invalidOperation, { a with locked := true })

def commitState (a : Adapter) : Int × Adapter :=
  (noError, { a with state := a.next, locked := false })

def rollbackState (a : Adapter) : Int × Adapter :=
  (noError, { a with next := a.state, locked := false })

/-! ## Commands -/

def perform (a : Adapter) (op : DeviceOp) (device : Outcome) : Int × Adapter :=
  (device.status, { a with tables := device.effect a.tables, ops := a.ops ++ [op] })

/-- The end of every case. Either function answers NO_ERROR, so that the answer of the
command is `ret` (`ret |= rollbackState()`). -/
def finish (ret : Int) (a : Adapter) : Int × Adapter :=
  if ret = noError then commitState a else (ret, (rollbackState a).2)

/-- The cases that run an operation if `setState` has answered NO_ERROR. -/
def transact (a : Adapter) (operation : CameraCommands) (execute : Adapter → Int × Adapter) :
    Option (Int × Adapter) := do
  let (ret, a) ← setState a operation
  let (ret, a) := if ret = noError then execute a else (ret, a)
  return finish ret a

/-- The cases that take a descriptor. `useBuffers` is called whatever `setState` has
answered, and its answer takes the place of that one. -/
def useBuffersCase (a : Adapter) (operation : CameraCommands) (mode : CameraMode)
    (desc : Option BuffersDescriptor) (load : BuffersDescriptor → Tables → Tables)
    (device : Outcome) : Option (Int × Adapter) :=
  match desc with
  | none => some (-einval, a)
  | some d => do
    let (ret, a) ← setState a operation
    let a := if ret = noError then { a with tables := load d a.tables } else a
    let (ret, a) := perform a (.useBuffers mode d.count d.length d.maxQueueable) device
    return finish ret a

/-- The table of a descriptor: the first buffers with the count `queueable`, those that
the provider still holds, from `held`, with the count 1. -/
def BuffersDescriptor.table (d : BuffersDescriptor) (queueable : Int) (held : Nat → Int) :
    BufferTable :=
  let first := (List.range d.maxQueueable).foldl (fun v i => v.add (d.buffers i) queueable) .empty
  { buffers := d.buffers
    length := d.length
    available := (List.range' d.maxQueueable (d.count - d.maxQueueable)).foldl
      (fun v i => v.add (held i) 1) first }

def loadPreview (d : BuffersDescriptor) (t : Tables) : Tables :=
  { t with preview := d.table 0 d.buffers }

def loadPreviewData (d : BuffersDescriptor) (t : Tables) : Tables :=
  { t with previewData := d.table 0 d.buffers }

def loadCapture (d : BuffersDescriptor) (t : Tables) : Tables :=
  { t with capture := d.table 0 d.buffers }

/-- The buffers that can be queued get `true`, and those that are held are looked up among
the preview buffers. -/
def loadVideo (d : BuffersDescriptor) (t : Tables) : Tables :=
  { t with video := d.table 1 t.preview.buffers }

/-- A query writes its result through `value1`, unless that is NULL. -/
def query (frame : Bool) (op : DeviceOp) (device : Outcome) (a : Adapter) : Int × Adapter :=
  if frame then perform a op device else (-einval, a)

/-- A command with what its `int` arguments stand for, and the outcome of the operation
that it may run. -/
structure Command where
  operation : CameraCommands
  desc : Option BuffersDescriptor := none
  frame : Bool := false
  value1 : Int := 0
  value2 : Int := 0
  device : Outcome

def sendCommand (a : Adapter) (c : Command) : Option (Int × Adapter) :=
  match c.operation with
  | .useBuffersPreview => useBuffersCase a .useBuffersPreview .preview c.desc loadPreview c.device
  | .useBuffersPreviewData =>
    useBuffersCase a .useBuffersPreviewData .measurement c.desc loadPreviewData c.device
  | .useBuffersImageCapture =>
    useBuffersCase a .useBuffersImageCapture .imageCapture c.desc loadCapture c.device
  | .useBuffersVideoCapture =>
    useBuffersCase a .useBuffersVideoCapture .video c.desc loadVideo c.device
  | .startSmoothZoom => transact a .startSmoothZoom (perform · (.startSmoothZoom c.value1) c.device)
  | .stopSmoothZoom => transact a .stopSmoothZoom (perform · .stopSmoothZoom c.device)
  | .startPreview => transact a .startPreview (perform · .startPreview c.device)
  | .stopPreview => transact a .stopPreview (perform · .stopPreview c.device)
  | .startVideo => transact a .startVideo (perform · .startVideoCapture c.device)
  | .stopVideo => transact a .stopVideo (perform · .stopVideoCapture c.device)
  | .startImageCapture => transact a .startImageCapture (perform · .takePicture c.device)
  | .stopImageCapture => transact a .stopImageCapture (perform · .stopImageCapture c.device)
  | .startBracketCapture =>
    transact a .startBracketCapture (perform · (.startBracketing c.value1) c.device)
  | .stopBracketCapture => transact a .stopBracketCapture (perform · .stopBracketing c.device)
  | .performAutofocus => transact a .performAutofocus (perform · .autoFocus c.device)
  | .cancelAutofocus => transact a .cancelAutofocus (perform · .cancelAutoFocus c.device)
  | .queryResolutionPreview =>
    transact a .queryResolutionPreview (query c.frame .getFrameSize c.device)
  | .queryBufferSizeImageCapture =>
    transact a .queryBufferSizeImageCapture
      (query c.frame (.getPictureBufferSize c.value2) c.device)
  | .queryBufferSizePreviewData =>
    transact a .queryBufferSizePreviewData (query c.frame (.getFrameDataSize c.value2) c.device)
  | .startFd => some (perform a .startFaceDetection c.device)
  | .stopFd => some (perform a .stopFaceDetection c.device)
  | .switchToExecuting => some (perform a .switchToExecuting c.device)
  -- not supported
  | .previewFlushBuffers | .setTimeout | .cancelTimeout | .timeoutExpired => some (noError, a)

/-! ## Rolling back -/

/-- The command with which `rollbackToPreviousState` leaves a state. -/
def rollbackCommand : AdapterState → Option CameraCommands
  | .preview => some .stopPreview
  | .capture => some .stopImageCapture
  | .bracketing => some .stopBracketCapture
  | .af => some .cancelAutofocus
  | .zoom => some .stopSmoothZoom
  | .video => some .stopVideo
  | .videoAf => some .cancelAutofocus
  | .videoCapture => some .stopImageCapture
  | .afZoom => some .stopSmoothZoom
  | .videoZoom => some .stopSmoothZoom
  | .bracketingZoom => some .stopSmoothZoom
  | _ => none

/-- The public `getState`, which takes `mLock`. -/
def getState (a : Adapter) : Option AdapterState := if a.locked then none else some a.state

def rollbackToPreviousState (a : Adapter) (device : Outcome) : Option (Int × Adapter) := do
  let current ← getState a
  if current = .intialized then return (noError, a)
  match rollbackCommand current with
  | some operation => sendCommand a { operation := operation, device := device }
  | none => return (invalidOperation, a)

/-- One pass of the loop of `rollbackToInitializedState`: the answer so far, the adapter,
and the outcomes of the operations still to come. -/
def rollbackPass (s : Int × Adapter × (Nat → Outcome)) :
    Option (Flow (Int × Adapter × (Nat → Outcome))) := do
  let (ret, a, device) := s
  let current ← getState a
  if current ≠ .intialized ∧ ret = noError then
    let (ret, a) ← rollbackToPreviousState a (device 0)
    return .next (ret, a, fun n => device (n + 1))
  else return .stop s

def rollbackToInitializedState (n : Nat) (a : Adapter) (device : Nat → Outcome) :
    Option (Int × Adapter) :=
  (loopM rollbackPass n (noError, a, device)).map fun s => (s.1, s.2.1)

/-! ## Runs -/

def step (a : Adapter) (c : Command) : Option Adapter := (sendCommand a c).map Prod.snd

/-! ## What a command is to do -/

/-- The commands that go through `setState`. -/
def CameraCommands.changesState : CameraCommands → Bool
  | .startFd | .stopFd | .switchToExecuting => false
  | .previewFlushBuffers | .setTimeout | .cancelTimeout | .timeoutExpired => false
  | _ => true

def CameraCommands.takesBuffers : CameraCommands → Bool
  | .useBuffersPreview | .useBuffersPreviewData => true
  | .useBuffersImageCapture | .useBuffersVideoCapture => true
  | _ => false

def CameraCommands.isQuery : CameraCommands → Bool
  | .queryResolutionPreview | .queryBufferSizeImageCapture | .queryBufferSizePreviewData => true
  | _ => false

/-- The operation of the command succeeds: it is not kept back by a NULL argument, and the
device answers NO_ERROR. -/
structure Command.Succeeds (c : Command) : Prop where
  desc : c.operation.takesBuffers = true → c.desc ≠ none
  frame : c.operation.isQuery = true → c.frame = true
  device : c.device.status = noError

/-- How a transaction ends. `choice` is what `setState` has selected, `none` if the command
is not permitted; `good` says that the operation succeeds. -/
def Settled (a : Adapter) (choice : Option AdapterState) (good : Prop) (ret : Int) (a' : Adapter) :
    Prop :=
  match choice with
  | none => ret ≠ noError ∧ a'.ops = a.ops ∧ a'.state = a.state ∧ a'.tables = a.tables
  | some next =>
    (good → ret = noError ∧ a'.state = next) ∧ (¬ good → ret ≠ noError ∧ a'.state = a.state)

/-- The command returns with `mLock` released, and it is a transaction if it goes through
`setState`. -/
def Transactional (a : Adapter) (c : Command) : Prop :=
  ∃ ret a', sendCommand a c = some (ret, a') ∧ a'.locked = false ∧
    (c.operation.changesState = true →
      Settled a (selectState a.state c.operation) c.Succeeds ret a')

/-- A descriptor is given only where the command is permitted. -/
def CommandOk (a : Adapter) (c : Command) : Prop :=
  c.operation.takesBuffers = true → c.desc ≠ none → selectState a.state c.operation ≠ none

/-- With operations that succeed, the loop is left in INTIALIZED_STATE. -/
def RollsBack (a : Adapter) : Prop :=
  ∀ device : Nat → Outcome, (∀ n, (device n).status = noError) →
    ∃ n ret a', rollbackToInitializedState n a device = some (ret, a') ∧
      a'.state = .intialized ∧ a'.locked = false

/-- The states for which `rollbackToPreviousState` has no case. -/
def NoWayBack (s : AdapterState) : Prop :=
  s = .loadedPreview ∨ s = .loadedCapture ∨ s = .videoLoadedCapture ∨ ∃ bits, s = .other bits

/-! ## One command -/

variable {a : Adapter} {operation : CameraCommands}

theorem setState_some (h : a.locked = false) {next : AdapterState}
    (hsel : selectState a.state operation = some next) :
    setState a operation = some (noError, { a with locked := true, next := next }) := by
  rw [setState, if_neg (by simp [h]), hsel]

theorem setState_none (h : a.locked = false) (hsel : selectState a.state operation = none) :
    setState a operation = some (invalidOperation, { a with locked := true }) := by
  rw [setState, if_neg (by simp [h]), hsel]

theorem finish_ok (a : Adapter) : finish noError a = (noError, { a with
    state := a.next, locked := false }) := if_pos rfl

theorem finish_failed {ret : Int} (h : ret ≠ noError) (a : Adapter) :
    finish ret a = (ret, { a with next := a.state, locked := false }) := if_neg h

theorem invalidOperation_ne : invalidOperation ≠ noError := by decide

/-- The operation leaves the states alone, and succeeds exactly if `good`. -/
structure Runs (execute : Adapter → Int × Adapter) (good : Prop) : Prop where
  state : ∀ a, (execute a).2.state = a.state
  next : ∀ a, (execute a).2.next = a.next
  status : ∀ a, (execute a).1 = noError ↔ good

theorem transact_settled (h : a.locked = false) (operation : CameraCommands)
    {execute : Adapter → Int × Adapter} {good : Prop} (hruns : Runs execute good) :
    ∃ ret a', transact a operation execute = some (ret, a') ∧ a'.locked = false ∧
      Settled a (selectState a.state operation) good ret a' := by
  cases hsel : selectState a.state operation with
  | none =>
    refine ⟨invalidOperation, { a with next := a.state, locked := false }, ?_, rfl,
      invalidOperation_ne, rfl, rfl, rfl⟩
    simp only [transact, setState_none h hsel, bind_eq_bind, bind_some,
      if_neg invalidOperation_ne, finish_failed invalidOperation_ne]
    rfl
  | some next =>
    have heq : transact a operation execute =
        some (finish (execute { a with locked := true, next := next }).1
          (execute { a with locked := true, next := next }).2) := by
      simp [transact, setState_some h hsel]
    by_cases hgood : good
    · have hstatus := (hruns.status { a with locked := true, next := next }).mpr hgood
      rw [hstatus, finish_ok] at heq
      refine ⟨_, _, heq, rfl, ?_, fun hnot => absurd hgood hnot⟩
      intro _
      exact ⟨rfl, hruns.next _⟩
    · have hstatus := mt (hruns.status { a with locked := true, next := next }).mp hgood
      rw [finish_failed hstatus] at heq
      refine ⟨_, _, heq, rfl, fun hyes => absurd hyes hgood, ?_⟩
      intro _
      exact ⟨hstatus, hruns.state _⟩

theorem perform_runs (op : DeviceOp) (device : Outcome) :
    Runs (perform · op device) (device.status = noError) :=
  ⟨fun _ => rfl, fun _ => rfl, fun _ => Iff.rfl⟩

theorem query_runs (frame : Bool) (op : DeviceOp) (device : Outcome) :
    Runs (query frame op device) (frame = true ∧ device.status = noError) := by
  cases frame with
  | false => exact ⟨fun _ => rfl, fun _ => rfl, fun _ => by simp [query, noError, einval]⟩
  | true => exact ⟨fun _ => rfl, fun _ => rfl, fun _ => by simp [query, perform]⟩

inductive Kind (a : Adapter) (c : Command) : Prop where
  | buffers (mode : CameraMode) (load : BuffersDescriptor → Tables → Tables)
      (htakes : c.operation.takesBuffers = true)
      (heq : sendCommand a c = useBuffersCase a c.operation mode c.desc load c.device)
  | transaction (execute : Adapter → Int × Adapter) (htakes : c.operation.takesBuffers = false)
      (hruns : Runs execute c.Succeeds)
      (heq : sendCommand a c = transact a c.operation execute)
  | plain (ret : Int) (a' : Adapter) (htakes : c.operation.takesBuffers = false)
      (hno : c.operation.changesState = false) (heq : sendCommand a c = some (ret, a'))
      (hlocked : a'.locked = a.locked)

theorem Runs.congr {execute : Adapter → Int × Adapter} {p q : Prop} (h : Runs execute p)
    (hiff : p ↔ q) : Runs execute q :=
  ⟨h.state, h.next, fun a => (h.status a).trans hiff⟩

theorem command_kind (a : Adapter) (c : Command) : Kind a c := by
  have hplain : c.operation.takesBuffers = false → c.operation.isQuery = false →
      ∀ op, Runs (perform · op c.device) c.Succeeds := by
    intro htakes hquery op
    apply (perform_runs op c.device).congr
    exact ⟨fun h => ⟨by simp [htakes], by simp [hquery], h⟩, fun h => h.device⟩
  have hquery : c.operation.takesBuffers = false → c.operation.isQuery = true →
      ∀ op, Runs (query c.frame op c.device) c.Succeeds := by
    intro htakes hquery op
    apply (query_runs c.frame op c.device).congr
    exact ⟨fun h => ⟨by simp [htakes], fun _ => h.1, h.2⟩, fun h => ⟨h.frame hquery, h.device⟩⟩
  obtain ⟨operation, desc, frame, value1, value2, device⟩ := c
  cases operation with
  | useBuffersPreview => exact .buffers _ _ rfl rfl
  | useBuffersPreviewData => exact .buffers _ _ rfl rfl
  | useBuffersImageCapture => exact .buffers _ _ rfl rfl
  | useBuffersVideoCapture => exact .buffers _ _ rfl rfl
  | queryResolutionPreview => exact .transaction _ rfl (hquery rfl rfl _) rfl
  | queryBufferSizeImageCapture => exact .transaction _ rfl (hquery rfl rfl _) rfl
  | queryBufferSizePreviewData => exact .transaction _ rfl (hquery rfl rfl _) rfl
  | startFd => exact .plain _ _ rfl rfl rfl rfl
  | stopFd => exact .plain _ _ rfl rfl rfl rfl
  | switchToExecuting => exact .plain _ _ rfl rfl rfl rfl
  | previewFlushBuffers => exact .plain _ _ rfl rfl rfl rfl
  | setTimeout => exact .plain _ _ rfl rfl rfl rfl
  | cancelTimeout => exact .plain _ _ rfl rfl rfl rfl
  | timeoutExpired => exact .plain _ _ rfl rfl rfl rfl
  | _ => exact .transaction _ rfl (hplain rfl rfl _) rfl

/-! ## The commands with buffers -/

theorem CameraCommands.changes_of_takesBuffers {op : CameraCommands} (h : op.takesBuffers = true) :
    op.changesState = true := by
  cases op <;> first | rfl | cases h

theorem CameraCommands.not_isQuery {op : CameraCommands} (h : op.takesBuffers = true) :
    op.isQuery = false := by
  cases op <;> first | rfl | cases h

theorem useBuffersCase_permitted (h : a.locked = false) {next : AdapterState}
    (hsel : selectState a.state operation = some next) (mode : CameraMode) (d : BuffersDescriptor)
    (load : BuffersDescriptor → Tables → Tables) (device : Outcome) :
    ∃ ret a', useBuffersCase a operation mode (some d) load device = some (ret, a') ∧
      a'.locked = false ∧
      Settled a (some next) (device.status = noError) ret a' := by
  have heq : useBuffersCase a operation mode (some d) load device =
      some (finish device.status (perform
        { a with locked := true, next := next, tables := load d a.tables }
        (.useBuffers mode d.count d.length d.maxQueueable) device).2) := by
    simp [useBuffersCase, setState_some h hsel, perform]
  by_cases hgood : device.status = noError
  · rw [hgood, finish_ok] at heq
    refine ⟨_, _, heq, rfl, fun _ => ⟨rfl, rfl⟩, fun hnot => absurd hgood hnot⟩
  · rw [finish_failed hgood] at heq
    exact ⟨_, _, heq, rfl, fun hyes => absurd hyes hgood, fun _ => ⟨hgood, rfl⟩⟩

/-- With a descriptor, where the command is refused: the operation of the device runs all
the same. -/
theorem useBuffersCase_refused (h : a.locked = false) (hsel : selectState a.state operation = none)
    (mode : CameraMode) (d : BuffersDescriptor) (load : BuffersDescriptor → Tables → Tables)
    (device : Outcome) :
    ∃ ret a', useBuffersCase a operation mode (some d) load device = some (ret, a') ∧
      a'.locked = false ∧
      a'.ops = a.ops ++ [.useBuffers mode d.count d.length d.maxQueueable] := by
  have heq : useBuffersCase a operation mode (some d) load device =
      some (finish device.status (perform { a with locked := true }
        (.useBuffers mode d.count d.length d.maxQueueable) device).2) := by
    simp [useBuffersCase, setState_none h hsel, perform, invalidOperation_ne]
  by_cases hgood : device.status = noError
  · rw [hgood, finish_ok] at heq
    exact ⟨_, _, heq, rfl, rfl⟩
  · rw [finish_failed hgood] at heq
    exact ⟨_, _, heq, rfl, rfl⟩

theorem useBuffersCase_null (choice : Option AdapterState) {good : Prop} (hbad : ¬ good) :
    Settled a choice good (-einval) a := by
  cases choice with
  | none => exact ⟨by decide, rfl, rfl, rfl⟩
  | some next => exact ⟨fun h => absurd h hbad, fun _ => ⟨by decide, rfl⟩⟩

theorem Settled.congr {a' : Adapter} {choice : Option AdapterState} {p q : Prop} {ret : Int}
    (h : Settled a choice p ret a') (hiff : p ↔ q) : Settled a choice q ret a' := by
  cases choice with
  | none => exact h
  | some next => exact ⟨fun hq => h.1 (hiff.mpr hq), fun hq => h.2 (fun hp => hq (hiff.mp hp))⟩

theorem transactional_iff (h : a.locked = false) (c : Command) :
    Transactional a c ↔ CommandOk a c := by
  cases command_kind a c with
  | plain ret a' htakes hno heq hlocked =>
    refine ⟨fun _ => ?_, fun _ => ⟨ret, a', heq, hlocked.trans h, ?_⟩⟩
    · rw [CommandOk, htakes]
      nofun
    · rw [hno]
      nofun
  | transaction execute htakes hruns heq =>
    refine ⟨fun _ => ?_, fun _ => ?_⟩
    · rw [CommandOk, htakes]
      nofun
    · obtain ⟨ret, a', htransact, hlocked, hsettled⟩ :=
        transact_settled h c.operation hruns
      exact ⟨ret, a', heq.trans htransact, hlocked, fun _ => hsettled⟩
  | buffers mode load htakes heq =>
    have hchanges := CameraCommands.changes_of_takesBuffers htakes
    cases hdesc : c.desc with
    | none =>
      refine ⟨fun _ _ hne => absurd hdesc hne, fun _ => ?_⟩
      refine ⟨-einval, a, ?_, h, fun _ => useBuffersCase_null _ ?_⟩
      · rw [heq, hdesc, useBuffersCase]
      · intro hgood
        exact hgood.desc htakes hdesc
    | some d =>
      rw [hdesc] at heq
      cases hsel : selectState a.state c.operation with
      | none =>
        obtain ⟨ret, a', hcase, _, hops⟩ :=
          useBuffersCase_refused h hsel mode d load c.device
        refine ⟨?_, fun hok => absurd hsel (hok htakes (by simp [hdesc]))⟩
        -- the operation has run, which a refused command must not do
        rintro ⟨ret', b, hb, _, hsettled⟩
        rw [heq, hcase] at hb
        cases hb
        have hsame := hsettled hchanges
        rw [hsel] at hsame
        have hlength := congrArg List.length (hops.symm.trans hsame.2.1)
        simp at hlength
      | some next =>
        refine ⟨fun _ _ _ => by simp [hsel], fun _ => ?_⟩
        obtain ⟨ret, a', hcase, hlocked, hsettled⟩ :=
          useBuffersCase_permitted h hsel mode d load c.device
        refine ⟨ret, a', heq.trans hcase, hlocked, fun _ => ?_⟩
        rw [hsel]
        apply hsettled.congr
        refine ⟨fun hstatus => ⟨fun _ => by simp [hdesc], ?_, hstatus⟩, fun hgood => hgood.device⟩
        intro hquery
        rw [CameraCommands.not_isQuery htakes] at hquery
        cases hquery

/-- Every command returns with `mLock` released. -/
theorem sendCommand_returns (h : a.locked = false) (c : Command) :
    ∃ ret a', sendCommand a c = some (ret, a') ∧ a'.locked = false := by
  by_cases hok : CommandOk a c
  · obtain ⟨ret, a', heq, hlocked, _⟩ := (transactional_iff h c).mpr hok
    exact ⟨ret, a', heq, hlocked⟩
  · cases command_kind a c with
    | plain ret a' htakes hno heq hlocked => exact ⟨ret, a', heq, hlocked.trans h⟩
    | transaction execute htakes hruns heq =>
      obtain ⟨ret, a', htransact, hlocked, _⟩ :=
        transact_settled h c.operation hruns
      exact ⟨ret, a', heq.trans htransact, hlocked⟩
    | buffers mode load htakes heq =>
      rw [CommandOk] at hok
      push Not at hok
      obtain ⟨_, hdesc, hsel⟩ := hok
      obtain ⟨d, hd⟩ := Option.ne_none_iff_exists'.mp hdesc
      obtain ⟨ret, a', hcase, hlocked, _⟩ := useBuffersCase_refused h hsel mode d load c.device
      rw [hd, hcase] at heq
      exact ⟨ret, a', heq, hlocked⟩

/-! ## Rolling back -/

/-- How many commands the way back takes. -/
def AdapterState.depth : AdapterState → Nat
  | .preview => 1
  | .capture | .bracketing | .af | .zoom | .video => 2
  | .videoAf | .videoCapture | .afZoom | .videoZoom | .bracketingZoom => 3
  | _ => 0

/-- The command that leaves a state is permitted there and leads closer to
INTIALIZED_STATE. -/
theorem rollbackCommand_selects {s : AdapterState} (hs : s ≠ .intialized) (hway : ¬ NoWayBack s) :
    ∃ op next, rollbackCommand s = some op ∧ selectState s op = some next ∧
      op.takesBuffers = false ∧ op.isQuery = false ∧ op.changesState = true ∧
      ¬ NoWayBack next ∧ next.depth < s.depth := by
  have hnext : ∀ t : AdapterState, t.depth ≠ 0 ∨ t = .intialized → ¬ NoWayBack t := by
    rintro t ht (rfl | rfl | rfl | ⟨bits, rfl⟩) <;> simp [AdapterState.depth] at ht
  cases s with
  | intialized => exact absurd rfl hs
  | loadedPreview => exact absurd (.inl rfl) hway
  | loadedCapture => exact absurd (.inr (.inl rfl)) hway
  | videoLoadedCapture => exact absurd (.inr (.inr (.inl rfl))) hway
  | other bits => exact absurd (.inr (.inr (.inr ⟨bits, rfl⟩))) hway
  | _ => exact ⟨_, _, rfl, rfl, rfl, rfl, rfl, hnext _ (by decide), by decide⟩

theorem rollbackPass_next (h : a.locked = false) (hs : a.state ≠ .intialized)
    (hway : ¬ NoWayBack a.state) {device : Nat → Outcome} (hdev : (device 0).status = noError) :
    ∃ a', rollbackPass (noError, a, device) = some (.next (noError, a', fun n => device (n + 1))) ∧
      a'.locked = false ∧ ¬ NoWayBack a'.state ∧ a'.state.depth < a.state.depth := by
  obtain ⟨op, next, hop, hsel, htakes, hquery, hchanges, hway', hdepth⟩ :=
    rollbackCommand_selects hs hway
  have hgood : Command.Succeeds { operation := op, device := device 0 } :=
    ⟨by simp [htakes], by simp [hquery], hdev⟩
  have hok : CommandOk a { operation := op, device := device 0 } := by
    rw [CommandOk, htakes]
    nofun
  obtain ⟨ret, a', heq, hlocked, hsettled⟩ := (transactional_iff h _).mpr hok
  have hdone := hsettled hchanges
  rw [hsel] at hdone
  obtain ⟨hret, hstate⟩ := hdone.1 hgood
  refine ⟨a', ?_, hlocked, hstate ▸ hway', hstate ▸ hdepth⟩
  have hget : getState a = some a.state := if_neg (by simp [h])
  have hprev : rollbackToPreviousState a (device 0) = some (noError, a') := by
    simp only [rollbackToPreviousState, hget, bind_eq_bind, bind_some, if_neg hs, hop]
    rw [heq, hret]
  simp only [rollbackPass, hget, bind_eq_bind, bind_some, hs, ne_eq,
    not_false_eq_true, and_self, if_true, hprev]
  rfl

theorem rollbackPass_stop (h : a.locked = false) {ret : Int}
    (hs : a.state = .intialized ∨ ret ≠ noError) (device : Nat → Outcome) :
    rollbackPass (ret, a, device) = some (.stop (ret, a, device)) := by
  have hget : getState a = some a.state := if_neg (by simp [h])
  have hnot : ¬ (a.state ≠ .intialized ∧ ret = noError) := by tauto
  simp only [rollbackPass, hget, bind_eq_bind, bind_some, if_neg hnot]
  rfl

theorem rollbackPass_fails (h : a.locked = false) (hway : NoWayBack a.state)
    (device : Nat → Outcome) :
    rollbackPass (noError, a, device) =
      some (.next (invalidOperation, a, fun n => device (n + 1))) := by
  have hget : getState a = some a.state := if_neg (by simp [h])
  have hno : a.state ≠ .intialized ∧ rollbackCommand a.state = none := by
    rcases hway with hs | hs | hs | ⟨bits, hs⟩ <;> rw [hs] <;> exact ⟨nofun, rfl⟩
  have hprev : rollbackToPreviousState a (device 0) = some (invalidOperation, a) := by
    simp only [rollbackToPreviousState, hget, bind_eq_bind, bind_some, if_neg hno.1,
      hno.2]
    rfl
  simp only [rollbackPass, hget, bind_eq_bind, bind_some, hno.1, ne_eq,
    not_false_eq_true, and_self, if_true, hprev]
  rfl

theorem rollback_reaches (h : a.locked = false) (hway : ¬ NoWayBack a.state) :
    RollsBack a := by
  induction hd : a.state.depth using Nat.strongRecOn generalizing a with
  | ind d ih =>
    intro device hdev
    by_cases hs : a.state = .intialized
    · refine ⟨1, noError, a, ?_, hs, h⟩
      rw [rollbackToInitializedState, loopM_stop (rollbackPass_stop h (.inl hs) device)]
      rfl
    · obtain ⟨a', hpass, hlocked, hway', hdepth⟩ := rollbackPass_next h hs hway (hdev 0)
      obtain ⟨n, ret, b, hrest, hb⟩ :=
        ih a'.state.depth (hd ▸ hdepth) hlocked hway' rfl (fun n => device (n + 1))
          (fun n => hdev (n + 1))
      refine ⟨n + 1, ret, b, ?_, hb⟩
      rw [rollbackToInitializedState, loopM_next hpass]
      exact hrest

theorem rollsBack_iff (h : a.locked = false) :
    RollsBack a ↔ ¬ NoWayBack a.state := by
  refine ⟨?_, rollback_reaches h⟩
  intro hback hway
  obtain ⟨n, ret, a', heq, hstate, _⟩ := hback (fun _ => ⟨noError, id⟩) (fun _ => rfl)
  obtain ⟨s, hloop, hs⟩ := Option.map_eq_some_iff.mp heq
  -- the first pass fails, and the second finds that it has
  obtain ⟨m, _, hfirst | ⟨s₁, hnext, hloop₁⟩⟩ := loopM_eq_some hloop
  · rw [rollbackPass_fails h hway] at hfirst
    cases hfirst
  · rw [rollbackPass_fails h hway] at hnext
    cases hnext
    obtain ⟨k, _, hsecond | ⟨s₂, hnext₂, _⟩⟩ := loopM_eq_some hloop₁
    · rw [rollbackPass_stop h (.inr invalidOperation_ne)] at hsecond
      cases hsecond
      cases hs
      rw [hstate] at hway
      rcases hway with hs | hs | hs | ⟨bits, hs⟩ <;> cases hs
    · rw [rollbackPass_stop h (.inr invalidOperation_ne)] at hnext₂
      cases hnext₂

/-! ## Runs -/

/-- For every sequence of commands from construction and every outcome of the operations:
all commands return with `mLock` released, the commands that are transactions in the state
reached are those that meet `CommandOk`, and `rollbackToInitializedState` gets back from
there unless there is no way back. -/
theorem commands_transactional_iff (next : AdapterState) (calls : List Command) :
    ∃ a, run step { next := next } calls = some a ∧ a.locked = false ∧
      (∀ c, Transactional a c ↔ CommandOk a c) ∧ (RollsBack a ↔ ¬ NoWayBack a.state) := by
  have hfree : Guarded step (fun _ _ => True) { next := next } calls := guarded_true _ _
  obtain ⟨a, ha, hlocked⟩ := (hfree.always (J := fun a => a.locked = false)
    (P := fun a => a.locked = false) (fun _ h => h) (by
      intro a c h _
      obtain ⟨ret, a', heq, hlocked⟩ := sendCommand_returns h c
      exact ⟨a', by rw [step, heq]; rfl, hlocked⟩) rfl).last
  exact ⟨a, ha, hlocked, transactional_iff hlocked, rollsBack_iff hlocked⟩

def fourBuffers : BuffersDescriptor := ⟨fun i => 0x1000 + i, 0x800, 4, 2⟩

def succeeding (operation : CameraCommands) : Command :=
  { operation := operation, desc := some fourBuffers, device := ⟨noError, id⟩ }

/-- Image buffers right after the construction, with whatever `mNextState` holds: the
command answers NO_ERROR, the device is given the buffers, and the state becomes that
value. And after the preview buffers are loaded there is no way back. -/
theorem commands_not_transactional :
    (∃ a, sendCommand { next := .capture } (succeeding .useBuffersImageCapture) =
        some (noError, a) ∧ a.state = .capture ∧ a.ops.length = 1) ∧
    ¬ Transactional { next := .capture } (succeeding .useBuffersImageCapture) ∧
    ∃ a, run step { next := .capture } [succeeding .useBuffersPreview] = some a ∧
      a.state = .loadedPreview ∧
      (∃ a', rollbackToInitializedState 2 a (fun _ => ⟨noError, id⟩) =
        some (invalidOperation, a') ∧ a'.state = .loadedPreview) ∧ ¬ RollsBack a := by
  refine ⟨⟨_, rfl, rfl, rfl⟩, ?_, _, rfl, rfl, ⟨_, rfl, rfl⟩, ?_⟩
  · rw [transactional_iff rfl]
    intro hok
    exact hok rfl nofun rfl
  · rw [rollsBack_iff rfl]
    exact not_not_intro (.inl rfl)

end Omap4Hal.Camera

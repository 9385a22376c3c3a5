import Omap4Hal.Camera.Adapter
import Omap4Hal.Camera.EventRegistry

/- One autofocus request (OMXFocus.cpp). `doAutoFocus` runs in the command handler. It pauses the
   face detection, registers `mDoAFSem` for the change of the focus status, starts the scan and
   waits; `returnFocusStatus` leaves the AF state, tells the subscribers and resumes the face
   detection.

   Only some of the exits go through `returnFocusStatus`. If the component does not take the focus
   mode, or fails while `doAutoFocus` waits, or does not tell the status in continuous focus, the
   adapter stays in the AF state. A registration that is not removed posts the semaphore later,
   and then the next request is refused. `stopAutoFocus` of a component that has failed calls
   `returnFocusStatus` again, which asks for the focus status first.

   Here are the functions, what the registrations and the count of the semaphore have to do with
   each other, and what leaving the AF state does. -/
namespace Omap4Hal.Camera.AutoFocus
open Omap4Hal.Lib Omap4Hal.Camera.EventRegistry

/-! ## State -/

inductive FocusControl where
  | on
  | off
  | auto
  | autoLock
  | autoMacro
  | autoInfinity
  | hyperfocal
  | portrait
  | extended
  | continousNormal
  | continousExtended
  deriving DecidableEq

inductive FocusStatus where
  | off
  | request
  | reached
  | unableToReach
  | lost
  | other (value : UInt32)
  deriving DecidableEq

def omxStateExecuting : UInt32 := 3

def noInit : Int := -19

/-- `OMX_EventIndexSettingChanged`, `OMX_ALL` and `OMX_IndexConfigCommonFocusStatus` -/
def focusEvent : OmxEvent := ⟨0x6F000000, 0xFFFFFFFF, 0x07000021⟩

/-- The registrations and the semaphore of the autofocus, with its count. -/
structure AfEvents where
  world : World
  mHandleComp : UInt32
  mDoAFSem : Semaphore
  count : Nat

/-- `notified` are the calls of the subscribers, and `asked` counts the queries of the focus
status. -/
structure Focus where
  adapter : Adapter
  events : AfEvents
  mFaceDetectionRunning : Bool
  mFaceDetectionPaused : Bool
  focus : FocusControl
  focusLock : Bool
  pendingFocus : Bool := false
  notified : List Bool := []
  asked : Nat := 0

/-- What the calls of one request answer. `commits` is the end of a command that holds `mLock`
when it begins, and `getFocus` the answer to each query of the focus status. The events of
`during` come before the wait ends, those of `late` after that and before the state of the
component is checked; `timedOut` is a wait that ends without seeing what was posted. -/
structure Outcomes where
  commits : Bool
  getFocus : Nat → UInt32 × FocusStatus
  registers : Bool
  startFocus : UInt32
  during : List OmxEvent
  timedOut : Bool
  late : List OmxEvent

/-- `AF_ACTIVE & state` -/
def afActive : AdapterState → Bool
  | .af | .videoAf | .afZoom => true
  | .other bits => bits &&& 64 ≠ 0
  | _ => false

/-- The adapter is in an AF state, or switches to one. -/
def afStarted (a : Adapter) : Bool := afActive a.state || afActive a.next

/-! ## The semaphore -/

/-- The registrations that refer to the semaphore. -/
def waiting (w : World) (semaphore : Semaphore) : Nat :=
  w.mEventSignalQ.countP fun m => m.arg3 = semaphore

/-- How often the semaphore was signalled. -/
def posts (w : World) (semaphore : Semaphore) : Nat :=
  w.signals.countP fun s => s.1.arg3 = semaphore

def AfEvents.registrations (v : AfEvents) : Nat := waiting v.world v.mDoAFSem

def AfEvents.registerForEvent (v : AfEvents) (registers : Bool) : AfEvents :=
  if registers then
    { v with world := v.world.registerForEvent v.mHandleComp focusEvent v.mDoAFSem }
  else v

def AfEvents.removeEvent (v : AfEvents) : AfEvents :=
  { v with world := v.world.removeEvent focusEvent }

/-- An event of the component posts the semaphores of the registrations that are signalled. -/
def AfEvents.onEvent (v : AfEvents) (e : OmxEvent) : AfEvents :=
  let w := v.world.eventHandler e
  { v with world := w, count := v.count + (posts w v.mDoAFSem - posts v.world v.mDoAFSem) }

def AfEvents.deliver (v : AfEvents) (events : List OmxEvent) : AfEvents :=
  events.foldl AfEvents.onEvent v

/-- The wait ends without a post. -/
def AfEvents.expires (v : AfEvents) (o : Outcomes) : Bool :=
  o.timedOut || (v.deliver o.during).count = 0

/-- `WaitTimeout`, which creates the semaphore again when it expires, and what comes before the
state of the component is checked. -/
def AfEvents.waitTimeout (v : AfEvents) (o : Outcomes) : Int × AfEvents :=
  let u := v.deliver o.during
  if v.expires o then (-1, { u with count := 0 }.deliver o.late)
  else (noError, { u with count := u.count - 1 }.deliver o.late)

/-! ## The functions -/

/-- The end of a command that holds `mLock`. -/
def settle (o : Outcomes) (a : Adapter) : Adapter :=
  if a.locked then if o.commits then (commitState a).2 else (rollbackState a).2 else a

def Focus.pauseFaceDetection (s : Focus) (pause : Bool) : Focus :=
  if s.mFaceDetectionRunning then { s with mFaceDetectionPaused := pause } else s

def Focus.notifyFocusSubscribers (s : Focus) (focusStatus : Bool) : Focus :=
  { s with notified := s.notified ++ [focusStatus] }

def Focus.invalid (s : Focus) : Bool := s.events.world.mComponentState = omxStateInvalid

/-- The lock of the focus; those of the exposure and of the white balance do not matter here. -/
def Focus.set3ALock (s : Focus) (toggleFocus : Bool) : Focus :=
  if s.invalid then s else { s with focusLock := toggleFocus }

/-- The check for the state of the component that is not executing sets `ret` to NO_ERROR again,
so that every component is asked. -/
def checkFocus (o : Outcomes) (s : Focus) : Int × FocusStatus × Focus :=
  let (eError, status) := o.getFocus s.asked
  (if eError ≠ 0 then -1 else noError, status, { s with asked := s.asked + 1 })

/-- Nothing uses what `stopAutoFocus` answers; what it configures is left out. -/
def stopAutoFocus (returnFocusStatus : Bool → Focus → Option (Int × Focus)) (s : Focus) :
    Option Focus :=
  if s.invalid then (returnFocusStatus false s).map Prod.snd else some s

/-- The end of `returnFocusStatus`. `setState` waits for `mLock`. -/
def leaveAf (o : Outcomes) (s : Focus) (focusStatus : Bool) : Option (Int × Focus) := do
  let (ret, a) ← transact (settle o s.adapter) .cancelAutofocus fun a => (noError, a)
  let s := { s with adapter := a }
  let s := if ret = noError then s.notifyFocusSubscribers focusStatus else s
  return (ret, s.pauseFaceDetection false)

/-- `getState(state)` and `getNextState(state)` do not take `mLock`. -/
def returnFocusStatus (o : Outcomes) : Nat → Bool → Focus → Option (Int × Focus)
  | 0, _, _ => none
  | fuel + 1, timeoutReached, s => do
    if !afStarted s.adapter then return (noError, s)
    else if timeoutReached then leaveAf o s false
    else
      let (ret, status, s) := checkFocus o s
      if ret ≠ noError then leaveAf o s false
      else
        let s ← stopAutoFocus (returnFocusStatus o fuel) (s.set3ALock true)
        leaveAf o s (status = .reached)

/-- What comes before the scan. -/
def prepare (o : Outcomes) (s : Focus) : Int × FocusStatus × Focus :=
  if s.focusLock then (noError, .off, s.set3ALock false)
  else if s.focus = .auto then checkFocus o s
  else (noError, .off, s)

/-- The scan. The answers of `setFocusCallback` and of `RegisterForEvent` are overwritten. -/
def scan (o : Outcomes) (fuel : Nat) (s : Focus) : Option (Int × Focus) :=
  let s := { s with events := s.events.registerForEvent o.registers }
  if o.startFocus ≠ 0 then some (invalidOperation, s)
  else
    let (ret, v) := s.events.waitTimeout o
    let s := { s with events := v }
    if s.invalid then some (einval, s)
    else if ret ≠ noError then
      let s := { s with events := s.events.removeEvent }
      (returnFocusStatus o fuel true s).map fun r => (ret, r.2)
    else returnFocusStatus o fuel false s

/-- With `mLock` free. -/
def focusNow (o : Outcomes) (fuel : Nat) (s : Focus) : Option (Int × Focus) :=
  if !afStarted s.adapter then some (noError, s)
  else
    let (ret, status, t) := prepare o (s.pauseFaceDetection true)
    if ret ≠ noError then some (ret, t)
    else if s.focus = .auto ∧ status = .request ∨ s.focus ≠ .auto then scan o fuel t
    else (returnFocusStatus o fuel false t).map fun r => (r.1, { r.2 with pendingFocus := true })

/-- `getState()` and `getNextState()` wait for `mLock`. -/
def doAutoFocus (o : Outcomes) (fuel : Nat) (s : Focus) : Option (Int × Focus) :=
  if s.invalid then (returnFocusStatus o fuel false s).map fun r => (-einval, r.2)
  else if s.events.world.mComponentState ≠ omxStateExecuting then
    (returnFocusStatus o fuel false s).map fun r => (noError, r.2)
  else if s.events.count ≠ 0 then some (noInit, s)
  else focusNow o fuel { s with adapter := settle o s.adapter }

/-! ## Completion -/

/-- The state to which CAMERA_CANCEL_AUTOFOCUS leads. -/
def target (o : Outcomes) (s : Focus) : Option AdapterState :=
  selectState (settle o s.adapter).state .cancelAutofocus

/-- The request that began in `s` is completed in `s'`, and the next one will be accepted. -/
structure Completed (o : Outcomes) (s s' : Focus) : Prop where
  left : afActive s'.adapter.state = false
  cancelled : target o s = some s'.adapter.state
  notified : ∃ focusStatus, s'.notified = s.notified ++ [focusStatus]
  face : s'.mFaceDetectionRunning = true → s'.mFaceDetectionPaused = false
  registrations : s'.events.registrations = 0
  count : s'.events.count = 0
  accepted : s'.adapter.locked = false ∧ selectState s'.adapter.state .performAutofocus ≠ none

/-- It returns, and the request is completed. -/
def Completes (o : Outcomes) (s : Focus) : Prop :=
  ∃ fuel r, doAutoFocus o fuel s = some r ∧ Completed o s r.2

/-- A focus mode other than the continuous one is scanned, and the continuous one if the status is
`OMX_FocusStatusRequest`. -/
def Scans (o : Outcomes) (s : Focus) : Prop :=
  s.focus ≠ .auto ∨ s.focusLock = false ∧ (o.getFocus s.asked).2 = .request

/-- The scan ends well, with the registrations `v` when the wait begins: it starts, the component
does not fail, and no registration is left over. After a wait that has expired none is signalled,
and the one that is left, if any, is the one that `RemoveEvent` takes. -/
structure ScanOk (o : Outcomes) (v : AfEvents) : Prop where
  starts : o.startFocus = 0
  nonfatal : ∀ e ∈ o.during ++ o.late, v.world.isFatal e = false
  received : v.expires o = false → v.registrations ≤ 1
  expired : v.expires o = true →
    let u := (v.deliver o.during).deliver o.late
    u.count = (v.deliver o.during).count ∧
      (u.registrations = 0 ∨ u.registrations = 1 ∧
        ∃ m rest, takeFirst (accepts focusEvent) u.world.mEventSignalQ = some (m, rest) ∧
          m.arg3 = u.mDoAFSem)

/-- The component that has failed is asked once, or the second attempt to leave the AF state is
refused and it does not answer forever. -/
def AskedOnce (o : Outcomes) (s : Focus) : Prop :=
  (o.getFocus s.asked).1 ≠ 0 ∨
    target o s = some .video ∧ ∃ n, (o.getFocus (s.asked + n)).1 ≠ 0

/-- When a request is completed. -/
structure FocusOk (o : Outcomes) (s : Focus) : Prop where
  started : afStarted s.adapter = true
  cancels : target o s ≠ none
  count : s.events.count = 0
  invalid : s.invalid = true → AskedOnce o s
  idle : s.events.world.mComponentState ≠ omxStateExecuting → s.events.registrations = 0
  executing : s.events.world.mComponentState = omxStateExecuting →
    afStarted (settle o s.adapter) = true ∧
    (s.focus = .auto → s.focusLock = false → (o.getFocus s.asked).1 = 0) ∧
    (¬ Scans o s → s.events.registrations = 0) ∧
    (Scans o s → ScanOk o (s.events.registerForEvent o.registers))

/-! ## The registrations -/

variable {o : Outcomes} {w : World} {v : AfEvents} {s s' : Focus}

theorem signalEvent_conserves (w : World) (e : OmxEvent) (semaphore : Semaphore) :
    waiting (w.signalEvent e) semaphore + posts (w.signalEvent e) semaphore =
      waiting w semaphore + posts w semaphore := by
  obtain ⟨hq, hs⟩ := signalEvent_eq w e
  have hperm := (takeFirst_perm (accepts e) w.mEventSignalQ).countP_eq fun m => m.arg3 = semaphore
  rw [← hq, List.countP_append] at hperm
  rw [waiting, waiting, posts, posts, hs, List.countP_append, List.countP_map, hperm]
  simp only [Function.comp_def]
  omega

theorem onEvent_conserves (w : World) (e : OmxEvent) (semaphore : Semaphore) :
    waiting (w.onEvent e) semaphore + posts (w.onEvent e) semaphore =
      waiting w semaphore + posts w semaphore := by
  rw [World.onEvent]
  split
  · split <;> rfl
  · split
    · simp only [waiting, posts, List.countP_nil, List.countP_append, List.countP_map,
        Function.comp_def]
      omega
    · rfl

theorem eventHandler_conserves (w : World) (e : OmxEvent) (semaphore : Semaphore) :
    waiting (w.eventHandler e) semaphore + posts (w.eventHandler e) semaphore =
      waiting w semaphore + posts w semaphore :=
  (signalEvent_conserves (w.onEvent e) e semaphore).trans (onEvent_conserves w e semaphore)

theorem posts_le_eventHandler (w : World) (e : OmxEvent) (semaphore : Semaphore) :
    posts w semaphore ≤ posts (w.eventHandler e) semaphore := by
  have hon : posts w semaphore ≤ posts (w.onEvent e) semaphore := by
    rw [World.onEvent]
    split
    · split <;> exact Nat.le_refl _
    · split
      · simp only [posts, List.countP_append]
        omega
      · exact Nat.le_refl _
  refine Nat.le_trans hon ?_
  rw [World.eventHandler, posts, posts, (signalEvent_eq _ e).2, List.countP_append]
  omega

theorem eventHandler_component (w : World) (e : OmxEvent) :
    (w.eventHandler e).hasErrorNotifier = w.hasErrorNotifier ∧
      (w.eventHandler e).mComponentState =
        if w.isFatal e then omxStateInvalid else w.mComponentState := by
  have hsignal : (w.eventHandler e).hasErrorNotifier = (w.onEvent e).hasErrorNotifier ∧
      (w.eventHandler e).mComponentState = (w.onEvent e).mComponentState := by
    rw [World.eventHandler, World.signalEvent]
    split <;> exact ⟨rfl, rfl⟩
  rw [hsignal.1, hsignal.2, World.onEvent]
  split
  next hcmd =>
    have hfatal : w.isFatal e = false := by
      simp [World.isFatal, hcmd, omxEventCmdComplete, omxEventError]
    rw [hfatal]
    split <;> exact ⟨rfl, rfl⟩
  next =>
    split
    next => exact ⟨rfl, rfl⟩
    next => exact ⟨rfl, rfl⟩

theorem component_valid_iff (h : w.mComponentState ≠ omxStateInvalid) (events : List OmxEvent) :
    (events.foldl World.eventHandler w).mComponentState ≠ omxStateInvalid ↔
      ∀ e ∈ events, w.isFatal e = false := by
  have hinvalid : ∀ (es : List OmxEvent) (u : World), u.mComponentState = omxStateInvalid →
      (es.foldl World.eventHandler u).mComponentState = omxStateInvalid := by
    intro es
    induction es with
    | nil => exact fun _ hu => hu
    | cons e es ih =>
      intro u hu
      refine ih _ ?_
      rw [(eventHandler_component u e).2, hu]
      split <;> rfl
  induction events generalizing w with
  | nil => simpa using h
  | cons e es ih =>
    obtain ⟨hnotifier, hstate⟩ := eventHandler_component w e
    rw [List.foldl_cons, List.forall_mem_cons]
    cases hfatal : w.isFatal e with
    | true =>
      rw [hfatal, if_pos rfl] at hstate
      simp [hinvalid es _ hstate]
    | false =>
      rw [hfatal, if_neg (by decide)] at hstate
      have hsame : ∀ d, (w.eventHandler e).isFatal d = w.isFatal d := by
        intro d
        rw [World.isFatal, World.isFatal, hnotifier, hstate]
      have hvalid : (w.eventHandler e).mComponentState ≠ omxStateInvalid := hstate ▸ h
      have hrest := ih hvalid
      simp only [hsame] at hrest
      exact hrest.trans (and_iff_right rfl).symm

theorem deliver_eq (v : AfEvents) (events : List OmxEvent) :
    v.deliver events = { v with
      world := events.foldl World.eventHandler v.world
      count := v.count +
        (posts (events.foldl World.eventHandler v.world) v.mDoAFSem -
          posts v.world v.mDoAFSem) } ∧
      posts v.world v.mDoAFSem ≤ posts (events.foldl World.eventHandler v.world) v.mDoAFSem := by
  induction events generalizing v with
  | nil => exact ⟨by simp [AfEvents.deliver], Nat.le_refl _⟩
  | cons e es ih =>
    obtain ⟨heq, hle⟩ := ih (v.onEvent e)
    have hfirst := posts_le_eventHandler v.world e v.mDoAFSem
    have hdeliver : v.deliver (e :: es) = (v.onEvent e).deliver es := rfl
    refine ⟨?_, Nat.le_trans hfirst hle⟩
    rw [hdeliver, heq]
    simp only [AfEvents.onEvent, List.foldl_cons, AfEvents.mk.injEq, true_and]
    have hrest : posts (v.world.eventHandler e) v.mDoAFSem ≤
        posts (es.foldl World.eventHandler (v.world.eventHandler e)) v.mDoAFSem := hle
    omega

theorem foldl_conserves (w : World) (events : List OmxEvent) (semaphore : Semaphore) :
    waiting (events.foldl World.eventHandler w) semaphore +
        posts (events.foldl World.eventHandler w) semaphore =
      waiting w semaphore + posts w semaphore := by
  induction events generalizing w with
  | nil => rfl
  | cons e es ih => exact (ih _).trans (eventHandler_conserves w e semaphore)

theorem deliver_conserves (v : AfEvents) (events : List OmxEvent) :
    (v.deliver events).registrations + (v.deliver events).count = v.registrations + v.count := by
  obtain ⟨heq, hle⟩ := deliver_eq v events
  have hall := foldl_conserves v.world events v.mDoAFSem
  rw [heq]
  simp only [AfEvents.registrations]
  omega

/-! ## Leaving the AF state -/

theorem settle_locked (o : Outcomes) (a : Adapter) : (settle o a).locked = false := by
  rw [settle]
  split
  · split <;> rfl
  · next hfree => exact Bool.of_not_eq_true hfree

theorem settle_free {a : Adapter} (h : a.locked = false) : settle o a = a :=
  if_neg (by simp [h])

theorem cancel_target {a b : AdapterState} (h : selectState a .cancelAutofocus = some b) :
    afActive b = false ∧ selectState b .performAutofocus ≠ none ∧
      selectState b .cancelAutofocus = if b = .video then none else some b := by
  cases a <;> simp only [selectState, Option.some.injEq, reduceCtorEq] at h <;> subst h <;>
    exact ⟨rfl, by simp [selectState], rfl⟩

/-- How the AF state is left: `told` is what the subscribers are told unless the command is
refused. -/
structure Left (o : Outcomes) (s : Focus) (told : List Bool) (s' : Focus) : Prop where
  locked : s'.adapter.locked = false
  state : s'.adapter.state = (target o s).getD (settle o s.adapter).state
  notified : s'.notified = s.notified ++ if target o s = none then [] else told
  face : s'.mFaceDetectionRunning = true → s'.mFaceDetectionPaused = false
  events : s'.events = s.events

theorem leaveAf_left (o : Outcomes) (s : Focus) (focusStatus : Bool) :
    ∃ r, leaveAf o s focusStatus = some r ∧ Left o s [focusStatus] r.2 := by
  have hruns : Runs (fun a => (noError, a)) True := ⟨fun _ => rfl, fun _ => rfl, by simp⟩
  obtain ⟨ret, a, htransact, hlocked, hsettled⟩ :=
    transact_settled (settle_locked o s.adapter) .cancelAutofocus hruns
  have hface : ∀ t : Focus, (t.pauseFaceDetection false).mFaceDetectionRunning = true →
      (t.pauseFaceDetection false).mFaceDetectionPaused = false := by
    intro t
    rw [Focus.pauseFaceDetection]
    split
    · exact fun _ => rfl
    · next hoff => exact fun hon => absurd hon hoff
  have hkept : ∀ t : Focus, (t.pauseFaceDetection false).adapter = t.adapter ∧
      (t.pauseFaceDetection false).notified = t.notified ∧
      (t.pauseFaceDetection false).events = t.events := by
    intro t
    rw [Focus.pauseFaceDetection]
    split <;> exact ⟨rfl, rfl, rfl⟩
  rw [leaveAf, htransact]
  refine ⟨_, rfl, ?_⟩
  cases htarget : target o s with
  | none =>
    rw [target] at htarget
    rw [htarget] at hsettled
    obtain ⟨hret, -, hstate, -⟩ := hsettled
    simp only [if_neg hret]
    obtain ⟨hadapter, hnotified, hevents⟩ := hkept { s with adapter := a }
    refine ⟨?_, ?_, ?_, hface _, hevents⟩
    · rw [hadapter]
      exact hlocked
    · rw [hadapter, target, htarget]
      exact hstate
    · rw [hnotified, target, htarget, if_pos rfl, List.append_nil]
  | some next =>
    rw [target] at htarget
    rw [htarget] at hsettled
    obtain ⟨hret, hstate⟩ := hsettled.1 trivial
    simp only [if_pos hret]
    obtain ⟨hadapter, hnotified, hevents⟩ :=
      hkept (Focus.notifyFocusSubscribers { s with adapter := a } focusStatus)
    refine ⟨?_, ?_, ?_, hface _, hevents⟩
    · rw [hadapter]
      exact hlocked
    · rw [hadapter, target, htarget]
      exact hstate
    · rw [hnotified, target, htarget, if_neg nofun]
      rfl

theorem Left.again {told : List Bool} {t : Focus} (h : Left o s told t) (focusStatus : Bool) :
    ∃ r told', leaveAf o t focusStatus = some r ∧ Left o s told' r.2 ∧
      told'.length = if target o s = some .video then told.length else told.length + 1 := by
  obtain ⟨r, hr, hleft⟩ := leaveAf_left o t focusStatus
  have hsettle := settle_free (o := o) h.locked
  have hlast : target o t = selectState t.adapter.state .cancelAutofocus := by
    rw [target, hsettle]
  have hevents := hleft.events.trans h.events
  cases htarget : target o s with
  | none =>
    have hstate : t.adapter.state = (settle o s.adapter).state := by
      rw [h.state, htarget]
      rfl
    have hrefused : target o t = none := by
      rw [hlast, hstate]
      exact htarget
    refine ⟨r, told ++ [focusStatus], hr, ⟨hleft.locked, ?_, ?_, hleft.face, hevents⟩, ?_⟩
    · rw [hleft.state, hrefused, htarget, hsettle]
      exact hstate
    · rw [hleft.notified, hrefused, htarget, h.notified, htarget]
      simp
    · simp
  | some next =>
    have hstate : t.adapter.state = next := by
      rw [h.state, htarget]
      rfl
    have hcancel := (cancel_target htarget).2.2
    rw [← hstate, ← hlast] at hcancel
    by_cases hvideo : t.adapter.state = .video
    · rw [if_pos hvideo] at hcancel
      refine ⟨r, told, hr, ⟨hleft.locked, ?_, ?_, hleft.face, hevents⟩, ?_⟩
      · rw [hleft.state, hcancel, htarget, hsettle]
        exact hstate
      · rw [hleft.notified, hcancel, h.notified, htarget]
        simp
      · rw [if_pos (by rw [← hstate, hvideo])]
    · rw [if_neg hvideo] at hcancel
      refine ⟨r, told ++ [focusStatus], hr, ⟨hleft.locked, ?_, ?_, hleft.face, hevents⟩, ?_⟩
      · rw [hleft.state, hcancel, htarget]
        exact hstate
      · rw [hleft.notified, hcancel, h.notified, htarget]
        simp
      · rw [if_neg (by rw [← hstate]; simpa using hvideo)]
        simp

/-- What the end of the request has to do with the way in which the AF state was left. -/
theorem completed_iff_left {t : Focus} {told : List Bool} (h : Left o t told s')
    (hsettle : settle o t.adapter = settle o s.adapter) (hnotified : t.notified = s.notified) :
    Completed o s s' ↔ target o s ≠ none ∧ told.length = 1 ∧
      t.events.registrations = 0 ∧ t.events.count = 0 := by
  have htarget : target o t = target o s := by rw [target, target, hsettle]
  constructor
  · intro hdone
    obtain ⟨focusStatus, htold⟩ := hdone.notified
    have hsome : target o s ≠ none := by
      rw [hdone.cancelled]
      exact nofun
    rw [h.notified, htarget, if_neg hsome, hnotified, List.append_right_inj] at htold
    refine ⟨hsome, by rw [htold]; rfl, ?_, ?_⟩
    · rw [← h.events]
      exact hdone.registrations
    · rw [← h.events]
      exact hdone.count
  · rintro ⟨hsome, htold, hreg, hcount⟩
    obtain ⟨next, hnext⟩ := Option.ne_none_iff_exists'.mp hsome
    have hstate : s'.adapter.state = next := by
      rw [h.state, htarget, hnext]
      rfl
    obtain ⟨hinactive, hperform, -⟩ := cancel_target hnext
    obtain ⟨focusStatus, rfl⟩ := List.length_eq_one_iff.mp htold
    refine ⟨?_, ?_, ⟨focusStatus, ?_⟩, h.face, ?_, ?_, h.locked, ?_⟩
    · rw [hstate]
      exact hinactive
    · rw [hstate]
      exact hnext
    · rw [h.notified, htarget, if_neg hsome, hnotified]
    · rw [h.events]
      exact hreg
    · rw [h.events]
      exact hcount
    · rw [hstate]
      exact hperform

theorem not_completed (h : s'.notified = s.notified) : ¬ Completed o s s' := by
  intro hdone
  obtain ⟨focusStatus, htold⟩ := hdone.notified
  rw [h] at htold
  simp at htold

end Omap4Hal.Camera.AutoFocus

import Omap4Hal.Camera.Frames
import Omap4Hal.Lib.Ledger

/- Who has subscribed to the frames and events of the camera adapter (`BaseCameraAdapter.cpp`,
   `CameraHalUtilClasses.cpp`). The masks of frames and of events are told apart by their position
   in the message type, which is 0 for both: 0xFFFF is all frames and all events. `enableMsgType`
   takes it for all events, and `disableMsgType` for all frames: events are never disabled.
   `subscriptions_iff` says in which runs that makes no difference. -/
namespace Omap4Hal.Camera.Subscriptions

open Lib

/-! ## The adapter -/

/-- A callback, or NULL. -/
abbrev Callback := Option UInt32

abbrev Table := KeyedVector Int Callback

/-- The vectors of subscribers of events. -/
inductive EventTable where
  | focus
  | shutter
  | zoom
  | face

structure BaseCameraAdapter where
  mFrameSubscribers : Table := {}
  mFrameDataSubscribers : Table := {}
  mImageSubscribers : Table := {}
  mRawSubscribers : Table := {}
  mVideoSubscribers : Table := {}
  mFocusSubscribers : Table := {}
  mShutterSubscribers : Table := {}
  mZoomSubscribers : Table := {}
  mFaceSubscribers : Table := {}

namespace BaseCameraAdapter

def frames (b : BaseCameraAdapter) : Audience → Table
  | .frame => b.mFrameSubscribers
  | .image => b.mImageSubscribers
  | .video => b.mVideoSubscribers
  | .frameData => b.mFrameDataSubscribers
  | .raw => b.mRawSubscribers

def events (b : BaseCameraAdapter) : EventTable → Table
  | .focus => b.mFocusSubscribers
  | .shutter => b.mShutterSubscribers
  | .zoom => b.mZoomSubscribers
  | .face => b.mFaceSubscribers

end BaseCameraAdapter

/-! ## Masks -/

def previewFrameSync : UInt32 := 0x1

def imageFrame : UInt32 := 0x8

def videoFrameSync : UInt32 := 0x10

def frameDataSync : UInt32 := 0x40

def rawFrame : UInt32 := 0x100

def allFrames : UInt32 := 0xFFFF

def allEvents : UInt32 := 0xFFFF

def eventBitFieldPosition : UInt32 := 0

def frameBitFieldPosition : UInt32 := 0

/-! ## The functions -/

namespace BaseCameraAdapter

/-- A message type that is not supported is only logged. -/
def enableMsgType (b : BaseCameraAdapter) (msgs : UInt32) (callback eventCb : Callback)
    (cookie : Int) : BaseCameraAdapter :=
  if previewFrameSync = msgs then
    { b with mFrameSubscribers := b.mFrameSubscribers.add cookie callback }
  else if frameDataSync = msgs then
    { b with mFrameDataSubscribers := b.mFrameDataSubscribers.add cookie callback }
  else if imageFrame = msgs then
    { b with mImageSubscribers := b.mImageSubscribers.add cookie callback }
  else if rawFrame = msgs then
    { b with mRawSubscribers := b.mRawSubscribers.add cookie callback }
  else if videoFrameSync = msgs then
    { b with mVideoSubscribers := b.mVideoSubscribers.add cookie callback }
  else if allEvents = msgs then
    { b with
      mFocusSubscribers := b.mFocusSubscribers.add cookie eventCb
      mShutterSubscribers := b.mShutterSubscribers.add cookie eventCb
      mZoomSubscribers := b.mZoomSubscribers.add cookie eventCb
      mFaceSubscribers := b.mFaceSubscribers.add cookie eventCb }
  else b

def disableMsgType (b : BaseCameraAdapter) (msgs : UInt32) (cookie : Int) : BaseCameraAdapter :=
  if previewFrameSync = msgs then
    { b with mFrameSubscribers := b.mFrameSubscribers.remove cookie }
  else if frameDataSync = msgs then
    { b with mFrameDataSubscribers := b.mFrameDataSubscribers.remove cookie }
  else if imageFrame = msgs then
    { b with mImageSubscribers := b.mImageSubscribers.remove cookie }
  else if rawFrame = msgs then
    { b with mRawSubscribers := b.mRawSubscribers.remove cookie }
  else if videoFrameSync = msgs then
    { b with mVideoSubscribers := b.mVideoSubscribers.remove cookie }
  else if allFrames = msgs then
    { b with
      mFrameSubscribers := b.mFrameSubscribers.remove cookie
      mFrameDataSubscribers := b.mFrameDataSubscribers.remove cookie
      mImageSubscribers := b.mImageSubscribers.remove cookie
      mRawSubscribers := b.mRawSubscribers.remove cookie
      mVideoSubscribers := b.mVideoSubscribers.remove cookie }
  else if allEvents = msgs then
    -- all events are the same mask as all frames
    { b with
      mFocusSubscribers := b.mFocusSubscribers.remove cookie
      mShutterSubscribers := b.mShutterSubscribers.remove cookie
      mZoomSubscribers := b.mZoomSubscribers.remove cookie
      mFaceSubscribers := b.mFaceSubscribers.remove cookie }
  else b

end BaseCameraAdapter

/-- A subscriber: the cookie and the callback that its provider was created with. -/
structure Provider where
  mCookie : Int
  mCallback : UInt32

namespace Provider

variable (p : Provider) (b : BaseCameraAdapter) (frameTypes : UInt32)

def enableFrameNotification : BaseCameraAdapter :=
  b.enableMsgType (frameTypes <<< frameBitFieldPosition) (some p.mCallback) none p.mCookie

def disableFrameNotification : BaseCameraAdapter :=
  b.disableMsgType (frameTypes <<< frameBitFieldPosition) p.mCookie

def enableEventNotification : BaseCameraAdapter :=
  b.enableMsgType (frameTypes <<< eventBitFieldPosition) none (some p.mCallback) p.mCookie

/-- The position is that of the frames. -/
def disableEventNotification : BaseCameraAdapter :=
  b.disableMsgType (frameTypes <<< frameBitFieldPosition) p.mCookie

end Provider

/-! ## Runs -/

inductive Call where
  | enableFrame (p : Provider) (frameTypes : UInt32)
  | disableFrame (p : Provider) (frameTypes : UInt32)
  | enableEvent (p : Provider) (eventTypes : UInt32)
  | disableEvent (p : Provider) (eventTypes : UInt32)

/-- The adapter, and the calls that were made. -/
structure World where
  adapter : BaseCameraAdapter := {}
  history : List Call := []

def Call.apply (b : BaseCameraAdapter) : Call → BaseCameraAdapter
  | .enableFrame p frameTypes => p.enableFrameNotification b frameTypes
  | .disableFrame p frameTypes => p.disableFrameNotification b frameTypes
  | .enableEvent p eventTypes => p.enableEventNotification b eventTypes
  | .disableEvent p eventTypes => p.disableEventNotification b eventTypes

def step (w : World) (c : Call) : Option World := some ⟨c.apply w.adapter, w.history ++ [c]⟩

/-- The mask of the frames that go to a vector of subscribers. -/
def maskOf : Audience → UInt32
  | .frame => previewFrameSync
  | .image => imageFrame
  | .video => videoFrameSync
  | .frameData => frameDataSync
  | .raw => rawFrame

/-- The masks that the adapter knows, for frames and for events. -/
def Supported : Call → Prop
  | .enableFrame _ m | .disableFrame _ m => m = allFrames ∨ ∃ a, m = maskOf a
  | .enableEvent _ m | .disableEvent _ m => m = allEvents

/-- The calls for frames of this kind by this subscriber. -/
def CoversFrame (k : Int) (a : Audience) : Call → Prop
  | .enableFrame p m | .disableFrame p m => p.mCookie = k ∧ (m = maskOf a ∨ m = allFrames)
  | .enableEvent _ _ | .disableEvent _ _ => False

/-- The calls for events by this subscriber. -/
def CoversEvent (k : Int) : Call → Prop
  | .enableFrame _ _ | .disableFrame _ _ => False
  | .enableEvent p _ | .disableEvent p _ => p.mCookie = k

def Enables : Call → Prop
  | .enableFrame _ _ | .enableEvent _ _ => True
  | .disableFrame _ _ | .disableEvent _ _ => False

/-- A subscriber is in a table exactly if its last call about it was to enable it. -/
structure Sound (w : World) : Prop where
  frames : ∀ k a, k ∈ (w.adapter.frames a).keys ↔ LastIs (CoversFrame k a) Enables w.history
  events : ∀ k t, k ∈ (w.adapter.events t).keys ↔ LastIs (CoversEvent k) Enables w.history

/-- What should hold of a call. -/
def Keeps (w : World) (c : Call) : Prop :=
  Sound ⟨c.apply w.adapter, w.history ++ [c]⟩ ∧
    match c with
    | .enableFrame _ _ | .disableFrame _ _ =>
      ∀ t, (c.apply w.adapter).events t = w.adapter.events t
    | .enableEvent _ _ | .disableEvent _ _ =>
      ∀ a, (c.apply w.adapter).frames a = w.adapter.frames a

/-- Frames are not enabled all at once, and events are disabled by a subscriber that has neither
frames nor events. -/
def Idle (w : World) : Call → Prop
  | .enableFrame _ m => m ≠ allFrames
  | .disableEvent p _ => (∀ a, ¬ LastIs (CoversFrame p.mCookie a) Enables w.history) ∧
      ¬ LastIs (CoversEvent p.mCookie) Enables w.history
  | .disableFrame _ _ | .enableEvent _ _ => True

/-- The subscribers of events have a callback. -/
def Callable (w : World) : Prop := ∀ t k x, (w.adapter.events t).valueFor k = some x → x ≠ none

/-! ## Calls -/

variable {b : BaseCameraAdapter} {p : Provider} {w : World} {a a' : Audience} {t : EventTable}

theorem maskOf_injective : maskOf a = maskOf a' ↔ a = a' := by
  constructor
  · intro h
    cases a <;> cases a' <;> first | rfl | exact absurd h (by decide)
  · exact congrArg maskOf

theorem maskOf_ne_allFrames : maskOf a ≠ allFrames := by
  cases a <;> decide

theorem enableFrame_frames (h : a' = a) :
    (p.enableFrameNotification b (maskOf a)).frames a' =
      (b.frames a').add p.mCookie (some p.mCallback) := by
  subst h
  cases a' <;> rfl

theorem enableFrame_others (h : a' ≠ a) :
    (p.enableFrameNotification b (maskOf a)).frames a' = b.frames a' := by
  cases a <;> cases a' <;> first | rfl | exact absurd rfl h

theorem enableFrame_events : (p.enableFrameNotification b (maskOf a)).events t = b.events t := by
  cases a <;> cases t <;> rfl

theorem disableFrame_frames (h : a' = a) :
    (p.disableFrameNotification b (maskOf a)).frames a' = (b.frames a').remove p.mCookie := by
  subst h
  cases a' <;> rfl

theorem disableFrame_others (h : a' ≠ a) :
    (p.disableFrameNotification b (maskOf a)).frames a' = b.frames a' := by
  cases a <;> cases a' <;> first | rfl | exact absurd rfl h

theorem disableFrame_events :
    (p.disableFrameNotification b (maskOf a)).events t = b.events t := by
  cases a <;> cases t <;> rfl

theorem disableAllFrames :
    (∀ a, (p.disableFrameNotification b allFrames).frames a =
        (b.frames a).remove p.mCookie) ∧
      ∀ t, (p.disableFrameNotification b allFrames).events t = b.events t :=
  ⟨fun a => by cases a <;> rfl, fun t => by cases t <;> rfl⟩

theorem enableAllEvents :
    (∀ a, (p.enableEventNotification b allEvents).frames a = b.frames a) ∧
      ∀ t, (p.enableEventNotification b allEvents).events t =
        (b.events t).add p.mCookie (some p.mCallback) :=
  ⟨fun a => by cases a <;> rfl, fun t => by cases t <;> rfl⟩

theorem disableAllEvents :
    p.disableEventNotification b allEvents = p.disableFrameNotification b allFrames := rfl

/-! ## What a call does to the subscriptions -/

theorem keeps_enableFrame (hw : Sound w) : Keeps w (.enableFrame p (maskOf a)) := by
  refine ⟨⟨?_, ?_⟩, fun t => enableFrame_events⟩
  · intro k a'
    rw [lastIs_concat, ← hw.frames]
    simp only [CoversFrame, Enables, Call.apply, and_true, maskOf_injective, maskOf_ne_allFrames,
      or_false]
    by_cases ha : a' = a
    · rw [enableFrame_frames ha, KeyedVector.mem_keys_add]
      simp only [ha, and_true, eq_comm (a := p.mCookie)]
      tauto
    · rw [enableFrame_others ha]
      simp [Ne.symm ha]
  · intro k t
    rw [lastIs_concat, ← hw.events k t]
    simp only [CoversEvent, Call.apply, enableFrame_events, false_and, not_false_iff, true_and,
      false_or]

theorem not_keeps_enableAllFrames (hw : Callable w) : ¬ Keeps w (.enableFrame p allFrames) := by
  rintro ⟨-, hsame⟩
  have hnull : (w.adapter.events .focus).valueFor p.mCookie = some none := by
    rw [← hsame .focus]
    exact KeyedVector.valueFor_add_self (w.adapter.events .focus) p.mCookie none
  exact hw .focus p.mCookie none hnull rfl

theorem keeps_disableFrame (hw : Sound w) {m : UInt32} (hm : m = allFrames ∨ ∃ a, m = maskOf a) :
    Keeps w (.disableFrame p m) := by
  have hcover : ∀ a', ((m = maskOf a' ∨ m = allFrames) →
        (p.disableFrameNotification w.adapter m).frames a' =
          (w.adapter.frames a').remove p.mCookie) ∧
      (¬ (m = maskOf a' ∨ m = allFrames) →
        (p.disableFrameNotification w.adapter m).frames a' = w.adapter.frames a') := by
    intro a'
    rcases hm with rfl | ⟨a, rfl⟩
    · exact ⟨fun _ => disableAllFrames.1 a', fun h => absurd (.inr rfl) h⟩
    · refine ⟨?_, fun h => disableFrame_others fun ha => h (.inl (ha ▸ rfl))⟩
      rintro (h | h)
      · exact disableFrame_frames (maskOf_injective.mp h).symm
      · exact absurd h maskOf_ne_allFrames
  have hevents : ∀ t, (p.disableFrameNotification w.adapter m).events t = w.adapter.events t := by
    intro t
    rcases hm with rfl | ⟨a, rfl⟩
    · exact disableAllFrames.2 t
    · exact disableFrame_events
  refine ⟨⟨?_, ?_⟩, hevents⟩
  · intro k a'
    rw [lastIs_concat, ← hw.frames]
    simp only [CoversFrame, Enables, Call.apply, and_false, false_or]
    by_cases hc : m = maskOf a' ∨ m = allFrames
    · rw [(hcover a').1 hc, KeyedVector.mem_keys_remove]
      simp only [hc, and_true, eq_comm (a := p.mCookie)]
      tauto
    · rw [(hcover a').2 hc]
      simp [hc]
  · intro k t
    rw [lastIs_concat, ← hw.events k t]
    simp only [CoversEvent, Call.apply, hevents, false_and, not_false_iff, true_and, false_or]

theorem keeps_enableEvent (hw : Sound w) : Keeps w (.enableEvent p allEvents) := by
  obtain ⟨hframes, hevents⟩ := enableAllEvents (p := p) (b := w.adapter)
  refine ⟨⟨?_, ?_⟩, hframes⟩
  · intro k a
    rw [lastIs_concat, ← hw.frames]
    simp only [CoversFrame, Call.apply, hframes, false_and, not_false_iff, true_and, false_or]
  · intro k t
    rw [lastIs_concat, ← hw.events k t]
    simp only [CoversEvent, Enables, Call.apply, hevents, KeyedVector.mem_keys_add, and_true,
      eq_comm (a := p.mCookie)]
    tauto

theorem keeps_disableEvent_iff (hw : Sound w) :
    Keeps w (.disableEvent p allEvents) ↔ Idle w (.disableEvent p allEvents) := by
  obtain ⟨hframes, hevents⟩ := disableAllFrames (p := p) (b := w.adapter)
  simp only [Idle, ← hw.frames, ← hw.events _ .focus]
  constructor
  · rintro ⟨hsound, hsame⟩
    refine ⟨?_, ?_⟩
    · intro a hmem
      have hrem : p.mCookie ∈ ((w.adapter.frames a).remove p.mCookie).keys := by
        rw [← hframes, ← disableAllEvents]
        exact (hsame a).symm ▸ hmem
      exact (KeyedVector.mem_keys_remove.mp hrem).2 rfl
    · intro hmem
      have hstill : p.mCookie ∈
          ((Call.apply w.adapter (.disableEvent p allEvents)).events .focus).keys := by
        rw [Call.apply, disableAllEvents, hevents]
        exact hmem
      have hlast := (hsound.events _ _).mp hstill
      rw [lastIs_concat] at hlast
      simp [CoversEvent, Enables] at hlast
  · rintro ⟨hnone, hnot⟩
    have hsame : ∀ a, (Call.apply w.adapter (.disableEvent p allEvents)).frames a =
        w.adapter.frames a := by
      intro a
      rw [Call.apply, disableAllEvents, hframes, KeyedVector.remove_of_notMem (hnone a)]
    refine ⟨⟨?_, ?_⟩, hsame⟩
    · intro k a
      rw [lastIs_concat, ← hw.frames]
      simp only [CoversFrame, hsame, false_and, not_false_iff, true_and, false_or]
    · intro k t
      have hiff : p.mCookie ∈ (w.adapter.events t).keys ↔
          p.mCookie ∈ (w.adapter.events .focus).keys := by
        rw [hw.events, hw.events]
      rw [lastIs_concat, ← hw.events k t]
      simp only [CoversEvent, Enables, Call.apply, disableAllEvents, hevents, and_false, false_or]
      by_cases hk : p.mCookie = k
      · subst hk
        simp [hiff, hnot]
      · simp [hk]

theorem keeps_iff {c : Call} (hw : Sound w) (hcall : Callable w) (hc : Supported c) :
    Keeps w c ↔ Idle w c := by
  cases c with
  | enableFrame p m =>
    rcases hc with rfl | ⟨a, rfl⟩
    · exact iff_of_false (not_keeps_enableAllFrames hcall) fun h => h rfl
    · exact iff_of_true (keeps_enableFrame hw) maskOf_ne_allFrames
  | disableFrame p m => exact iff_of_true (keeps_disableFrame hw hc) trivial
  | enableEvent p m =>
    obtain rfl : m = allEvents := hc
    exact iff_of_true (keeps_enableEvent hw) trivial
  | disableEvent p m =>
    obtain rfl : m = allEvents := hc
    exact keeps_disableEvent_iff hw

theorem Callable.step {c : Call} (hcall : Callable w) (hc : Supported c) (hk : Keeps w c) :
    Callable ⟨c.apply w.adapter, w.history ++ [c]⟩ := by
  intro t k x hx
  cases c with
  | enableFrame p m | disableFrame p m => exact hcall t k x ((hk.2 t) ▸ hx)
  | enableEvent p m =>
    obtain rfl : m = allEvents := hc
    change ((p.enableEventNotification w.adapter allEvents).events t).valueFor k = some x at hx
    rw [enableAllEvents.2, KeyedVector.valueFor_add] at hx
    split at hx
    · rintro rfl
      exact absurd hx (by simp)
    · exact hcall t k x hx
  | disableEvent p m =>
    obtain rfl : m = allEvents := hc
    exact hcall t k x (disableAllFrames.2 t ▸ hx)

theorem Sound.start : Sound {} where
  frames k a := by
    refine iff_of_false ?_ not_lastIs_nil
    cases a <;> exact List.not_mem_nil
  events k t := by
    refine iff_of_false ?_ not_lastIs_nil
    cases t <;> exact List.not_mem_nil

theorem Callable.start : Callable {} := by
  intro t k x hx
  cases t <;> exact absurd hx (by simp [BaseCameraAdapter.events, KeyedVector.valueFor])

/-- The tables agree with the last calls, and events and frames do not interfere, as long as
frames are not enabled all at once and events are only disabled by subscribers that have none,
nor frames. -/
theorem subscriptions_iff (calls : List Call) (hsupported : ∀ c ∈ calls, Supported c) :
    Guarded step Keeps {} calls ↔ Guarded step Idle {} calls := by
  refine guarded_congr_of_forall (J := fun w => Sound w ∧ Callable w) ?_ ?_
    ⟨Sound.start, Callable.start⟩ hsupported
  · rintro w c ⟨hw, hcall⟩ hc
    exact keeps_iff hw hcall hc
  · rintro w c w' ⟨hw, hcall⟩ hc hi hw'
    cases hw'
    have hk := (keeps_iff hw hcall hc).mpr hi
    exact ⟨hk.1, hcall.step hc hk⟩

def subscriber : Provider := ⟨1, 0x100⟩

/-- Frames that are enabled and disabled. -/
theorem subscriptions_frames :
    Guarded step Keeps {}
      [.enableFrame subscriber imageFrame, .disableFrame subscriber allFrames] :=
  (subscriptions_iff _ (by
    intro c hc
    rcases List.mem_cons.mp hc with rfl | hc
    · exact .inr ⟨.image, rfl⟩
    · obtain rfl := List.mem_singleton.mp hc
      exact .inl rfl)).mpr
      ⟨maskOf_ne_allFrames (a := .image), fun _ _ => ⟨trivial, fun _ _ => trivial⟩⟩

/-- A subscriber of frames that disables its events gets no frames any more, and still gets
events. -/
theorem subscriptions_not_sound :
    let calls : List Call :=
      [.enableFrame subscriber imageFrame, .enableEvent subscriber allEvents,
        .disableEvent subscriber allEvents]
    (∀ c ∈ calls, Supported c) ∧
    (∃ w, run step {} calls = some w ∧ w.adapter.mImageSubscribers.keys = [] ∧
      w.adapter.mFocusSubscribers.keys = [1]) ∧
    ¬ Guarded step Keeps {} calls := by
  refine ⟨?_, ⟨_, rfl, by decide, by decide⟩, ?_⟩
  · intro c hc
    simp only [List.mem_cons, List.not_mem_nil, or_false] at hc
    rcases hc with rfl | rfl | rfl
    · exact .inr ⟨.image, rfl⟩
    · rfl
    · rfl
  · rintro ⟨-, h⟩
    have hframes := ((h _ rfl).2 _ rfl).1.2 .image
    have hkeys := congrArg KeyedVector.keys hframes
    exact absurd hkeys (by decide)

end Omap4Hal.Camera.Subscriptions

import Mathlib.Data.UInt
import Omap4Hal.Camera.Adapter

/- The digital zoom of the camera (OMXZoom.cpp). The application sets an index at once
   (`setParametersZoom`) or has it approached one step a frame (`startSmoothZoom`);
   `advanceZoom` runs at every preview frame. All of them hold `mZoomLock`.

   `stopSmoothZoom` does not stop at the index reached: it leaves one more step to the
   next frame, in the direction of the target. The state of the adapter is not a zoom state
   any more by then, and an index that the application sets meanwhile is taken. If it is the
   last one in that direction, the step leads out of the table and the subscribers are told
   so (`zoom_overruns`). `doZoom` checks the index again, and reads the table inside only. -/
namespace Omap4Hal.Camera.SmoothZoom
open Lib
open UInt32 (ofInt toNat_add toNat_inj)

/-! ## State -/

def zoomStages : Int := 61

def zoomSteps : List Int :=
  [65536, 68157, 70124, 72745, 75366, 77988, 80609, 83231, 86508, 89784, 92406, 95683,
   99615, 102892, 106168, 110100, 114033, 117965, 122552, 126484, 131072, 135660, 140247,
   145490, 150733, 155976, 161219, 167117, 173015, 178913, 185467, 192020, 198574, 205783,
   212992, 220201, 228065, 236585, 244449, 252969, 262144, 271319, 281149, 290980, 300810,
   311951, 322437, 334234, 346030, 357827, 370934, 384041, 397148, 411566, 425984, 441057,
   456131, 472515, 488899, 506593, 524288]

/-- `ZOOM_ACTIVE & state` -/
def zoomActive : AdapterState → Bool
  | .zoom | .videoZoom | .afZoom | .bracketingZoom => true
  | .other bits => bits &&& 128 ≠ 0
  | _ => false

/-- The zoom fields of the adapter. `notified` are the calls of the subscribers, with the
index and whether it is the target. `scales` are the factors given to `OMX_SetConfig`, where
`none` is one read outside of the table. -/
structure Zoom where
  currentZoomIdx : UInt32 := 0
  targetZoomIdx : UInt32 := 0
  previousZoomIndx : UInt32 := 0
  zoomParameterIdx : UInt32 := 0
  zoomUpdating : Bool := false
  zoomUpdate : Bool := false
  zoomInc : Int := 1
  returnZoomStatus : Bool := false
  notified : List (Int × Bool) := []
  scales : List (Option Int) := []
  deriving DecidableEq

/-- The component when an index is to be applied: whether its state is
`OMX_StateInvalid`, and the answer of `OMX_SetConfig`. -/
structure Component where
  invalid : Bool := false
  eError : UInt32 := 0

def toInt (index : UInt32) : Int := index.toInt32.toInt

/-! ## The functions -/

def readStep (index : Int) : Option Int :=
  if 0 ≤ index then zoomSteps[index.toNat]? else none

/-- `ret` of `doZoom` after its two checks. -/
def checkIndex (index : Int) (omx : Component) : Int :=
  let ret := if omx.invalid then -1 else noError
  if 0 > index ∨ zoomStages - 1 < index then -einval else ret

def doZoom (z : Zoom) (index : Int) (omx : Component) : Int × Zoom :=
  -- this comes before the checks count
  if z.previousZoomIndx = ofInt index then (noError, z)
  else if checkIndex index omx ≠ noError then (checkIndex index omx, z)
  else
    let z := { z with scales := readStep index :: z.scales }
    if omx.eError ≠ 0 then (-1, z)
    else (noError, { z with previousZoomIndx := ofInt index })

/-- `zoom` is the parameter of the application, `state` the state that `setParameters` has
read before. -/
def setParametersZoom (z : Zoom) (zoom : Int) (state : AdapterState) (omx : Component) : Zoom :=
  if zoomActive state then z
  else if 0 ≤ zoom ∧ zoom < zoomStages then
    let index := ofInt zoom
    let z := { z with targetZoomIdx := index, currentZoomIdx := index }
    if z.zoomUpdating = false then
      { (doZoom z (toInt z.currentZoomIdx) omx).2 with zoomUpdating := true }
    else { z with zoomUpdate := true }
  else z

def startSmoothZoom (z : Zoom) (targetIdx : Int) : Int × Zoom :=
  if 0 ≤ targetIdx ∧ targetIdx < zoomStages then
    (noError, { z with
      targetZoomIdx := ofInt targetIdx
      zoomParameterIdx := z.currentZoomIdx
      returnZoomStatus := false })
  else (-einval, z)

/-- The direction of the target. -/
def Zoom.turn (z : Zoom) : Zoom :=
  { z with zoomInc := if z.currentZoomIdx < z.targetZoomIdx then 1 else -1 }

def stopSmoothZoom (z : Zoom) : Int × Zoom :=
  if z.targetZoomIdx ≠ z.currentZoomIdx then (noError, { z.turn with returnZoomStatus := true })
  else (noError, z)

/-- `mCurrentZoomIdx += mZoomInc` -/
def Zoom.move (z : Zoom) : Zoom :=
  { z with currentZoomIdx := z.currentZoomIdx + ofInt z.zoomInc }

def Zoom.notifyZoomSubscribers (z : Zoom) (targetReached : Bool) : Zoom :=
  { z with notified := z.notified ++ [(toInt z.currentZoomIdx, targetReached)] }

/-- `setState(CAMERA_STOP_SMOOTH_ZOOM)` with what follows it. -/
def leaveZoomState (a : Adapter) : Option (Int × Adapter) :=
  transact a .stopSmoothZoom fun a => (noError, a)

/-- The step that `stopSmoothZoom` has left. -/
def returnStep (z : Zoom) (omx : Component) : Int × Zoom :=
  let z := z.move
  let z := { z with targetZoomIdx := z.currentZoomIdx, returnZoomStatus := false }
  let (ret, z) := doZoom z (toInt z.currentZoomIdx) omx
  (ret, z.notifyZoomSubscribers true)

/-- Towards the target: one step in a zoom state, all the way otherwise. -/
def approach (z : Zoom) (active : Bool) (omx : Component) : Int × Zoom :=
  let z := if active then z.turn.move else { z with currentZoomIdx := z.targetZoomIdx }
  doZoom z (toInt z.currentZoomIdx) omx

/-- An index that was set while the last one was being applied. -/
def applyUpdate (z : Zoom) (omx : Component) : Zoom :=
  if z.zoomUpdate then
    { (doZoom z (toInt z.targetZoomIdx) omx).2 with zoomUpdate := false, zoomUpdating := true }
  else { z with zoomUpdating := false }

/-- `advanceZoom` before the update. `getState(state)` reads the state without `mLock`, also
while a command is being executed. -/
def advanceIndex (z : Zoom) (a : Adapter) (state : AdapterState) (omx : Component) :
    Option (Int × Zoom × Adapter) := do
  if z.returnZoomStatus then
    let (ret, z) := returnStep z omx
    return (ret, z, a)
  else if z.currentZoomIdx ≠ z.targetZoomIdx then
    let (ret, z) := approach z (zoomActive state) omx
    if zoomActive state then
      if z.currentZoomIdx = z.targetZoomIdx then
        let (ret, a) ← if ret = noError then leaveZoomState a else some (ret, a)
        let z := { z with returnZoomStatus := false }
        return (ret, z.notifyZoomSubscribers true, a)
      else return (ret, z.notifyZoomSubscribers false, a)
    else return (ret, z, a)
  else if zoomActive state then
    let (ret, a) ← leaveZoomState a
    return (ret, z, a)
  else return (noError, z, a)

def advanceZoom (z : Zoom) (a : Adapter) (state : AdapterState) (omx update : Component) :
    Option (Int × Zoom × Adapter) := do
  let (ret, z, a) ← advanceIndex z a state omx
  return (ret, applyUpdate z update, a)

/-- The zoom parameter that `getParameters` answers, with `state` read before. -/
def getParametersZoom (z : Zoom) (a : Adapter) (state : AdapterState) :
    Option (UInt32 × Zoom × Adapter) :=
  if zoomActive state then do
    let z := if z.zoomParameterIdx ≠ z.currentZoomIdx then
      { z with zoomParameterIdx := z.zoomParameterIdx + ofInt z.zoomInc } else z
    let (_, a) ← if z.currentZoomIdx = z.targetZoomIdx ∧ z.zoomParameterIdx = z.currentZoomIdx then
      leaveZoomState a else some (noError, a)
    return (z.zoomParameterIdx, z, a)
  else some (z.currentZoomIdx, z, a)

/-! ## Runs -/

structure State where
  zoom : Zoom := {}
  adapter : Adapter

/-- `state` is what the thread has read of the state of the adapter; the command of another
thread may be between `setState` and its end. -/
inductive Step where
  | setParametersZoom (zoom : Int) (state : AdapterState) (omx : Component)
  | sendCommand (c : Command)
  | advanceZoom (state : AdapterState) (omx update : Component)
  | getParametersZoom (state : AdapterState)

/-- A smooth zoom command: the operation of the device is `execute`, which runs if
`setState` permits it. -/
def zoomCommand (s : State) (c : Command) (execute : Zoom → Int × Zoom) : Option State :=
  let (ret, z) := execute s.zoom
  (sendCommand s.adapter { c with device := ⟨ret, id⟩ }).map fun r =>
    { zoom := if selectState s.adapter.state c.operation = none then s.zoom else z
      adapter := r.2 }

/-- `none` is a call that waits for `mLock` forever. -/
def next (s : State) : Step → Option State
  | .setParametersZoom zoom state omx =>
    some { s with zoom := setParametersZoom s.zoom zoom state omx }
  | .sendCommand c =>
    match c.operation with
    | .startSmoothZoom => zoomCommand s c (startSmoothZoom · c.value1)
    | .stopSmoothZoom => zoomCommand s c stopSmoothZoom
    | _ => (sendCommand s.adapter c).map fun r => { s with adapter := r.2 }
  | .advanceZoom state omx update =>
    (advanceZoom s.zoom s.adapter state omx update).map fun r => { zoom := r.2.1, adapter := r.2.2 }
  | .getParametersZoom state =>
    (getParametersZoom s.zoom s.adapter state).map fun r => { zoom := r.2.1, adapter := r.2.2 }

/-! ## Indices in range -/

/-- An index of the table. -/
def Inside (index : UInt32) : Prop := (index.toNat : Int) < zoomStages

instance (index : UInt32) : Decidable (Inside index) :=
  inferInstanceAs (Decidable ((index.toNat : Int) < zoomStages))

/-- The indices, those that were reported, and the places of the table that were read. -/
structure InRange (z : Zoom) : Prop where
  current : Inside z.currentZoomIdx
  target : Inside z.targetZoomIdx
  notified : ∀ n ∈ z.notified, 0 ≤ n.1 ∧ n.1 < zoomStages
  scales : ∀ scale ∈ z.scales, scale ≠ none

/-- The current index is not the end of the table to which a step leads. -/
def Zoom.Fits (z : Zoom) : Prop :=
  (z.zoomInc = 1 → (z.currentZoomIdx.toNat : Int) ≠ zoomStages - 1) ∧
    (z.zoomInc = -1 → z.currentZoomIdx ≠ 0)

/-- A step that `stopSmoothZoom` has left does not start at the end to which it leads. -/
def PendingFits (s : State) : Step → Prop
  | .advanceZoom _ _ _ => s.zoom.returnZoomStatus = true → s.zoom.Fits
  | _ => True

theorem inside_ofInt {n : Int} (hlow : 0 ≤ n) (hhigh : n < zoomStages) :
    Inside (ofInt n) := by
  obtain ⟨k, rfl⟩ := Int.eq_ofNat_of_zero_le hlow
  have hk : k < 61 := by
    simp only [zoomStages] at hhigh
    omega
  have hto : (ofInt (k : Int)).toNat = k := by
    simp [ofInt]
    omega
  rw [Inside, hto]
  exact hhigh

theorem toInt_eq {index : UInt32} (h : index.toNat < 2147483648) : toInt index = index.toNat := by
  have hto : toInt index = index.toBitVec.toInt := rfl
  have hlt : 2 * index.toBitVec.toNat < 2 ^ 32 := by
    have heq : index.toBitVec.toNat = index.toNat := rfl
    omega
  rw [hto, BitVec.toInt_eq_toNat_of_lt hlt]
  rfl

theorem toInt_inside {index : UInt32} (h : Inside index) : toInt index = index.toNat := by
  simp only [Inside, zoomStages] at h
  exact toInt_eq (by omega)

theorem toNat_add_one {i : UInt32} (h : Inside i) : (i + ofInt 1).toNat = i.toNat + 1 := by
  have hone : (ofInt 1).toNat = 1 := by decide
  simp only [Inside, zoomStages] at h
  rw [toNat_add, hone]
  omega

theorem toNat_sub_one {i : UInt32} :
    (i + ofInt (-1)).toNat = if i = 0 then 4294967295 else i.toNat - 1 := by
  have hone : (ofInt (-1)).toNat = 4294967295 := by decide
  have hzero : i = 0 ↔ i.toNat = 0 := toNat_inj.symm
  have hi := i.toNat_lt
  rw [toNat_add, hone]
  simp only [hzero]
  split <;> omega

variable {omx : Component} {z' : Zoom} {s : State}

theorem readStep_checked {index : Int} (h : checkIndex index omx = noError) :
    readStep index ≠ none := by
  have hin : ¬ (0 > index ∨ zoomStages - 1 < index) := by
    intro hout
    rw [checkIndex, if_pos hout] at h
    exact absurd h (by decide)
  have hlen : zoomSteps.length = 61 := rfl
  simp only [zoomStages] at hin
  rw [readStep, if_pos (by omega), Ne, List.getElem?_eq_none_iff]
  omega

/-- What `doZoom` does: it changes the index applied, and reads the table inside. -/
theorem doZoom_spec (z : Zoom) (index : Int) (omx : Component) :
    ∃ previous scales, (doZoom z index omx).2 =
        { z with previousZoomIndx := previous, scales := scales } ∧
      ∀ scale ∈ scales, scale ∈ z.scales ∨ scale ≠ none := by
  rw [doZoom]
  split
  next => exact ⟨z.previousZoomIndx, z.scales, rfl, fun _ h => .inl h⟩
  next =>
    split
    next => exact ⟨z.previousZoomIndx, z.scales, rfl, fun _ h => .inl h⟩
    next hret =>
      have hread := readStep_checked (not_not.mp hret)
      have hscales : ∀ scale ∈ readStep index :: z.scales, scale ∈ z.scales ∨ scale ≠ none := by
        intro scale hscale
        rcases List.mem_cons.mp hscale with rfl | hold
        · exact .inr hread
        · exact .inl hold
      by_cases herror : omx.eError ≠ 0
      · exact ⟨z.previousZoomIndx, _, by rw [if_pos herror], hscales⟩
      · exact ⟨ofInt index, _, by rw [if_neg herror], hscales⟩

structure Sound (z : Zoom) : Prop extends InRange z where
  zoomInc : z.zoomInc = 1 ∨ z.zoomInc = -1

variable {z : Zoom}

theorem Sound.doZoom (h : Sound z) (index : Int) (omx : Component) :
    Sound (doZoom z index omx).2 := by
  obtain ⟨previous, scales, heq, hscales⟩ := doZoom_spec z index omx
  rw [heq]
  refine ⟨⟨h.current, h.target, h.notified, ?_⟩, h.zoomInc⟩
  intro scale hscale
  exact (hscales scale hscale).elim (h.scales scale) id

theorem Sound.withIndices (h : Sound z) {current target : UInt32} (hcurrent : Inside current)
    (htarget : Inside target) :
    Sound { z with targetZoomIdx := target, currentZoomIdx := current } :=
  ⟨⟨hcurrent, htarget, h.notified, h.scales⟩, h.zoomInc⟩

theorem Sound.notify (h : Sound z) (targetReached : Bool) :
    Sound (z.notifyZoomSubscribers targetReached) := by
  refine ⟨⟨h.current, h.target, ?_, h.scales⟩, h.zoomInc⟩
  intro n hn
  rcases List.mem_append.mp hn with hold | hnew
  · exact h.notified n hold
  · rw [List.mem_singleton.mp hnew, toInt_inside h.current]
    exact ⟨Int.natCast_nonneg _, h.current⟩

theorem Sound.turn (h : Sound z) : Sound z.turn := by
  refine ⟨⟨h.current, h.target, h.notified, h.scales⟩, ?_⟩
  rw [Zoom.turn]
  split
  · exact .inl rfl
  · exact .inr rfl

theorem Sound.move_iff (h : Sound z) : Inside z.move.currentZoomIdx ↔ z.Fits := by
  have hcurrent := h.current
  rw [Zoom.move, Zoom.Fits, Inside]
  rcases h.zoomInc with hinc | hinc
  · rw [hinc, toNat_add_one h.current]
    simp only [Inside, zoomStages] at hcurrent ⊢
    constructor
    · intro hlt
      exact ⟨fun _ => by omega, fun hneg => absurd hneg (by decide)⟩
    · intro hfits
      have hend := hfits.1 trivial
      omega
  · rw [hinc, toNat_sub_one]
    simp only [Inside, zoomStages] at hcurrent ⊢
    constructor
    · intro hlt
      refine ⟨fun hpos => absurd hpos (by decide), fun _ hzero => ?_⟩
      rw [if_pos hzero] at hlt
      omega
    · intro hfits
      rw [if_neg (hfits.2 trivial)]
      omega

theorem Sound.move (h : Sound z) (hfits : z.Fits) : Sound z.move :=
  ⟨⟨h.move_iff.mpr hfits, h.target, h.notified, h.scales⟩, h.zoomInc⟩

theorem Sound.turn_fits (h : Sound z) (hne : z.currentZoomIdx ≠ z.targetZoomIdx) :
    z.turn.Fits := by
  have htarget := h.target
  have hnat : z.currentZoomIdx.toNat ≠ z.targetZoomIdx.toNat := fun heq =>
    hne (toNat_inj.mp heq)
  simp only [Inside] at htarget
  constructor
  · intro hinc hend
    have hlt : z.currentZoomIdx < z.targetZoomIdx := by
      by_contra hge
      have hneg : z.turn.zoomInc = -1 := if_neg hge
      omega
    rw [UInt32.lt_iff_toNat_lt] at hlt
    simp only [Zoom.turn] at hend
    omega
  · intro hinc hzero
    have hge : ¬ z.currentZoomIdx < z.targetZoomIdx := by
      intro hlt
      have hpos : z.turn.zoomInc = 1 := if_pos hlt
      omega
    rw [UInt32.lt_iff_toNat_lt] at hge
    have hzero' : z.currentZoomIdx.toNat = 0 := toNat_inj.mpr hzero
    omega

/-! ## The calls -/

theorem Sound.setParametersZoom (h : Sound z) (zoom : Int) (state : AdapterState)
    (omx : Component) : Sound (setParametersZoom z zoom state omx) := by
  rw [SmoothZoom.setParametersZoom]
  split
  next => exact h
  next =>
    split
    next hin =>
      have hindex := inside_ofInt hin.1 hin.2
      have hset := h.withIndices hindex hindex
      dsimp only
      split
      next =>
        have hzoom := hset.doZoom (toInt (ofInt zoom)) omx
        exact ⟨⟨hzoom.current, hzoom.target, hzoom.notified, hzoom.scales⟩, hzoom.zoomInc⟩
      next => exact ⟨⟨hset.current, hset.target, hset.notified, hset.scales⟩, hset.zoomInc⟩
    next => exact h

theorem Sound.startSmoothZoom (h : Sound z) (targetIdx : Int) :
    Sound (startSmoothZoom z targetIdx).2 := by
  rw [SmoothZoom.startSmoothZoom]
  split
  next hin => exact ⟨⟨h.current, inside_ofInt hin.1 hin.2, h.notified, h.scales⟩, h.zoomInc⟩
  next => exact h

theorem Sound.stopSmoothZoom (h : Sound z) : Sound (stopSmoothZoom z).2 := by
  rw [SmoothZoom.stopSmoothZoom]
  split
  next =>
    have hturn := h.turn
    exact ⟨⟨hturn.current, hturn.target, hturn.notified, hturn.scales⟩, hturn.zoomInc⟩
  next => exact h

theorem Sound.returnStep (h : Sound z) (hfits : z.Fits) (omx : Component) :
    Sound (returnStep z omx).2 := by
  have hmove := h.move hfits
  have hset : Sound { z.move with
      targetZoomIdx := z.move.currentZoomIdx, returnZoomStatus := false } :=
    ⟨⟨hmove.current, hmove.current, hmove.notified, hmove.scales⟩, hmove.zoomInc⟩
  exact (hset.doZoom _ omx).notify true

theorem Sound.approach (h : Sound z) (hne : z.currentZoomIdx ≠ z.targetZoomIdx) (active : Bool)
    (omx : Component) : Sound (approach z active omx).2 := by
  cases active with
  | true => exact (h.turn.move (h.turn_fits hne)).doZoom _ omx
  | false => exact (h.withIndices h.target h.target).doZoom _ omx

theorem Sound.applyUpdate (h : Sound z) (omx : Component) : Sound (applyUpdate z omx) := by
  rw [SmoothZoom.applyUpdate]
  split
  next =>
    have hzoom := h.doZoom (toInt z.targetZoomIdx) omx
    exact ⟨⟨hzoom.current, hzoom.target, hzoom.notified, hzoom.scales⟩, hzoom.zoomInc⟩
  next => exact ⟨⟨h.current, h.target, h.notified, h.scales⟩, h.zoomInc⟩

theorem applyUpdate_current (z : Zoom) (omx : Component) :
    (applyUpdate z omx).currentZoomIdx = z.currentZoomIdx := by
  rw [applyUpdate]
  split
  next =>
    obtain ⟨previous, scales, heq, -⟩ := doZoom_spec z (toInt z.targetZoomIdx) omx
    rw [heq]
  next => rfl

theorem returnStep_current (z : Zoom) (omx : Component) :
    (returnStep z omx).2.currentZoomIdx = z.move.currentZoomIdx := by
  obtain ⟨previous, scales, heq, -⟩ := doZoom_spec
    { z.move with targetZoomIdx := z.move.currentZoomIdx, returnZoomStatus := false }
    (toInt z.move.currentZoomIdx) omx
  show ((doZoom _ _ omx).2.notifyZoomSubscribers true).currentZoomIdx = _
  rw [heq]
  rfl

theorem leaveZoomState_returns {a : Adapter} (h : a.locked = false) :
    ∃ ret a', leaveZoomState a = some (ret, a') ∧ a'.locked = false := by
  have hruns : Runs (fun a => (noError, a)) True :=
    ⟨fun _ => rfl, fun _ => rfl, fun _ => ⟨fun _ => trivial, fun _ => rfl⟩⟩
  obtain ⟨ret, a', heq, hlocked, -⟩ := transact_settled h .stopSmoothZoom hruns
  exact ⟨ret, a', heq, hlocked⟩

/-- What `advanceZoom` does to the zoom before the update. -/
inductive Advanced (z : Zoom) (omx : Component) : Zoom → Prop where
  | returned (hreturn : z.returnZoomStatus = true) : Advanced z omx (returnStep z omx).2
  | reached (hreturn : z.returnZoomStatus = false) (hne : z.currentZoomIdx ≠ z.targetZoomIdx) :
      Advanced z omx
        ({ (approach z true omx).2 with returnZoomStatus := false }.notifyZoomSubscribers true)
  | onTheWay (hreturn : z.returnZoomStatus = false) (hne : z.currentZoomIdx ≠ z.targetZoomIdx) :
      Advanced z omx ((approach z true omx).2.notifyZoomSubscribers false)
  | jumped (hreturn : z.returnZoomStatus = false) (hne : z.currentZoomIdx ≠ z.targetZoomIdx) :
      Advanced z omx (approach z false omx).2
  | resting (hreturn : z.returnZoomStatus = false) : Advanced z omx z

theorem advanceIndex_cases {a : Adapter} (ha : a.locked = false) (z : Zoom)
    (state : AdapterState) (omx : Component) :
    ∃ ret z' a', advanceIndex z a state omx = some (ret, z', a') ∧ a'.locked = false ∧
      Advanced z omx z' := by
  obtain ⟨ret, a', hleave, ha'⟩ := leaveZoomState_returns ha
  rw [advanceIndex]
  cases hreturn : z.returnZoomStatus with
  | true => exact ⟨_, _, a, rfl, ha, .returned hreturn⟩
  | false =>
    simp only [Bool.false_eq_true, if_false]
    by_cases hne : z.currentZoomIdx ≠ z.targetZoomIdx
    · rw [if_pos hne]
      cases zoomActive state with
      | false => exact ⟨_, _, a, rfl, ha, .jumped hreturn hne⟩
      | true =>
        rw [if_pos rfl]
        split
        next =>
          split
          next =>
            rw [hleave]
            exact ⟨_, _, a', rfl, ha', .reached hreturn hne⟩
          next => exact ⟨_, _, a, rfl, ha, .reached hreturn hne⟩
        next => exact ⟨_, _, a, rfl, ha, .onTheWay hreturn hne⟩
    · rw [if_neg hne]
      split
      next =>
        rw [hleave]
        exact ⟨_, _, a', rfl, ha', .resting hreturn⟩
      next => exact ⟨_, _, a, rfl, ha, .resting hreturn⟩

theorem Sound.advanced (h : Sound z) (hadv : Advanced z omx z')
    (hfits : z.returnZoomStatus = true → z.Fits) : Sound z' := by
  cases hadv with
  | returned hreturn => exact h.returnStep (hfits hreturn) omx
  | reached _ hne =>
    have happroach := h.approach hne true omx
    apply Sound.notify
    exact ⟨⟨happroach.current, happroach.target, happroach.notified, happroach.scales⟩,
      happroach.zoomInc⟩
  | onTheWay _ hne => exact (h.approach hne true omx).notify false
  | jumped _ hne => exact h.approach hne false omx
  | resting => exact h

theorem getParametersZoom_cases {a : Adapter} (ha : a.locked = false) (z : Zoom)
    (state : AdapterState) :
    ∃ value index a', getParametersZoom z a state =
        some (value, { z with zoomParameterIdx := index }, a') ∧ a'.locked = false := by
  obtain ⟨ret, a', hleave, ha'⟩ := leaveZoomState_returns ha
  rw [getParametersZoom]
  split
  next =>
    split
    next =>
      dsimp only
      split
      next =>
        rw [hleave]
        exact ⟨_, _, a', rfl, ha'⟩
      next => exact ⟨_, _, a, rfl, ha⟩
    next =>
      dsimp only
      split
      next =>
        rw [hleave]
        exact ⟨_, z.zoomParameterIdx, a', rfl, ha'⟩
      next => exact ⟨_, z.zoomParameterIdx, a, rfl, ha⟩
  next => exact ⟨_, z.zoomParameterIdx, a, rfl, ha⟩

/-! ## The table -/

/-- Only factors from the table were given to the component. -/
def ReadsInside (z : Zoom) : Prop := ∀ scale ∈ z.scales, scale ≠ none

/-- What `doZoom` does to the index applied and to the factors given, whatever else there is. -/
def Keeps (P : UInt32 → List (Option Int) → Prop) : Prop :=
  ∀ z index omx, P z.previousZoomIndx z.scales →
    P (doZoom z index omx).2.previousZoomIndx (doZoom z index omx).2.scales

theorem keeps_readsInside : Keeps fun _ scales => ∀ scale ∈ scales, scale ≠ none := by
  intro z index omx h
  obtain ⟨previous, scales, heq, hscales⟩ := doZoom_spec z index omx
  rw [heq]
  intro scale hscale
  exact (hscales scale hscale).elim (h scale) id

variable {P : UInt32 → List (Option Int) → Prop}

theorem Keeps.setParametersZoom (hP : Keeps P) (h : P z.previousZoomIndx z.scales) (zoom : Int)
    (state : AdapterState) (omx : Component) :
    P (setParametersZoom z zoom state omx).previousZoomIndx
      (setParametersZoom z zoom state omx).scales := by
  rw [SmoothZoom.setParametersZoom]
  split
  next => exact h
  next =>
    split
    next =>
      dsimp only
      split
      next =>
        exact hP { z with
          targetZoomIdx := ofInt zoom, currentZoomIdx := ofInt zoom } _ omx h
      next => exact h
    next => exact h

theorem Keeps.applyUpdate (hP : Keeps P) (h : P z.previousZoomIndx z.scales) (omx : Component) :
    P (applyUpdate z omx).previousZoomIndx (applyUpdate z omx).scales := by
  rw [SmoothZoom.applyUpdate]
  split
  next => exact hP z _ omx h
  next => exact h

theorem Keeps.approach (hP : Keeps P) (h : P z.previousZoomIndx z.scales) (active : Bool)
    (omx : Component) :
    P (approach z active omx).2.previousZoomIndx (approach z active omx).2.scales := by
  cases active with
  | true => exact hP z.turn.move _ omx h
  | false => exact hP { z with currentZoomIdx := z.targetZoomIdx } _ omx h

theorem Keeps.advanced (hP : Keeps P) (h : P z.previousZoomIndx z.scales)
    (hadv : Advanced z omx z') :
    P z'.previousZoomIndx z'.scales := by
  cases hadv with
  | returned =>
    exact hP { z.move with targetZoomIdx := z.move.currentZoomIdx, returnZoomStatus := false } _
      omx h
  | reached => exact hP.approach h true omx
  | onTheWay => exact hP.approach h true omx
  | jumped => exact hP.approach h false omx
  | resting => exact h

/-! ## One step of a run -/

inductive Moves (z : Zoom) : Step → Zoom → Prop where
  | setParametersZoom (zoom : Int) (state : AdapterState) (omx : Component) :
      Moves z (.setParametersZoom zoom state omx) (setParametersZoom z zoom state omx)
  | startSmoothZoom (c : Command) : Moves z (.sendCommand c) (startSmoothZoom z c.value1).2
  | stopSmoothZoom (c : Command) : Moves z (.sendCommand c) (stopSmoothZoom z).2
  | stay (c : Command) : Moves z (.sendCommand c) z
  | advanceZoom (state : AdapterState) (omx update : Component) {z' : Zoom}
      (hadv : Advanced z omx z') : Moves z (.advanceZoom state omx update) (applyUpdate z' update)
  | getParametersZoom (state : AdapterState) (index : UInt32) :
      Moves z (.getParametersZoom state) { z with zoomParameterIdx := index }

theorem zoomCommand_returns (hs : s.adapter.locked = false) (c : Command)
    (execute : Zoom → Int × Zoom) :
    ∃ s', zoomCommand s c execute = some s' ∧ s'.adapter.locked = false ∧
      (s'.zoom = s.zoom ∨ s'.zoom = (execute s.zoom).2) := by
  obtain ⟨ret, a', hsend, ha'⟩ := sendCommand_returns hs
    { c with device := ⟨(execute s.zoom).1, id⟩ }
  simp only [zoomCommand, hsend, Option.map_some]
  refine ⟨_, rfl, ha', ?_⟩
  by_cases hperm : selectState s.adapter.state c.operation = none
  · exact .inl (if_pos hperm)
  · exact .inr (if_neg hperm)

theorem next_moves (hs : s.adapter.locked = false) (a : Step) :
    ∃ s', next s a = some s' ∧ s'.adapter.locked = false ∧ Moves s.zoom a s'.zoom := by
  cases a with
  | setParametersZoom zoom state omx => exact ⟨_, rfl, hs, .setParametersZoom zoom state omx⟩
  | sendCommand c =>
    rw [next]
    split
    next =>
      obtain ⟨s', heq, hs', hzoom | hzoom⟩ :=
        zoomCommand_returns hs c (SmoothZoom.startSmoothZoom · c.value1)
      · exact ⟨s', heq, hs', hzoom ▸ .stay c⟩
      · exact ⟨s', heq, hs', hzoom ▸ .startSmoothZoom c⟩
    next =>
      obtain ⟨s', heq, hs', hzoom | hzoom⟩ := zoomCommand_returns hs c SmoothZoom.stopSmoothZoom
      · exact ⟨s', heq, hs', hzoom ▸ .stay c⟩
      · exact ⟨s', heq, hs', hzoom ▸ .stopSmoothZoom c⟩
    next =>
      obtain ⟨ret, a', hsend, ha'⟩ := sendCommand_returns hs c
      rw [hsend]
      exact ⟨_, rfl, ha', .stay c⟩
  | advanceZoom state omx update =>
    obtain ⟨ret, z', a', heq, ha', hadv⟩ := advanceIndex_cases hs s.zoom state omx
    rw [next, SmoothZoom.advanceZoom, heq]
    exact ⟨_, rfl, ha', .advanceZoom state omx update hadv⟩
  | getParametersZoom state =>
    obtain ⟨value, index, a', heq, ha'⟩ := getParametersZoom_cases hs s.zoom state
    rw [next, heq]
    exact ⟨_, rfl, ha', .getParametersZoom state index⟩

theorem Keeps.moves (hP : Keeps P) (h : P z.previousZoomIndx z.scales) {a : Step}
    (hmoves : Moves z a z') : P z'.previousZoomIndx z'.scales := by
  cases hmoves with
  | setParametersZoom zoom state omx => exact hP.setParametersZoom h zoom state omx
  | startSmoothZoom c =>
    rw [SmoothZoom.startSmoothZoom]
    split
    · exact h
    · exact h
  | stopSmoothZoom c =>
    rw [SmoothZoom.stopSmoothZoom]
    split
    · exact h
    · exact h
  | stay c => exact h
  | advanceZoom state omx update hadv => exact hP.applyUpdate (hP.advanced h hadv) update
  | getParametersZoom state index => exact h

theorem Sound.moves (h : Sound s.zoom) {a : Step} (hmoves : Moves s.zoom a z')
    (hfits : PendingFits s a) : Sound z' := by
  cases hmoves with
  | setParametersZoom zoom state omx => exact h.setParametersZoom zoom state omx
  | startSmoothZoom c => exact h.startSmoothZoom c.value1
  | stopSmoothZoom c => exact h.stopSmoothZoom
  | stay c => exact h
  | advanceZoom state omx update hadv => exact (h.advanced hadv hfits).applyUpdate update
  | getParametersZoom state index =>
    exact ⟨⟨h.current, h.target, h.notified, h.scales⟩, h.zoomInc⟩

theorem moves_outside (h : Sound s.zoom) {a : Step} (hmoves : Moves s.zoom a z')
    (hfits : ¬ PendingFits s a) : ¬ InRange z' := by
  intro hrange
  cases hmoves with
  | advanceZoom state omx update hadv =>
    simp only [PendingFits, Classical.not_imp] at hfits
    obtain ⟨hreturn, hend⟩ := hfits
    have hcurrent := hrange.current
    rw [applyUpdate_current] at hcurrent
    cases hadv with
    | returned =>
      rw [returnStep_current, h.move_iff] at hcurrent
      exact hend hcurrent
    | reached hno => exact absurd (hreturn.symm.trans hno) nofun
    | onTheWay hno => exact absurd (hreturn.symm.trans hno) nofun
    | jumped hno => exact absurd (hreturn.symm.trans hno) nofun
    | resting hno => exact absurd (hreturn.symm.trans hno) nofun
  | setParametersZoom zoom state omx => exact hfits trivial
  | startSmoothZoom c => exact hfits trivial
  | stopSmoothZoom c => exact hfits trivial
  | stay c => exact hfits trivial
  | getParametersZoom state index => exact hfits trivial

/-! ## Runs -/

/-- The camera after its construction; `mNextState` is not set. -/
def start (nextState : AdapterState) : State := { adapter := { next := nextState } }

theorem start_sound (nextState : AdapterState) : Sound (start nextState).zoom :=
  have hzero : Inside 0 := by decide
  ⟨⟨hzero, hzero, nofun, nofun⟩, .inl rfl⟩

/-- In every run the table is read inside only; the indices and what was reported stay in
range exactly if no step that `stopSmoothZoom` has left is taken from the end of the table
to which it leads. -/
theorem zoom_inRange_iff (nextState : AdapterState) (as : List Step) :
    Always next (fun s => ReadsInside s.zoom) (start nextState) as ∧
      (Always next (fun s => InRange s.zoom) (start nextState) as ↔
        Guarded next PendingFits (start nextState) as) := by
  have hfree : Guarded next (fun _ _ => True) (start nextState) as := guarded_true _ as
  constructor
  · apply hfree.always (J := fun s => s.adapter.locked = false ∧ ReadsInside s.zoom)
    · exact fun s hs => hs.2
    · intro s a hs _
      obtain ⟨s', heq, hs', hmoves⟩ := next_moves hs.1 a
      exact ⟨s', heq, hs', keeps_readsInside.moves hs.2 hmoves⟩
    · exact ⟨rfl, nofun⟩
  · apply always_iff_guarded_under (J := fun s => s.adapter.locked = false ∧ Sound s.zoom)
    · exact fun s hs => hs.2.toInRange
    · intro s a hs _ hfits
      obtain ⟨s', heq, hs', hmoves⟩ := next_moves hs.1 a
      exact ⟨s', heq, hs', hs.2.moves hmoves hfits⟩
    · intro s a s' hs _ hfits heq
      obtain ⟨t, ht, -, hmoves⟩ := next_moves hs.1 a
      cases ht.symm.trans heq
      exact moves_outside hs.2 hmoves hfits
    · exact ⟨rfl, start_sound nextState⟩
    · exact hfree

/-- Preview at index 59, a smooth zoom to 60, and its stop before the next frame. -/
def stopAtEnd : List Step :=
  [.sendCommand (succeeding .useBuffersPreview), .sendCommand (succeeding .startPreview),
    .setParametersZoom 59 .preview {}, .advanceZoom .preview {} {},
    .sendCommand { succeeding .startSmoothZoom with value1 := 60 },
    .sendCommand (succeeding .stopSmoothZoom)]

/-- The adapter is in preview then. The application sets index 60, and the next frame
reports index 61 as reached. -/
theorem zoom_overruns :
    (run next (start .intialized) stopAtEnd).map (·.adapter.state) = some .preview ∧
      (run next (start .intialized)
        (stopAtEnd ++ [.setParametersZoom 60 .preview {}, .advanceZoom .preview {} {}])).map
          (fun s => (s.zoom.currentZoomIdx, s.zoom.notified)) = some (61, [(61, true)]) ∧
      ¬ Always next (fun s => InRange s.zoom) (start .intialized)
        (stopAtEnd ++ [.setParametersZoom 60 .preview {}, .advanceZoom .preview {} {}]) := by
  have hend : (run next (start .intialized)
      (stopAtEnd ++ [.setParametersZoom 60 .preview {}, .advanceZoom .preview {} {}])).map
        (fun s => (s.zoom.currentZoomIdx, s.zoom.notified)) = some (61, [(61, true)]) := by
    decide
  refine ⟨by decide, hend, ?_⟩
  intro halways
  obtain ⟨s, hs, hrange⟩ := halways.last
  rw [hs, Option.map_some, Option.some.injEq, Prod.mk.injEq] at hend
  have hcurrent := hrange.current
  rw [hend.1] at hcurrent
  exact absurd hcurrent (by decide)

end Omap4Hal.Camera.SmoothZoom

import Omap4Hal.Camera.SmoothZoom

/- A smooth zoom from its start to its end: `advanceZoom` at every preview frame, with nothing else
   asked of the zoom and a component that takes every index.

   Two ways lead through `advanceZoom`. An index that is not the target yet is moved, reported and,
   at the target, the zoom state is left with the last report. An index that is the target from the
   start leaves the zoom state without a report. And an index that the application has set before,
   `mZoomUpdate`, is applied behind the first step, when the target is the one of the smooth zoom
   already. `completes_iff` says that nothing else goes wrong. -/
namespace Omap4Hal.Camera.ZoomCompletion

open Lib SmoothZoom
open UInt32 (ofInt toNat_inj)

/-! ## Frames -/

/-- `advanceZoom` with the state that the adapter is in, where the component takes the index. -/
def frame (s : State) : Option State := next s (.advanceZoom s.adapter.state {} {})

def frames : Nat → State → Option State
  | 0, s => some s
  | n + 1, s => (frames n s).bind frame

/-- What was reported as reached. -/
def reached (s : State) : List (Int × Bool) := s.zoom.notified.filter (·.2)

/-- The frames that follow take the current index to `t`, once. -/
structure Completes (s : State) (t : Int) : Prop where
  returns : ∀ n, ∃ s', frames n s = some s'
  moves : ∀ n s' s'', frames n s = some s' → frame s' = some s'' →
    toInt s''.zoom.currentZoomIdx =
      toInt s'.zoom.currentZoomIdx + (t - toInt s'.zoom.currentZoomIdx).sign
  applied : ∀ n s' s'', frames n s = some s' → frame s' = some s'' →
    s''.zoom.previousZoomIndx = s''.zoom.currentZoomIdx
  onTheWay : ∀ n s' s'', frames n s = some s' → frame s' = some s'' →
    toInt s''.zoom.currentZoomIdx ≠ t →
      s''.zoom.notified = s'.zoom.notified ++ [(toInt s''.zoom.currentZoomIdx, false)]
  once : ∃ n, ∀ m s', frames m s = some s' →
    (zoomActive s'.adapter.state = true ↔ m ≤ n) ∧
      reached s' = if m ≤ n then reached s else reached s ++ [(t, true)]

/-- The target is another index than the current one, which is at most one step outside of the
table, and an index that is still to be applied does not come between two steps. -/
def Ready (z : Zoom) (t : Int) : Prop :=
  (z.currentZoomIdx.toNat : Int) ≤ zoomStages ∧ (z.currentZoomIdx.toNat : Int) ≠ t ∧
    (z.zoomUpdate = true → (z.currentZoomIdx.toNat - t : Int).natAbs = 1)

/-! ## The functions -/

variable {index : UInt32} {z : Zoom}

theorem ofInt_toInt (h : Inside index) : ofInt (toInt index) = index := by
  have hlt := index.toNat_lt
  rw [toInt_inside h, ← toNat_inj]
  simp [ofInt]
  omega

theorem doZoom_inside (z : Zoom) (h : Inside index) :
    ∃ scales, doZoom z (toInt index) {} =
      (noError, { z with previousZoomIndx := index, scales := scales }) := by
  have hindex := toInt_inside h
  have hrange : ¬ (0 > toInt index ∨ zoomStages - 1 < toInt index) := by
    simp only [Inside, zoomStages] at h ⊢
    omega
  have hcheck : checkIndex (toInt index) {} = noError := if_neg hrange
  rw [doZoom, ofInt_toInt h]
  by_cases hsame : z.previousZoomIndx = index
  · exact ⟨z.scales, by rw [if_pos hsame, ← hsame]⟩
  · rw [if_neg hsame, if_neg (not_not.mpr hcheck)]
    exact ⟨_, rfl⟩

theorem doZoom_outside (z : Zoom) (h : ¬ Inside index) :
    (doZoom z (toInt index) {}).2 = z := by
  have hrange : 0 > toInt index ∨ zoomStages - 1 < toInt index := by
    simp only [Inside, zoomStages] at h ⊢
    by_cases hbig : index.toNat < 2147483648
    · rw [toInt_eq hbig]
      omega
    · have hto : toInt index = index.toBitVec.toInt := rfl
      have hnat : index.toBitVec.toNat = index.toNat := rfl
      rw [hto, BitVec.toInt_eq_toNat_cond]
      omega
  have hcheck : checkIndex (toInt index) {} ≠ noError := by
    rw [checkIndex, if_pos hrange]
    decide
  rw [doZoom]
  by_cases hsame : z.previousZoomIndx = ofInt (toInt index)
  · rw [if_pos hsame]
  · rw [if_neg hsame, if_pos hcheck]

theorem turn_move_toNat (htarget : Inside z.targetZoomIdx)
    (hne : z.currentZoomIdx ≠ z.targetZoomIdx) :
    z.turn.move.currentZoomIdx.toNat =
      if z.currentZoomIdx.toNat < z.targetZoomIdx.toNat then z.currentZoomIdx.toNat + 1
      else z.currentZoomIdx.toNat - 1 := by
  have hnat : z.currentZoomIdx.toNat ≠ z.targetZoomIdx.toNat := fun heq =>
    hne (toNat_inj.mp heq)
  rw [Zoom.move]
  by_cases hlt : z.currentZoomIdx.toNat < z.targetZoomIdx.toNat
  · have hinc : z.turn.zoomInc = 1 := if_pos (UInt32.lt_iff_toNat_lt.mpr hlt)
    have hinside : Inside z.currentZoomIdx := by
      simp only [Inside] at htarget ⊢
      omega
    rw [hinc, if_pos hlt]
    exact toNat_add_one hinside
  · have hinc : z.turn.zoomInc = -1 := if_neg fun h => hlt (UInt32.lt_iff_toNat_lt.mp h)
    have hzero : z.currentZoomIdx ≠ 0 := by
      intro hzero
      have hnone : z.currentZoomIdx.toNat = 0 := toNat_inj.mpr hzero
      omega
    rw [hinc, if_neg hlt]
    exact toNat_sub_one.trans (if_neg hzero)

theorem turn_move (htarget : Inside z.targetZoomIdx)
    (hstart : (z.currentZoomIdx.toNat : Int) ≤ zoomStages)
    (hne : z.currentZoomIdx ≠ z.targetZoomIdx) :
    Inside z.turn.move.currentZoomIdx ∧
      (z.turn.move.currentZoomIdx.toNat - z.targetZoomIdx.toNat : Int).natAbs + 1 =
        (z.currentZoomIdx.toNat - z.targetZoomIdx.toNat : Int).natAbs ∧
      (z.turn.move.currentZoomIdx.toNat : Int) = z.currentZoomIdx.toNat +
        (z.targetZoomIdx.toNat - z.currentZoomIdx.toNat : Int).sign := by
  have hnat : z.currentZoomIdx.toNat ≠ z.targetZoomIdx.toNat := fun heq =>
    hne (toNat_inj.mp heq)
  rw [Inside, turn_move_toNat htarget hne]
  simp only [Inside, zoomStages] at htarget hstart ⊢
  split_ifs with hlt
  · rw [Int.sign_eq_one_of_pos (by omega)]
    omega
  · rw [Int.sign_eq_neg_one_of_neg (by omega)]
    omega

theorem leaveZoomState_eq {a : Adapter} {n : AdapterState} (ha : a.locked = false)
    (hstop : selectState a.state .stopSmoothZoom = some n) :
    leaveZoomState a = some (noError, { a with state := n, next := n, locked := false }) := by
  simp [leaveZoomState, transact, setState, ha, hstop, finish, commitState]

/-! ## On the way -/

/-- A smooth zoom that has `d` steps to go. -/
structure Underway (t : UInt32) (d : Nat) (s : State) : Prop where
  target : s.zoom.targetZoomIdx = t
  inside : Inside t
  start : (s.zoom.currentZoomIdx.toNat : Int) ≤ zoomStages
  distance : (s.zoom.currentZoomIdx.toNat - t.toNat : Int).natAbs = d
  update : s.zoom.zoomUpdate = true → d = 1
  noReturn : s.zoom.returnZoomStatus = false
  unlocked : s.adapter.locked = false
  active : zoomActive s.adapter.state = true
  leaves : ∃ n, selectState s.adapter.state .stopSmoothZoom = some n ∧ zoomActive n = false

/-- A smooth zoom that has ended. -/
structure Rested (t : UInt32) (s : State) : Prop where
  target : s.zoom.targetZoomIdx = t
  inside : Inside t
  current : s.zoom.currentZoomIdx = t
  applied : s.zoom.previousZoomIndx = t
  noUpdate : s.zoom.zoomUpdate = false
  noReturn : s.zoom.returnZoomStatus = false
  inactive : zoomActive s.adapter.state = false

variable {t : UInt32} {d : Nat} {s : State}

theorem Underway.ne_target (h : Underway t (d + 1) s) :
    s.zoom.currentZoomIdx ≠ s.zoom.targetZoomIdx := by
  have hdistance := h.distance
  rw [h.target]
  intro heq
  rw [heq] at hdistance
  omega

theorem Underway.moved (h : Underway t (d + 1) s) :
    Inside s.zoom.turn.move.currentZoomIdx ∧
      (s.zoom.turn.move.currentZoomIdx.toNat - t.toNat : Int).natAbs = d ∧
      (s.zoom.turn.move.currentZoomIdx.toNat : Int) = s.zoom.currentZoomIdx.toNat +
        (t.toNat - s.zoom.currentZoomIdx.toNat : Int).sign := by
  obtain ⟨hinside, hcloser, hmoved⟩ := turn_move (h.target ▸ h.inside) h.start h.ne_target
  rw [h.target] at hcloser hmoved
  have hdistance := h.distance
  exact ⟨hinside, by omega, hmoved⟩

/-- The zoom behind a step that the component has taken. -/
def stepped (z : Zoom) (scales : List (Option Int)) : Zoom :=
  { z.turn.move with previousZoomIndx := z.turn.move.currentZoomIdx, scales := scales }

theorem approach_active (z : Zoom) (h : Inside z.turn.move.currentZoomIdx) :
    ∃ scales, approach z true {} = (noError, stepped z scales) :=
  doZoom_inside z.turn.move h

theorem applyUpdate_eq (h : Inside z.targetZoomIdx) :
    ∃ scales updating, applyUpdate z {} = { z with
      previousZoomIndx := if z.zoomUpdate then z.targetZoomIdx else z.previousZoomIndx
      scales := scales
      zoomUpdate := false
      zoomUpdating := updating } := by
  rw [applyUpdate]
  cases z.zoomUpdate with
  | true =>
    obtain ⟨scales, heq⟩ := doZoom_inside z h
    exact ⟨scales, true, by rw [if_pos rfl, heq]; rfl⟩
  | false => exact ⟨z.scales, false, by rw [if_neg (by decide)]; rfl⟩

theorem frame_eq {ret : Int} {a : Adapter}
    (h : advanceIndex s.zoom s.adapter s.adapter.state {} = some (ret, z, a)) :
    frame s = some ⟨applyUpdate z {}, a⟩ := by
  rw [frame, next, advanceZoom, h]
  rfl

/-- What a frame leaves of the zoom: an index that was still to be applied is by now. -/
structure After (s s' : State) (index : UInt32) (targetReached : Bool) : Prop where
  current : s'.zoom.currentZoomIdx = index
  target : s'.zoom.targetZoomIdx = s.zoom.targetZoomIdx
  applied : s'.zoom.previousZoomIndx =
    if s.zoom.zoomUpdate then s.zoom.targetZoomIdx else index
  noUpdate : s'.zoom.zoomUpdate = false
  noReturn : s'.zoom.returnZoomStatus = false
  notified : s'.zoom.notified = s.zoom.notified ++ [(toInt index, targetReached)]

theorem frame_moves (hinside : Inside s.zoom.turn.move.currentZoomIdx)
    (htarget : Inside s.zoom.targetZoomIdx) (hreturn : s.zoom.returnZoomStatus = false)
    (hactive : zoomActive s.adapter.state = true)
    (hne : s.zoom.currentZoomIdx ≠ s.zoom.targetZoomIdx)
    (hfar : s.zoom.turn.move.currentZoomIdx ≠ s.zoom.targetZoomIdx) :
    ∃ s', frame s = some s' ∧ s'.adapter = s.adapter ∧
      After s s' s.zoom.turn.move.currentZoomIdx false := by
  obtain ⟨scales, happroach⟩ := approach_active s.zoom hinside
  have hfar' : ¬ (stepped s.zoom scales).currentZoomIdx = (stepped s.zoom scales).targetZoomIdx :=
    hfar
  have hadvance : advanceIndex s.zoom s.adapter s.adapter.state {} =
      some (noError, (stepped s.zoom scales).notifyZoomSubscribers false, s.adapter) := by
    simp only [advanceIndex, hreturn, hactive, happroach, if_pos hne, if_neg hfar']
    rfl
  have htarget' : Inside ((stepped s.zoom scales).notifyZoomSubscribers false).targetZoomIdx :=
    htarget
  obtain ⟨scales', updating, hupdate⟩ := applyUpdate_eq htarget'
  refine ⟨_, frame_eq hadvance, rfl, ?_⟩
  rw [hupdate]
  exact ⟨rfl, rfl, rfl, rfl, hreturn, rfl⟩

theorem frame_outside (houtside : ¬ Inside s.zoom.turn.move.currentZoomIdx)
    (htarget : Inside s.zoom.targetZoomIdx) (hreturn : s.zoom.returnZoomStatus = false)
    (hactive : zoomActive s.adapter.state = true)
    (hne : s.zoom.currentZoomIdx ≠ s.zoom.targetZoomIdx) :
    ∃ s', frame s = some s' ∧ s'.zoom.currentZoomIdx = s.zoom.turn.move.currentZoomIdx := by
  have happroach : (approach s.zoom true {}).2 = s.zoom.turn.move :=
    doZoom_outside s.zoom.turn.move houtside
  have hfar : ¬ (approach s.zoom true {}).2.currentZoomIdx =
      (approach s.zoom true {}).2.targetZoomIdx := by
    rw [happroach]
    intro heq
    exact houtside (heq ▸ htarget)
  have hadvance : advanceIndex s.zoom s.adapter s.adapter.state {} =
      some ((approach s.zoom true {}).1,
        (approach s.zoom true {}).2.notifyZoomSubscribers false, s.adapter) := by
    simp only [advanceIndex, hreturn, hactive, if_pos hne, if_neg hfar]
    rfl
  refine ⟨_, frame_eq hadvance, ?_⟩
  rw [applyUpdate_current, happroach]
  rfl

theorem frame_reaches {n : AdapterState} (htarget : Inside s.zoom.targetZoomIdx)
    (hreturn : s.zoom.returnZoomStatus = false) (hactive : zoomActive s.adapter.state = true)
    (hunlocked : s.adapter.locked = false)
    (hstop : selectState s.adapter.state .stopSmoothZoom = some n)
    (hne : s.zoom.currentZoomIdx ≠ s.zoom.targetZoomIdx)
    (hreached : s.zoom.turn.move.currentZoomIdx = s.zoom.targetZoomIdx) :
    ∃ s', frame s = some s' ∧ s'.adapter.state = n ∧
      After s s' s.zoom.turn.move.currentZoomIdx true := by
  have hinside : Inside s.zoom.turn.move.currentZoomIdx := hreached ▸ htarget
  obtain ⟨scales, happroach⟩ := approach_active s.zoom hinside
  have hreached' : (stepped s.zoom scales).currentZoomIdx = (stepped s.zoom scales).targetZoomIdx :=
    hreached
  have hadvance : advanceIndex s.zoom s.adapter s.adapter.state {} = some (noError,
      { stepped s.zoom scales with returnZoomStatus := false }.notifyZoomSubscribers true,
      { s.adapter with state := n, next := n, locked := false }) := by
    simp only [advanceIndex, hreturn, hactive, happroach, if_pos hne, if_pos hreached',
      leaveZoomState_eq hunlocked hstop]
    rfl
  have htarget' : Inside ({ stepped s.zoom scales with
      returnZoomStatus := false }.notifyZoomSubscribers true).targetZoomIdx := htarget
  obtain ⟨scales', updating, hupdate⟩ := applyUpdate_eq htarget'
  refine ⟨_, frame_eq hadvance, rfl, ?_⟩
  rw [hupdate]
  exact ⟨rfl, rfl, rfl, rfl, rfl, rfl⟩

theorem frame_silent {n : AdapterState} (hreturn : s.zoom.returnZoomStatus = false)
    (hactive : zoomActive s.adapter.state = true) (hunlocked : s.adapter.locked = false)
    (hstop : selectState s.adapter.state .stopSmoothZoom = some n)
    (heq : s.zoom.currentZoomIdx = s.zoom.targetZoomIdx) :
    ∃ s', frame s = some s' ∧ s'.adapter.state = n ∧ s'.zoom.notified = s.zoom.notified := by
  have hadvance : advanceIndex s.zoom s.adapter s.adapter.state {} = some (noError, s.zoom,
      { s.adapter with state := n, next := n, locked := false }) := by
    simp only [advanceIndex, hreturn, hactive, if_neg (not_not.mpr heq),
      leaveZoomState_eq hunlocked hstop]
    rfl
  refine ⟨_, frame_eq hadvance, rfl, ?_⟩
  show (applyUpdate s.zoom {}).notified = s.zoom.notified
  rw [applyUpdate]
  split
  · obtain ⟨previous, scales, hzoom, -⟩ := doZoom_spec s.zoom (toInt s.zoom.targetZoomIdx) {}
    rw [hzoom]
  · rfl

theorem Rested.frame (h : Rested t s) :
    ∃ s', frame s = some s' ∧ Rested t s' ∧ s'.zoom.notified = s.zoom.notified := by
  have hadvance : advanceIndex s.zoom s.adapter s.adapter.state {} =
      some (noError, s.zoom, s.adapter) := by
    have heq : s.zoom.currentZoomIdx = s.zoom.targetZoomIdx := h.current.trans h.target.symm
    simp only [advanceIndex, h.noReturn, h.inactive, if_neg (not_not.mpr heq)]
    rfl
  obtain ⟨scales, updating, hupdate⟩ := @applyUpdate_eq s.zoom (h.target ▸ h.inside)
  refine ⟨_, frame_eq hadvance, ?_, ?_⟩
  · rw [hupdate]
    refine ⟨h.target, h.inside, h.current, ?_, rfl, h.noReturn, h.inactive⟩
    simp only [h.noUpdate]
    exact h.applied
  · rw [hupdate]

theorem Underway.frame (h : Underway t (d + 2) s) :
    ∃ s', frame s = some s' ∧ Underway t (d + 1) s' ∧
      After s s' s.zoom.turn.move.currentZoomIdx false := by
  obtain ⟨hinside, hdistance, -⟩ := h.moved
  have hfar : s.zoom.turn.move.currentZoomIdx ≠ s.zoom.targetZoomIdx := by
    rw [h.target]
    intro heq
    rw [heq] at hdistance
    omega
  obtain ⟨s', hframe, hadapter, hafter⟩ := frame_moves hinside (h.target ▸ h.inside) h.noReturn
    h.active h.ne_target hfar
  refine ⟨s', hframe, ?_, hafter⟩
  exact
    { target := hafter.target.trans h.target
      inside := h.inside
      start := by rw [hafter.current]; exact le_of_lt hinside
      distance := by rw [hafter.current]; exact hdistance
      update := by rw [hafter.noUpdate]; exact fun hpending => absurd hpending (by decide)
      noReturn := hafter.noReturn
      unlocked := by rw [hadapter]; exact h.unlocked
      active := by rw [hadapter]; exact h.active
      leaves := by rw [hadapter]; exact h.leaves }

theorem Underway.frame_last (h : Underway t 1 s) :
    ∃ s', ZoomCompletion.frame s = some s' ∧ Rested t s' ∧
      After s s' s.zoom.turn.move.currentZoomIdx true := by
  obtain ⟨-, hdistance, -⟩ := h.moved
  obtain ⟨n, hstop, hinactive⟩ := h.leaves
  have hreached : s.zoom.turn.move.currentZoomIdx = t := by
    rw [← toNat_inj]
    omega
  obtain ⟨s', hframe, hstate, hafter⟩ := frame_reaches (h.target ▸ h.inside) h.noReturn h.active
    h.unlocked hstop h.ne_target (hreached.trans h.target.symm)
  refine ⟨s', hframe, ?_, hafter⟩
  have happlied := hafter.applied
  rw [hreached, h.target, ite_self] at happlied
  exact
    { target := hafter.target.trans h.target
      inside := h.inside
      current := hafter.current.trans hreached
      applied := happlied
      noUpdate := hafter.noUpdate
      noReturn := hafter.noReturn
      inactive := by rw [hstate]; exact hinactive }

/-- What every frame of a smooth zoom to `t` does. -/
structure Advances (t : UInt32) (s s' : State) : Prop where
  start : (s.zoom.currentZoomIdx.toNat : Int) ≤ zoomStages
  inside : Inside s'.zoom.currentZoomIdx
  moved : (s'.zoom.currentZoomIdx.toNat : Int) =
    s.zoom.currentZoomIdx.toNat + (t.toNat - s.zoom.currentZoomIdx.toNat : Int).sign
  applied : s'.zoom.previousZoomIndx = s'.zoom.currentZoomIdx
  onTheWay : s'.zoom.currentZoomIdx ≠ t →
    s'.zoom.notified = s.zoom.notified ++ [(toInt s'.zoom.currentZoomIdx, false)]

theorem Underway.advances (h : Underway t (d + 1) s) :
    ∃ s', ZoomCompletion.frame s = some s' ∧ Advances t s s' ∧
      (d = 0 ∧ Rested t s' ∧ reached s' = reached s ++ [(toInt t, true)] ∨
        0 < d ∧ Underway t d s' ∧ reached s' = reached s) := by
  obtain ⟨hinside, hdistance, hmoved⟩ := h.moved
  cases d with
  | zero =>
    have hreach : s.zoom.turn.move.currentZoomIdx = t := by
      rw [← toNat_inj]
      omega
    obtain ⟨s', hframe, hrest, hafter⟩ := h.frame_last
    have hsteps : Advances t s s' :=
      { start := h.start
        inside := by rw [hafter.current]; exact hinside
        moved := by rw [hafter.current]; exact hmoved
        applied := hrest.applied.trans hrest.current.symm
        onTheWay := fun hne => absurd hrest.current hne }
    refine ⟨s', hframe, hsteps, Or.inl ⟨rfl, hrest, ?_⟩⟩
    rw [reached, hafter.notified, hreach, List.filter_append]
    rfl
  | succ d =>
    obtain ⟨s', hframe, hway, hafter⟩ := h.frame
    have hupdate : ¬ s.zoom.zoomUpdate = true := fun hpending =>
      absurd (h.update hpending) (by omega)
    have happlied := hafter.applied
    rw [if_neg hupdate] at happlied
    have hsteps : Advances t s s' :=
      { start := h.start
        inside := by rw [hafter.current]; exact hinside
        moved := by rw [hafter.current]; exact hmoved
        applied := happlied.trans hafter.current.symm
        onTheWay := fun _ => by rw [hafter.current]; exact hafter.notified }
    refine ⟨s', hframe, hsteps, Or.inr ⟨Nat.succ_pos d, hway, ?_⟩⟩
    rw [reached, hafter.notified, List.filter_append]
    exact List.append_nil _

theorem Rested.advances (h : Rested t s) :
    ∃ s', ZoomCompletion.frame s = some s' ∧ Advances t s s' ∧ Rested t s' ∧
      reached s' = reached s := by
  obtain ⟨s', hframe, hrest, hsame⟩ := h.frame
  have hinside : Inside s.zoom.currentZoomIdx := h.current ▸ h.inside
  have hsteps : Advances t s s' :=
    { start := le_of_lt hinside
      inside := hrest.current ▸ hrest.inside
      moved := by rw [hrest.current, h.current]; simp
      applied := hrest.applied.trans hrest.current.symm
      onTheWay := fun hne => absurd hrest.current hne }
  exact ⟨s', hframe, hsteps, hrest, by rw [reached, hsame, reached]⟩

/-! ## Runs -/

/-- Where `n` frames have got to from `d` steps before the target. -/
inductive Phase (t : UInt32) (d n : Nat) (s s' : State) : Prop where
  | underway (hn : n < d) (hway : Underway t (d - n) s') (hreached : reached s' = reached s)
  | rested (hn : d ≤ n) (hrest : Rested t s')
      (hreached : reached s' = reached s ++ [(toInt t, true)])

theorem Phase.next {n : Nat} {s' : State} (h : Phase t d n s s') :
    ∃ s'', frame s' = some s'' ∧ Advances t s' s'' ∧ Phase t d (n + 1) s s'' := by
  cases h with
  | underway hn hway hreached =>
    obtain ⟨k, hk⟩ : ∃ k, d - n = k + 1 := ⟨d - n - 1, by omega⟩
    rw [hk] at hway
    obtain ⟨s'', hframe, hsteps, ⟨rfl, hrest, hlast⟩ | ⟨hpos, hway', hsame⟩⟩ := hway.advances
    · exact ⟨s'', hframe, hsteps, .rested (by omega) hrest (by rw [hlast, hreached])⟩
    · have hleft : d - (n + 1) = k := by omega
      exact ⟨s'', hframe, hsteps, .underway (by omega) (hleft ▸ hway') (by rw [hsame, hreached])⟩
  | rested hn hrest hreached =>
    obtain ⟨s'', hframe, hsteps, hrest', hsame⟩ := hrest.advances
    exact ⟨s'', hframe, hsteps, .rested (by omega) hrest' (hsame.trans hreached)⟩

theorem Underway.frames (h : Underway t (d + 1) s) (n : Nat) :
    ∃ s', frames n s = some s' ∧ Phase t (d + 1) n s s' := by
  induction n with
  | zero => exact ⟨s, rfl, .underway (Nat.succ_pos d) h rfl⟩
  | succ n ih =>
    obtain ⟨s', hframes, hphase⟩ := ih
    obtain ⟨s'', hframe, -, hphase'⟩ := hphase.next
    exact ⟨s'', by rw [ZoomCompletion.frames, hframes]; exact hframe, hphase'⟩

theorem Underway.completes (h : Underway t (d + 1) s) : Completes s (toInt t) := by
  have hsteps : ∀ n s' s'', ZoomCompletion.frames n s = some s' →
      ZoomCompletion.frame s' = some s'' → Advances t s' s'' := by
    intro n s' s'' hframes hframe
    obtain ⟨u, hu, hphase⟩ := h.frames n
    cases hu.symm.trans hframes
    obtain ⟨v, hv, hadvances, -⟩ := hphase.next
    cases hv.symm.trans hframe
    exact hadvances
  constructor
  case returns =>
    intro n
    obtain ⟨s', hs', -⟩ := h.frames n
    exact ⟨s', hs'⟩
  case moves =>
    intro n s' s'' hframes hframe
    have hadvances := hsteps n s' s'' hframes hframe
    have hstart := hadvances.start
    simp only [zoomStages] at hstart
    rw [toInt_inside hadvances.inside, toInt_eq (by omega), toInt_inside h.inside]
    exact hadvances.moved
  case applied => exact fun n s' s'' hframes hframe => (hsteps n s' s'' hframes hframe).applied
  case onTheWay =>
    intro n s' s'' hframes hframe hne
    exact (hsteps n s' s'' hframes hframe).onTheWay fun heq => hne (by rw [heq])
  case once =>
    refine ⟨d, fun m s' hframes => ?_⟩
    obtain ⟨u, hu, hphase⟩ := h.frames m
    cases hu.symm.trans hframes
    cases hphase with
    | underway hm hway hreached =>
      exact ⟨iff_of_true hway.active (by omega), by rw [if_pos (by omega), hreached]⟩
    | rested hm hrest hreached =>
      refine ⟨iff_of_false ?_ (by omega), by rw [if_neg (by omega), hreached]⟩
      rw [hrest.inactive]
      decide

/-! ## The start -/

theorem keeps_inside : Keeps fun previous _ => Inside previous := by
  intro z index omx h
  rw [doZoom]
  by_cases hsame : z.previousZoomIndx = ofInt index
  · rw [if_pos hsame]
    exact h
  · rw [if_neg hsame]
    by_cases hcheck : checkIndex index omx ≠ noError
    · rw [if_pos hcheck]
      exact h
    · rw [if_neg hcheck]
      have hin : ¬ (0 > index ∨ zoomStages - 1 < index) := by
        intro hout
        rw [checkIndex, if_pos hout] at hcheck
        exact hcheck (by decide)
      by_cases herror : omx.eError ≠ 0
      · simp only [if_pos herror]
        exact h
      · simp only [if_neg herror]
        exact inside_ofInt (by omega) (by omega)

theorem reachable {nextState : AdapterState} {as : List Step}
    (h : run next (SmoothZoom.start nextState) as = some s) :
    s.adapter.locked = false ∧ Inside s.zoom.previousZoomIndx := by
  refine run_induct (I := fun s => s.adapter.locked = false ∧ Inside s.zoom.previousZoomIndx)
    ?_ ⟨rfl, (start_sound nextState).current⟩ h
  intro s a s' hs hstep
  obtain ⟨u, hu, hlocked, hmoves⟩ := next_moves hs.1 a
  cases hu.symm.trans hstep
  exact ⟨hlocked, keeps_inside.moves hs.2 hmoves⟩

theorem zoom_states {state n : AdapterState} (h : selectState state .startSmoothZoom = some n) :
    zoomActive n = true ∧ ∃ m, selectState n .stopSmoothZoom = some m ∧ zoomActive m = false := by
  cases state with
  | preview | af | video =>
    cases h
    exact ⟨rfl, _, rfl, rfl⟩
  | _ => cases h

/-- An accepted start. -/
structure Started (s s' : State) (t : Int) : Prop where
  zoom : s'.zoom = { s.zoom with
    targetZoomIdx := ofInt t
    zoomParameterIdx := s.zoom.currentZoomIdx
    returnZoomStatus := false }
  unlocked : s'.adapter.locked = false
  active : zoomActive s'.adapter.state = true
  leaves : ∃ n, selectState s'.adapter.state .stopSmoothZoom = some n ∧ zoomActive n = false

theorem started {s' : State} {c : Command} (hunlocked : s.adapter.locked = false)
    (hc : c.operation = .startSmoothZoom)
    (haccepted : selectState s.adapter.state .startSmoothZoom ≠ none)
    (ht : 0 ≤ c.value1 ∧ c.value1 < zoomStages) (hstart : next s (.sendCommand c) = some s') :
    Started s s' c.value1 := by
  obtain ⟨n, hn⟩ := Option.ne_none_iff_exists'.mp haccepted
  obtain ⟨hactive, hleaves⟩ := zoom_states hn
  have hcommand : next s (.sendCommand c) = some
      { zoom := (startSmoothZoom s.zoom c.value1).2
        adapter := { s.adapter with
          state := n, next := n, locked := false
          ops := s.adapter.ops ++ [.startSmoothZoom c.value1] } } := by
    have hzoom : startSmoothZoom s.zoom c.value1 = (noError, _) := if_pos ht
    simp [next, hc, zoomCommand, hzoom, sendCommand, transact, setState, hunlocked, hn, perform,
      finish, commitState]
  cases hcommand.symm.trans hstart
  have hzoom : (startSmoothZoom s.zoom c.value1).2 = _ := congrArg Prod.snd (if_pos ht)
  exact ⟨hzoom, rfl, hactive, hleaves⟩

variable {s' : State} {n : Int}

theorem ofInt_inside (hn : 0 ≤ n ∧ n < zoomStages) :
    Inside (ofInt n) ∧ toInt (ofInt n) = n ∧ ((ofInt n).toNat : Int) = n := by
  have hinside := inside_ofInt hn.1 hn.2
  have hnat : ((ofInt n).toNat : Int) = n := by
    simp only [zoomStages] at hn
    simp [ofInt]
    omega
  exact ⟨hinside, (toInt_inside hinside).trans hnat, hnat⟩

theorem Started.completes (h : Started s s' n) (hn : 0 ≤ n ∧ n < zoomStages)
    (hready : Ready s.zoom n) : Completes s' n := by
  obtain ⟨hinside, hint, hnat⟩ := ofInt_inside hn
  obtain ⟨hstart, hne, hupdate⟩ := hready
  obtain ⟨d, hd⟩ : ∃ d, (s.zoom.currentZoomIdx.toNat - n : Int).natAbs = d + 1 :=
    ⟨(s.zoom.currentZoomIdx.toNat - n : Int).natAbs - 1, by omega⟩
  have hway : Underway (ofInt n) (d + 1) s' :=
    { target := by rw [h.zoom]
      inside := hinside
      start := by rw [h.zoom]; exact hstart
      distance := by rw [h.zoom, hnat]; exact hd
      update := by rw [h.zoom, ← hd]; exact hupdate
      noReturn := by rw [h.zoom]
      unlocked := h.unlocked
      active := h.active
      leaves := h.leaves }
  rw [← hint]
  exact hway.completes

theorem Started.silent (h : Started s s' n) (hn : 0 ≤ n ∧ n < zoomStages)
    (heq : (s.zoom.currentZoomIdx.toNat : Int) = n) : ¬ Completes s' n := by
  intro hcompletes
  obtain ⟨m, hm, hinactive⟩ := h.leaves
  have hcurrent : s'.zoom.currentZoomIdx = s'.zoom.targetZoomIdx := by
    obtain ⟨-, -, hnat⟩ := ofInt_inside hn
    rw [h.zoom, ← toNat_inj]
    show s.zoom.currentZoomIdx.toNat = (ofInt n).toNat
    omega
  obtain ⟨s'', hframe, hstate, hsame⟩ :=
    frame_silent (by rw [h.zoom]) h.active h.unlocked hm hcurrent
  obtain ⟨k, hk⟩ := hcompletes.once
  obtain ⟨hactive, hreached⟩ := hk 1 s'' hframe
  have hpast : ¬ 1 ≤ k := by
    rw [← hactive, hstate, hinactive]
    decide
  have hlen := congrArg List.length hreached
  rw [if_neg hpast, reached, hsame, ← reached, List.length_append] at hlen
  exact absurd hlen (by simp)

theorem Started.unapplied (h : Started s s' n) (hn : 0 ≤ n ∧ n < zoomStages)
    (hprevious : Inside s.zoom.previousZoomIndx)
    (hout : zoomStages < (s.zoom.currentZoomIdx.toNat : Int)) : ¬ Completes s' n := by
  intro hcompletes
  obtain ⟨hinside, -, hnat⟩ := ofInt_inside hn
  have htarget : s'.zoom.targetZoomIdx = ofInt n := by rw [h.zoom]
  have hcurrent : s'.zoom.currentZoomIdx = s.zoom.currentZoomIdx := by rw [h.zoom]
  have hne : s'.zoom.currentZoomIdx ≠ s'.zoom.targetZoomIdx := by
    rw [htarget, hcurrent]
    intro heq
    rw [heq] at hout
    omega
  have hmove := turn_move_toNat (htarget ▸ hinside) hne
  rw [htarget, hcurrent, if_neg (by omega)] at hmove
  have houtside : ¬ Inside s'.zoom.turn.move.currentZoomIdx := by
    simp only [Inside, zoomStages] at hout ⊢
    omega
  obtain ⟨s'', hframe, hcurrent''⟩ :=
    frame_outside houtside (htarget ▸ hinside) (by rw [h.zoom]) h.active hne
  have hprevious' : Inside s'.zoom.previousZoomIndx := by
    rw [h.zoom]
    exact hprevious
  obtain ⟨u, hu, -, hmoves⟩ := next_moves h.unlocked (.advanceZoom s'.adapter.state {} {})
  obtain rfl : u = s'' := Option.some.inj (hu.symm.trans hframe)
  have happlied := hcompletes.applied 0 s' u rfl hframe
  have hprevious'' : Inside u.zoom.previousZoomIndx := keeps_inside.moves hprevious' hmoves
  rw [happlied, hcurrent''] at hprevious''
  exact houtside hprevious''

theorem Started.overtaken (h : Started s s' n) (hn : 0 ≤ n ∧ n < zoomStages)
    (hstart : (s.zoom.currentZoomIdx.toNat : Int) ≤ zoomStages)
    (hupdate : s.zoom.zoomUpdate = true)
    (hfar : 1 < (s.zoom.currentZoomIdx.toNat - n : Int).natAbs) : ¬ Completes s' n := by
  intro hcompletes
  obtain ⟨hinside, -, hnat⟩ := ofInt_inside hn
  have htarget : s'.zoom.targetZoomIdx = ofInt n := by rw [h.zoom]
  have hcurrent : s'.zoom.currentZoomIdx = s.zoom.currentZoomIdx := by rw [h.zoom]
  have hne : s'.zoom.currentZoomIdx ≠ s'.zoom.targetZoomIdx := by
    rw [htarget, hcurrent]
    intro heq
    rw [heq] at hfar
    omega
  obtain ⟨hmoved, hcloser, -⟩ := turn_move (htarget ▸ hinside) (hcurrent ▸ hstart) hne
  rw [htarget, hcurrent, hnat] at hcloser
  have hfar' : s'.zoom.turn.move.currentZoomIdx ≠ s'.zoom.targetZoomIdx := by
    rw [htarget]
    intro heq
    rw [heq] at hcloser
    omega
  obtain ⟨s'', hframe, -, hafter⟩ :=
    frame_moves hmoved (htarget ▸ hinside) (by rw [h.zoom]) h.active hne hfar'
  have happlied := hcompletes.applied 0 s' s'' rfl hframe
  have hpending : s'.zoom.zoomUpdate = true := by
    rw [h.zoom]
    exact hupdate
  rw [hafter.applied, hafter.current, if_pos hpending] at happlied
  exact hfar' happlied.symm

/-! ## Completion -/

/-- A smooth zoom that starts in a state that can be reached is completed, one step a frame, exactly
if it starts at another index than its target, at most one step outside of the table, and with no
index still to be applied before a second step. -/
theorem completes_iff (nextState : AdapterState) (as : List Step) (s s' : State) (c : Command)
    (hrun : run next (SmoothZoom.start nextState) as = some s) (hc : c.operation = .startSmoothZoom)
    (haccepted : selectState s.adapter.state .startSmoothZoom ≠ none)
    (hn : 0 ≤ c.value1 ∧ c.value1 < zoomStages) (hstart : next s (.sendCommand c) = some s') :
    Completes s' c.value1 ↔ Ready s.zoom c.value1 := by
  obtain ⟨hunlocked, hprevious⟩ := reachable hrun
  have hstarted := started hunlocked hc haccepted hn hstart
  refine ⟨?_, hstarted.completes hn⟩
  intro hcompletes
  have hinside : (s.zoom.currentZoomIdx.toNat : Int) ≤ zoomStages := by
    by_contra hout
    exact hstarted.unapplied hn hprevious (not_le.mp hout) hcompletes
  have hne : (s.zoom.currentZoomIdx.toNat : Int) ≠ c.value1 :=
    fun heq => hstarted.silent hn heq hcompletes
  refine ⟨hinside, hne, ?_⟩
  intro hupdate
  by_contra hfar
  exact hstarted.overtaken hn hinside hupdate (by omega) hcompletes

def previewed : List Step :=
  [.sendCommand (succeeding .useBuffersPreview), .sendCommand (succeeding .startPreview)]

/-- From 0 to 3. -/
theorem completes_three : ∃ s s', run next (SmoothZoom.start .intialized) previewed = some s ∧
    next s (.sendCommand { succeeding .startSmoothZoom with value1 := 3 }) = some s' ∧
      (Completes s' 3 ↔ Ready s.zoom 3) :=
  ⟨_, _, rfl, rfl, completes_iff .intialized previewed _ _
    { succeeding .startSmoothZoom with value1 := 3 } rfl rfl (by decide) (by decide) rfl⟩

/-- From 0 to 0 no report is made. -/
theorem same_index_silent : ¬ ∀ (nextState : AdapterState) (as : List Step) (s s' : State)
    (c : Command), run next (SmoothZoom.start nextState) as = some s →
      c.operation = .startSmoothZoom → selectState s.adapter.state .startSmoothZoom ≠ none →
        0 ≤ c.value1 ∧ c.value1 < zoomStages → next s (.sendCommand c) = some s' →
          s.zoom.zoomUpdate = false → s.zoom.returnZoomStatus = false → Completes s' c.value1 := by
  intro hall
  have hrun : ∃ s s', run next (SmoothZoom.start .intialized) previewed = some s ∧
      next s (.sendCommand (succeeding .startSmoothZoom)) = some s' ∧
        s.adapter.state = .preview ∧ s.zoom.zoomUpdate = false ∧
        s.zoom.returnZoomStatus = false ∧ s.zoom.currentZoomIdx = 0 :=
    ⟨_, _, rfl, rfl, rfl, rfl, rfl, rfl⟩
  obtain ⟨s, s', hs, hs', hpreview, hupdate, hreturn, hzero⟩ := hrun
  have haccepted : selectState s.adapter.state .startSmoothZoom ≠ none := by
    rw [hpreview]
    decide
  have hstarted := started (reachable hs).1 rfl haccepted (by decide) hs'
  have hsilent := hstarted.silent (by decide) (by rw [hzero]; rfl)
  exact hsilent (hall _ _ _ _ _ hs rfl haccepted (by decide) hs' hupdate hreturn)

end Omap4Hal.Camera.ZoomCompletion

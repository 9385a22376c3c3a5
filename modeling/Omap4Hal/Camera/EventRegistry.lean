import Mathlib.Data.List.Nodup
import Omap4Hal.Lib.Run
import Omap4Hal.Lib.TaggedQueue

/- The registrations of the camera adapter that wait for events of the component
   (`OMXCameraAdapter.cpp`). An event is given to the oldest registration that the test of
   `SignalEvent` accepts. The test for the type accepts every registration whose type is not 0,
   whatever the event is; `events_served_iff` says when the right registration gets the event all
   the same.

   A fatal error of the component is no event for one registration: all of them are released
   before `SignalEvent` is called. -/
namespace Omap4Hal.Camera.EventRegistry

open Lib

/-! ## The queue -/

/-- An event of the component: `eEvent`, `nData1` and `nData2`. -/
structure OmxEvent where
  eEvent : UInt32
  nData1 : UInt32
  nData2 : UInt32
  deriving DecidableEq

def omxEventCmdComplete : UInt32 := 0

def omxEventError : UInt32 := 1

def omxCommandStateSet : UInt32 := 0

def omxStateInvalid : UInt32 := 0

def omxErrorHardware : UInt32 := 0x80001009

/-- A semaphore is passed as a reference, so its address is not NULL. -/
abbrev Semaphore := { address : UInt32 // address ≠ 0 }

/-- `TIUTILS::Message`; `serial` is the number of the registration. -/
structure Message where
  command : UInt32
  arg1 : UInt32
  arg2 : UInt32
  arg3 : Semaphore
  arg4 : UInt32
  serial : Nat
  deriving DecidableEq

/-- `mEventSignalQ`, what the handler reads and writes, and what was signalled: the registration,
and the event that it was given (none when it was released). -/
structure World where
  mEventSignalQ : List Message := []
  registered : Nat := 0
  signals : List (Message × Option OmxEvent) := []
  mState : UInt32 := 0
  mComponentState : UInt32
  hasErrorNotifier : Bool
  fatalErrors : Nat := 0

/-! ## The functions -/

def World.registerForEvent (w : World) (hComponent : UInt32) (e : OmxEvent)
    (semaphore : Semaphore) : World :=
  let msg : Message :=
    { command := e.eEvent
      arg1 := e.nData1
      arg2 := e.nData2
      arg3 := semaphore
      arg4 := hComponent
      serial := w.registered }
  { w with mEventSignalQ := w.mEventSignalQ ++ [msg], registered := w.registered + 1 }

/-- The data that was registered; 0 stands for all. -/
def dataMatches (e : OmxEvent) (m : Message) : Bool :=
  (m.arg1 = 0 || m.arg1 = e.nData1) && (m.arg2 = 0 || m.arg2 = e.nData2)

/-- The test of `SignalEvent` and `RemoveEvent`. -/
def accepts (e : OmxEvent) (m : Message) : Bool :=
  (m.command ≠ 0 || m.command = e.eEvent) && dataMatches e m && m.arg3.val ≠ 0

def World.signalEvent (w : World) (e : OmxEvent) : World :=
  match takeFirst (accepts e) w.mEventSignalQ with
  | none => w
  | some (msg, rest) =>
    { w with mEventSignalQ := rest, signals := w.signals ++ [(msg, some e)] }

def World.removeEvent (w : World) (e : OmxEvent) : World :=
  match takeFirst (accepts e) w.mEventSignalQ with
  | none => w
  | some (_, rest) => { w with mEventSignalQ := rest }

def World.isFatal (w : World) (e : OmxEvent) : Bool :=
  e.eEvent = omxEventError && w.hasErrorNotifier && e.nData1 = omxErrorHardware &&
    w.mComponentState ≠ omxStateInvalid

/-- What `OMXCameraAdapterEventHandler` does before it calls `SignalEvent`. -/
def World.onEvent (w : World) (e : OmxEvent) : World :=
  if e.eEvent = omxEventCmdComplete then
    if e.nData1 = omxCommandStateSet then { w with mState := e.nData2 } else w
  else if w.isFatal e then
    { w with
      mComponentState := omxStateInvalid
      mEventSignalQ := []
      signals := w.signals ++ w.mEventSignalQ.map fun msg => (msg, none)
      fatalErrors := w.fatalErrors + 1 }
  else w

/-- `OMXCameraAdapterEventHandler` -/
def World.eventHandler (w : World) (e : OmxEvent) : World := (w.onEvent e).signalEvent e

/-! ## Runs -/

inductive Call where
  | register (hComponent : UInt32) (e : OmxEvent) (semaphore : Semaphore)
  | event (e : OmxEvent)
  | remove (e : OmxEvent)

def World.call (w : World) : Call → World
  | .register hComponent e semaphore => w.registerForEvent hComponent e semaphore
  | .event e => w.eventHandler e
  | .remove e => w.removeEvent e

def step (w : World) (c : Call) : Option World := some (w.call c)

/-- An event that a registration is for. -/
def Matches (e : OmxEvent) (m : Message) : Prop :=
  m.command = e.eEvent ∧ (m.arg1 = 0 ∨ m.arg1 = e.nData1) ∧ (m.arg2 = 0 ∨ m.arg2 = e.nData2)

/-- No registration is signalled twice, nor again after it was signalled. -/
def Once (w : World) : Prop :=
  (w.mEventSignalQ.map Message.serial ++ w.signals.map fun s => s.1.serial).Nodup

/-- What should hold of a call in state `w`. The registration that is signalled is the one that is
taken out of the queue. -/
def Keeps (w : World) : Call → Prop
  | .register hComponent e semaphore =>
    let w' := w.registerForEvent hComponent e semaphore
    w'.signals = w.signals ∧ ∃ m, w'.mEventSignalQ = w.mEventSignalQ ++ [m] ∧ m.arg3 = semaphore ∧
      ∀ e', Matches e' m ↔ e'.eEvent = e.eEvent ∧ (e.nData1 = 0 ∨ e.nData1 = e'.nData1) ∧
        (e.nData2 = 0 ∨ e.nData2 = e'.nData2)
  | .event e =>
    let u := w.onEvent e
    let w' := w.eventHandler e
    ∃ taken, TakesOldest (Matches e) u.mEventSignalQ w'.mEventSignalQ taken ∧
      w'.signals = u.signals ++ taken.toList.map fun m => (m, some e)
  | .remove e =>
    let w' := w.removeEvent e
    w'.signals = w.signals ∧
      ∃ taken, TakesOldest (Matches e) w.mEventSignalQ w'.mEventSignalQ taken

/-- A registration for another type of event than `OMX_EventCmdComplete` whose data match stands
behind one that is for the event. -/
def Undisturbed (e : OmxEvent) (q : List Message) : Prop :=
  ∀ as m bs, q = as ++ m :: bs → m.command ≠ 0 → m.command ≠ e.eEvent → dataMatches e m = true →
    ∃ a ∈ as, Matches e a

/-- Nothing stands in the way of an event, or of its removal. -/
def Clear (w : World) : Call → Prop
  | .register _ _ _ => True
  | .event e => w.isFatal e = true ∨ Undisturbed e w.mEventSignalQ
  | .remove e => Undisturbed e w.mEventSignalQ

/-! ## The test -/

variable {w : World} {e : OmxEvent} {m : Message}

theorem dataMatches_iff :
    dataMatches e m = true ↔
      (m.arg1 = 0 ∨ m.arg1 = e.nData1) ∧ (m.arg2 = 0 ∨ m.arg2 = e.nData2) := by
  simp [dataMatches]

theorem accepts_iff :
    accepts e m = true ↔ (m.command ≠ 0 ∨ m.command = e.eEvent) ∧ dataMatches e m = true := by
  have hsem : m.arg3.val ≠ 0 := m.arg3.2
  simp [accepts, hsem]

theorem accepts_of_matches (h : Matches e m) : accepts e m = true :=
  accepts_iff.mpr ⟨.inr h.1, dataMatches_iff.mpr h.2⟩

theorem foreign_iff :
    (accepts e m = true ∧ ¬ Matches e m) ↔
      m.command ≠ 0 ∧ m.command ≠ e.eEvent ∧ dataMatches e m = true := by
  rw [accepts_iff, Matches, ← dataMatches_iff]
  tauto

theorem takesOldest_accepts_iff (e : OmxEvent) (q : List Message) :
    TakesOldest (Matches e) q ((takeFirst (accepts e) q).elim q Prod.snd)
        ((takeFirst (accepts e) q).map Prod.fst) ↔ Undisturbed e q := by
  rw [takesOldest_iff fun x hx => accepts_of_matches hx]
  refine forall₃_congr fun as m bs => imp_congr_right fun _ => ?_
  rw [← and_imp, foreign_iff, and_imp, and_imp]

/-! ## Calls -/

theorem signalEvent_eq (w : World) (e : OmxEvent) :
    (w.signalEvent e).mEventSignalQ =
        (takeFirst (accepts e) w.mEventSignalQ).elim w.mEventSignalQ Prod.snd ∧
      (w.signalEvent e).signals = w.signals ++
        ((takeFirst (accepts e) w.mEventSignalQ).map Prod.fst).toList.map fun m =>
          (m, some e) := by
  rw [World.signalEvent]
  cases takeFirst (accepts e) w.mEventSignalQ with
  | none => simp
  | some r => simp

theorem removeEvent_eq (w : World) (e : OmxEvent) :
    (w.removeEvent e).mEventSignalQ =
        (takeFirst (accepts e) w.mEventSignalQ).elim w.mEventSignalQ Prod.snd ∧
      (w.removeEvent e).signals = w.signals := by
  rw [World.removeEvent]
  cases takeFirst (accepts e) w.mEventSignalQ with
  | none => exact ⟨rfl, rfl⟩
  | some r => exact ⟨rfl, rfl⟩

theorem onEvent_queue (w : World) (e : OmxEvent) :
    (w.onEvent e).mEventSignalQ = if w.isFatal e then [] else w.mEventSignalQ := by
  rw [World.onEvent]
  by_cases hcmd : e.eEvent = omxEventCmdComplete
  · have hfatal : w.isFatal e = false := by
      simp [World.isFatal, hcmd, omxEventCmdComplete, omxEventError]
    rw [if_pos hcmd, hfatal]
    split <;> rfl
  · rw [if_neg hcmd]
    split <;> rfl

theorem clear_event_iff : Clear w (.event e) ↔ Undisturbed e (w.onEvent e).mEventSignalQ := by
  rw [Clear, onEvent_queue]
  cases w.isFatal e with
  | true =>
    refine iff_of_true (.inl rfl) ?_
    intro as m bs hq
    exact absurd hq (by simp)
  | false => simp

/-- A call is as it should be if and only if nothing stands in its way. -/
theorem keeps_iff (w : World) (c : Call) : Keeps w c ↔ Clear w c := by
  cases c with
  | register hComponent e semaphore =>
    refine iff_of_true ⟨rfl, _, rfl, rfl, ?_⟩ trivial
    intro e'
    simp only [Matches, eq_comm]
  | event e =>
    rw [clear_event_iff, ← takesOldest_accepts_iff]
    obtain ⟨hq, hs⟩ := signalEvent_eq (w.onEvent e) e
    constructor
    · rintro ⟨taken, htaken, hsignals⟩
      rw [World.eventHandler, hs, List.append_right_inj] at hsignals
      have heq : taken = (takeFirst (accepts e) (w.onEvent e).mEventSignalQ).map Prod.fst := by
        refine htaken.unique ?_
        rw [World.eventHandler, hq]
        exact takeFirst_perm _ _
      rw [← heq, ← hq]
      exact htaken
    · intro h
      refine ⟨_, ?_, hs⟩
      rw [World.eventHandler, hq]
      exact h
  | remove e =>
    rw [Clear, ← takesOldest_accepts_iff]
    obtain ⟨hq, hs⟩ := removeEvent_eq w e
    constructor
    · rintro ⟨-, taken, htaken⟩
      have heq : taken = (takeFirst (accepts e) w.mEventSignalQ).map Prod.fst := by
        refine htaken.unique ?_
        rw [hq]
        exact takeFirst_perm _ _
      rw [← heq, ← hq]
      exact htaken
    · intro h
      refine ⟨hs, (takeFirst (accepts e) w.mEventSignalQ).map Prod.fst, ?_⟩
      rw [hq]
      exact h

/-! ## Every registration is signalled once -/

/-- All registrations have a number of their own, below the next one. -/
structure Numbered (w : World) : Prop where
  once : Once w
  queue : ∀ m ∈ w.mEventSignalQ, m.serial < w.registered
  signals : ∀ s ∈ w.signals, s.1.serial < w.registered

theorem Numbered.init (mComponentState : UInt32) (hasErrorNotifier : Bool) :
    Numbered { mComponentState := mComponentState, hasErrorNotifier := hasErrorNotifier } :=
  ⟨List.nodup_nil, by simp, by simp⟩

theorem Numbered.move (h : Numbered w) {w' : World} (out sig : List (Message × Option OmxEvent))
    (hperm : w.mEventSignalQ.Perm (out.map Prod.fst ++ w'.mEventSignalQ))
    (hsub : sig.Sublist out) (hsignals : w'.signals = w.signals ++ sig)
    (hreg : w'.registered = w.registered) : Numbered w' := by
  have hmem : ∀ s ∈ sig, s.1 ∈ w.mEventSignalQ := fun s hs =>
    hperm.mem_iff.mpr (List.mem_append_left _ (List.mem_map_of_mem (hsub.subset hs)))
  refine ⟨?_, ?_, ?_⟩
  · have hall : (w.mEventSignalQ.map Message.serial ++ w.signals.map fun s => s.1.serial).Perm
        ((out.map fun s => s.1.serial) ++
          (w'.mEventSignalQ.map Message.serial ++ w.signals.map fun s => s.1.serial)) := by
      have hserials := (hperm.map Message.serial).append_right (w.signals.map fun s => s.1.serial)
      rw [List.map_append, List.map_map, List.append_assoc] at hserials
      exact hserials
    have hnd := hall.nodup_iff.mp h.once
    have hless := hnd.sublist ((hsub.map fun s => s.1.serial).append (List.Sublist.refl _))
    rw [Once, hsignals, List.map_append]
    refine List.Perm.nodup_iff ?_ |>.mp hless
    rw [← List.append_assoc (w'.mEventSignalQ.map Message.serial)]
    exact List.perm_append_comm
  · intro m hm
    rw [hreg]
    exact h.queue m (hperm.mem_iff.mpr (List.mem_append_right _ hm))
  · intro s hs
    rw [hsignals] at hs
    rw [hreg]
    rcases List.mem_append.mp hs with hs | hs
    · exact h.signals s hs
    · exact h.queue _ (hmem s hs)

theorem Numbered.register (h : Numbered w) (hComponent : UInt32) (semaphore : Semaphore) :
    Numbered (w.registerForEvent hComponent e semaphore) := by
  refine ⟨?_, ?_, ?_⟩
  · rw [Once, World.registerForEvent, List.map_append, List.append_assoc]
    refine List.nodup_middle.mpr (List.nodup_cons.mpr ⟨?_, h.once⟩)
    intro hmem
    rcases List.mem_append.mp hmem with hmem | hmem
    · obtain ⟨m, hm, hs⟩ := List.mem_map.mp hmem
      exact absurd (h.queue m hm) (by simp [hs])
    · obtain ⟨s, hs, heq⟩ := List.mem_map.mp hmem
      exact absurd (h.signals s hs) (by simp [heq])
  · intro m hm
    rcases List.mem_append.mp hm with hm | hm
    · exact Nat.lt_succ_of_lt (h.queue m hm)
    · rw [List.mem_singleton.mp hm]
      exact Nat.lt_succ_self _
  · exact fun s hs => Nat.lt_succ_of_lt (h.signals s hs)

theorem Numbered.onEvent (h : Numbered w) (e : OmxEvent) : Numbered (w.onEvent e) := by
  rw [World.onEvent]
  split
  · split
    · exact ⟨h.once, h.queue, h.signals⟩
    · exact h
  · split
    · refine h.move (w.mEventSignalQ.map fun msg => (msg, none)) _ ?_ (.refl _) rfl rfl
      rw [List.map_map, List.append_nil]
      exact .of_eq (List.map_id _).symm
    · exact h

theorem Numbered.signalEvent (h : Numbered w) (e : OmxEvent) : Numbered (w.signalEvent e) := by
  obtain ⟨hq, hs⟩ := signalEvent_eq w e
  refine h.move (((takeFirst (accepts e) w.mEventSignalQ).map Prod.fst).toList.map fun m =>
    (m, some e)) _ ?_ (.refl _) hs ?_
  · rw [hq, List.map_map]
    exact (takeFirst_perm (accepts e) _).trans (.of_eq (by simp [Function.comp_def]))
  · rw [World.signalEvent]
    split <;> rfl

theorem Numbered.removeEvent (h : Numbered w) (e : OmxEvent) : Numbered (w.removeEvent e) := by
  obtain ⟨hq, hs⟩ := removeEvent_eq w e
  refine h.move (((takeFirst (accepts e) w.mEventSignalQ).map Prod.fst).toList.map fun m =>
    (m, some e)) [] ?_ (List.nil_sublist _) (by simp [hs]) ?_
  · rw [hq, List.map_map]
    exact (takeFirst_perm (accepts e) _).trans (.of_eq (by simp [Function.comp_def]))
  · rw [World.removeEvent]
    split <;> rfl

theorem Numbered.step {w' : World} {c : Call} (h : Numbered w) (hstep : step w c = some w') :
    Numbered w' := by
  cases hstep
  cases c with
  | register hComponent e semaphore => exact h.register hComponent semaphore
  | event e => exact (h.onEvent e).signalEvent e
  | remove e => exact h.removeEvent e

/-! ## Runs of the registry -/

/-- The world before the first registration. -/
def start (mComponentState : UInt32) (hasErrorNotifier : Bool) : World :=
  { mComponentState := mComponentState, hasErrorNotifier := hasErrorNotifier }

/-- No registration is ever signalled twice. The events and removals of a run all reach the right
registration, or none if there is none, if and only if nothing stands in their way. -/
theorem events_served_iff (mComponentState : UInt32) (hasErrorNotifier : Bool)
    (calls : List Call) :
    Throughout step Once (start mComponentState hasErrorNotifier) calls ∧
      (Guarded step Keeps (start mComponentState hasErrorNotifier) calls ↔
        Guarded step Clear (start mComponentState hasErrorNotifier) calls) := by
  constructor
  · have hall : Throughout step Once (start mComponentState hasErrorNotifier) calls ↔
        Guarded step (fun _ _ => True) (start mComponentState hasErrorNotifier) calls :=
      throughout_iff_guarded (J := Numbered) (fun _ h => h.once)
        (fun _ _ _ h _ hstep => h.step hstep) (fun _ _ _ h => absurd trivial h)
        (Numbered.init mComponentState hasErrorNotifier)
    exact hall.mpr (guarded_true _ _)
  · exact guarded_congr (J := fun _ => True) (fun w c _ => keeps_iff w c)
      (fun _ _ _ _ _ _ => trivial) trivial

/-- A registration for a change of the port settings, and one for the flush of a port. -/
theorem events_not_served :
    let settings : OmxEvent := ⟨3, 0, 0⟩
    let flush : OmxEvent := ⟨omxEventCmdComplete, 1, 2⟩
    let calls : List Call :=
      [.register 1 settings ⟨0x100, by decide⟩, .register 1 flush ⟨0x200, by decide⟩, .event flush]
    (∃ w, run step (start 2 true) calls = some w ∧
      w.signals.map (fun s => s.1.arg3.val) = [0x100] ∧
      w.mEventSignalQ.map (fun m => m.arg3.val) = [0x200]) ∧
    ¬ Guarded step Keeps (start 2 true) calls := by
  refine ⟨⟨_, rfl, by decide, by decide⟩, ?_⟩
  rintro ⟨-, h⟩
  have hkeeps := ((h _ rfl).2 _ rfl).1
  obtain hfatal | hclear := (keeps_iff _ _).mp hkeeps
  · exact absurd hfatal (by decide)
  · obtain ⟨a, ha, -⟩ := hclear [] _ _ rfl (by decide) (by decide) (by decide)
    cases ha

end Omap4Hal.Camera.EventRegistry

import Omap4Hal.Osal.Pipes

/- The events of the OSAL (`timm_osal_events.c`): one word of flags, a mutex and one
   condition variable for all threads that wait, each for a combination of its own.

   `TIMM_OSAL_EventSet` signals the condition once, which wakes one of the waiting
   threads. The system chooses which, without looking at what the threads wait for, so
   a thread can stay behind whose combination is there (`waits_behind`). `missed_iff`
   says when that does not happen.

   A retrieval that consumes resets the whole word, also the flags that were not
   requested, and reports all of them to its caller. -/
namespace Omap4Hal.Osal.Events
open Lib
open Option (map_eq_some_iff)

inductive EventOperation where
  | and
  | andConsume
  | or
  | orConsume
  deriving DecidableEq, Repr

inductive Timeout where
  | noSuspend
  | suspend
  | limited
  deriving DecidableEq, Repr

/-- A thread in `TIMM_OSAL_EventRetrieve`. -/
structure Retrieval where
  thread : Nat
  requestedEvents : UInt32
  operation : EventOperation
  timeout : Timeout
  deriving DecidableEq, Repr

/-- `TIMM_OSAL_THREAD_EVENT` when nobody holds its mutex. A thread in `woken` has been
woken and has not looked at the flags since. -/
structure ThreadEvent where
  eFlags : UInt32 := 0
  waiting : List Retrieval := []
  woken : List Retrieval := []
  deriving DecidableEq, Repr

/-! ## The operations -/

def setFlags (eFlags uEventFlags : UInt32) : EventOperation → Except OsalError UInt32
  | .and => .ok (eFlags &&& uEventFlags)
  | .or => .ok (eFlags ||| uEventFlags)
  | .andConsume => .error .parameter
  | .orConsume => .error .parameter

def Retrieval.andOperation (r : Retrieval) : Bool :=
  r.operation = .and || r.operation = .andConsume

def Retrieval.consumes (r : Retrieval) : Bool :=
  r.operation = .andConsume || r.operation = .orConsume

/-- `isolatedFlags` as the code tests it. -/
def Retrieval.isolatedFlags (r : Retrieval) (eFlags : UInt32) : Bool :=
  if r.andOperation then eFlags &&& r.requestedEvents = r.requestedEvents
  else eFlags &&& r.requestedEvents ≠ 0

/-! ## Steps -/

/-- What happens under the mutex. `wakes` is the thread that the system wakes by the
signal of a set. -/
inductive Step where
  | set (uEventFlags : UInt32) (operation : EventOperation) (wakes : Nat)
  | retrieve (r : Retrieval)
  | recheck (thread : Nat)
  | spurious (thread : Nat)
  | timeOut (thread : Nat)

/-- The thread leaves the queue of the condition variable. -/
def ThreadEvent.wake (e : ThreadEvent) (thread : Nat) : Option ThreadEvent :=
  (e.waiting.find? (·.thread = thread)).map fun r =>
    { e with
      waiting := e.waiting.filter (·.thread ≠ thread)
      woken := r :: e.woken }

/-- `pthread_cond_signal`: one thread is woken if there is any. -/
def ThreadEvent.signal (e : ThreadEvent) (wakes : Nat) : Option ThreadEvent :=
  if e.waiting = [] then some e else e.wake wakes

/-- A retrieval returns to its caller, with the flags that it reports. -/
structure Return where
  retrieval : Retrieval
  retrievedEvents : UInt32
  deriving DecidableEq, Repr

/-- A retrieval looks at the flags: it returns, or it waits. -/
def ThreadEvent.look (e : ThreadEvent) (r : Retrieval) : Option Return × ThreadEvent :=
  if r.isolatedFlags e.eFlags then
    (some ⟨r, e.eFlags⟩, { e with eFlags := if r.consumes then 0 else e.eFlags })
  else (none, { e with waiting := r :: e.waiting })

/-- `none` is a step that cannot happen: a thread that is not there, or one that is there
already. -/
def step (e : ThreadEvent) : Step → Option (Option Return × ThreadEvent)
  | .set uEventFlags operation wakes =>
    match setFlags e.eFlags uEventFlags operation with
    | .error _ => some (none, e)
    | .ok eFlags => (ThreadEvent.signal { e with eFlags := eFlags } wakes).map (none, ·)
  | .retrieve r =>
    if ∃ r' ∈ e.waiting ++ e.woken, r'.thread = r.thread then none
    else if r.timeout = .noSuspend ∧ r.isolatedFlags e.eFlags = false then some (some ⟨r, 0⟩, e)
    else some (e.look r)
  | .recheck thread =>
    (e.woken.find? (·.thread = thread)).map fun r =>
      ThreadEvent.look { e with woken := e.woken.filter (·.thread ≠ thread) } r
  | .spurious thread => (e.wake thread).map (none, ·)
  | .timeOut thread =>
    match e.waiting.find? (·.thread = thread) with
    | some r =>
      if r.timeout = .limited then
        some (some ⟨r, 0⟩, { e with waiting := e.waiting.filter (·.thread ≠ thread) })
      else none
    | none => none

def next (e : ThreadEvent) (a : Step) : Option ThreadEvent := (step e a).map (·.2)

/-! ## Combinations of flags -/

def Flag (word : UInt32) (i : Nat) : Prop := word.toBitVec.getLsbD i = true

instance (word : UInt32) (i : Nat) : Decidable (Flag word i) :=
  inferInstanceAs (Decidable (word.toBitVec.getLsbD i = true))

/-- What a retrieval asks for: all the flags it requests, or one of them. -/
def Retrieval.Present (r : Retrieval) (eFlags : UInt32) : Prop :=
  if r.andOperation then ∀ i, Flag r.requestedEvents i → Flag eFlags i
  else ∃ i, Flag r.requestedEvents i ∧ Flag eFlags i

theorem flag_and {u v : UInt32} {i : Nat} : Flag (u &&& v) i ↔ Flag u i ∧ Flag v i := by
  simp [Flag]

theorem eq_of_flags {u v : UInt32} (h : ∀ i, Flag u i ↔ Flag v i) : u = v := by
  apply UInt32.toBitVec_inj.mp
  apply BitVec.eq_of_getLsbD_eq
  intro i _
  exact Bool.eq_iff_iff.mpr (h i)

theorem not_flag_zero (i : Nat) : ¬ Flag 0 i := by
  simp [Flag]

variable {r : Retrieval} {e e' : ThreadEvent}

theorem isolatedFlags_iff {eFlags : UInt32} :
    r.isolatedFlags eFlags = true ↔ r.Present eFlags := by
  rw [Retrieval.isolatedFlags, Retrieval.Present]
  cases hop : r.andOperation with
  | true =>
    rw [if_pos rfl, if_pos rfl, decide_eq_true_eq]
    constructor
    · intro h i hi
      rw [← h, flag_and] at hi
      exact hi.1
    · intro h
      apply eq_of_flags
      intro i
      rw [flag_and]
      exact ⟨fun hi => hi.2, fun hi => ⟨h i hi, hi⟩⟩
  | false =>
    rw [if_neg Bool.false_ne_true, if_neg Bool.false_ne_true, decide_eq_true_eq]
    constructor
    · intro h
      by_contra hnone
      apply h
      apply eq_of_flags
      intro i
      rw [flag_and]
      refine ⟨fun hi => absurd ⟨i, hi.2, hi.1⟩ hnone, fun hi => absurd hi (not_flag_zero i)⟩
    · rintro ⟨i, hreq, hi⟩ hzero
      apply not_flag_zero i
      rw [← hzero, flag_and]
      exact ⟨hi, hreq⟩

/-! ## Returns -/

theorem look_return {ret : Return} (h : e.look r = (some ret, e')) :
    r.Present e.eFlags ∧ ret = ⟨r, e.eFlags⟩ ∧
      e'.eFlags = if r.consumes then 0 else e.eFlags := by
  rw [ThreadEvent.look] at h
  split at h
  next hp =>
    obtain ⟨hret, rfl⟩ := Prod.mk.inj h
    exact ⟨isolatedFlags_iff.mp hp, (Option.some.inj hret).symm, rfl⟩
  next => exact absurd (Prod.mk.inj h).1 nofun

/-- A return of a thread that waits without a limit: its combination is there, all flags
are reported, and a consuming retrieval resets all of them. -/
structure ReturnRight (e e' : ThreadEvent) (ret : Return) : Prop where
  present : ret.retrieval.Present e.eFlags
  retrieved : ret.retrievedEvents = e.eFlags
  after : e'.eFlags = if ret.retrieval.consumes then 0 else e.eFlags

theorem ReturnRight.of_look {ret : Return} (h : e.look r = (some ret, e')) :
    ReturnRight e e' ret := by
  obtain ⟨hp, rfl, hafter⟩ := look_return h
  exact ⟨hp, rfl, hafter⟩

theorem step_return {a : Step} {ret : Return} (h : step e a = some (some ret, e'))
    (hwait : ret.retrieval.timeout = .suspend) :
    ReturnRight e e' ret := by
  cases a with
  | set uEventFlags operation wakes =>
    rw [step] at h
    split at h
    · exact absurd (Prod.mk.inj (Option.some.inj h)).1 nofun
    · obtain ⟨_, _, heq⟩ := map_eq_some_iff.mp h
      exact absurd (Prod.mk.inj heq).1 nofun
  | retrieve r =>
    rw [step] at h
    split at h
    · exact absurd h nofun
    · split at h
      next hno =>
        obtain rfl : (⟨r, 0⟩ : Return) = ret := Option.some.inj (Prod.mk.inj (Option.some.inj h)).1
        exact absurd (hno.1.symm.trans hwait) nofun
      next => exact ReturnRight.of_look (Option.some.inj h)
  | recheck thread =>
    obtain ⟨r, _, hlook⟩ := map_eq_some_iff.mp h
    obtain ⟨hp, hret, hafter⟩ := ReturnRight.of_look hlook
    exact ⟨hp, hret, hafter⟩
  | spurious thread =>
    obtain ⟨_, _, heq⟩ := map_eq_some_iff.mp h
    exact absurd (Prod.mk.inj heq).1 nofun
  | timeOut thread =>
    rw [step] at h
    split at h
    next r hr =>
      split at h
      next hlim =>
        obtain rfl : (⟨r, 0⟩ : Return) = ret := Option.some.inj (Prod.mk.inj (Option.some.inj h)).1
        exact absurd (hlim.symm.trans hwait) nofun
      next => exact absurd h nofun
    next => exact absurd h nofun

/-! ## Threads that stay behind -/

/-- No step is in progress, and no thread is between its wake-up and its look. -/
def Quiescent (e : ThreadEvent) : Prop := e.woken = []

/-- No waiting thread has what it waits for. -/
def NoneMissed (e : ThreadEvent) : Prop := ∀ r ∈ e.waiting, ¬ r.Present e.eFlags

/-- A set gives no waiting thread its combination, the one it wakes excepted. -/
def SignalSuffices (e : ThreadEvent) : Step → Prop
  | .set uEventFlags operation wakes =>
    ∀ eFlags, setFlags e.eFlags uEventFlags operation = .ok eFlags →
      (∃ w ∈ e.waiting, w.thread = wakes) →
        ∀ r ∈ e.waiting, r.thread ≠ wakes → ¬ r.Present eFlags
  | _ => True

theorem look_event (hnone : NoneMissed e) :
    NoneMissed (e.look r).2 := by
  rw [ThreadEvent.look]
  split
  next hp =>
    intro w hw hpresent
    apply hnone w hw
    -- a word of zeros has nothing that the word before it has not
    cases hc : r.consumes with
    | false => simpa [hc] using hpresent
    | true =>
      simp only [hc, if_true] at hpresent
      rw [Retrieval.Present] at hpresent ⊢
      split at hpresent
      next hand =>
        rw [if_pos hand]
        exact fun i hi => absurd (hpresent i hi) (not_flag_zero i)
      next =>
        obtain ⟨i, _, hi⟩ := hpresent
        exact absurd hi (not_flag_zero i)
  next hp =>
    intro w hw
    rcases List.mem_cons.mp hw with rfl | hold
    · exact fun hpresent => hp (isolatedFlags_iff.mpr hpresent)
    · exact hnone w hold

theorem NoneMissed.filter (hnone : NoneMissed e) (p : Retrieval → Bool) (woken : List Retrieval) :
    NoneMissed { e with waiting := e.waiting.filter p, woken := woken } :=
  fun r hr => hnone r (List.mem_of_mem_filter hr)

theorem wake_waiting {thread : Nat} (h : e.wake thread = some e') :
    (∃ w ∈ e.waiting, w.thread = thread) ∧ e'.eFlags = e.eFlags ∧
      e'.waiting = e.waiting.filter (·.thread ≠ thread) := by
  obtain ⟨r, hr, rfl⟩ := map_eq_some_iff.mp h
  exact ⟨⟨r, List.mem_of_find?_eq_some hr, by simpa using List.find?_some hr⟩, rfl, rfl⟩

theorem wake_of_mem {w : Retrieval} (hw : w ∈ e.waiting) :
    ∃ e', e.wake w.thread = some e' := by
  cases hfind : e.waiting.find? (·.thread = w.thread) with
  | none => exact absurd (List.find?_eq_none.mp hfind w hw) (by simp)
  | some r => exact ⟨_, by rw [ThreadEvent.wake, hfind, Option.map_some]⟩

/-- A step that is not a set, or a set whose signal suffices, leaves no thread behind. -/
theorem next_noneMissed {a : Step} (hnone : NoneMissed e) (hsuff : SignalSuffices e a)
    (h : next e a = some e') : NoneMissed e' := by
  obtain ⟨⟨ret, e''⟩, hstep, rfl⟩ := map_eq_some_iff.mp h
  cases a with
  | set uEventFlags operation wakes =>
    rw [step] at hstep
    split at hstep
    next => exact (Prod.mk.inj (Option.some.inj hstep)).2 ▸ hnone
    next eFlags hflags =>
      obtain ⟨e₁, hsignal, heq⟩ := map_eq_some_iff.mp hstep
      obtain rfl := (Prod.mk.inj heq).2
      rw [ThreadEvent.signal] at hsignal
      split at hsignal
      next hempty =>
        cases hsignal
        intro r hr
        rw [show e.waiting = [] from hempty] at hr
        exact absurd hr List.not_mem_nil
      next =>
        obtain ⟨hmem, hfl, hwait⟩ := wake_waiting hsignal
        intro r hr
        rw [hwait, List.mem_filter, decide_eq_true_eq] at hr
        rw [hfl]
        exact hsuff eFlags hflags hmem r hr.1 hr.2
  | retrieve r =>
    rw [step] at hstep
    split at hstep
    next => exact absurd hstep nofun
    next =>
      split at hstep
      next => exact (Prod.mk.inj (Option.some.inj hstep)).2 ▸ hnone
      next =>
        have heq := Option.some.inj hstep
        rw [show e'' = (e.look r).2 by rw [heq]]
        exact look_event hnone
  | recheck thread =>
    obtain ⟨r, _, hlook⟩ := map_eq_some_iff.mp hstep
    rw [← show _ = e'' from congrArg Prod.snd hlook]
    exact look_event hnone
  | spurious thread =>
    obtain ⟨e₁, hwake, heq⟩ := map_eq_some_iff.mp hstep
    obtain rfl := (Prod.mk.inj heq).2
    obtain ⟨r, _, rfl⟩ := map_eq_some_iff.mp hwake
    exact hnone.filter _ _
  | timeOut thread =>
    rw [step] at hstep
    split at hstep
    next =>
      split at hstep
      next =>
        obtain rfl := (Prod.mk.inj (Option.some.inj hstep)).2
        exact hnone.filter _ _
      next => exact absurd hstep nofun
    next => exact absurd hstep nofun

theorem next_missed {a : Step} (hsuff : ¬ SignalSuffices e a) :
    ∃ e', next e a = some e' ∧ ¬ NoneMissed e' := by
  cases a with
  | set uEventFlags operation wakes =>
    simp only [SignalSuffices, not_forall, not_not] at hsuff
    obtain ⟨eFlags, hflags, ⟨w, hw, rfl⟩, r, hr, hne, hpresent⟩ := hsuff
    obtain ⟨e', he'⟩ := wake_of_mem (e := { e with eFlags := eFlags }) hw
    obtain ⟨-, hfl, hwait⟩ := wake_waiting he'
    refine ⟨e', ?_, ?_⟩
    · have hsome : e.waiting ≠ [] := List.ne_nil_of_mem hw
      rw [next, step, hflags]
      simp [ThreadEvent.signal, hsome, he']
    · intro hnone
      apply hnone r
      · rw [hwait, List.mem_filter, decide_eq_true_eq]
        exact ⟨hr, hne⟩
      · rw [hfl]
        exact hpresent
  | retrieve r => exact absurd trivial hsuff
  | recheck thread => exact absurd trivial hsuff
  | spurious thread => exact absurd trivial hsuff
  | timeOut thread => exact absurd trivial hsuff

theorem missed_iff (hnone : NoneMissed e) (as : List Step) :
    Throughout next NoneMissed e as ↔ Guarded next SignalSuffices e as :=
  throughout_iff_guarded (fun _ h => h) (fun _ _ _ h hG hs => next_noneMissed h hG hs)
    (fun _ _ _ hG => next_missed hG) hnone

theorem signalSuffices_of_single (hone : e.waiting.length ≤ 1) (a : Step) :
    SignalSuffices e a := by
  cases a with
  | set uEventFlags operation wakes =>
    rintro _ _ ⟨w, hw, rfl⟩ r hr hne
    obtain ⟨v, hv⟩ : ∃ v, e.waiting = [v] := by
      apply List.length_eq_one_iff.mp
      have := List.length_pos_of_mem hw
      omega
    rw [hv, List.mem_singleton] at hw hr
    exact absurd (by rw [hr, hw]) hne
  | retrieve r => trivial
  | recheck thread => trivial
  | spurious thread => trivial
  | timeOut thread => trivial

/-- In every run of an event from its creation: each return is right; nobody waits for
flags that are there as long as at most one thread waits at a time, or no set gives
another waiting thread than the one it wakes its combination. -/
theorem event_runs (as : List Step) :
    Guarded next (fun e a => ∀ ret e', step e a = some (some ret, e') →
        ret.retrieval.timeout = .suspend → ReturnRight e e' ret) {} as ∧
      (Throughout next (fun e => e.waiting.length ≤ 1) {} as →
        Throughout next (fun e => Quiescent e → NoneMissed e) {} as) ∧
      (Guarded next SignalSuffices {} as →
        Throughout next (fun e => Quiescent e → NoneMissed e) {} as) := by
  have hstart : NoneMissed {} := nofun
  have hsuff : Guarded next SignalSuffices {} as →
      Throughout next (fun e => Quiescent e → NoneMissed e) {} as := by
    intro hG
    have hall := (missed_iff hstart as).mpr hG
    apply hall.mono
    exact fun e hnone _ => hnone
  refine ⟨?_, ?_, hsuff⟩
  · exact guarded_of_always (fun e a ret e' => step_return) _ as
  · intro hone
    apply hsuff
    exact hone.guarded fun e a hsingle => signalSuffices_of_single hsingle a

/-- Two threads wait, each for a flag of its own. The flag of the second comes, and the
first one is woken. -/
def wrongThread : List Step :=
  [.retrieve ⟨1, 1, .or, .suspend⟩, .retrieve ⟨2, 2, .or, .suspend⟩, .set 2 .or 1, .recheck 1]

/-- The second thread still waits when all is quiet. And a thread that consumes the first
flag takes the second one away with it. -/
theorem waits_behind :
    (∃ e, run next {} wrongThread = some e ∧ Quiescent e ∧ ¬ NoneMissed e) ∧
      ∃ e e', run next {} [.set 3 .or 0] = some e ∧
        step e (.retrieve ⟨1, 1, .orConsume, .suspend⟩) =
          some (some ⟨⟨1, 1, .orConsume, .suspend⟩, 3⟩, e') ∧
        Flag e.eFlags 1 ∧ ¬ Flag 1 1 ∧ ¬ Flag e'.eFlags 1 := by
  refine ⟨⟨⟨2, [⟨1, 1, .or, .suspend⟩, ⟨2, 2, .or, .suspend⟩], []⟩, by decide, rfl, ?_⟩,
    ⟨3, [], []⟩, ⟨0, [], []⟩, by decide, by decide, by decide, by decide, by decide⟩
  intro hnone
  apply hnone ⟨2, 2, .or, .suspend⟩ (by simp)
  exact isolatedFlags_iff.mp (by decide)

end Omap4Hal.Osal.Events

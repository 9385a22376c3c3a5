import Mathlib.Data.List.Nodup

/- The delivery of return messages to the threads of an RcmClient (rcm/RcmClient.c,
   `_RcmClient_getReturnMsg`). All callers share one message queue. One of them, the
   mailman, holds `queueLock` and takes the messages from the queue: its own it
   returns, others it hands to the recipient that waits for them or, if there is none,
   puts into the mailbox `newMail`. A mailman that leaves signals the next one.

   A call is a thread of control of its own, at a place in the function (`Pc`); the
   calls take their steps in any order. `mbxLock`, `queueLock` and the events of the
   recipients are counting semaphores, and their operations succeed. `MessageQ_get`
   returns the messages in the order in which they arrived.

   `Delivers` says what is to hold of every state. -/
namespace Omap4Hal.Rcm.Mailman

open Function (update)

/-- A return message; `tag` tells messages with the same id apart. -/
structure Msg where
  tag : Nat
  msgId : UInt16
  deriving DecidableEq

/-! ## The function, place by place -/

/-- Where a call is. The message a mailman has in its hand is part of its place. -/
inductive Pc where
  | idle
  /-- Before the mailbox lock, in the first pass of the loop. -/
  | start
  /-- The same in a later pass. -/
  | again
  /-- Has the mailbox lock, and searches the new mail. -/
  | search
  /-- Its message was in the new mail. -/
  | foundRelease
  /-- Attempts the queue lock. -/
  | tryQueue
  /-- Mailman: looks into the queue, without waiting. -/
  | poll
  /-- Mailman: a message to look at. -/
  | sort (m : Msg)
  /-- Mailman: it was its own; looks for a new mailman. -/
  | appoint
  | releaseQueue
  | releaseMbx
  /-- Mailman: the queue is empty, so gives back the mailbox lock. -/
  | emptyRelease
  /-- Mailman: waits for the next message. -/
  | blockGet
  /-- Mailman: has got one, and wants the mailbox lock again. -/
  | reacquire (m : Msg)
  /-- Not the mailman: becomes a recipient. -/
  | enlist
  | enlistRelease
  /-- Waits on its event. -/
  | wait
  /-- The event came; wants the mailbox lock. -/
  | awake
  | pickup
  /-- Gives back the mailbox lock, with its message or without. -/
  | leave (found : Bool)
  | done
  deriving DecidableEq

/-- The instance object, and the stacks of the calls. -/
structure Sys where
  pc : Nat → Pc := fun _ => .idle
  msgId : Nat → UInt16 := fun _ => 0
  returnMsg : Nat → Option Msg := fun _ => none
  mbxLock : Nat := 1
  queueLock : Nat := 1
  queue : List Msg := []
  newMail : List Msg := []
  recipients : List Nat := []
  /-- `msg` and `event` of the recipient that a call has on its stack. -/
  msg : Nat → Option Msg := fun _ => none
  event : Nat → Nat := fun _ => 0
  /-- All messages that have arrived so far. -/
  arrived : List Msg := []

def Sys.goto (s : Sys) (c : Nat) (p : Pc) : Sys := { s with pc := update s.pc c p }

/-- `OsalSemaphore_pend` on the mailbox lock. -/
def Sys.pendMbx (s : Sys) : Option Sys :=
  if s.mbxLock = 0 then none else some { s with mbxLock := s.mbxLock - 1 }

def Sys.postMbx (s : Sys) : Sys := { s with mbxLock := s.mbxLock + 1 }

def Sys.setReturn (s : Sys) (c : Nat) (m : Msg) : Sys :=
  { s with returnMsg := update s.returnMsg c (some m) }

/-- `OsalSemaphore_post` on the event of a recipient. -/
def Sys.signal (s : Sys) (r : Nat) : Sys :=
  { s with event := update s.event r (s.event r + 1) }

/-- The next step of a call; `none` if it has to wait. -/
def advance (s : Sys) (c : Nat) : Option Sys :=
  match s.pc c with
  | .idle => none
  | .start => s.pendMbx.map fun s => s.goto c .search
  | .again => s.pendMbx.map fun s => s.goto c .search
  | .search =>
    match s.newMail.find? fun m => m.msgId = s.msgId c with
    | some m =>
      some ({ s with newMail := s.newMail.erase m }.setReturn c m |>.goto c .foundRelease)
    | none => some (s.goto c .tryQueue)
  | .foundRelease => some (s.postMbx.goto c .done)
  | .tryQueue =>
    if s.queueLock = 0 then some (s.goto c .enlist)
    else some ({ s with queueLock := s.queueLock - 1 }.goto c .poll)
  | .poll =>
    match s.queue with
    | [] => some (s.goto c .emptyRelease)
    | m :: rest => some ({ s with queue := rest }.goto c (.sort m))
  | .sort m =>
    if m.msgId = s.msgId c then some ((s.setReturn c m).goto c .appoint)
    else
      match s.recipients.find? fun r => s.msgId r = m.msgId with
      | some r => some (({ s with msg := update s.msg r (some m) }.signal r).goto c .poll)
      | none => some ({ s with newMail := s.newMail ++ [m] }.goto c .poll)
  | .appoint =>
    match s.recipients.find? fun r => s.msg r = none with
    | some r => some ((s.signal r).goto c .releaseQueue)
    | none => some (s.goto c .releaseQueue)
  | .releaseQueue => some ({ s with queueLock := s.queueLock + 1 }.goto c .releaseMbx)
  | .releaseMbx => some (s.postMbx.goto c .done)
  | .emptyRelease => some (s.postMbx.goto c .blockGet)
  | .blockGet =>
    match s.queue with
    | [] => none
    | m :: rest => some ({ s with queue := rest }.goto c (.reacquire m))
  | .reacquire m => s.pendMbx.map fun s => s.goto c (.sort m)
  | .enlist =>
    some ({ s with
      recipients := s.recipients ++ [c]
      msg := update s.msg c none
      event := update s.event c 0 }.goto c .enlistRelease)
  | .enlistRelease => some (s.postMbx.goto c .wait)
  | .wait =>
    if s.event c = 0 then none
    else some ({ s with event := update s.event c (s.event c - 1) }.goto c .awake)
  | .awake => s.pendMbx.map fun s => s.goto c .pickup
  | .pickup =>
    match s.msg c with
    | some m =>
      some (({ s with recipients := s.recipients.erase c }.setReturn c m).goto c (.leave true))
    | none => some ({ s with recipients := s.recipients.erase c }.goto c (.leave false))
  | .leave found => some (s.postMbx.goto c (if found then .done else .again))
  | .done => none

/-! ## Runs -/

/-- In the call. -/
def Pc.active : Pc → Bool
  | .idle => false
  | .done => false
  | _ => true

/-- The message in the hand of the mailman. -/
def Pc.hand : Pc → Option Msg
  | .sort m => some m
  | .reacquire m => some m
  | _ => none

/-- Where a message can be. -/
inductive Place where
  | queue
  | hand (c : Nat)
  | newMail
  | recipient (c : Nat)
  | returned (c : Nat)
  deriving DecidableEq

def Sys.At (s : Sys) (m : Msg) : Place → Prop
  | .queue => m ∈ s.queue
  | .hand c => (s.pc c).hand = some m
  | .newMail => m ∈ s.newMail
  | .recipient c => c ∈ s.recipients ∧ s.msg c = some m
  | .returned c => s.returnMsg c = some m

/-- Not yet with the caller that asked for it. -/
def Place.undelivered : Place → Bool
  | .returned _ => false
  | _ => true

/-- The ids that are outstanding are pairwise different: of the calls that are made, and
of the messages that have not been returned. -/
inductive Step : Sys → Sys → Prop
  | arrive {s : Sys} (m : Msg) (hnew : m ∉ s.arrived)
      (hid : ∀ m' p, s.At m' p → p.undelivered = true → m'.msgId ≠ m.msgId) :
      Step s { s with queue := s.queue ++ [m], arrived := s.arrived ++ [m] }
  | call {s : Sys} (c : Nat) (id : UInt16) (hidle : s.pc c = .idle)
      (hid : ∀ c', (s.pc c').active = true → s.msgId c' ≠ id) :
      Step s ({ s with msgId := update s.msgId c id }.goto c .start)
  | advance {s s' : Sys} (c : Nat) (h : advance s c = some s') : Step s s'

/-- A state that some interleaving leads to. -/
inductive Reachable : Sys → Prop
  | init : Reachable {}
  | step {s s' : Sys} (hs : Reachable s) (h : Step s s') : Reachable s'

/-- Between the mailbox lock and the attempt at the queue lock: it is in the loop, and will
come to the attempt. -/
def Pc.betweenLocks : Pc → Bool
  | .leave found => !found
  | .again => true
  | .search => true
  | .tryQueue => true
  | _ => false

/-- The recipient has been signalled, and has no message. -/
def Sys.Signalled (s : Sys) (r : Nat) : Prop :=
  r ∈ s.recipients ∧ s.msg r = none ∧ (s.event r ≠ 0 ∨ s.pc r = .awake ∨ s.pc r = .pickup)

structure Delivers (s : Sys) : Prop where
  /-- Every message is in one place, and once in a list. -/
  once : ∀ m ∈ s.arrived, ∃! p, s.At m p
  queue : s.queue.Nodup
  newMail : s.newMail.Nodup
  /-- A call returns only with the message it asked for. -/
  own : ∀ c m, s.returnMsg c = some m → m.msgId = s.msgId c
  returned : ∀ c, s.pc c = .done → s.returnMsg c ≠ none
  /-- No waiter is left without a mailman. -/
  mailman : s.queueLock ≠ 0 → (∀ c, (s.pc c).betweenLocks = false) → ∀ r ∈ s.recipients,
    s.msg r ≠ none ∨ ∃ c, s.Signalled c

/-! ## What a step can do -/

/-- Where a call goes on after it has given back the mailbox lock. -/
def Pc.afterRelease : Pc → Option Pc
  | .foundRelease => some .done
  | .releaseMbx => some .done
  | .emptyRelease => some .blockGet
  | .enlistRelease => some .wait
  | .leave true => some .done
  | .leave false => some .again
  | _ => none

/-- The steps of a call, one constructor for each place and outcome. -/
inductive Moves (s : Sys) (c : Nat) : Sys → Prop
  | start (hpc : s.pc c = .start ∨ s.pc c = .again) {n : Nat} (hlock : s.mbxLock = n + 1) :
      Moves s c ({ s with mbxLock := n }.goto c .search)
  | found (hpc : s.pc c = .search) {m : Msg}
      (hfind : s.newMail.find? (fun m => m.msgId = s.msgId c) = some m) :
      Moves s c (({ s with newMail := s.newMail.erase m }.setReturn c m).goto c .foundRelease)
  | notFound (hpc : s.pc c = .search)
      (hfind : s.newMail.find? (fun m => m.msgId = s.msgId c) = none) :
      Moves s c (s.goto c .tryQueue)
  | queueBusy (hpc : s.pc c = .tryQueue) (hlock : s.queueLock = 0) : Moves s c (s.goto c .enlist)
  | queueFree (hpc : s.pc c = .tryQueue) {n : Nat} (hlock : s.queueLock = n + 1) :
      Moves s c ({ s with queueLock := n }.goto c .poll)
  | pollEmpty (hpc : s.pc c = .poll) : Moves s c (s.goto c .emptyRelease)
  | pollGet (hpc : s.pc c = .poll) {m : Msg} {rest : List Msg} (hqueue : s.queue = m :: rest) :
      Moves s c ({ s with queue := rest }.goto c (.sort m))
  | own {m : Msg} (hpc : s.pc c = .sort m) (hid : m.msgId = s.msgId c) :
      Moves s c ((s.setReturn c m).goto c .appoint)
  | deliver {m : Msg} (hpc : s.pc c = .sort m) (hid : m.msgId ≠ s.msgId c) {r : Nat}
      (hfind : s.recipients.find? (fun r => s.msgId r = m.msgId) = some r) :
      Moves s c (({ s with msg := update s.msg r (some m) }.signal r).goto c .poll)
  | store {m : Msg} (hpc : s.pc c = .sort m) (hid : m.msgId ≠ s.msgId c)
      (hfind : s.recipients.find? (fun r => s.msgId r = m.msgId) = none) :
      Moves s c ({ s with newMail := s.newMail ++ [m] }.goto c .poll)
  | appoint (hpc : s.pc c = .appoint) {r : Nat}
      (hfind : s.recipients.find? (fun r => s.msg r = none) = some r) :
      Moves s c ((s.signal r).goto c .releaseQueue)
  | appointNone (hpc : s.pc c = .appoint)
      (hfind : s.recipients.find? (fun r => s.msg r = none) = none) :
      Moves s c (s.goto c .releaseQueue)
  | releaseQueue (hpc : s.pc c = .releaseQueue) :
      Moves s c ({ s with queueLock := s.queueLock + 1 }.goto c .releaseMbx)
  | release {p : Pc} (hpc : (s.pc c).afterRelease = some p) : Moves s c (s.postMbx.goto c p)
  | blockGet (hpc : s.pc c = .blockGet) {m : Msg} {rest : List Msg} (hqueue : s.queue = m :: rest) :
      Moves s c ({ s with queue := rest }.goto c (.reacquire m))
  | reacquire {m : Msg} (hpc : s.pc c = .reacquire m) {n : Nat} (hlock : s.mbxLock = n + 1) :
      Moves s c ({ s with mbxLock := n }.goto c (.sort m))
  | enlist (hpc : s.pc c = .enlist) :
      Moves s c ({ s with
        recipients := s.recipients ++ [c]
        msg := update s.msg c none
        event := update s.event c 0 }.goto c .enlistRelease)
  | wake (hpc : s.pc c = .wait) {n : Nat} (hevent : s.event c = n + 1) :
      Moves s c ({ s with event := update s.event c n }.goto c .awake)
  | awake (hpc : s.pc c = .awake) {n : Nat} (hlock : s.mbxLock = n + 1) :
      Moves s c ({ s with mbxLock := n }.goto c .pickup)
  | pickup (hpc : s.pc c = .pickup) {m : Msg} (hmsg : s.msg c = some m) :
      Moves s c (({ s with recipients := s.recipients.erase c }.setReturn c m).goto c (.leave true))
  | pickupNone (hpc : s.pc c = .pickup) (hmsg : s.msg c = none) :
      Moves s c ({ s with recipients := s.recipients.erase c }.goto c (.leave false))

theorem pendMbx_eq_some {s s' : Sys} (h : s.pendMbx = some s') :
    ∃ n, s.mbxLock = n + 1 ∧ s' = { s with mbxLock := n } := by
  rw [Sys.pendMbx] at h
  split at h
  · cases h
  · next hne =>
    obtain ⟨n, hn⟩ := Nat.exists_eq_succ_of_ne_zero hne
    refine ⟨n, hn, ?_⟩
    rw [← Option.some.inj h, hn]
    rfl

theorem pendMbx_map {s s' : Sys} {c : Nat} {p : Pc}
    (h : (s.pendMbx.map fun s => s.goto c p) = some s') :
    ∃ n, s.mbxLock = n + 1 ∧ s' = { s with mbxLock := n }.goto c p := by
  obtain ⟨t, ht, rfl⟩ := Option.map_eq_some_iff.mp h
  obtain ⟨n, hn, rfl⟩ := pendMbx_eq_some ht
  exact ⟨n, hn, rfl⟩

theorem advance_moves {s s' : Sys} {c : Nat} (h : advance s c = some s') : Moves s c s' := by
  rw [advance] at h
  split at h
  · cases h
  · next hpc =>
    obtain ⟨n, hn, rfl⟩ := pendMbx_map h
    exact .start (.inl hpc) hn
  · next hpc =>
    obtain ⟨n, hn, rfl⟩ := pendMbx_map h
    exact .start (.inr hpc) hn
  · next hpc =>
    split at h
    · next hfind =>
      cases h
      exact .found hpc hfind
    · next hfind =>
      cases h
      exact .notFound hpc hfind
  · next hpc =>
    cases h
    exact .release (by rw [hpc]; rfl)
  · next hpc =>
    split at h
    · next hlock =>
      cases h
      exact .queueBusy hpc hlock
    · next hlock =>
      cases h
      obtain ⟨n, hn⟩ := Nat.exists_eq_succ_of_ne_zero hlock
      rw [hn]
      exact .queueFree hpc hn
  · next hpc =>
    split at h
    · cases h
      exact .pollEmpty hpc
    · next hqueue =>
      cases h
      exact .pollGet hpc hqueue
  · next m hpc =>
    split at h
    · next hid =>
      cases h
      exact .own hpc hid
    · next hid =>
      split at h
      · next hfind =>
        cases h
        exact .deliver hpc hid hfind
      · next hfind =>
        cases h
        exact .store hpc hid hfind
  · next hpc =>
    split at h
    · next hfind =>
      cases h
      exact .appoint hpc hfind
    · next hfind =>
      cases h
      exact .appointNone hpc hfind
  · next hpc =>
    cases h
    exact .releaseQueue hpc
  · next hpc =>
    cases h
    exact .release (by rw [hpc]; rfl)
  · next hpc =>
    cases h
    exact .release (by rw [hpc]; rfl)
  · next hpc =>
    split at h
    · cases h
    · next hqueue =>
      cases h
      exact .blockGet hpc hqueue
  · next m hpc =>
    obtain ⟨n, hn, rfl⟩ := pendMbx_map h
    exact .reacquire hpc hn
  · next hpc =>
    cases h
    exact .enlist hpc
  · next hpc =>
    cases h
    exact .release (by rw [hpc]; rfl)
  · next hpc =>
    split at h
    · cases h
    · next hevent =>
      cases h
      obtain ⟨n, hn⟩ := Nat.exists_eq_succ_of_ne_zero hevent
      rw [hn]
      exact .wake hpc hn
  · next hpc =>
    obtain ⟨n, hn, rfl⟩ := pendMbx_map h
    exact .awake hpc hn
  · next hpc =>
    split at h
    · next hmsg =>
      cases h
      exact .pickup hpc hmsg
    · next hmsg =>
      cases h
      exact .pickupNone hpc hmsg
  · next found hpc =>
    cases h
    cases found with
    | true => exact .release (by rw [hpc]; rfl)
    | false => exact .release (by rw [hpc]; rfl)
  · cases h

end Omap4Hal.Rcm.Mailman

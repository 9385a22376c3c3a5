import Mathlib.Algebra.Group.Int.Defs
import Omap4Hal.Lib.Run

/- The handles of the OMAP4430PROC module (procmgr4430/omap4430proc.c). A handle is
   the address of an object in the heap of the process; `procHandles` has the handle
   of each processor. Handles come from `create` or from `open`, `close` and `delete`
   take them back, and `destroy` deletes what is left over. The answers of the kernel
   and of the allocator are arguments of each call.

   An object that is read after it was freed is a run that does not return (`none`).
   The one exception is `delete`, which reads the processor id of the object it has
   just freed: the allocator may have written over it, so what is read there is an
   argument too (`DeleteReply.stale`).

   `procHandles_sound` says what holds over every run of the six calls. -/
namespace Omap4Hal.Procmgr.Omap4430Proc

open Lib
open Function (update update_self update_of_ne)
open Option (bind_eq_some_iff map map_eq_some_iff map_map)

/-! ## Status codes (omap4430proc.h) -/

def statusCodeBase : Int := 0xbbec * 2 ^ 12

def makeFailure (x : Int) : Int := statusCodeBase + x - 2 ^ 31

def makeSuccess (x : Int) : Int := statusCodeBase + x

def eInvalidArg : Int := makeFailure 5
def eMemory : Int := makeFailure 6
def eHandle : Int := makeFailure 7
def eAccessDenied : Int := makeFailure 8
def sSuccess : Int := makeSuccess 0
def sAlreadySetup : Int := makeSuccess 1
def sSetup : Int := makeSuccess 2
def sOpenHandle : Int := makeSuccess 3
def sAlreadyExists : Int := makeSuccess 4

/-! ## State -/

def maxProcessors : Nat := 4

/-- The MultiProc configuration; its list of names has room for `maxProcessors`. -/
structure MultiProc where
  self : UInt16
  numProcessors : Nat
  inTable : numProcessors ≤ maxProcessors

def MultiProc.isValidRemoteProc (mp : MultiProc) (procId : UInt16) : Bool :=
  procId ≠ mp.self && procId.toNat < mp.numProcessors

structure Object where
  knlObject : Nat
  openRefCount : UInt32
  created : Bool
  procId : UInt16
  deriving DecidableEq

/-- What `Memory_calloc` returns. -/
def Object.zero : Object := ⟨0, 0, false, 0⟩

/-- `OMAP4430PROC_state`, and the objects that are allocated. -/
structure State where
  setupRefCount : UInt32 := 0
  procHandles : Nat → Option Nat := fun _ => none
  heap : Nat → Option Object := fun _ => none

def State.setHandle (s : State) (p : Nat) (h : Option Nat) : State :=
  { s with procHandles := update s.procHandles p h }

def State.setObject (s : State) (h : Nat) (o : Option Object) : State :=
  { s with heap := update s.heap h o }

/-- What the kernel answers to CREATE and OPEN, and the block the allocator gives. -/
structure Reply where
  status : Int
  knlObject : Nat
  block : Option Nat

/-- What the kernel answers to DELETE, and the processor id read from the freed object. -/
structure DeleteReply where
  status : Int
  stale : UInt16

/-! ## The calls -/

def setup (s : State) (opened : Int) (status : Int) : Int × State :=
  let s := { s with setupRefCount := s.setupRefCount + 1 }
  if s.setupRefCount > 1 then (sAlreadySetup, s)
  else if opened < 0 then (opened, s)
  else (status, s)

/-- A new object at the block the allocator gives, entered for the processor. The
allocator does not give a block that is in use. -/
def allocate (s : State) (procId : UInt16) (o : Object) (h : Nat) : Option State :=
  if (s.heap h).isSome then none
  else some ((s.setObject h (some o)).setHandle procId.toNat (some h))

/-- The handle in the table, with one more reference. -/
def reopen (s : State) (h : Nat) : Option State := do
  let o ← s.heap h
  some (s.setObject h (some { o with openRefCount := o.openRefCount + 1 }))

def create (mp : MultiProc) (s : State) (procId : UInt16) (params : Bool) (r : Reply) :
    Option (Option Nat × State) :=
  if !mp.isValidRemoteProc procId then some (none, s)
  else if !params then some (none, s)
  else
    match s.procHandles procId.toNat with
    | some h => (reopen s h).map fun s => (some h, s)
    | none =>
      if r.status < 0 then some (none, s)
      else
        match r.block with
        | none => some (none, s)
        | some h =>
          (allocate s procId
            { Object.zero with knlObject := r.knlObject, created := true, procId := procId } h).map
            fun s => (some h, s)

def delete (s : State) (handlePtr : Option (Option Nat)) (r : DeleteReply) :
    Option (Int × Option Nat × State) :=
  match handlePtr with
  | none => some (eInvalidArg, none, s)
  | some none => some (eHandle, none, s)
  | some (some h) => do
    let o ← s.heap h
    let status := if o.openRefCount ≠ 0 then sOpenHandle else sSuccess
    let status := if o.created = false then eAccessDenied else status
    if status ≥ 0 then
      if r.status < 0 then some (r.status, some h, s)
      -- the object is freed first; then its processor id is read for the table
      else some (status, none, (s.setObject h none).setHandle r.stale.toNat none)
    else some (status, some h, s)

/-- `OMAP4430PROC_open`: the status, what is stored in `*handlePtr`, and the state. -/
def openHandle (mp : MultiProc) (s : State) (handlePtr : Bool) (procId : UInt16) (r : Reply) :
    Option (Int × Option Nat × State) :=
  if !handlePtr then some (eInvalidArg, none, s)
  else if !mp.isValidRemoteProc procId then some (eInvalidArg, none, s)
  else
    match s.procHandles procId.toNat with
    | some h => (reopen s h).map fun s => (sAlreadyExists, some h, s)
    | none =>
      if r.status < 0 then some (r.status, none, s)
      else
        match r.block with
        | none => some (eMemory, none, s)
        | some h =>
          -- the processor id of the new object is not set
          (allocate s procId
            { Object.zero with knlObject := r.knlObject, openRefCount := 1 } h).map
            fun s => (r.status, some h, s)

def close (s : State) (handlePtr : Option (Option Nat)) (status : Int) :
    Option (Int × Option Nat × State) :=
  match handlePtr with
  | none => some (eInvalidArg, none, s)
  | some none => some (eHandle, none, s)
  | some (some h) => do
    let o ← s.heap h
    if o.openRefCount = 0 then some (eAccessDenied, some h, s)
    else if o.openRefCount > 1 then
      some (sOpenHandle, some h,
        s.setObject h (some { o with openRefCount := o.openRefCount - 1 }))
    else if o.created = false then
      some (status, none, (s.setHandle o.procId.toNat none).setObject h none)
    else some (status, none, s)

/-- The loop of `OMAP4430PROC_destroy`; `delete` is given the address of the entry. -/
def destroyLoop (r : Nat → DeleteReply) : State → List Nat → Option State
  | s, [] => some s
  | s, i :: is =>
    match s.procHandles i with
    | none => destroyLoop r s is
    | some h => do
      let d ← delete s (some (some h)) (r i)
      destroyLoop r (d.2.2.setHandle i d.2.1) is

def destroy (s : State) (status : Int) (r : Nat → DeleteReply) : Option (Int × State) :=
  let s := { s with setupRefCount := s.setupRefCount - 1 }
  if s.setupRefCount ≥ 1 then some (sSetup, s)
  else (destroyLoop r s (List.range maxProcessors)).map fun s => (status, s)

/-! ## Runs -/

/-- The use made of an object since it was allocated: the opens, the closes that were
not denied, and whether a created object was closed at its last reference. -/
structure Uses where
  opens : Nat := 0
  closes : Nat := 0
  drained : Bool := false
  deriving DecidableEq

structure Tracked where
  s : State := {}
  uses : Nat → Uses := fun _ => {}

inductive Call where
  | setup (opened : Int) (status : Int)
  | destroy (status : Int) (r : Nat → DeleteReply)
  | create (procId : UInt16) (params : Bool) (r : Reply)
  | delete (handlePtr : Option (Option Nat)) (r : DeleteReply)
  | openHandle (handlePtr : Bool) (procId : UInt16) (r : Reply)
  | close (handlePtr : Option (Option Nat)) (status : Int)

/-- The uses after a call that returned the handle `h`: one more open of the object
that stood in the table, or the first use of a new one. -/
def noteOpen (uses : Nat → Uses) (entry : Option Nat) (first : Uses) :
    Option Nat → Nat → Uses
  | none => uses
  | some h =>
    update uses h (if entry.isSome then { uses h with opens := (uses h).opens + 1 } else first)

def noteClose (uses : Nat → Uses) (s : State) (h : Nat) : Nat → Uses :=
  match s.heap h with
  | none => uses
  | some o =>
    if o.openRefCount = 0 then uses
    else
      update uses h { uses h with
        closes := (uses h).closes + 1
        drained := (uses h).drained || (o.created && o.openRefCount = 1) }

def step (mp : MultiProc) (t : Tracked) : Call → Option Tracked
  | .setup opened status => some { t with s := (setup t.s opened status).2 }
  | .destroy status r => (destroy t.s status r).map fun x => { t with s := x.2 }
  | .create procId params r =>
    (create mp t.s procId params r).map fun x =>
      ⟨x.2, noteOpen t.uses (t.s.procHandles procId.toNat) {} x.1⟩
  | .delete handlePtr r => (delete t.s handlePtr r).map fun x => { t with s := x.2.2 }
  | .openHandle handlePtr procId r =>
    (openHandle mp t.s handlePtr procId r).map fun x =>
      ⟨x.2.2, noteOpen t.uses (t.s.procHandles procId.toNat) { opens := 1 } x.2.1⟩
  | .close handlePtr status =>
    (close t.s handlePtr status).map fun x =>
      ⟨x.2.2, match handlePtr with
        | some (some h) => noteClose t.uses t.s h
        | _ => t.uses⟩

/-! ## What handles are for -/

/-- The call is one that deletes the object, as the last thing or among others. -/
def Call.Deletes (h : Nat) : Call → Prop
  | .delete (some (some h')) _ => h' = h
  | .destroy _ _ => True
  | _ => False

/-- What is to hold in every state: an entry of the table is a live object, of its
processor if it was created here or is the handle of processor 0; each live object
stands in the table once; and its open count is the opens less the closes. -/
structure HandleInv (t : Tracked) : Prop where
  entry : ∀ p h, t.s.procHandles p = some h →
    ∃ o, t.s.heap h = some o ∧ (o.created = true ∨ p = 0 → o.procId.toNat = p)
  placed : ∀ h, (t.s.heap h).isSome → ∃! p, t.s.procHandles p = some h
  counted : ∀ h o, t.s.heap h = some o → (t.uses h).drained = false →
    o.openRefCount.toNat + (t.uses h).closes = (t.uses h).opens
  opened : ∀ h o, t.s.heap h = some o → o.created = false → (t.uses h).drained = false

/-- What is to hold of every step: an object that was opened ends with the close of its
last opener, one that was created when it is deleted, and a close of the handle of one
processor leaves the entries of the others alone. -/
structure HandleStep (t : Tracked) (c : Call) (t' : Tracked) : Prop where
  lifetime : ∀ h o, t.s.heap h = some o → t'.s.heap h = none →
    (o.created = true ∧ c.Deletes h) ∨
      (o.created = false ∧ (∃ status, c = .close (some (some h)) status) ∧
        (t'.uses h).opens = (t'.uses h).closes)
  others : ∀ h status p, c = .close (some (some h)) status → t.s.procHandles p = some h →
    ∀ q, q ≠ p → t'.s.procHandles q = t.s.procHandles q

/-- The calls about which this is said. An open count does not wrap around; a handle
that was opened, not created, is not closed for the last time if it is of a processor
other than 0 (its `procId` was never set); and the freed object still has its `procId`. -/
def Careful (t : Tracked) : Call → Prop
  | .setup _ _ => True
  | .create procId _ _ => ∀ h o, t.s.procHandles procId.toNat = some h →
      t.s.heap h = some o → o.openRefCount.toNat + 1 < 2 ^ 32
  | .openHandle _ procId _ => ∀ h o, t.s.procHandles procId.toNat = some h →
      t.s.heap h = some o → o.openRefCount.toNat + 1 < 2 ^ 32
  | .close (some (some h)) _ => ∀ o p, t.s.heap h = some o → t.s.procHandles p = some h →
      o.created = false → o.openRefCount = 1 → p = 0
  | .close _ _ => True
  | .delete (some (some h)) r => ∀ o, t.s.heap h = some o → r.stale = o.procId
  | .delete _ _ => True
  | .destroy _ r => ∀ i h o, i < maxProcessors → t.s.procHandles i = some h →
      t.s.heap h = some o → (r i).stale = o.procId

/-! ## The three changes of the table and the heap -/

theorem initial_handleInv : HandleInv {} := by
  refine ⟨?_, ?_, ?_, ?_⟩
  · intro p h hp
    cases hp
  · intro h hh
    cases hh
  · intro h o ho
    cases ho
  · intro h o ho
    cases ho

variable {t : Tracked} {p h : Nat} {o new : Object} {uses : Nat → Uses} {s s' : State}
  {procId : UInt16} {h? h' : Option Nat} {mp : MultiProc} {status : Int}

theorem HandleInv.unique (hinv : HandleInv t) {q : Nat} (hp : t.s.procHandles p = some h)
    (hq : t.s.procHandles q = some h) : p = q := by
  obtain ⟨o, ho, _⟩ := hinv.entry p h hp
  exact (hinv.placed h (by rw [ho]; rfl)).unique hp hq

theorem HandleInv.recount (hinv : HandleInv t) {o' : Object} {u : Uses} (ho : t.s.heap h = some o)
    (hcreated : o'.created = o.created) (hproc : o'.procId = o.procId)
    (hcount : u.drained = false → o'.openRefCount.toNat + u.closes = u.opens)
    (hopened : o.created = false → u.drained = false) :
    HandleInv ⟨t.s.setObject h (some o'), update t.uses h u⟩ := by
  refine ⟨?_, ?_, ?_, ?_⟩
  · intro p a ha
    obtain ⟨oa, hoa, hpa⟩ := hinv.entry p a ha
    by_cases hah : a = h
    · subst hah
      cases ho.symm.trans hoa
      refine ⟨o', by simp [State.setObject], ?_⟩
      rw [hcreated, hproc]
      exact hpa
    · exact ⟨oa, by simp [State.setObject, hah, hoa], hpa⟩
  · intro a ha
    apply hinv.placed a
    by_cases hah : a = h
    · rw [hah, ho]
      rfl
    · simpa [State.setObject, hah] using ha
  · intro a oa hoa hda
    by_cases hah : a = h
    · subst hah
      simp only [State.setObject, update_self, Option.some.injEq] at hoa hda ⊢
      exact hoa ▸ hcount hda
    · simp only [State.setObject, ne_eq, hah, not_false_eq_true, update_of_ne] at hoa hda ⊢
      exact hinv.counted a oa hoa hda
  · intro a oa hoa hca
    by_cases hah : a = h
    · subst hah
      simp only [State.setObject, update_self, Option.some.injEq] at hoa ⊢
      exact hopened (hcreated ▸ hoa ▸ hca)
    · simp only [State.setObject, ne_eq, hah, not_false_eq_true, update_of_ne] at hoa ⊢
      exact hinv.opened a oa hoa hca

theorem HandleInv.enter (hinv : HandleInv t) {u : Uses} (hp : t.s.procHandles p = none)
    (hh : t.s.heap h = none) (hproc : o.created = true ∨ p = 0 → o.procId.toNat = p)
    (hcount : o.openRefCount.toNat + u.closes = u.opens) (hdrained : u.drained = false) :
    HandleInv ⟨(t.s.setObject h (some o)).setHandle p (some h), update t.uses h u⟩ := by
  have hnew : ∀ q, t.s.procHandles q ≠ some h := by
    intro q hq
    obtain ⟨oq, hoq, _⟩ := hinv.entry q h hq
    rw [hh] at hoq
    cases hoq
  refine ⟨?_, ?_, ?_, ?_⟩
  · intro q a ha
    by_cases hqp : q = p
    · subst hqp
      simp only [State.setHandle, update_self, Option.some.injEq] at ha
      exact ⟨o, by simp [State.setObject, State.setHandle, ha], hproc⟩
    · simp only [State.setHandle, ne_eq, hqp, not_false_eq_true, update_of_ne] at ha
      obtain ⟨oa, hoa, hpa⟩ := hinv.entry q a ha
      have hah : a ≠ h := fun hah => hnew q (hah ▸ ha)
      exact ⟨oa, by simp [State.setObject, State.setHandle, hah, hoa], hpa⟩
  · intro a ha
    by_cases hah : a = h
    · subst hah
      refine ⟨p, by simp [State.setHandle], ?_⟩
      intro q hq
      by_contra hqp
      simp only [State.setHandle, ne_eq, hqp, not_false_eq_true, update_of_ne] at hq
      exact hnew q hq
    · simp only [State.setHandle, State.setObject, ne_eq, hah, not_false_eq_true,
        update_of_ne] at ha
      obtain ⟨q, hq, huniq⟩ := hinv.placed a ha
      have hqp : q ≠ p := by
        intro hqp
        rw [hqp, hp] at hq
        cases hq
      refine ⟨q, by simp [State.setHandle, State.setObject, hqp, hq], ?_⟩
      intro r hr
      by_cases hrp : r = p
      · subst hrp
        simp only [State.setHandle, update_self, Option.some.injEq] at hr
        exact absurd hr.symm hah
      · simp only [State.setHandle, ne_eq, hrp, not_false_eq_true, update_of_ne] at hr
        exact huniq r hr
  · intro a oa hoa hda
    by_cases hah : a = h
    · subst hah
      simp only [State.setHandle, State.setObject, update_self, Option.some.injEq] at hoa ⊢
      exact hoa ▸ hcount
    · simp only [State.setHandle, State.setObject, ne_eq, hah, not_false_eq_true,
        update_of_ne] at hoa hda ⊢
      exact hinv.counted a oa hoa hda
  · intro a oa hoa hca
    by_cases hah : a = h
    · subst hah
      simpa using hdrained
    · simp only [State.setHandle, State.setObject, ne_eq, hah, not_false_eq_true,
        update_of_ne] at hoa ⊢
      exact hinv.opened a oa hoa hca

theorem HandleInv.remove (hinv : HandleInv t) (hp : t.s.procHandles p = some h)
    (huses : ∀ a, a ≠ h → uses a = t.uses a) :
    HandleInv ⟨(t.s.setHandle p none).setObject h none, uses⟩ := by
  -- what is live afterwards was live before, elsewhere
  have hlive : ∀ a o, ((t.s.setHandle p none).setObject h none).heap a = some o →
      a ≠ h ∧ t.s.heap a = some o := by
    intro a o ha
    have hah : a ≠ h := by
      intro hah
      simp [State.setObject, hah] at ha
    exact ⟨hah, by simpa [State.setObject, State.setHandle, hah] using ha⟩
  have hentry : ∀ q, q ≠ p →
      ((t.s.setHandle p none).setObject h none).procHandles q = t.s.procHandles q := by
    intro q hqp
    simp [State.setObject, State.setHandle, hqp]
  have hcleared : ((t.s.setHandle p none).setObject h none).procHandles p = none := by
    simp [State.setObject, State.setHandle]
  refine ⟨?_, ?_, ?_, ?_⟩
  · intro q a ha
    have hqp : q ≠ p := by
      intro hqp
      rw [hqp, hcleared] at ha
      cases ha
    rw [hentry q hqp] at ha
    obtain ⟨oa, hoa, hpa⟩ := hinv.entry q a ha
    have hah : a ≠ h := fun hah => hqp (hinv.unique (hah ▸ ha) hp)
    exact ⟨oa, by simp [State.setObject, State.setHandle, hah, hoa], hpa⟩
  · intro a ha
    obtain ⟨oa, hoa⟩ := Option.isSome_iff_exists.mp ha
    obtain ⟨hah, hoa⟩ := hlive a oa hoa
    obtain ⟨q, hq, huniq⟩ := hinv.placed a (by rw [hoa]; rfl)
    have hqp : q ≠ p := by
      intro hqp
      rw [hqp, hp] at hq
      exact hah (Option.some.inj hq).symm
    refine ⟨q, (hentry q hqp).trans hq, ?_⟩
    intro r hr
    have hrp : r ≠ p := by
      intro hrp
      rw [hrp, hcleared] at hr
      cases hr
    exact huniq r ((hentry r hrp).symm.trans hr)
  · intro a oa hoa hda
    obtain ⟨hah, hoa⟩ := hlive a oa hoa
    simp only [huses a hah] at hda ⊢
    exact hinv.counted a oa hoa hda
  · intro a oa hoa hca
    obtain ⟨hah, hoa⟩ := hlive a oa hoa
    simp only [huses a hah]
    exact hinv.opened a oa hoa hca

/-! ## The calls, one by one -/

/-- What `create` and `openHandle` can do for a processor: refuse, count one more
reference to the handle in the table, or enter a new object. -/
inductive Opens (s : State) (p : Nat) (new : Object) : Option Nat → State → Prop
  | refused : Opens s p new none s
  | again (h : Nat) (o : Object) (hp : s.procHandles p = some h) (ho : s.heap h = some o) :
      Opens s p new (some h)
        (s.setObject h (some { o with openRefCount := o.openRefCount + 1 }))
  | entered (h : Nat) (hp : s.procHandles p = none) (hh : s.heap h = none) :
      Opens s p new (some h) ((s.setObject h (some new)).setHandle p (some h))

theorem reopen_eq_some (hs : reopen s h = some s') :
    ∃ o, s.heap h = some o ∧
      s' = s.setObject h (some { o with openRefCount := o.openRefCount + 1 }) := by
  rw [reopen] at hs
  obtain ⟨o, ho, hs⟩ := bind_eq_some_iff.mp hs
  exact ⟨o, ho, (Option.some.inj hs).symm⟩

theorem allocate_eq_some (hs : allocate s procId o h = some s') :
    s.heap h = none ∧ s' = (s.setObject h (some o)).setHandle procId.toNat (some h) := by
  rw [allocate] at hs
  split at hs
  · cases hs
  · next hfree => exact ⟨by simpa using hfree, (Option.some.inj hs).symm⟩

theorem opens_valid (status : Int) (block : Option Nat)
    (hs : (match s.procHandles procId.toNat with
      | some h => (reopen s h).map fun s => (some h, s)
      | none =>
        if status < 0 then some (none, s)
        else
          match block with
          | none => some (none, s)
          | some h => (allocate s procId new h).map fun s => (some h, s)) = some (h?, s'))
    :
    Opens s procId.toNat new h? s' := by
  split at hs
  · next h hp =>
    obtain ⟨s'', hs'', heq⟩ := map_eq_some_iff.mp hs
    obtain ⟨o, ho, rfl⟩ := reopen_eq_some hs''
    cases heq
    exact .again h o hp ho
  · next hp =>
    split at hs
    · cases Option.some.inj hs
      exact .refused
    · split at hs
      · cases Option.some.inj hs
        exact .refused
      · next h =>
        obtain ⟨s'', hs'', heq⟩ := map_eq_some_iff.mp hs
        obtain ⟨hh, rfl⟩ := allocate_eq_some hs''
        cases heq
        exact .entered h hp hh

theorem create_opens {params : Bool} {r : Reply} (hs : create mp s procId params r = some (h?, s'))
    :
    Opens s procId.toNat
      { Object.zero with knlObject := r.knlObject, created := true, procId := procId } h? s' := by
  rw [create] at hs
  split at hs
  · cases Option.some.inj hs
    exact .refused
  · split at hs
    · cases Option.some.inj hs
      exact .refused
    · exact opens_valid r.status r.block hs

theorem openHandle_opens {handlePtr : Bool} {r : Reply}
    (hs : openHandle mp s handlePtr procId r = some (status, h?, s')) :
    Opens s procId.toNat
      { Object.zero with knlObject := r.knlObject, openRefCount := 1 } h? s' := by
  rw [openHandle] at hs
  split at hs
  · obtain ⟨_, rfl, rfl⟩ := hs
    exact .refused
  · split at hs
    · obtain ⟨_, rfl, rfl⟩ := hs
      exact .refused
    · -- without the status, the rest is that of `create`
      apply opens_valid r.status r.block
      have hdrop := congrArg (map Prod.snd) hs
      rw [Option.map_some] at hdrop
      rw [← hdrop]
      split
      · rw [map_map]
        rfl
      · split
        · rfl
        · split
          · rfl
          · rw [map_map]
            rfl

theorem Opens.handleInv (ho : Opens t.s p new h? s') (hinv : HandleInv t) {first : Uses}
    (hwrap : ∀ h o, t.s.procHandles p = some h → t.s.heap h = some o →
      o.openRefCount.toNat + 1 < 2 ^ 32)
    (hnew : new.created = true ∨ p = 0 → new.procId.toNat = p)
    (hcount : new.openRefCount.toNat + first.closes = first.opens)
    (hdrained : first.drained = false) :
    HandleInv ⟨s', noteOpen t.uses (t.s.procHandles p) first h?⟩ := by
  cases ho with
  | refused => exact hinv
  | again h o hp hh =>
    rw [hp]
    refine hinv.recount hh ?_ ?_ ?_ ?_
    · rfl
    · rfl
    · intro hd
      have hsum := hinv.counted h o hh hd
      have hlt := hwrap h o hp hh
      simp only [Option.isSome_some, if_true, UInt32.toNat_add, UInt32.reduceToNat]
      omega
    · intro hc
      exact hinv.opened h o hh hc
  | entered h hp hh =>
    rw [hp]
    exact hinv.enter hp hh hnew hcount hdrained

theorem Opens.heap_ne_none (ho : Opens s p new h? s') {a : Nat} (ha : s.heap a = some o) :
    s'.heap a ≠ none := by
  cases ho with
  | refused =>
    rw [ha]
    simp
  | again h o' hp hh =>
    by_cases hah : a = h
    · simp [State.setObject, hah]
    · simp [State.setObject, hah, ha]
  | entered h hp hh =>
    by_cases hah : a = h
    · simp [State.setObject, State.setHandle, hah]
    · simp [State.setObject, State.setHandle, hah, ha]

theorem HandleStep.of_live {t' : Tracked} {c : Call}
    (hlive : ∀ h o, t.s.heap h = some o → t'.s.heap h ≠ none)
    (hclose : ∀ h status, c ≠ .close (some (some h)) status) : HandleStep t c t' := by
  refine ⟨?_, ?_⟩
  · intro h o ho hnone
    exact absurd hnone (hlive h o ho)
  · intro h status p hc
    exact absurd hc (hclose h status)

/-! ### delete and destroy -/

theorem delete_cases {handlePtr : Option (Option Nat)} {r : DeleteReply}
    (hs : delete s handlePtr r = some (status, h', s')) :
    (s' = s ∧ ∀ h, handlePtr = some (some h) → h' = some h) ∨
      ∃ h o, handlePtr = some (some h) ∧ s.heap h = some o ∧ o.created = true ∧ h' = none ∧
        s' = (s.setObject h none).setHandle r.stale.toNat none := by
  rw [delete.eq_def] at hs
  split at hs
  · obtain ⟨_, _, rfl⟩ := hs
    exact .inl ⟨rfl, fun h hh => by cases hh⟩
  · obtain ⟨_, _, rfl⟩ := hs
    exact .inl ⟨rfl, fun h hh => by cases hh⟩
  · next h =>
    obtain ⟨o, ho, hs⟩ := bind_eq_some_iff.mp hs
    by_cases hc : o.created = false
    · have hdenied : ¬ eAccessDenied ≥ 0 := by decide
      simp only [if_pos hc, if_neg hdenied] at hs
      obtain ⟨_, rfl, rfl⟩ := hs
      exact .inl ⟨rfl, fun a ha => Option.some.inj ha⟩
    · have hstatus : (if o.openRefCount ≠ 0 then sOpenHandle else sSuccess) ≥ 0 := by
        split <;> decide
      simp only [if_neg hc, if_pos hstatus] at hs
      split at hs
      · obtain ⟨_, rfl, rfl⟩ := hs
        exact .inl ⟨rfl, fun a ha => Option.some.inj ha⟩
      · obtain ⟨_, rfl, rfl⟩ := hs
        exact .inr ⟨h, o, rfl, ho, by simpa using hc, rfl, rfl⟩

theorem HandleInv.delete (hinv : HandleInv t) (ho : t.s.heap h = some o) (hc : o.created = true) :
    t.s.procHandles o.procId.toNat = some h ∧
      HandleInv ⟨(t.s.setObject h none).setHandle o.procId.toNat none, t.uses⟩ := by
  obtain ⟨p, hp, _⟩ := hinv.placed h (by rw [ho]; rfl)
  obtain ⟨o', ho', hproc⟩ := hinv.entry p h hp
  cases ho.symm.trans ho'
  rw [hproc (.inl hc)]
  exact ⟨hp, hinv.remove hp fun _ _ => rfl⟩

theorem destroyLoop_handleInv {r : Nat → DeleteReply} {is : List Nat}
    (hs : destroyLoop r s is = some s') (hinv : HandleInv ⟨s, uses⟩)
    (hstale : ∀ i h o, i ∈ is → s.procHandles i = some h → s.heap h = some o →
      (r i).stale = o.procId)
    :
    HandleInv ⟨s', uses⟩ ∧
      ∀ h o, s.heap h = some o → s'.heap h = some o ∨ o.created = true := by
  induction is generalizing s with
  | nil =>
    cases hs
    exact ⟨hinv, fun h o ho => .inl ho⟩
  | cons i is ih =>
    have hrest : ∀ j h o, j ∈ is → s.procHandles j = some h → s.heap h = some o →
        (r j).stale = o.procId :=
      fun j h o hj => hstale j h o (List.mem_cons_of_mem i hj)
    rw [destroyLoop] at hs
    split at hs
    · exact ih hs hinv hrest
    · next h hp =>
      obtain ⟨⟨status, h', s₁⟩, hdel, hnext⟩ := bind_eq_some_iff.mp hs
      change destroyLoop r (s₁.setHandle i h') is = some s' at hnext
      rcases delete_cases hdel with ⟨rfl, hh'⟩ | ⟨a, o, ha, ho, hc, rfl, rfl⟩
      · -- not deleted: the handle is written back to where it was read
        have hsame : s₁.setHandle i h' = s₁ := by
          rw [hh' h rfl, State.setHandle, ← hp, Function.update_eq_self]
        rw [hsame] at hnext
        exact ih hnext hinv hrest
      · cases Option.some.inj ha
        have hdelete := hinv.delete ho hc
        have hi : o.procId.toNat = i := hinv.unique hdelete.1 hp
        have hsame : ((s.setObject h none).setHandle (r i).stale.toNat none).setHandle i none =
            (s.setObject h none).setHandle o.procId.toNat none := by
          rw [hstale i h o (List.mem_cons_self ..) hp ho, ← hi]
          simp [State.setHandle]
        rw [hsame] at hnext
        have hkept : ∀ a o', ((s.setObject h none).setHandle o.procId.toNat none).heap a = some o' →
            s.heap a = some o' := by
          intro a o' hao
          by_cases hah : a = h
          · simp [State.setObject, State.setHandle, hah] at hao
          · simpa [State.setObject, State.setHandle, hah] using hao
        obtain ⟨hinv', hlive⟩ := ih hnext hdelete.2 (by
          intro j a o' hj hja hao
          have hji : j ≠ o.procId.toNat := by
            intro hji
            simp [State.setHandle, hji] at hja
          apply hrest j a o' hj _ (hkept a o' hao)
          simpa [State.setHandle, State.setObject, hji] using hja)
        refine ⟨hinv', ?_⟩
        intro a oa hoa
        by_cases hah : a = h
        · subst hah
          cases ho.symm.trans hoa
          exact .inr hc
        · apply hlive a oa
          simpa [State.setObject, State.setHandle, hah] using hoa

/-! ### close -/

/-- What a close of the object `o` at `h` can do: nothing, count one reference less, or
free an object that was opened; a created one it leaves as it is. -/
theorem close_cases {st : Int} (hs : close s (some (some h)) status = some (st, h', s')) :
    ∃ o, s.heap h = some o ∧
      ((o.openRefCount = 0 ∧ s' = s) ∨
       (1 < o.openRefCount ∧
          s' = s.setObject h (some { o with openRefCount := o.openRefCount - 1 })) ∨
       (o.openRefCount = 1 ∧ o.created = false ∧
          s' = (s.setHandle o.procId.toNat none).setObject h none) ∨
       (o.openRefCount = 1 ∧ o.created = true ∧ s' = s)) := by
  rw [close.eq_def] at hs
  obtain ⟨o, ho, hs⟩ := bind_eq_some_iff.mp hs
  refine ⟨o, ho, ?_⟩
  split at hs
  · next hzero =>
    obtain ⟨_, _, rfl⟩ := hs
    exact .inl ⟨hzero, rfl⟩
  · next hzero =>
    split at hs
    · next hmore =>
      obtain ⟨_, _, rfl⟩ := hs
      exact .inr (.inl ⟨hmore, rfl⟩)
    · next hmore =>
      have hone : o.openRefCount = 1 := by
        rw [← UInt32.toNat_inj] at hzero ⊢
        rw [gt_iff_lt, UInt32.lt_iff_toNat_lt] at hmore
        simp only [UInt32.reduceToNat] at hzero hmore ⊢
        omega
      split at hs
      · next hc =>
        obtain ⟨_, _, rfl⟩ := hs
        exact .inr (.inr (.inl ⟨hone, hc, rfl⟩))
      · next hc =>
        obtain ⟨_, _, rfl⟩ := hs
        exact .inr (.inr (.inr ⟨hone, by simpa using hc, rfl⟩))

theorem noteClose_performed (ho : s.heap h = some o) (hne : o.openRefCount ≠ 0) :
    noteClose uses s h = update uses h { uses h with
      closes := (uses h).closes + 1
      drained := (uses h).drained || (o.created && o.openRefCount = 1) } := by
  rw [noteClose, ho]
  exact if_neg hne

theorem close_sound {st : Int} (hinv : HandleInv t)
    (hcare : Careful t (.close (some (some h)) status))
    (hs : close t.s (some (some h)) status = some (st, h', s')) :
    HandleInv ⟨s', noteClose t.uses t.s h⟩ ∧
      HandleStep t (.close (some (some h)) status) ⟨s', noteClose t.uses t.s h⟩ := by
  obtain ⟨o, ho, hcases⟩ := close_cases hs
  obtain ⟨p, hp, _⟩ := hinv.placed h (by rw [ho]; rfl)
  rcases hcases with ⟨hzero, rfl⟩ | ⟨hmore, rfl⟩ | ⟨hone, hc, rfl⟩ | ⟨hone, hc, rfl⟩
  · -- the close is denied
    have huses : noteClose t.uses t.s h = t.uses := by
      rw [noteClose, ho]
      exact if_pos hzero
    rw [huses]
    refine ⟨hinv, ?_, fun _ _ _ _ _ _ _ => rfl⟩
    intro a oa hoa hnone
    rw [hoa] at hnone
    cases hnone
  · -- one reference less
    rw [UInt32.lt_iff_toNat_lt] at hmore
    have hne : o.openRefCount ≠ 0 := by
      intro h0
      rw [h0] at hmore
      exact absurd hmore (by decide)
    have hne1 : o.openRefCount ≠ 1 := by
      intro h1
      rw [h1] at hmore
      exact absurd hmore (by decide)
    rw [noteClose_performed ho hne]
    refine ⟨?_, ?_, fun _ _ _ _ _ _ _ => rfl⟩
    · refine hinv.recount ho ?_ ?_ ?_ ?_
      · rfl
      · rfl
      · intro hd
        simp only [hne1, decide_false, Bool.and_false, Bool.or_false] at hd
        have hsum := hinv.counted h o ho hd
        have hlt := o.openRefCount.toNat_lt
        simp only [UInt32.toNat_sub, UInt32.reduceToNat] at hmore ⊢
        omega
      · intro hc
        simp only [hne1, decide_false, Bool.and_false, Bool.or_false]
        exact hinv.opened h o ho hc
    · intro a oa hoa hnone
      by_cases hah : a = h
      · simp [State.setObject, hah] at hnone
      · simp [State.setObject, hah, hoa] at hnone
  · -- the last close of an object that was opened: it stands at its `procId`, 0
    have hne : o.openRefCount ≠ 0 := by
      rw [hone]
      decide
    have hp0 : p = 0 := hcare o p ho hp hc hone
    obtain ⟨o', ho', hproc⟩ := hinv.entry p h hp
    cases ho.symm.trans ho'
    have hprocId : o.procId.toNat = p := hproc (.inr hp0)
    have hsum := hinv.counted h o ho (hinv.opened h o ho hc)
    rw [noteClose_performed ho hne, hprocId]
    refine ⟨?_, ?_, ?_⟩
    · apply hinv.remove hp
      intro a hah
      exact update_of_ne hah _ _
    · intro a oa hoa hnone
      have hah : a = h := by
        by_contra hah
        simp [State.setObject, State.setHandle, hah, hoa] at hnone
      subst hah
      cases ho.symm.trans hoa
      refine .inr ⟨hc, ⟨status, rfl⟩, ?_⟩
      simp only [update_self]
      rw [hone, UInt32.toNat_one] at hsum
      omega
    · intro a status' q hcall hq r hr
      obtain ⟨rfl, _⟩ : h = a ∧ status = status' := by simpa using hcall
      obtain rfl := hinv.unique hp hq
      simp [State.setObject, State.setHandle, hr]
  · -- the last close of an object that was created: only the note is made
    have hne : o.openRefCount ≠ 0 := by
      rw [hone]
      decide
    rw [noteClose_performed ho hne]
    refine ⟨?_, ?_, fun _ _ _ _ _ _ _ => rfl⟩
    · have hsame : t.s.setObject h (some o) = t.s := by
        rw [State.setObject, ← ho, Function.update_eq_self]
      rw [← hsame]
      refine hinv.recount ho rfl rfl ?_ ?_
      · intro hd
        simp [hc, hone] at hd
      · intro hopen
        rw [hc] at hopen
        cases hopen
    · intro a oa hoa hnone
      rw [hoa] at hnone
      cases hnone

/-! ## Runs keep the handles sound -/

theorem step_handles {t' : Tracked} {c : Call} (hinv : HandleInv t) (hcare : Careful t c)
    (hstep : step mp t c = some t') :
    HandleInv t' ∧ HandleStep t c t' := by
  cases c with
  | setup opened status =>
    cases hstep
    have hsame : ∀ s : State, (setup s opened status).2 =
        { s with setupRefCount := s.setupRefCount + 1 } := by
      intro s
      rw [setup]
      split
      · rfl
      · split <;> rfl
    simp only [hsame]
    refine ⟨⟨hinv.entry, hinv.placed, hinv.counted, hinv.opened⟩, HandleStep.of_live ?_ ?_⟩
    · intro h o ho
      simp [ho]
    · intro h st hst
      cases hst
  | destroy status r =>
    obtain ⟨⟨st, s'⟩, hs, rfl⟩ := map_eq_some_iff.mp hstep
    have hinv₁ : HandleInv ⟨{ t.s with setupRefCount := t.s.setupRefCount - 1 }, t.uses⟩ :=
      ⟨hinv.entry, hinv.placed, hinv.counted, hinv.opened⟩
    rw [destroy] at hs
    simp only at hs
    split at hs
    · obtain ⟨_, rfl⟩ := hs
      refine ⟨hinv₁, HandleStep.of_live ?_ ?_⟩
      · intro h o ho
        simp [ho]
      · intro h st hst
        cases hst
    · obtain ⟨s₂, hloop, heq⟩ := map_eq_some_iff.mp hs
      obtain ⟨_, rfl⟩ := heq
      obtain ⟨hinv', hlive⟩ := destroyLoop_handleInv hloop hinv₁
        fun i h o hi => hcare i h o (List.mem_range.mp hi)
      refine ⟨hinv', ?_, ?_⟩
      · intro h o ho hnone
        rcases hlive h o ho with hsome | hc
        · exact absurd hnone (by simp [hsome])
        · exact .inl ⟨hc, trivial⟩
      · intro h st p hst
        cases hst
  | create procId params r =>
    obtain ⟨⟨h?, s'⟩, hs, rfl⟩ := map_eq_some_iff.mp hstep
    have hopens := create_opens hs
    refine ⟨hopens.handleInv hinv hcare (fun _ => rfl) rfl rfl, HandleStep.of_live ?_ ?_⟩
    · intro h o ho
      exact hopens.heap_ne_none ho
    · intro h st hst
      cases hst
  | delete handlePtr r =>
    obtain ⟨⟨st, h', s'⟩, hs, rfl⟩ := map_eq_some_iff.mp hstep
    rcases delete_cases hs with ⟨rfl, _⟩ | ⟨h, o, rfl, ho, hc, _, rfl⟩
    · refine ⟨hinv, HandleStep.of_live ?_ ?_⟩
      · intro h o ho
        simp [ho]
      · intro h st hst
        cases hst
    · have hstale : r.stale = o.procId := hcare o ho
      rw [hstale]
      refine ⟨(hinv.delete ho hc).2, ?_, ?_⟩
      · intro a oa hoa hnone
        have hah : h = a := by
          by_contra hah
          simp [State.setObject, State.setHandle, Ne.symm hah, hoa] at hnone
        subst hah
        cases ho.symm.trans hoa
        exact .inl ⟨hc, rfl⟩
      · intro a st p hst
        cases hst
  | openHandle handlePtr procId r =>
    obtain ⟨⟨st, h?, s'⟩, hs, rfl⟩ := map_eq_some_iff.mp hstep
    have hopens := openHandle_opens hs
    refine ⟨hopens.handleInv hinv hcare ?_ rfl rfl, HandleStep.of_live ?_ ?_⟩
    · -- the `procId` of an opened object is 0
      intro hp
      rcases hp with hc | hp
      · cases hc
      · exact hp.symm
    · intro h o ho
      exact hopens.heap_ne_none ho
    · intro h st hst
      cases hst
  | close handlePtr status =>
    obtain ⟨⟨st, h', s'⟩, hs, rfl⟩ := map_eq_some_iff.mp hstep
    match handlePtr, hcare, hs with
    | none, _, hs =>
      obtain ⟨_, _, rfl⟩ := hs
      refine ⟨hinv, ?_, ?_⟩
      · intro h o ho hnone
        simp [ho] at hnone
      · intro h st p hst
        cases hst
    | some none, _, hs =>
      obtain ⟨_, _, rfl⟩ := hs
      refine ⟨hinv, ?_, ?_⟩
      · intro h o ho hnone
        simp [ho] at hnone
      · intro h st p hst
        cases hst
    | some (some h), hcare, hs => exact close_sound hinv hcare hs

/-- For every processor configuration and every sequence of calls, whatever the kernel
and the allocator answer: as long as the calls are those of `Careful`, the handles are
in order in every state, and every step that follows keeps to `HandleStep`. -/
theorem procHandles_sound (mp : MultiProc) {calls : List Call} {t : Tracked}
    (hcare : Guarded (step mp) Careful {} calls) (hrun : run (step mp) {} calls = some t) :
    HandleInv t ∧ ∀ c t', Careful t c → step mp t c = some t' → HandleStep t c t' := by
  have hinv : HandleInv t :=
    hcare.run_induct (fun s c s' hs hc hstep => (step_handles hs hc hstep).1)
      initial_handleInv hrun
  refine ⟨hinv, ?_⟩
  intro c t' hc hstep
  exact (step_handles hinv hc hstep).2

/-- Four processors, of which the host is the last. -/
def hostIsLast : MultiProc := ⟨3, 4, Nat.le_refl 4⟩

/-- Processor 1 is created; processor 0 is opened twice and closed twice. -/
def openTwice : List Call :=
  [.create 1 true ⟨0, 0x51, some 0x1000⟩, .openHandle true 0 ⟨0, 0x50, some 0x2000⟩,
    .openHandle true 0 ⟨0, 0x50, none⟩, .close (some (some 0x2000)) 0]

theorem procHandles_open_twice :
    ∃ t, run (step hostIsLast) {} openTwice = some t ∧ t.s.procHandles 0 = some 0x2000 ∧
      HandleInv t ∧ ∀ c t', Careful t c → step hostIsLast t c = some t' → HandleStep t c t' := by
  have hcare : Guarded (step hostIsLast) Careful {} openTwice := by
    refine ⟨fun h o hp => (by cases hp), ?_⟩
    intro s₁ h₁
    cases h₁
    refine ⟨fun h o hp => (by cases hp), ?_⟩
    intro s₂ h₂
    cases h₂
    refine ⟨?_, ?_⟩
    · intro h o hp ho
      cases hp
      cases ho
      decide
    · intro s₃ h₃
      cases h₃
      refine ⟨?_, fun _ _ => trivial⟩
      intro o p ho hp hc hone
      cases ho
      cases hone
  exact ⟨_, rfl, by decide, procHandles_sound hostIsLast hcare rfl⟩

/-- A handle that is deleted while it is open: its opener has not closed it, and it is gone. -/
theorem procHandles_deleted_open :
    ∃ t, run (step hostIsLast) {}
        [.create 1 true ⟨0, 0x51, some 0x1000⟩, .openHandle true 1 ⟨0, 0, none⟩,
          .delete (some (some 0x1000)) ⟨0, 1⟩] = some t ∧
      (t.uses 0x1000).opens = 1 ∧ (t.uses 0x1000).closes = 0 ∧ t.s.heap 0x1000 = none := by
  refine ⟨_, rfl, ?_, ?_, ?_⟩ <;> decide

end Omap4Hal.Procmgr.Omap4430Proc

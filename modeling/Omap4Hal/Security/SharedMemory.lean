import Mathlib.Data.UInt
import Omap4Hal.Lib.Ledger
import Omap4Hal.Lib.Run

/- Shared memory of the TEE client (`tee_client_api_linux_driver.c`). A block is memory of
   the application (`TEEC_RegisterSharedMemory`) or a mapping that the client makes itself
   (`TEEC_AllocateSharedMemory`); both are registered with the secure world by the same
   helper, and `TEEC_ReleaseSharedMemory` unmaps what was allocated.

   A mapping that fails is `MAP_FAILED`, which is not NULL: the test for NULL lets it pass,
   and if the secure world accepts the address the caller is told that it has memory
   (`allocate_unmapped`). `calls_right_iff` is the condition under which the books of the
   mappings are right.

   The driver is not here. What `mmap` and the exchange with the secure world answer is an
   argument of the call. -/
namespace Omap4Hal.Security.Tee
open Lib

def teecSuccess : UInt32 := 0
def teecErrorAccessDenied : UInt32 := 0xFFFF0001
def teecErrorOutOfMemory : UInt32 := 0xFFFF000C
def teecErrorCommunication : UInt32 := 0xFFFF000E

def mapFailed : UInt32 := 0xFFFFFFFF

/-! ## State -/

/-- `TEEC_SharedMemory` with its implementation fields. A context is a number. -/
structure SharedMemory where
  buffer : UInt32
  size : UInt32
  flags : UInt32
  pContext : Option Nat
  hBlock : UInt32
  bAllocated : Bool
  deriving DecidableEq

/-- A block that the secure world knows. -/
structure Registration where
  context : Nat
  hBlock : UInt32
  descriptor : UInt32
  size : UInt32
  flags : UInt32
  deriving DecidableEq

/-- The objects of the application, the blocks registered, and the mappings obtained and
given back so far (address and size). `held` are the objects whose last call has succeeded
and that were not released since. -/
structure World where
  objects : Nat → SharedMemory
  registered : List Registration := []
  obtained : List (UInt32 × UInt32) := []
  unmapped : List (UInt32 × UInt32) := []
  held : List Nat := []

/-- A mapping starts at a page, and not at address 0. -/
structure Page where
  address : UInt32
  nonzero : address ≠ 0
  aligned : address.toNat % 4096 = 0

inductive Errno where
  | enomem
  | eacces
  | other

/-- The answer of the driver and of the secure world. -/
structure Ioctl where
  result : UInt32 := 0
  errno : Errno := .other
  errorCode : UInt32 := 0
  hBlock : UInt32 := 0

/-! ## Functions -/

/-- `scxExchangeMessage` for a message without an operation. -/
def scxExchangeMessage (ioctl : Ioctl) : UInt32 :=
  if ioctl.result = 0 then teecSuccess
  else match ioctl.errno with
    | .enomem => teecErrorOutOfMemory
    | .eacces => teecErrorAccessDenied
    | .other => teecErrorCommunication

/-- The message has reached the secure world and was answered without an error. -/
def Ioctl.Accepted (ioctl : Ioctl) : Prop := ioctl.result = 0 ∧ ioctl.errorCode = 0

instance (ioctl : Ioctl) : Decidable ioctl.Accepted :=
  inferInstanceAs (Decidable (ioctl.result = 0 ∧ ioctl.errorCode = 0))

def scxAllocateSharedMemory (w : World) (nLength : UInt32) (mmap : Option Page) :
    UInt32 × World :=
  if nLength = 0 then (0x10, w)
  else match mmap with
    | some p => (p.address, { w with obtained := w.obtained ++ [(p.address, nLength)] })
    | none => (mapFailed, w)

/-- `munmap` refuses an address that is not that of a page. -/
def munmap (w : World) (address length : UInt32) : World :=
  if address.toNat % 4096 = 0 then { w with unmapped := w.unmapped ++ [(address, length)] } else w

def scxReleaseSharedMemory (w : World) (pBuffer nLength : UInt32) : World :=
  if nLength = 0 then w else munmap w pBuffer nLength

/-- The secure world takes a block. -/
def World.register (w : World) (r : Registration) : World :=
  { w with registered := r :: w.registered }

def registerSharedMemory0 (w : World) (context : Nat) (m : SharedMemory) (ioctl : Ioctl) :
    UInt32 × SharedMemory × World :=
  let nResult := scxExchangeMessage ioctl
  let nResult := if nResult = teecSuccess then ioctl.errorCode else nResult
  if nResult = teecSuccess then
    (nResult, { m with pContext := some context, hBlock := ioctl.hBlock },
      w.register ⟨context, ioctl.hBlock, m.buffer, m.size, m.flags⟩)
  else (nResult, m, w)

/-- The object after a call; it is held if the call has succeeded. -/
def World.settle (w : World) (o : Nat) (m : SharedMemory) (success : Bool) : World :=
  { w with
    objects := Function.update w.objects o m
    held := if success then o :: w.held.erase o else w.held.erase o }

/-- The application has set `buffer`, `size` and `flags`. -/
def registerSharedMemory (w : World) (o context : Nat) (buffer size flags : UInt32)
    (ioctl : Ioctl) : UInt32 × World :=
  let m := { w.objects o with
    buffer := buffer, size := size, flags := flags
    pContext := none, hBlock := 0, bAllocated := false }
  let (nResult, m, w) := registerSharedMemory0 w context m ioctl
  (nResult, w.settle o m (nResult = teecSuccess))

/-- The application has set `size` and `flags`. -/
def allocateSharedMemory (w : World) (o context : Nat) (size flags : UInt32) (mmap : Option Page)
    (ioctl : Ioctl) : UInt32 × World :=
  let m := { w.objects o with size := size, flags := flags, pContext := none, hBlock := 0 }
  let (buffer, w) := scxAllocateSharedMemory w size mmap
  if buffer = 0 then (teecErrorOutOfMemory, w.settle o { m with buffer := buffer } false)
  else
    let m := { m with buffer := buffer, bAllocated := true }
    let (nResult, m, w) := registerSharedMemory0 w context m ioctl
    if nResult = teecSuccess then (nResult, w.settle o m true)
    else (nResult, (scxReleaseSharedMemory w m.buffer m.size).settle o { m with buffer := 0 } false)

/-- The secure world releases a block. -/
def World.forget (w : World) (m : SharedMemory) (ioctl : Ioctl) : World :=
  if ioctl.Accepted then
    { w with registered := w.registered.filter fun r =>
        ¬ (some r.context = m.pContext ∧ r.hBlock = m.hBlock) }
  else w

/-- The client does not look at the answer. -/
def releaseSharedMemory (w : World) (o : Nat) (ioctl : Ioctl) : World :=
  let m := w.objects o
  let w := w.forget m ioctl
  let gone := { m with pContext := none, hBlock := 0 }
  if m.bAllocated then
    (scxReleaseSharedMemory w m.buffer m.size).settle o { gone with buffer := 0, size := 0 } false
  else w.settle o gone false

/-! ## Runs -/

inductive Call where
  | register (o context : Nat) (buffer size flags : UInt32) (ioctl : Ioctl)
  | allocate (o context : Nat) (size flags : UInt32) (mmap : Option Page) (ioctl : Ioctl)
  | release (o : Nat) (ioctl : Ioctl)

/-- The result of a call, if it has one. An object is released only after a success. -/
def step (w : World) : Call → Option (Option UInt32 × World)
  | .register o context buffer size flags ioctl =>
    let (nResult, w') := registerSharedMemory w o context buffer size flags ioctl
    some (some nResult, w')
  | .allocate o context size flags mmap ioctl =>
    let (nResult, w') := allocateSharedMemory w o context size flags mmap ioctl
    some (some nResult, w')
  | .release o ioctl => if o ∈ w.held then some (none, releaseSharedMemory w o ioctl) else none

def next (w : World) (c : Call) : Option World := (step w c).map (·.2)

/-! ## What a call is to do -/

/-- The mapping that an object stands for. -/
def SharedMemory.mapping (m : SharedMemory) : List (UInt32 × UInt32) :=
  if m.bAllocated = true ∧ m.size ≠ 0 then [(m.buffer, m.size)] else []

/-- The mappings of the objects that are held. -/
def World.holdings (w : World) : List (UInt32 × UInt32) :=
  w.held.flatMap fun o => (w.objects o).mapping

/-- How often a range is mapped. -/
def World.mapped (w : World) (r : UInt32 × UInt32) : Int :=
  w.obtained.count r - w.unmapped.count r

/-- The block of an object is registered as the object says. -/
def World.Registered (w : World) (o context : Nat) : Prop :=
  ⟨context, (w.objects o).hBlock, (w.objects o).buffer, (w.objects o).size, (w.objects o).flags⟩ ∈
    w.registered

/-- What success promises. -/
def Delivers (w : World) : Call → Prop
  | .register o context _ _ _ _ => w.Registered o context
  | .allocate o context size _ _ _ => w.Registered o context ∧ (w.objects o).size = size ∧
      if size = 0 then (w.objects o).buffer = 0x10 else 0 < w.mapped ((w.objects o).buffer, size)
  | .release _ _ => True

/-- A call is right: success delivers, a failure leaves no mapping and no registration, and
each mapping obtained was given back once, as it was, or is that of one object held. -/
structure CallRight (w w' : World) (c : Call) (nResult : Option UInt32) : Prop where
  success : nResult = some teecSuccess → Delivers w' c
  failure : (∃ error, nResult = some error ∧ error ≠ teecSuccess) →
    (∀ r, w'.mapped r = w.mapped r) ∧ w'.registered = w.registered
  account : Balanced w'.obtained w'.unmapped w'.holdings

/-- The call is not made on an object that still holds a mapping; and a mapping that fails is
not accepted by the secure world. -/
def CallOk (w : World) : Call → Prop
  | .register o _ _ _ _ _ => o ∈ w.held → (w.objects o).mapping = []
  | .allocate o _ size _ mmap ioctl =>
    (o ∈ w.held → (w.objects o).mapping = []) ∧ (size ≠ 0 → mmap.isNone → ¬ ioctl.Accepted)
  | .release _ _ => True

/-! ## Books -/

structure Kept (w : World) : Prop where
  account : Balanced w.obtained w.unmapped w.holdings
  nodup : w.held.Nodup
  aligned : ∀ r ∈ w.obtained, r.1.toNat % 4096 = 0

/-- What an object holds, and what the others hold. -/
def World.own (w : World) (o : Nat) : List (UInt32 × UInt32) :=
  if o ∈ w.held then (w.objects o).mapping else []

def World.others (w : World) (o : Nat) : List (UInt32 × UInt32) :=
  (w.held.erase o).flatMap fun o => (w.objects o).mapping

variable {w : World} {o : Nat}

theorem holdings_perm (w : World) (o : Nat) : w.holdings.Perm (w.own o ++ w.others o) := by
  rw [World.own, World.others, World.holdings]
  split
  next hmem =>
    have hperm := (List.perm_cons_erase hmem).flatMap_right fun o => (w.objects o).mapping
    rwa [List.flatMap_cons] at hperm
  next hmem => rw [List.erase_of_not_mem hmem, List.nil_append]

theorem settle_holdings (w : World) (o : Nat) (m : SharedMemory) (success : Bool)
    (hnodup : w.held.Nodup) :
    (w.settle o m success).holdings = (if success then m.mapping else []) ++ w.others o := by
  have hothers : ((w.held.erase o).flatMap fun o' => (Function.update w.objects o m o').mapping) =
      w.others o := by
    rw [World.others]
    apply List.flatMap_congr
    intro o' ho'
    have hne : o' ≠ o := by
      rintro rfl
      exact hnodup.not_mem_erase ho'
    rw [Function.update_of_ne hne]
  cases success with
  | true =>
    rw [if_pos rfl, ← hothers]
    show ((o :: w.held.erase o).flatMap fun o' => (Function.update w.objects o m o').mapping) = _
    rw [List.flatMap_cons, Function.update_self]
  | false =>
    rw [if_neg Bool.false_ne_true, ← hothers]
    rfl

theorem Kept.apart (h : Kept w) (o : Nat) :
    Balanced w.obtained w.unmapped (w.own o ++ w.others o) :=
  h.account.congr (holdings_perm w o)

theorem settle_nodup (w : World) (o : Nat) (m : SharedMemory) (success : Bool)
    (h : w.held.Nodup) :
    (w.settle o m success).held.Nodup := by
  cases success with
  | true => exact List.nodup_cons.mpr ⟨h.not_mem_erase, h.erase o⟩
  | false => exact h.erase o

/-! ## One call -/

theorem register0_accepted {ioctl : Ioctl} (h : ioctl.Accepted) (w : World) (context : Nat)
    (m : SharedMemory) :
    registerSharedMemory0 w context m ioctl = (teecSuccess,
      { m with pContext := some context, hBlock := ioctl.hBlock },
      w.register ⟨context, ioctl.hBlock, m.buffer, m.size, m.flags⟩) := by
  obtain ⟨hresult, herror⟩ := h
  simp [registerSharedMemory0, scxExchangeMessage, hresult, herror, teecSuccess]

theorem register0_refused {ioctl : Ioctl} (h : ¬ ioctl.Accepted) (w : World) (context : Nat)
    (m : SharedMemory) :
    ∃ error, error ≠ teecSuccess ∧ registerSharedMemory0 w context m ioctl = (error, m, w) := by
  have hne : (if scxExchangeMessage ioctl = teecSuccess then ioctl.errorCode
      else scxExchangeMessage ioctl) ≠ teecSuccess := by
    split
    next hexchange =>
      intro herror
      apply h
      refine ⟨?_, herror⟩
      by_contra hresult
      rw [scxExchangeMessage, if_neg hresult] at hexchange
      cases herrno : ioctl.errno <;> rw [herrno] at hexchange <;> exact absurd hexchange (by decide)
    next hexchange => exact hexchange
  exact ⟨_, hne, if_neg hne⟩

theorem settle_account (w : World) (o : Nat) (m : SharedMemory) (success : Bool)
    (hnodup : w.held.Nodup) :
    Balanced (w.settle o m success).obtained (w.settle o m success).unmapped
        (w.settle o m success).holdings ↔
      Balanced w.obtained w.unmapped ((if success then m.mapping else []) ++ w.others o) := by
  rw [settle_holdings w o m success hnodup]
  rfl

theorem own_eq_nil : w.own o = [] ↔ (o ∈ w.held → (w.objects o).mapping = []) := by
  rw [World.own]
  split
  next hmem => exact ⟨fun h _ => h, fun h => h hmem⟩
  next hmem => exact ⟨fun _ hin => absurd hin hmem, fun _ => rfl⟩

theorem own_length (hown : w.own o ≠ []) : (w.own o).length = 1 := by
  rw [World.own, SharedMemory.mapping] at hown ⊢
  split at hown
  next hmem =>
    rw [if_pos hmem]
    split at hown
    next hmap => rw [if_pos hmap, List.length_singleton]
    next => exact absurd rfl hown
  next => exact absurd rfl hown

theorem Kept.lost (h : Kept w) (hown : w.own o ≠ [])
    (more : List (UInt32 × UInt32)) :
    ¬ Balanced (w.obtained ++ more) (w.unmapped ++ more) (w.others o) ∧
      ¬ Balanced (w.obtained ++ more) w.unmapped (more ++ w.others o) := by
  have hbefore := (h.apart o).length_eq
  have hone := own_length hown
  rw [List.length_append] at hbefore
  constructor
  · intro hafter
    have hlength := Balanced.length_eq hafter
    simp only [List.length_append] at hlength
    omega
  · intro hafter
    have hlength := Balanced.length_eq hafter
    simp only [List.length_append] at hlength
    omega

/-! ## Registering -/

/-- The object that `TEEC_RegisterSharedMemory` hands on. -/
def fresh (w : World) (o : Nat) (buffer size flags : UInt32) : SharedMemory :=
  { w.objects o with
    buffer := buffer, size := size, flags := flags
    pContext := none, hBlock := 0, bAllocated := false }

theorem register_cases (w : World) (o context : Nat) (buffer size flags : UInt32)
    (ioctl : Ioctl) :
    (ioctl.Accepted ∧ registerSharedMemory w o context buffer size flags ioctl = (teecSuccess,
      (w.register ⟨context, ioctl.hBlock, buffer, size, flags⟩).settle o
        { fresh w o buffer size flags with pContext := some context, hBlock := ioctl.hBlock }
        true)) ∨
    (¬ ioctl.Accepted ∧ ∃ error, error ≠ teecSuccess ∧
      registerSharedMemory w o context buffer size flags ioctl =
        (error, w.settle o (fresh w o buffer size flags) false)) := by
  by_cases hacc : ioctl.Accepted
  · left
    refine ⟨hacc, ?_⟩
    simp only [registerSharedMemory, register0_accepted hacc]
    rfl
  · right
    obtain ⟨error, hne, heq⟩ := register0_refused hacc w context (fresh w o buffer size flags)
    refine ⟨hacc, error, hne, ?_⟩
    rw [registerSharedMemory]
    simp only [show registerSharedMemory0 w context { w.objects o with
      buffer := buffer, size := size, flags := flags
      pContext := none, hBlock := 0, bAllocated := false } ioctl = _ from heq, hne,
      decide_false]

variable {nResult : UInt32} {w' : World}

theorem register_right (h : Kept w) (hown : w.own o = []) (context : Nat)
    (buffer size flags : UInt32) (ioctl : Ioctl)
    (heq : registerSharedMemory w o context buffer size flags ioctl = (nResult, w')) :
    CallRight w w' (.register o context buffer size flags ioctl) (some nResult) ∧ Kept w' := by
  have hothers : Balanced w.obtained w.unmapped (w.others o) := by
    have := h.apart o
    rwa [hown, List.nil_append] at this
  obtain ⟨-, hcall⟩ | ⟨-, error, hne, hcall⟩ :=
    register_cases w o context buffer size flags ioctl
  · cases hcall.symm.trans heq
    have haccount := (settle_account (w.register ⟨context, ioctl.hBlock, buffer, size, flags⟩) o
      { fresh w o buffer size flags with pContext := some context, hBlock := ioctl.hBlock } true
      h.nodup).mpr hothers
    refine ⟨⟨fun _ => ?_, ?_, haccount⟩, haccount, settle_nodup _ _ _ _ h.nodup, h.aligned⟩
    · simp [Delivers, World.Registered, World.settle, World.register, fresh]
    · rintro ⟨error, herror, hne⟩
      exact absurd (Option.some.inj herror).symm hne
  · cases hcall.symm.trans heq
    have haccount := (settle_account w o (fresh w o buffer size flags) false h.nodup).mpr hothers
    refine ⟨⟨fun hok => ?_, fun _ => ⟨fun _ => rfl, rfl⟩, haccount⟩, haccount,
      settle_nodup _ _ _ _ h.nodup, h.aligned⟩
    exact absurd (Option.some.inj hok) hne

theorem register_wrong (h : Kept w) (hown : w.own o ≠ []) (context : Nat)
    (buffer size flags : UInt32) (ioctl : Ioctl)
    (heq : registerSharedMemory w o context buffer size flags ioctl = (nResult, w')) :
    ¬ Balanced w'.obtained w'.unmapped w'.holdings := by
  intro haccount
  have hlost := (h.lost hown []).2
  apply hlost
  rw [List.append_nil]
  obtain ⟨-, hcall⟩ | ⟨-, error, -, hcall⟩ :=
    register_cases w o context buffer size flags ioctl
  · cases hcall.symm.trans heq
    exact (settle_account (w.register _) o _ true h.nodup).mp haccount
  · cases hcall.symm.trans heq
    exact (settle_account w o _ false h.nodup).mp haccount

/-! ## Allocating -/

/-- The mapping that an allocation obtains. -/
def obtains (size : UInt32) (mmap : Option Page) : List (UInt32 × UInt32) :=
  if size = 0 then [] else mmap.toList.map fun p => (p.address, size)

theorem scxAllocate_world (w : World) (size : UInt32) (mmap : Option Page) :
    (scxAllocateSharedMemory w size mmap).2 =
      { w with obtained := w.obtained ++ obtains size mmap } := by
  unfold scxAllocateSharedMemory
  rw [obtains]
  split
  next => simp
  next => cases mmap <;> simp

theorem scxAllocate_ne_zero (w : World) (size : UInt32) (mmap : Option Page) :
    (scxAllocateSharedMemory w size mmap).1 ≠ 0 := by
  unfold scxAllocateSharedMemory
  split
  next =>
    show (0x10 : UInt32) ≠ 0
    decide
  next =>
    cases mmap with
    | none =>
      show mapFailed ≠ 0
      decide
    | some p => exact p.nonzero

theorem obtains_eq (w : World) {size : UInt32} {mmap : Option Page}
    (hmap : size ≠ 0 → mmap ≠ none) :
    obtains size mmap =
      if size ≠ 0 then [((scxAllocateSharedMemory w size mmap).1, size)] else [] := by
  unfold obtains scxAllocateSharedMemory
  by_cases hsize : size = 0
  · simp [hsize]
  · obtain ⟨p, hp⟩ := Option.ne_none_iff_exists'.mp (hmap hsize)
    simp [hsize, hp]

theorem obtains_aligned (size : UInt32) (mmap : Option Page) :
    ∀ r ∈ obtains size mmap, r.1.toNat % 4096 = 0 := by
  intro r hr
  rw [obtains] at hr
  split at hr
  next => exact absurd hr List.not_mem_nil
  next =>
    obtain ⟨p, -, rfl⟩ := List.mem_map.mp hr
    exact p.aligned

theorem scxRelease_obtained (w : World) (size : UInt32) (mmap : Option Page) :
    scxReleaseSharedMemory (scxAllocateSharedMemory w size mmap).2
        (scxAllocateSharedMemory w size mmap).1 size =
      { w with
        obtained := w.obtained ++ obtains size mmap
        unmapped := w.unmapped ++ obtains size mmap } := by
  rw [scxAllocate_world]
  unfold scxReleaseSharedMemory obtains scxAllocateSharedMemory
  by_cases hsize : size = 0
  · simp [hsize]
  · cases mmap with
    | none => simp [hsize, munmap, mapFailed]
    | some p => simp [hsize, munmap, p.aligned]

/-- The object that `TEEC_AllocateSharedMemory` hands on. -/
def allocated (w : World) (o : Nat) (size flags : UInt32) (mmap : Option Page) : SharedMemory :=
  { w.objects o with
    buffer := (scxAllocateSharedMemory w size mmap).1, size := size, flags := flags
    pContext := none, hBlock := 0, bAllocated := true }

theorem allocated_mapping (w : World) (o : Nat) {size : UInt32} (flags : UInt32)
    {mmap : Option Page} (hmap : size ≠ 0 → mmap ≠ none) :
    (allocated w o size flags mmap).mapping = obtains size mmap := by
  rw [obtains_eq w hmap, SharedMemory.mapping]
  simp [allocated]

theorem allocate_cases (w : World) (o context : Nat) (size flags : UInt32) (mmap : Option Page)
    (ioctl : Ioctl) :
    (ioctl.Accepted ∧ allocateSharedMemory w o context size flags mmap ioctl = (teecSuccess,
      (World.register { w with obtained := w.obtained ++ obtains size mmap } ⟨context,
        ioctl.hBlock, (scxAllocateSharedMemory w size mmap).1, size, flags⟩).settle o
        { allocated w o size flags mmap with pContext := some context, hBlock := ioctl.hBlock }
        true)) ∨
    (¬ ioctl.Accepted ∧ ∃ error, error ≠ teecSuccess ∧
      allocateSharedMemory w o context size flags mmap ioctl = (error, World.settle { w with
          obtained := w.obtained ++ obtains size mmap
          unmapped := w.unmapped ++ obtains size mmap } o
        { allocated w o size flags mmap with buffer := 0 } false)) := by
  by_cases hacc : ioctl.Accepted
  · left
    refine ⟨hacc, ?_⟩
    simp only [allocateSharedMemory, register0_accepted hacc,
      if_neg (scxAllocate_ne_zero w size mmap), scxAllocate_world, if_true]
    rfl
  · right
    obtain ⟨error, hne, heq⟩ := register0_refused hacc (scxAllocateSharedMemory w size mmap).2
      context (allocated w o size flags mmap)
    refine ⟨hacc, error, hne, ?_⟩
    rw [← scxRelease_obtained]
    simp only [allocateSharedMemory, if_neg (scxAllocate_ne_zero w size mmap)]
    simp only [show registerSharedMemory0 (scxAllocateSharedMemory w size mmap).2 context
      { w.objects o with
        buffer := (scxAllocateSharedMemory w size mmap).1, size := size, flags := flags
        pContext := none, hBlock := 0, bAllocated := true } ioctl = _ from heq, if_neg hne]
    rfl

theorem aligned_append (h : Kept w) (size : UInt32) (mmap : Option Page) :
    ∀ r ∈ w.obtained ++ obtains size mmap, r.1.toNat % 4096 = 0 := by
  intro r hr
  rcases List.mem_append.mp hr with hold | hnew
  · exact h.aligned r hold
  · exact obtains_aligned size mmap r hnew

/-- An allocation on an object that holds no mapping, when `mmap` succeeds or the secure world
refuses. -/
theorem allocate_right (h : Kept w) (hown : w.own o = []) (context : Nat) (size flags : UInt32)
    (mmap : Option Page) (ioctl : Ioctl) (hmap : size ≠ 0 → mmap.isNone → ¬ ioctl.Accepted)
    (heq : allocateSharedMemory w o context size flags mmap ioctl = (nResult, w')) :
    CallRight w w' (.allocate o context size flags mmap ioctl) (some nResult) ∧ Kept w' := by
  have hothers : Balanced w.obtained w.unmapped (w.others o) := by
    have := h.apart o
    rwa [hown, List.nil_append] at this
  obtain ⟨hacc, hcall⟩ | ⟨-, error, hne, hcall⟩ :=
    allocate_cases w o context size flags mmap ioctl
  · cases hcall.symm.trans heq
    have hsome : size ≠ 0 → mmap ≠ none := by
      rintro hsize rfl
      exact hmap hsize rfl hacc
    have hmapping := allocated_mapping w o flags hsome
    have hbooks : Balanced (w.obtained ++ obtains size mmap) w.unmapped
        ((allocated w o size flags mmap).mapping ++ w.others o) := by
      rw [hmapping]
      exact (hothers.takeAll (obtains size mmap)).congr List.perm_append_comm
    have haccount := (settle_account (World.register
        { w with obtained := w.obtained ++ obtains size mmap } ⟨context, ioctl.hBlock,
          (scxAllocateSharedMemory w size mmap).1, size, flags⟩) o
      { allocated w o size flags mmap with pContext := some context, hBlock := ioctl.hBlock } true
      h.nodup).mpr hbooks
    refine ⟨⟨fun _ => ⟨?_, ?_, ?_⟩, ?_, haccount⟩, haccount, settle_nodup _ _ _ _ h.nodup,
      aligned_append h size mmap⟩
    · simp [World.Registered, World.settle, World.register, allocated]
    · simp [World.settle, allocated]
    · split
      next hsize =>
        rw [hsize]
        simp [World.settle, allocated, scxAllocateSharedMemory]
      next hsize =>
        -- the books say that the mapping is there
        have hin : ((scxAllocateSharedMemory w size mmap).1, size) ∈
            (allocated w o size flags mmap).mapping := by
          rw [hmapping, obtains_eq w hsome, if_pos hsize]
          exact List.mem_singleton_self _
        have hpos := List.count_pos_iff.mpr hin
        have hcount := List.Perm.count_eq hbooks ((scxAllocateSharedMemory w size mmap).1, size)
        have hbuffer : ∀ m : SharedMemory, (Function.update w.objects o m o).buffer = m.buffer := by
          simp
        simp only [World.mapped, World.settle, World.register, hbuffer, allocated,
          List.count_append] at hcount hpos ⊢
        omega
    · rintro ⟨error, herror, hne⟩
      exact absurd (Option.some.inj herror).symm hne
  · cases hcall.symm.trans heq
    have haccount := (settle_account { w with
        obtained := w.obtained ++ obtains size mmap
        unmapped := w.unmapped ++ obtains size mmap } o
      { allocated w o size flags mmap with buffer := 0 } false h.nodup).mpr
      ((hothers.takeAll (obtains size mmap)).giveAll List.perm_append_comm)
    refine ⟨⟨fun hok => ?_, fun _ => ⟨fun r => ?_, rfl⟩, haccount⟩, haccount,
      settle_nodup _ _ _ _ h.nodup, aligned_append h size mmap⟩
    · exact absurd (Option.some.inj hok) hne
    · show ((w.obtained ++ obtains size mmap).count r : Int) -
        (w.unmapped ++ obtains size mmap).count r = w.obtained.count r - w.unmapped.count r
      rw [List.count_append, List.count_append]
      omega

theorem allocate_wrong (h : Kept w) (context : Nat) (size flags : UInt32) (mmap : Option Page)
    (ioctl : Ioctl) (hwrong : w.own o ≠ [] ∨ (size ≠ 0 ∧ mmap.isNone ∧ ioctl.Accepted))
    (heq : allocateSharedMemory w o context size flags mmap ioctl = (nResult, w')) :
    ¬ Balanced w'.obtained w'.unmapped w'.holdings := by
  intro haccount
  obtain ⟨hacc, hcall⟩ | ⟨hacc, error, -, hcall⟩ :=
    allocate_cases w o context size flags mmap ioctl
  · cases hcall.symm.trans heq
    have hbooks := (settle_account (World.register
      { w with obtained := w.obtained ++ obtains size mmap } _) o _ true h.nodup).mp haccount
    by_cases hfail : size ≠ 0 ∧ mmap.isNone
    · -- what the object holds is no mapping, as it does not start at a page
      have hnone : mmap = none := Option.isNone_iff_eq_none.mp hfail.2
      have hin : (mapFailed, size) ∈ w.obtained ++ obtains size mmap := by
        apply List.Perm.mem_iff hbooks |>.mpr
        simp [SharedMemory.mapping, allocated, hnone, hfail.1, scxAllocateSharedMemory]
      have haligned : mapFailed.toNat % 4096 = 0 := aligned_append h size mmap _ hin
      exact absurd haligned (by decide)
    · have hsome : size ≠ 0 → mmap ≠ none := by
        rintro hsize rfl
        exact hfail ⟨hsize, rfl⟩
      have hown : w.own o ≠ [] := by
        rcases hwrong with hown | hmap
        · exact hown
        · exact absurd ⟨hmap.1, hmap.2.1⟩ hfail
      have hmapping := allocated_mapping w o flags hsome
      apply (h.lost hown (obtains size mmap)).2
      rw [← hmapping] at hbooks ⊢
      exact hbooks
  · cases hcall.symm.trans heq
    have hown : w.own o ≠ [] := by
      rcases hwrong with hown | hmap
      · exact hown
      · exact absurd hmap.2.2 hacc
    apply (h.lost hown (obtains size mmap)).1
    exact (settle_account { w with
      obtained := w.obtained ++ obtains size mmap
      unmapped := w.unmapped ++ obtains size mmap } o _ false h.nodup).mp haccount

/-! ## Releasing -/

theorem forget_world (w : World) (m : SharedMemory) (ioctl : Ioctl) :
    ∃ registered, w.forget m ioctl = { w with registered := registered } := by
  rw [World.forget]
  split
  next => exact ⟨_, rfl⟩
  next => exact ⟨w.registered, rfl⟩

theorem release_right (h : Kept w) (ho : o ∈ w.held) (ioctl : Ioctl) :
    CallRight w (releaseSharedMemory w o ioctl) (.release o ioctl) none ∧
      Kept (releaseSharedMemory w o ioctl) := by
  have happart := h.apart o
  obtain ⟨registered, hforget⟩ := forget_world w (w.objects o) ioctl
  have hresult : Balanced (releaseSharedMemory w o ioctl).obtained
      (releaseSharedMemory w o ioctl).unmapped (releaseSharedMemory w o ioctl).holdings ∧
      (releaseSharedMemory w o ioctl).held.Nodup ∧
      (releaseSharedMemory w o ioctl).obtained = w.obtained := by
    rw [releaseSharedMemory, hforget]
    by_cases hmap : (w.objects o).bAllocated = true ∧ (w.objects o).size ≠ 0
    · have hown : w.own o = [((w.objects o).buffer, (w.objects o).size)] := by
        rw [World.own, if_pos ho, SharedMemory.mapping, if_pos hmap]
      rw [hown] at happart
      have haligned : (w.objects o).buffer.toNat % 4096 = 0 := by
        apply h.aligned ((w.objects o).buffer, (w.objects o).size)
        apply (List.Perm.mem_iff happart).mpr
        simp
      simp only [hmap.1, if_true, scxReleaseSharedMemory, if_neg hmap.2, munmap, if_pos haligned]
      have hbooks := happart.give (List.Perm.refl _)
      refine ⟨(settle_account { w with
        registered := registered
        unmapped := w.unmapped ++ [((w.objects o).buffer, (w.objects o).size)] } o _ false
          h.nodup).mpr hbooks, settle_nodup _ _ _ _ h.nodup, rfl⟩
    · have hown : w.own o = [] := by
        rw [World.own, if_pos ho, SharedMemory.mapping, if_neg hmap]
      rw [hown, List.nil_append] at happart
      cases halloc : (w.objects o).bAllocated with
      | true =>
        have hsize : (w.objects o).size = 0 := by
          by_contra hne
          exact hmap ⟨halloc, hne⟩
        simp only [if_true, scxReleaseSharedMemory, if_pos hsize]
        exact ⟨(settle_account _ o _ false h.nodup).mpr happart, settle_nodup _ _ _ _ h.nodup, rfl⟩
      | false =>
        simp only [Bool.false_eq_true, if_false]
        exact ⟨(settle_account _ o _ false h.nodup).mpr happart, settle_nodup _ _ _ _ h.nodup, rfl⟩
  obtain ⟨haccount, hnodup, hobtained⟩ := hresult
  refine ⟨⟨fun _ => trivial, ?_, haccount⟩, haccount, hnodup, ?_⟩
  · rintro ⟨error, herror, -⟩
    exact absurd herror nofun
  · rw [hobtained]
    exact h.aligned

/-! ## Runs -/

/-- Whatever a call answers, it is right. -/
def Right (w : World) (c : Call) : Prop :=
  ∀ nResult w', step w c = some (nResult, w') → CallRight w w' c nResult

theorem right_iff (h : Kept w) (c : Call) : Right w c ↔ CallOk w c := by
  cases c with
  | register o context buffer size flags ioctl =>
    rw [CallOk, ← own_eq_nil]
    constructor
    · intro hright
      by_contra hown
      exact register_wrong h hown context buffer size flags ioctl rfl (hright _ _ rfl).account
    · rintro hown nResult w' hstep
      cases Option.some.inj hstep
      exact (register_right h hown context buffer size flags ioctl rfl).1
  | allocate o context size flags mmap ioctl =>
    rw [CallOk, ← own_eq_nil]
    constructor
    · intro hright
      have haccount := (hright _ _ rfl).account
      refine ⟨?_, ?_⟩
      · by_contra hown
        exact allocate_wrong h context size flags mmap ioctl (.inl hown) rfl haccount
      · intro hsize hnone hacc
        exact allocate_wrong h context size flags mmap ioctl (.inr ⟨hsize, hnone, hacc⟩) rfl
          haccount
    · rintro ⟨hown, hmap⟩ nResult w' hstep
      cases Option.some.inj hstep
      exact (allocate_right h hown context size flags mmap ioctl hmap rfl).1
  | release o ioctl =>
    refine ⟨fun _ => trivial, ?_⟩
    intro _ nResult w' hstep
    rw [step] at hstep
    split at hstep
    next ho =>
      cases Option.some.inj hstep
      exact (release_right h ho ioctl).1
    next => exact absurd hstep nofun

theorem next_kept (h : Kept w) {c : Call} (hok : CallOk w c) (hnext : next w c = some w') :
    Kept w' := by
  obtain ⟨⟨nResult, w''⟩, hstep, rfl⟩ := Option.map_eq_some_iff.mp hnext
  cases c with
  | register o context buffer size flags ioctl =>
    cases Option.some.inj hstep
    exact (register_right h (own_eq_nil.mpr hok) context buffer size flags ioctl rfl).2
  | allocate o context size flags mmap ioctl =>
    cases Option.some.inj hstep
    exact (allocate_right h (own_eq_nil.mpr hok.1) context size flags mmap ioctl hok.2 rfl).2
  | release o ioctl =>
    rw [step] at hstep
    split at hstep
    next ho =>
      cases Option.some.inj hstep
      exact (release_right h ho ioctl).2
    next => exact absurd hstep nofun

/-- Objects with any content, and no block yet. -/
def start (objects : Nat → SharedMemory) : World := { objects := objects }

/-- In every run of calls on any objects, every call is right exactly if every call is made
on an object that holds no mapping, and the secure world accepts no allocation whose
mapping has failed. -/
theorem calls_right_iff (objects : Nat → SharedMemory) (cs : List Call) :
    Guarded next Right (start objects) cs ↔ Guarded next CallOk (start objects) cs := by
  apply guarded_congr (J := Kept)
  · exact fun w c h => right_iff h c
  · exact fun w c w' h hok hnext => next_kept h hok hnext
  · exact ⟨balanced_nil, List.nodup_nil, nofun⟩

/-- One page is asked for and `mmap` fails; the secure world accepts the block. -/
def failedMapping : Call := .allocate 1 7 4096 3 none {}

/-- The call succeeds with a buffer at `MAP_FAILED`, registered, and nothing is mapped. -/
theorem allocate_unmapped :
    let w := start fun _ => ⟨0, 0, 0, none, 0, false⟩
    ¬ Right w failedMapping ∧ ∃ w', step w failedMapping = some (some teecSuccess, w') ∧
      (w'.objects 1).buffer = mapFailed ∧ w'.obtained = [] ∧
        w'.registered = [⟨7, 0, mapFailed, 4096, 3⟩] := by
  intro w
  refine ⟨?_, _, rfl, rfl, rfl, rfl⟩
  intro hright
  have hmapped := ((hright (some teecSuccess) _ rfl).success rfl).2.2
  exact absurd hmapped (by decide)

end Omap4Hal.Security.Tee

import Omap4Hal.Lib.KeyedVector
import Omap4Hal.Lib.Ledger
import Omap4Hal.Lib.Run

/- The memory manager of the camera (`MemoryManager.cpp`). Its buffers are handles of the ion
   device, with a mapping and a descriptor each. One descriptor of the device serves all arrays of
   buffers, and the error path of `allocateBuffer` closes it, also where earlier arrays are still
   in use. `ledger_iff` says in which runs the books of the kernel agree with the buffers that are
   in use. -/
namespace Omap4Hal.Camera.IonMemory

open Lib

/-! ## The kernel -/

/-- What the kernel gives out. -/
inductive Resource where
  /-- An open descriptor of the ion device. -/
  | device (fd : Int)
  /-- A handle, and the descriptor it was allocated from. -/
  | handle (fd : Int) (handle : Nat)
  | mapping (ptr length : Nat)
  | mapFd (fd : Nat)
  deriving DecidableEq

/-- What becomes of one buffer: `ion_alloc` fails, or `ion_map` fails and leaves the pointer as it
was, or both succeed. -/
inductive Outcome where
  | allocFails
  | mapFails (handle : Nat)
  | mapped (handle ptr mmapFd : Nat)

/-! ## The manager -/

structure MemoryManager where
  mIonFd : Int := 0
  mIonHandleMap : KeyedVector Nat Nat := {}
  mIonFdMap : KeyedVector Nat Nat := {}
  mIonBufLength : KeyedVector Nat Nat := {}
  /-- What the kernel has given out so far. -/
  taken : List Resource := []
  /-- What was given back to it so far. -/
  returned : List Resource := []

namespace MemoryManager

variable (m : MemoryManager)

def take (rs : List Resource) : MemoryManager := { m with taken := m.taken ++ rs }

def giveBack (rs : List Resource) : MemoryManager := { m with returned := m.returned ++ rs }

/-- Whether there is a device to allocate from; `opened` is the answer of `ion_open`. -/
def openDevice (opened : Int) : Bool × MemoryManager :=
  if m.mIonFd = 0 then
    let m := if 0 ≤ opened then m.take [.device opened] else m
    if opened ≤ 0 then (false, { m with mIonFd := 0 }) else (true, { m with mIonFd := opened })
  else (true, m)

/-- The maps with a new buffer. -/
def record (bytes handle ptr mmapFd : Nat) : MemoryManager := { m with
  mIonHandleMap := m.mIonHandleMap.add ptr handle
  mIonFdMap := m.mIonFdMap.add ptr mmapFd
  mIonBufLength := m.mIonBufLength.add ptr bytes }

/-- The loop over the buffers: the addresses of those that were allocated, and whether one
failed. -/
def allocLoop (m : MemoryManager) (bytes : Nat) : List Outcome → List Nat × Bool × MemoryManager
  | [] => ([], false, m)
  | .allocFails :: _ => ([], true, m)
  | .mapFails handle :: _ =>
    ([], true, (m.take [.handle m.mIonFd handle]).giveBack [.handle m.mIonFd handle])
  | .mapped handle ptr mmapFd :: outcomes =>
    let m := m.take [.handle m.mIonFd handle, .mapping ptr bytes, .mapFd mmapFd]
    let (bufs, failed, m) := allocLoop (m.record bytes handle ptr mmapFd) bytes outcomes
    (ptr :: bufs, failed, m)

/-- One turn of the loop of `freeBuffer`. `none` where a map has no such address. -/
def release (ptr : Nat) : Option MemoryManager := do
  let length ← m.mIonBufLength.valueFor ptr
  if length ≠ 0 then
    let mmapFd ← m.mIonFdMap.valueFor ptr
    let handle ← m.mIonHandleMap.valueFor ptr
    let m := m.giveBack [.mapping ptr length, .mapFd mmapFd, .handle m.mIonFd handle]
    some { m with
      mIonHandleMap := m.mIonHandleMap.remove ptr
      mIonBufLength := m.mIonBufLength.remove ptr
      mIonFdMap := m.mIonFdMap.remove ptr }
  else some m

/-- The loop of `freeBuffer`, up to the 0 that ends the array. -/
def freeLoop (m : MemoryManager) : List Nat → Option MemoryManager
  | [] => none
  | ptr :: bufs => if ptr = 0 then some m else (m.release ptr).bind fun m => freeLoop m bufs

def freeBuffer (bufArr : List Nat) : Option MemoryManager :=
  (m.freeLoop bufArr).map fun m =>
    if m.mIonBufLength.keys.length = 0 then
      if m.mIonFd ≠ 0 then { m.giveBack [.device m.mIonFd] with mIonFd := 0 } else m
    else m

/-- The end of the error path. -/
def closeDevice : MemoryManager :=
  if 0 < m.mIonFd then { m.giveBack [.device m.mIonFd] with mIonFd := 0 } else m

/-- `numBufs` buffers, as many as there are outcomes: the array, or NULL. -/
def allocateBuffer (bytes : Nat) (opened : Int) (outcomes : List Outcome) :
    Option (Option (List Nat) × MemoryManager) :=
  let (ready, m) := m.openDevice opened
  if ¬ ready then some (none, m)
  else
    let (bufs, failed, m) := if bytes ≠ 0 then m.allocLoop bytes outcomes else ([], false, m)
    -- the array was filled with zeros, and is one longer
    let bufsArr := bufs ++ List.replicate (outcomes.length + 1 - bufs.length) 0
    if failed then (m.freeBuffer bufsArr).map fun m => (none, m.closeDevice)
    else some (some bufsArr, m)

end MemoryManager

/-! ## Runs -/

/-- A buffer in use, as it was obtained. -/
structure Buffer where
  fd : Int
  handle : Nat
  ptr : Nat
  length : Nat
  mmapFd : Nat
  deriving DecidableEq

def Buffer.resources (b : Buffer) : List Resource :=
  [.handle b.fd b.handle, .mapping b.ptr b.length, .mapFd b.mmapFd]

def Outcome.buffer (fd : Int) (bytes : Nat) : Outcome → Option Buffer
  | .allocFails | .mapFails _ => none
  | .mapped handle ptr mmapFd => some ⟨fd, handle, ptr, bytes, mmapFd⟩

/-- An array that was returned, and its buffers. -/
structure Allocated where
  bufsArr : List Nat
  buffers : List Buffer
  deriving DecidableEq

structure World where
  manager : MemoryManager := {}
  /-- The arrays that were returned and not freed. -/
  arrays : List Allocated := []

def World.buffers (w : World) : List Buffer := w.arrays.flatMap Allocated.buffers

inductive Call where
  | allocateBuffer (bytes : Nat) (opened : Int) (outcomes : List Outcome)
  | freeBuffer (array : Allocated)

def Outcome.address : Outcome → Option Nat
  | .allocFails | .mapFails _ => none
  | .mapped _ ptr _ => some ptr

/-- The kernel maps a buffer neither at 0 nor where another one is mapped. -/
def Possible (w : World) (outcomes : List Outcome) : Prop :=
  (outcomes.filterMap Outcome.address).Nodup ∧
    ∀ ptr ∈ outcomes.filterMap Outcome.address, ptr ≠ 0 ∧ ptr ∉ w.buffers.map Buffer.ptr

instance (w : World) (outcomes : List Outcome) : Decidable (Possible w outcomes) :=
  inferInstanceAs (Decidable (_ ∧ _))

/-- The world after `allocateBuffer`. -/
def World.allocated (w : World) (bytes : Nat) (outcomes : List Outcome) :
    Option (List Nat) × MemoryManager → World
  | (none, m) => { w with manager := m }
  | (some bufsArr, m) =>
    { manager := m
      arrays := ⟨bufsArr, outcomes.filterMap (Outcome.buffer m.mIonFd bytes)⟩ :: w.arrays }

def step (w : World) : Call → Option World
  | .allocateBuffer bytes opened outcomes =>
    if Possible w outcomes then
      (w.manager.allocateBuffer bytes opened outcomes).map (w.allocated bytes outcomes)
    else none
  | .freeBuffer array =>
    if array ∈ w.arrays then
      (w.manager.freeBuffer array.bufsArr).map fun m => ⟨m, w.arrays.erase array⟩
    else none

/-- What the buffers in use keep from the kernel: one descriptor of the device for all of them, as
long as there are any, and their own resources. -/
def held (fd : Int) (buffers : List Buffer) : List Resource :=
  if buffers = [] then [] else .device fd :: buffers.flatMap Buffer.resources

/-- What the kernel has given out was, each thing once, given back, but for what the buffers in use
keep; and their handles are of the descriptor that is open. -/
def Sound (w : World) : Prop :=
  ∃ fd, (∀ b ∈ w.buffers, b.fd = fd) ∧
    Balanced w.manager.taken w.manager.returned (held fd w.buffers)

/-- Sizes and numbers of buffers are positive. -/
def Positive : Call → Prop
  | .allocateBuffer bytes _ outcomes => 0 < bytes ∧ outcomes ≠ []
  | .freeBuffer _ => True

/-- No allocation fails while there are buffers in use, and the device is not opened as 0. -/
def Lucky (w : World) : Call → Prop
  | .allocateBuffer _ opened outcomes => Possible w outcomes →
      (w.buffers = [] → opened ≠ 0) ∧
      (w.buffers ≠ [] → ∀ o ∈ outcomes, o.address.isSome)
  | .freeBuffer _ => True

/-! ## The maps -/

/-- The maps hold exactly these buffers, which are on one descriptor of the device. -/
structure Records (m : MemoryManager) (bs : List Buffer) : Prop where
  length : ∀ b ∈ bs, m.mIonBufLength.valueFor b.ptr = some b.length
  mmapFd : ∀ b ∈ bs, m.mIonFdMap.valueFor b.ptr = some b.mmapFd
  handle : ∀ b ∈ bs, m.mIonHandleMap.valueFor b.ptr = some b.handle
  keys : ∀ ptr ∈ m.mIonBufLength.keys, ptr ∈ bs.map Buffer.ptr
  distinct : (bs.map Buffer.ptr).Nodup
  positive : ∀ b ∈ bs, b.ptr ≠ 0 ∧ b.length ≠ 0
  fd : ∀ b ∈ bs, b.fd = m.mIonFd

variable {m : MemoryManager} {bs new old : List Buffer} {b : Buffer}

theorem Records.perm (h : Records m bs) (hp : bs.Perm new) : Records m new where
  length b hb := h.length b (hp.mem_iff.mpr hb)
  mmapFd b hb := h.mmapFd b (hp.mem_iff.mpr hb)
  handle b hb := h.handle b (hp.mem_iff.mpr hb)
  keys ptr hptr := (hp.map Buffer.ptr).mem_iff.mp (h.keys ptr hptr)
  distinct := (hp.map Buffer.ptr).nodup_iff.mp h.distinct
  positive b hb := h.positive b (hp.mem_iff.mpr hb)
  fd b hb := h.fd b (hp.mem_iff.mpr hb)

theorem Records.books (h : Records m bs) (taken returned : List Resource) :
    Records { m with taken := taken, returned := returned } bs where
  length := h.length
  mmapFd := h.mmapFd
  handle := h.handle
  keys := h.keys
  distinct := h.distinct
  positive := h.positive
  fd := h.fd

theorem Records.size_eq_zero_iff (h : Records m bs) :
    m.mIonBufLength.keys.length = 0 ↔ bs = [] := by
  rw [List.length_eq_zero_iff]
  constructor
  · intro hkeys
    cases bs with
    | nil => rfl
    | cons b bs =>
      have hmem := KeyedVector.mem_keys_iff.mpr ⟨_, h.length b List.mem_cons_self⟩
      rw [hkeys] at hmem
      cases hmem
  · rintro rfl
    exact List.eq_nil_iff_forall_not_mem.mpr fun ptr hptr => absurd (h.keys ptr hptr) (by simp)

theorem Records.record (h : Records m bs) (hfd : b.fd = m.mIonFd) (hptr : b.ptr ≠ 0)
    (hlength : b.length ≠ 0) (hfresh : b.ptr ∉ bs.map Buffer.ptr) :
    Records (m.record b.length b.handle b.ptr b.mmapFd) (b :: bs) := by
  have hne : ∀ c ∈ bs, c.ptr ≠ b.ptr := fun c hc heq => hfresh (heq ▸ List.mem_map_of_mem hc)
  have hvalue : ∀ {v : KeyedVector Nat Nat} {f : Buffer → Nat},
      (∀ c ∈ bs, v.valueFor c.ptr = some (f c)) →
      ∀ c ∈ b :: bs, (v.add b.ptr (f b)).valueFor c.ptr = some (f c) := by
    intro v f hv c hc
    rcases List.mem_cons.mp hc with rfl | hc
    · exact KeyedVector.valueFor_add_self v c.ptr (f c)
    · rw [KeyedVector.valueFor_add_ne v (hne c hc), hv c hc]
  exact {
    length := hvalue h.length
    mmapFd := hvalue h.mmapFd
    handle := hvalue h.handle
    keys := by
      intro ptr hptr
      rcases KeyedVector.mem_keys_add.mp hptr with rfl | hptr
      · exact List.mem_cons_self
      · exact List.mem_cons_of_mem _ (h.keys ptr hptr)
    distinct := List.nodup_cons.mpr ⟨hfresh, h.distinct⟩
    positive := List.forall_mem_cons.mpr ⟨⟨hptr, hlength⟩, h.positive⟩
    fd := List.forall_mem_cons.mpr ⟨hfd, h.fd⟩ }

theorem Records.remove (h : Records m (b :: bs)) :
    Records { m with
      mIonHandleMap := m.mIonHandleMap.remove b.ptr
      mIonBufLength := m.mIonBufLength.remove b.ptr
      mIonFdMap := m.mIonFdMap.remove b.ptr } bs := by
  obtain ⟨hfresh, hdistinct⟩ := List.nodup_cons.mp h.distinct
  have hvalue : ∀ {v : KeyedVector Nat Nat} {f : Buffer → Nat},
      (∀ c ∈ b :: bs, v.valueFor c.ptr = some (f c)) →
      ∀ c ∈ bs, (v.remove b.ptr).valueFor c.ptr = some (f c) := by
    intro v f hv c hc
    have hne : c.ptr ≠ b.ptr := fun heq => hfresh (heq ▸ List.mem_map_of_mem hc)
    rw [KeyedVector.valueFor_remove_ne v hne, hv c (List.mem_cons_of_mem _ hc)]
  exact {
    length := hvalue h.length
    mmapFd := hvalue h.mmapFd
    handle := hvalue h.handle
    keys := by
      intro ptr hptr
      obtain ⟨hptr, hne⟩ := KeyedVector.mem_keys_remove.mp hptr
      exact (List.mem_cons.mp (h.keys ptr hptr)).resolve_left hne
    distinct := hdistinct
    positive := fun c hc => h.positive c (List.mem_cons_of_mem _ hc)
    fd := fun c hc => h.fd c (List.mem_cons_of_mem _ hc) }

/-! ## Allocating and freeing -/

/-- The device is open, and the kernel has given out it and these buffers. -/
structure Open (m : MemoryManager) (bs : List Buffer) : Prop where
  records : Records m bs
  fd : 0 < m.mIonFd
  balanced : Balanced m.taken m.returned (.device m.mIonFd :: bs.flatMap Buffer.resources)

structure Closed (m : MemoryManager) : Prop where
  records : Records m []
  fd : m.mIonFd = 0
  balanced : Balanced m.taken m.returned []

theorem Open.perm (h : Open m bs) (hp : bs.Perm new) : Open m new where
  records := h.records.perm hp
  fd := h.fd
  balanced := h.balanced.congr ((hp.flatMap_right _).cons _)

theorem release_spec (h : Open m (b :: bs)) :
    ∃ m', m.release b.ptr = some m' ∧ Open m' bs ∧ m'.mIonFd = m.mIonFd := by
  have hlength := h.records.length b List.mem_cons_self
  have hmmapFd := h.records.mmapFd b List.mem_cons_self
  have hhandle := h.records.handle b List.mem_cons_self
  have hpos := (h.records.positive b List.mem_cons_self).2
  have hfd := h.records.fd b List.mem_cons_self
  refine ⟨{ m.giveBack [.mapping b.ptr b.length, .mapFd b.mmapFd, .handle m.mIonFd b.handle] with
    mIonHandleMap := m.mIonHandleMap.remove b.ptr
    mIonBufLength := m.mIonBufLength.remove b.ptr
    mIonFdMap := m.mIonFdMap.remove b.ptr }, ?_, ?_, rfl⟩
  · simp only [MemoryManager.release, hlength, Option.bind_eq_bind, Option.bind_some, if_pos hpos,
      hmmapFd, hhandle]
    rfl
  refine ⟨h.records.remove.books _ _, h.fd, h.balanced.giveAll ?_⟩
  rw [List.flatMap_cons, Buffer.resources, hfd]
  have hrotate : [Resource.handle m.mIonFd b.handle, .mapping b.ptr b.length,
      .mapFd b.mmapFd].Perm [.mapping b.ptr b.length, .mapFd b.mmapFd,
      .handle m.mIonFd b.handle] := @List.perm_append_comm _ [_] [_, _]
  exact (List.perm_middle.symm).trans (List.Perm.append_right _ hrotate)

theorem freeLoop_spec {tail : List Nat} (h : Open m (new ++ old)) :
    ∃ m', m.freeLoop (new.map Buffer.ptr ++ 0 :: tail) = some m' ∧ Open m' old ∧
      m'.mIonFd = m.mIonFd := by
  induction new generalizing m with
  | nil => exact ⟨m, rfl, h, rfl⟩
  | cons b new ih =>
    obtain ⟨m₁, hrelease, hopen, hfd⟩ := release_spec h
    obtain ⟨m₂, hloop, hopen, hfd'⟩ := ih hopen
    refine ⟨m₂, ?_, hopen, hfd'.trans hfd⟩
    have hptr := (h.records.positive b List.mem_cons_self).1
    rw [List.map_cons, List.cons_append, MemoryManager.freeLoop, if_neg hptr, hrelease,
      Option.bind_some, hloop]

theorem freeBuffer_last (tail : List Nat) (h : Open m new) :
    ∃ m', m.freeBuffer (new.map Buffer.ptr ++ 0 :: tail) = some m' ∧ Closed m' := by
  have hall : Open m (new ++ []) := by rwa [List.append_nil]
  obtain ⟨m₁, hloop, hopen, hfd⟩ := freeLoop_spec hall
  refine ⟨_, by
    rw [MemoryManager.freeBuffer, hloop, Option.map_some, if_pos
      (hopen.records.size_eq_zero_iff.mpr rfl), if_pos (by have := hopen.fd; omega)], ?_⟩
  have hr := hopen.records
  refine ⟨⟨hr.length, hr.mmapFd, hr.handle, hr.keys, hr.distinct, hr.positive, by simp⟩, rfl, ?_⟩
  exact hopen.balanced.give (List.Perm.refl _)

theorem freeBuffer_some (tail : List Nat) (h : Open m (new ++ old)) (hold : old ≠ []) :
    ∃ m', m.freeBuffer (new.map Buffer.ptr ++ 0 :: tail) = some m' ∧ Open m' old ∧
      m'.mIonFd = m.mIonFd := by
  obtain ⟨m₁, hloop, hopen, hfd⟩ := freeLoop_spec h
  refine ⟨m₁, ?_, hopen, hfd⟩
  rw [MemoryManager.freeBuffer, hloop, Option.map_some,
    if_neg fun hsize => hold (hopen.records.size_eq_zero_iff.mp hsize)]

theorem allocLoop_spec {bytes : Nat} {outcomes : List Outcome} (h : Open m old) (hb : bytes ≠ 0)
    (hnodup : (outcomes.filterMap Outcome.address).Nodup)
    (hfresh : ∀ ptr ∈ outcomes.filterMap Outcome.address,
      ptr ≠ 0 ∧ ptr ∉ old.map Buffer.ptr) :
    ∃ new failed m', m.allocLoop bytes outcomes = (new.map Buffer.ptr, failed, m') ∧
      Open m' (new ++ old) ∧ m'.mIonFd = m.mIonFd ∧ new.length ≤ outcomes.length ∧
      (failed = false → new = outcomes.filterMap (Outcome.buffer m.mIonFd bytes)) ∧
      (failed = false ↔ ∀ o ∈ outcomes, o.address.isSome) := by
  induction outcomes generalizing m old with
  | nil => exact ⟨[], false, m, rfl, h, rfl, Nat.le_refl _, fun _ => rfl, by simp⟩
  | cons o outcomes ih =>
    cases o with
    | allocFails =>
      exact ⟨[], true, m, rfl, h, rfl, Nat.zero_le _, by simp, by simp [Outcome.address]⟩
    | mapFails handle =>
      refine ⟨[], true, _, rfl, ?_, rfl, Nat.zero_le _, by simp, by simp [Outcome.address]⟩
      exact ⟨h.records.books _ _, h.fd, h.balanced.pass _⟩
    | mapped handle ptr mmapFd =>
      obtain ⟨hnot, hnodup⟩ := List.nodup_cons.mp hnodup
      obtain ⟨⟨hptr, hold⟩, hfresh⟩ := List.forall_mem_cons.mp hfresh
      let b : Buffer := ⟨m.mIonFd, handle, ptr, bytes, mmapFd⟩
      have hopen : Open ((m.take b.resources).record bytes handle ptr mmapFd) (b :: old) := by
        refine ⟨(h.records.record (b := b) rfl hptr hb hold).books _ _, h.fd, ?_⟩
        exact (h.balanced.takeAll b.resources).congr (List.perm_append_comm.cons _)
      obtain ⟨new, failed, m', hloop, hopen', hfd, hlen, hnew, hfailed⟩ := ih hopen hnodup (by
        intro ptr' hptr'
        refine ⟨(hfresh ptr' hptr').1, fun hmem => ?_⟩
        rcases List.mem_cons.mp hmem with rfl | hmem
        · exact hnot hptr'
        · exact (hfresh ptr' hptr').2 hmem)
      refine ⟨b :: new, failed, m', ?_, hopen'.perm List.perm_middle, hfd, Nat.succ_le_succ hlen,
        fun hok => ?_, ?_⟩
      · exact congrArg (fun r => (ptr :: r.1, r.2.1, r.2.2)) hloop
      · exact congrArg (b :: ·) (hnew hok)
      · rw [hfailed, List.forall_mem_cons]
        exact (and_iff_right rfl).symm

/-! ## Runs -/

variable {w w' : World} {bytes : Nat} {opened : Int} {outcomes : List Outcome}

/-- Between the calls the device is open exactly if there are buffers. -/
def Books (m : MemoryManager) (bs : List Buffer) : Prop :=
  bs = [] ∧ Closed m ∨ bs ≠ [] ∧ Open m bs

/-- An array has the addresses of its buffers, and ends in zeros. -/
def Allocated.Fits (a : Allocated) : Prop :=
  a.buffers ≠ [] ∧ ∃ tail, a.bufsArr = a.buffers.map Buffer.ptr ++ 0 :: tail

structure Inv (w : World) : Prop where
  books : Books w.manager w.buffers
  arrays : ∀ a ∈ w.arrays, Allocated.Fits a

theorem Inv.start : Inv {} where
  books := .inl ⟨rfl, ⟨by simp, by simp, by simp, by simp [KeyedVector.keys], by simp, by simp,
    by simp⟩, rfl, balanced_nil⟩
  arrays := by simp

theorem held_of_ne_nil {fd : Int} (h : bs ≠ []) :
    held fd bs = .device fd :: bs.flatMap Buffer.resources := if_neg h

theorem Inv.sound (hw : Inv w) : Sound w := by
  rcases hw.books with ⟨hnil, hclosed⟩ | ⟨hsome, hopen⟩
  · exact ⟨0, by simp [hnil], by rw [held, if_pos hnil]; exact hclosed.balanced⟩
  · exact ⟨_, hopen.records.fd, held_of_ne_nil hsome ▸ hopen.balanced⟩

theorem length_held (fd fd' : Int) (bs : List Buffer) :
    (held fd bs).length = (held fd' bs).length := by
  rw [held, held]
  split <;> rfl

/-- Other books cannot be right for the same buffers if one more thing was given out, or back. -/
theorem Sound.length_eq (hw : Sound w) (hw' : Sound w') (hbuffers : w'.buffers = w.buffers) :
    w.manager.taken.length + w'.manager.returned.length =
      w'.manager.taken.length + w.manager.returned.length := by
  obtain ⟨fd, -, hbal⟩ := hw
  obtain ⟨fd', -, hbal'⟩ := hw'
  have hheld := length_held fd fd' w.buffers
  rw [hbuffers] at hbal'
  have h := hbal.length_eq
  have h' := hbal'.length_eq
  omega

/-! ## A call of `allocateBuffer` -/

theorem openDevice_open (h : Open m bs) : m.openDevice opened = (true, m) :=
  if_neg (by have := h.fd; omega)

theorem Closed.set_fd (h : Closed m) (taken : List Resource) :
    { m with mIonFd := 0, taken := taken } = { m with taken := taken } := by
  rw [← h.fd]

theorem openDevice_fails (h : Closed m) (hopened : opened < 0) :
    m.openDevice opened = (false, m) := by
  have hneg : ¬ 0 ≤ opened := by omega
  have hle : opened ≤ 0 := by omega
  rw [MemoryManager.openDevice, if_pos h.fd, if_neg hneg, if_pos hle]
  exact congrArg (false, ·) (h.set_fd m.taken)

theorem openDevice_zero (h : Closed m) : m.openDevice 0 = (false, m.take [.device 0]) := by
  have hle : (0 : Int) ≤ 0 := Int.le_refl 0
  rw [MemoryManager.openDevice, if_pos h.fd, if_pos hle, if_pos hle]
  exact congrArg (false, ·) (h.set_fd _)

theorem openDevice_opens (h : Closed m) (hopened : 0 < opened) :
    ∃ m', m.openDevice opened = (true, m') ∧ Open m' [] := by
  have hle : 0 ≤ opened := by omega
  have hgt : ¬ opened ≤ 0 := by omega
  refine ⟨{ m.take [.device opened] with mIonFd := opened }, ?_, ?_, hopened,
    h.balanced.takeAll _⟩
  · rw [MemoryManager.openDevice, if_pos h.fd, if_pos hle, if_neg hgt]
  · have hr := h.records
    exact ⟨hr.length, hr.mmapFd, hr.handle, hr.keys, hr.distinct, hr.positive, by simp⟩

/-- The array of a call. -/
def arrayOf (new : List Buffer) (count : Nat) : List Nat :=
  new.map Buffer.ptr ++ List.replicate (count + 1 - new.length) 0

theorem arrayOf_eq {count : Nat} (h : new.length ≤ count) :
    arrayOf new count = new.map Buffer.ptr ++ 0 :: List.replicate (count - new.length) 0 := by
  rw [arrayOf, Nat.succ_sub h, List.replicate_succ]

variable {m₁ : MemoryManager}

theorem allocateBuffer_eq {failed : Bool} {m₂ : MemoryManager} (hb : bytes ≠ 0)
    (hopen : m.openDevice opened = (true, m₁))
    (hloop : m₁.allocLoop bytes outcomes = (new.map Buffer.ptr, failed, m₂)) :
    m.allocateBuffer bytes opened outcomes =
      if failed then
        (m₂.freeBuffer (arrayOf new outcomes.length)).map fun m => (none, m.closeDevice)
      else some (some (arrayOf new outcomes.length), m₂) := by
  simp only [MemoryManager.allocateBuffer, hopen, not_true_eq_false, if_false, if_pos hb, hloop,
    arrayOf, List.length_map]

theorem allocateBuffer_ok (hb : bytes ≠ 0) (hready : m.openDevice opened = (true, m₁))
    (h : Open m₁ old) (hnodup : (outcomes.filterMap Outcome.address).Nodup)
    (hfresh : ∀ ptr ∈ outcomes.filterMap Outcome.address, ptr ≠ 0 ∧ ptr ∉ old.map Buffer.ptr)
    (hall : ∀ o ∈ outcomes, o.address.isSome) :
    ∃ new m₂, m.allocateBuffer bytes opened outcomes =
        some (some (arrayOf new outcomes.length), m₂) ∧ Open m₂ (new ++ old) ∧
      new = outcomes.filterMap (Outcome.buffer m₂.mIonFd bytes) ∧ new.length ≤ outcomes.length := by
  obtain ⟨new, failed, m₂, hloop, hopen, hfd, hlen, hnew, hfailed⟩ :=
    allocLoop_spec h hb hnodup hfresh
  have hok := hfailed.mpr hall
  refine ⟨new, m₂, ?_, hopen, hfd ▸ hnew hok, hlen⟩
  rw [allocateBuffer_eq hb hready hloop, hok]
  rfl

theorem allocateBuffer_undone (hb : bytes ≠ 0) (hready : m.openDevice opened = (true, m₁))
    (h : Open m₁ []) (hnodup : (outcomes.filterMap Outcome.address).Nodup)
    (hfresh : ∀ ptr ∈ outcomes.filterMap Outcome.address, ptr ≠ 0)
    (hnot : ¬ ∀ o ∈ outcomes, o.address.isSome) :
    ∃ m₂, m.allocateBuffer bytes opened outcomes = some (none, m₂) ∧ Closed m₂ := by
  obtain ⟨new, failed, m₂, hloop, hopen, -, hlen, -, hfailed⟩ :=
    allocLoop_spec h hb hnodup fun ptr hptr => ⟨hfresh ptr hptr, by simp⟩
  have hfail : failed = true := by
    rw [← hfailed] at hnot
    exact Bool.not_eq_false _ ▸ hnot
  rw [List.append_nil] at hopen
  obtain ⟨m₃, hfree, hclosed⟩ := freeBuffer_last (List.replicate _ 0) hopen
  refine ⟨m₃, ?_, hclosed⟩
  rw [allocateBuffer_eq hb hready hloop, hfail, if_pos rfl, arrayOf_eq hlen, hfree,
    Option.map_some, MemoryManager.closeDevice, if_neg (by rw [hclosed.fd]; omega)]

variable (opened) in
theorem allocateBuffer_closes (hb : bytes ≠ 0) (h : Open m old) (hold : old ≠ [])
    (hnodup : (outcomes.filterMap Outcome.address).Nodup)
    (hfresh : ∀ ptr ∈ outcomes.filterMap Outcome.address, ptr ≠ 0 ∧ ptr ∉ old.map Buffer.ptr)
    (hnot : ¬ ∀ o ∈ outcomes, o.address.isSome) :
    ∃ m₂, Open m₂ old ∧ m.allocateBuffer bytes opened outcomes =
      some (none, { m₂.giveBack [.device m₂.mIonFd] with mIonFd := 0 }) := by
  obtain ⟨new, failed, m₂, hloop, hopen, -, hlen, -, hfailed⟩ := allocLoop_spec h hb hnodup hfresh
  have hfail : failed = true := by
    rw [← hfailed] at hnot
    exact Bool.not_eq_false _ ▸ hnot
  obtain ⟨m₃, hfree, hopen, -⟩ := freeBuffer_some (List.replicate _ 0) hopen hold
  refine ⟨m₃, hopen, ?_⟩
  rw [allocateBuffer_eq hb (openDevice_open h) hloop, hfail, if_pos rfl, arrayOf_eq hlen, hfree,
    Option.map_some, MemoryManager.closeDevice, if_pos hopen.fd]

/-! ## Whole runs -/

theorem buffers_ne_nil {fd : Int} (hsome : outcomes ≠ [])
    (hall : ∀ o ∈ outcomes, o.address.isSome) :
    outcomes.filterMap (Outcome.buffer fd bytes) ≠ [] := by
  cases outcomes with
  | nil => exact absurd rfl hsome
  | cons o outcomes =>
    have ho := hall o List.mem_cons_self
    cases o with
    | allocFails | mapFails handle => exact absurd ho (by simp [Outcome.address])
    | mapped handle ptr mmapFd => exact List.cons_ne_nil _ _

theorem step_allocate (hpos : Possible w outcomes) {array : Option (List Nat)}
    (h : w.manager.allocateBuffer bytes opened outcomes = some (array, m)) :
    step w (.allocateBuffer bytes opened outcomes) =
      some (w.allocated bytes outcomes (array, m)) := by
  rw [step, if_pos hpos, h, Option.map_some]

theorem inv_allocated (hw : Inv w) (hready : w.manager.openDevice opened = (true, m₁))
    (h : Open m₁ w.buffers) (hcall : Positive (.allocateBuffer bytes opened outcomes))
    (hpos : Possible w outcomes) (hall : ∀ o ∈ outcomes, o.address.isSome)
    (hstep : step w (.allocateBuffer bytes opened outcomes) = some w') : Inv w' := by
  obtain ⟨new, m₂, heq, hopen, hnew, hlen⟩ :=
    allocateBuffer_ok (Nat.ne_of_gt hcall.1) hready h hpos.1 hpos.2 hall
  rw [step_allocate hpos heq, World.allocated, ← hnew] at hstep
  cases hstep
  have hne : new ≠ [] := hnew ▸ buffers_ne_nil hcall.2 hall
  refine ⟨.inr ⟨List.append_ne_nil_of_left_ne_nil hne _, hopen⟩, List.forall_mem_cons.mpr ⟨?_,
    hw.arrays⟩⟩
  exact ⟨hne, _, arrayOf_eq hlen⟩

theorem inv_closed (hw : Inv w) (hnil : w.buffers = []) (hm : Closed m) :
    Inv { w with manager := m } where
  books := .inl ⟨hnil, hm⟩
  arrays := hw.arrays

theorem inv_allocateBuffer (hw : Inv w) (hcall : Positive (.allocateBuffer bytes opened outcomes))
    (hlucky : Lucky w (.allocateBuffer bytes opened outcomes))
    (hstep : step w (.allocateBuffer bytes opened outcomes) = some w') : Inv w' := by
  have hpos : Possible w outcomes := by
    by_contra hnot
    rw [step, if_neg hnot] at hstep
    cases hstep
  obtain ⟨hzero, hfail⟩ := hlucky hpos
  rcases hw.books with ⟨hnil, hclosed⟩ | ⟨hsome, hopen⟩
  · rcases Int.lt_trichotomy opened 0 with hneg | hz | hgt
    · have heq : w.manager.allocateBuffer bytes opened outcomes = some (none, w.manager) := by
        simp only [MemoryManager.allocateBuffer, openDevice_fails hclosed hneg]
        rfl
      rw [step_allocate hpos heq] at hstep
      cases hstep
      exact inv_closed hw hnil hclosed
    · exact absurd hz (hzero hnil)
    · obtain ⟨m₁, hready, hopen⟩ := openDevice_opens hclosed hgt
      by_cases hall : ∀ o ∈ outcomes, o.address.isSome
      · exact inv_allocated hw hready (hnil ▸ hopen) hcall hpos hall hstep
      · obtain ⟨m₂, heq, hclosed⟩ := allocateBuffer_undone (Nat.ne_of_gt hcall.1) hready hopen
          hpos.1 (fun ptr hptr => (hpos.2 ptr hptr).1) hall
        rw [step_allocate hpos heq] at hstep
        cases hstep
        exact inv_closed hw hnil hclosed
  · exact inv_allocated hw (openDevice_open hopen) hopen hcall hpos (hfail hsome) hstep

theorem inv_freeBuffer {array : Allocated} (hw : Inv w)
    (hstep : step w (.freeBuffer array) = some w') : Inv w' := by
  have hmem : array ∈ w.arrays := by
    by_contra hnot
    rw [step, if_neg hnot] at hstep
    cases hstep
  obtain ⟨hne, tail, hfits⟩ := hw.arrays array hmem
  have hperm : w.buffers.Perm (array.buffers ++ (w.arrays.erase array).flatMap
      Allocated.buffers) :=
    (List.perm_cons_erase hmem).flatMap_right _
  have hrest : ∀ a ∈ w.arrays.erase array, Allocated.Fits a :=
    fun a ha => hw.arrays a (List.mem_of_mem_erase ha)
  have hopen : Open w.manager w.buffers := by
    rcases hw.books with ⟨hnil, -⟩ | ⟨-, hopen⟩
    · rw [hnil] at hperm
      exact absurd (List.append_eq_nil_iff.mp hperm.symm.eq_nil).1 hne
    · exact hopen
  rw [step, if_pos hmem, hfits] at hstep
  by_cases hlast : (w.arrays.erase array).flatMap Allocated.buffers = []
  · rw [hlast, List.append_nil] at hperm
    obtain ⟨m', hfree, hclosed⟩ := freeBuffer_last tail (hopen.perm hperm)
    rw [hfree] at hstep
    cases hstep
    exact ⟨.inl ⟨hlast, hclosed⟩, hrest⟩
  · obtain ⟨m', hfree, hopen, -⟩ := freeBuffer_some tail (hopen.perm hperm) hlast
    rw [hfree] at hstep
    cases hstep
    exact ⟨.inr ⟨hlast, hopen⟩, hrest⟩

theorem not_sound_of_not_lucky (hw : Inv w)
    (hcall : Positive (.allocateBuffer bytes opened outcomes))
    (hnot : ¬ Lucky w (.allocateBuffer bytes opened outcomes)) :
    ∃ w', step w (.allocateBuffer bytes opened outcomes) = some w' ∧ ¬ Sound w' := by
  obtain ⟨hpos, hnot⟩ := Classical.not_imp.mp hnot
  rcases hw.books with ⟨hnil, hclosed⟩ | ⟨hsome, hopen⟩
  · obtain rfl : opened = 0 := by
      by_contra hne
      exact hnot ⟨fun _ => hne, fun h => absurd hnil h⟩
    have heq : w.manager.allocateBuffer bytes 0 outcomes =
        some (none, w.manager.take [.device 0]) := by
      simp only [MemoryManager.allocateBuffer, openDevice_zero hclosed]
      rfl
    refine ⟨_, step_allocate hpos heq, fun hsound => ?_⟩
    have hlen := hw.sound.length_eq hsound rfl
    simp only [World.allocated, MemoryManager.take, List.length_append,
      List.length_singleton] at hlen
    omega
  · have hfail : ¬ ∀ o ∈ outcomes, o.address.isSome :=
      fun hall => hnot ⟨fun h => absurd h hsome, fun _ => hall⟩
    obtain ⟨m₂, hopen₂, heq⟩ := allocateBuffer_closes opened
      (Nat.ne_of_gt hcall.1) hopen hsome hpos.1 hpos.2 hfail
    refine ⟨_, step_allocate hpos heq, fun hsound => ?_⟩
    -- before the device was closed the books were right
    have hbefore : Sound { w with manager := m₂ } :=
      ⟨_, hopen₂.records.fd, (held_of_ne_nil hsome) ▸ hopen₂.balanced⟩
    have hlen := hbefore.length_eq hsound rfl
    simp only [World.allocated, MemoryManager.giveBack, List.length_append,
      List.length_singleton] at hlen
    omega

/-- The books are right in all states of a run exactly if no allocation of the run fails while
there are buffers in use, and the device is never opened as 0. -/
theorem ledger_iff (calls : List Call) (hpositive : ∀ c ∈ calls, Positive c) :
    Throughout step Sound {} calls ↔ Guarded step Lucky {} calls := by
  refine throughout_iff_guarded_under (J := Inv) (fun w hw => hw.sound) ?_ ?_ Inv.start
    (guarded_of_forall _ hpositive)
  · intro w c w' hw hcall hlucky hstep
    cases c with
    | allocateBuffer bytes opened outcomes => exact inv_allocateBuffer hw hcall hlucky hstep
    | freeBuffer array => exact inv_freeBuffer hw hstep
  · intro w c hw hcall hnot
    cases c with
    | allocateBuffer bytes opened outcomes => exact not_sound_of_not_lucky hw hcall hnot
    | freeBuffer array => exact absurd trivial hnot

def first : Outcome := .mapped 7 0x1000 20

def array : Allocated := ⟨[0x1000, 0], [⟨3, 7, 0x1000, 64, 20⟩]⟩

/-- An array that is allocated and freed. -/
theorem ledger_one :
    Throughout step Sound {} [.allocateBuffer 64 3 [first], .freeBuffer array] := by
  refine (ledger_iff _ ?_).mpr ?_
  · exact List.forall_mem_cons.mpr ⟨⟨by decide, by decide⟩, by simp [Positive]⟩
  · exact .cons (fun _ => ⟨fun _ => by decide, fun h => absurd rfl h⟩) rfl
      (.cons trivial rfl trivial)

/-- The second array cannot be allocated, and the device of the first is closed. Its handle is
freed on descriptor 0. -/
theorem ledger_not_sound :
    let calls : List Call := [.allocateBuffer 64 3 [first], .allocateBuffer 64 4 [.allocFails]]
    (∀ c ∈ calls, Positive c) ∧
    (∃ w, run step {} calls = some w ∧ w.buffers = array.buffers ∧ w.manager.mIonFd = 0) ∧
    (∃ w, run step {} (calls ++ [.freeBuffer array]) = some w ∧
      w.manager.taken.getLast? = some (.mapFd 20) ∧
      w.manager.returned.getLast? = some (.handle 0 7)) ∧
    ¬ Throughout step Sound {} calls := by
  refine ⟨?_, ⟨_, rfl, rfl, rfl⟩, ⟨_, rfl, rfl, rfl⟩, ?_⟩
  · exact List.forall_mem_cons.mpr ⟨⟨by decide, by decide⟩,
      List.forall_mem_singleton.mpr ⟨by decide, by decide⟩⟩
  · rintro ⟨-, h⟩
    obtain ⟨fd, -, hbalanced⟩ := (h _ rfl).2 _ rfl
    have hlen := hbalanced.length_eq
    rw [length_held fd 0] at hlen
    exact absurd hlen (by decide)

end Omap4Hal.Camera.IonMemory

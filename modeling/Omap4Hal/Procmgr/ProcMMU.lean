import Omap4Hal.Lib.Run
import Omap4Hal.Lib.WordBits

/- The two MMU drivers of a process (procmgr/ProcMMU.c): one for the DSP, which Tesla uses, and
   one for the M3 cores AppM3 and SysM3. Each has a reference count, so that the first open of a
   processor opens the device and the last close closes it. The answers of `open`, `fcntl` and
   `close` are arguments.

   The count is changed inside the condition that asks for it, and stays changed if the
   device then cannot be opened. `mmu_counted_iff` says when a run keeps its books. -/
namespace Omap4Hal.Procmgr.ProcMMU

open Lib
open Function (update update_self update_of_ne)

inductive Device where
  | dsp
  | mpuM3
  deriving DecidableEq, Repr

/-- The processors by the names that the code asks `MultiProc_getId` for. -/
inductive Proc where
  | tesla
  | appM3
  | sysM3
  | other
  deriving DecidableEq, Repr

/-- Any processor but Tesla is taken for one of the M3 cores when it comes to the device. -/
def Proc.device : Proc → Device
  | .tesla => .dsp
  | _ => .mpuM3

def Proc.isCounted : Proc → Bool
  | .other => false
  | _ => true

inductive Status where
  | success
  | osFailure
  deriving DecidableEq, Repr

/-- The globals of the module, with the descriptors of the process that are open on the devices.
The last three fields are the books: the opens that succeeded and the closes, and whether all
opens that failed have left things as they were. -/
structure Mmu where
  refCount : Device → UInt32 := fun _ => 0
  handle : Device → Int := fun _ => -1
  fds : Int → Option Device := fun _ => none
  opens : Proc → Nat := fun _ => 0
  closes : Proc → Nat := fun _ => 0
  kept : Bool := true

/-- What `open` and `fcntl` answer. -/
structure OpenOutcome where
  fd : Option Int
  fcntlOk : Bool

/-- What `close` does; one that fails may have released the descriptor or not. -/
inductive CloseOutcome where
  | closed
  | failed (released : Bool)
  deriving DecidableEq

/-- `open` gives out a descriptor that is not in use; anything else is a failure. -/
def Mmu.fresh (s : Mmu) (found : Option Int) : Option Int :=
  found.filter fun fd => decide (0 ≤ fd) && (s.fds fd).isNone

def Mmu.setHandle (s : Mmu) (d : Device) (fd : Int) : Mmu :=
  { s with handle := update s.handle d fd }

def Mmu.setFd (s : Mmu) (fd : Int) (d : Option Device) : Mmu :=
  { s with fds := update s.fds fd d }

def Mmu.setCount (s : Mmu) (d : Device) (n : UInt32) : Mmu :=
  { s with refCount := update s.refCount d n }

/-! ## Opening and closing -/

/-- The second half of `ProcMMU_open`; the descriptor flags are set for the M3 cores only. -/
def openDevice (s : Mmu) (d : Device) (o : OpenOutcome) : Status × Mmu :=
  match s.fresh o.fd with
  | none => (.osFailure, s.setHandle d (-1))
  | some fd =>
    let s₁ := (s.setHandle d fd).setFd fd (some d)
    if d = .mpuM3 ∧ o.fcntlOk = false then (.osFailure, s₁) else (.success, s₁)

def procMMUOpen (s : Mmu) (proc : Proc) (o : OpenOutcome) : Status × Mmu :=
  let d := proc.device
  if proc.isCounted then
    -- `refCount++` is the condition
    let s₁ := s.setCount d (s.refCount d + 1)
    if s.refCount d ≠ 0 then (.success, s₁) else openDevice s₁ d o
  else openDevice s d o

/-- The second half of `ProcMMU_close`. -/
def closeDevice (s : Mmu) (d : Device) : CloseOutcome → Status × Mmu
  | .closed => (.success, (s.setFd (s.handle d) none).setHandle d 0)
  | .failed true => (.osFailure, s.setFd (s.handle d) none)
  | .failed false => (.osFailure, s)

def procMMUClose (s : Mmu) (proc : Proc) (o : CloseOutcome) : Status × Mmu :=
  let d := proc.device
  if proc.isCounted then
    let s₁ := s.setCount d (s.refCount d - 1)
    if s.refCount d - 1 ≠ 0 then (.success, s₁) else closeDevice s₁ d o
  else closeDevice s d o

/-! ## Runs -/

/-- The descriptor of the device is open. -/
def Mmu.isOpen (s : Mmu) (d : Device) : Bool := s.fds (s.handle d) == some d

inductive Call where
  | mmuOpen (proc : Proc) (o : OpenOutcome)
  | mmuClose (proc : Proc) (o : CloseOutcome)

def step (s : Mmu) : Call → Option Mmu
  | .mmuOpen proc o =>
    let r := procMMUOpen s proc o
    let d := proc.device
    some { r.2 with
      opens := if r.1 = .success then update s.opens proc (s.opens proc + 1) else s.opens
      kept := s.kept && (r.1 == .success ||
        r.2.refCount d == s.refCount d && r.2.isOpen d == s.isOpen d) }
  | .mmuClose proc o =>
    some { (procMMUClose s proc o).2 with
      closes := update s.closes proc (s.closes proc + 1) }

/-- What a count of processors is for a device. -/
def perDevice (count : Proc → Nat) : Device → Nat
  | .dsp => count .tesla
  | .mpuM3 => count .appM3 + count .sysM3

structure Counted (s : Mmu) : Prop where
  count : ∀ d, (s.refCount d).toNat = perDevice s.opens d - perDevice s.closes d
  isOpen : ∀ d, s.isOpen d = true ↔ 0 < (s.refCount d).toNat
  kept : s.kept = true

/-- A processor is closed after an open of it that succeeded. -/
def Orderly (s : Mmu) : Call → Prop
  | .mmuOpen proc _ => proc.isCounted = true
  | .mmuClose proc _ => proc.isCounted = true ∧ s.closes proc < s.opens proc

/-- The first open of a device succeeds, its count does not overflow, and the last close
releases the descriptor. -/
def Succeeds (s : Mmu) : Call → Prop
  | .mmuOpen proc o =>
    if s.refCount proc.device = 0 then
      s.fresh o.fd ≠ none ∧ (proc.device = .mpuM3 → o.fcntlOk = true)
    else s.refCount proc.device + 1 ≠ 0
  | .mmuClose proc o => s.refCount proc.device = 1 → o ≠ .failed false

/-! ## The invariant -/

structure MmuInv (s : Mmu) : Prop where
  counted : Counted s
  closes_le : ∀ p, s.closes p ≤ s.opens p
  /-- No other descriptor is open on a device. -/
  only : ∀ fd d, s.fds fd = some d → fd = s.handle d

theorem initial_mmuInv : MmuInv {} := by
  refine ⟨⟨?_, ?_, rfl⟩, fun _ => Nat.le_refl _, ?_⟩
  · intro d
    cases d <;> rfl
  · intro d
    cases d <;> decide
  · intro fd d h
    cases h

variable {s s' : Mmu} {proc : Proc}

theorem perDevice_le (h : MmuInv s) (d : Device) :
    perDevice s.closes d ≤ perDevice s.opens d := by
  cases d with
  | dsp => exact h.closes_le .tesla
  | mpuM3 => exact Nat.add_le_add (h.closes_le .appM3) (h.closes_le .sysM3)

theorem perDevice_update {count : Proc → Nat} (hproc : proc.isCounted = true) (d : Device) :
    perDevice (update count proc (count proc + 1)) d =
      perDevice count d + if d = proc.device then 1 else 0 := by
  cases proc with
  | other => cases hproc
  | tesla => cases d <;> simp [perDevice, Proc.device]
  | appM3 => cases d <;> simp [perDevice, Proc.device]; omega
  | sysM3 => cases d <;> simp [perDevice, Proc.device]; omega

theorem closes_lt_opens (h : MmuInv s) (hproc : proc.isCounted = true)
    (hlt : s.closes proc < s.opens proc) : 0 < (s.refCount proc.device).toNat := by
  rw [h.counted.count]
  have hle := h.closes_le
  cases proc with
  | other => cases hproc
  | tesla => simpa [perDevice, Proc.device] using Nat.sub_pos_of_lt hlt
  | appM3 =>
    have hother := hle .sysM3
    simp only [perDevice, Proc.device]
    omega
  | sysM3 =>
    have hother := hle .appM3
    simp only [perDevice, Proc.device]
    omega

theorem MmuInv.opened (h : MmuInv s) (hproc : proc.isCounted = true)
    (hcount : s'.refCount = update s.refCount proc.device (s.refCount proc.device + 1))
    (hwrap : s.refCount proc.device + 1 ≠ 0)
    (hopens : s'.opens = update s.opens proc (s.opens proc + 1))
    (hcloses : s'.closes = s.closes) (hkept : s'.kept = true)
    (hopen : ∀ d, s'.isOpen d = true ↔ d = proc.device ∨ s.isOpen d = true)
    (honly : ∀ fd d, s'.fds fd = some d → fd = s'.handle d) : MmuInv s' := by
  refine ⟨⟨?_, ?_, hkept⟩, ?_, honly⟩
  · intro d
    rw [hcount, hopens, hcloses, perDevice_update hproc]
    by_cases hd : d = proc.device
    · subst hd
      have hle := perDevice_le h proc.device
      have hold := h.counted.count proc.device
      rw [update_self, toNat_inc hwrap, if_pos rfl]
      omega
    · rw [update_of_ne hd, if_neg hd]
      exact h.counted.count d
  · intro d
    rw [hopen, hcount]
    by_cases hd : d = proc.device
    · subst hd
      rw [update_self, toNat_inc hwrap]
      simp
    · rw [update_of_ne hd, ← h.counted.isOpen d]
      simp [hd]
  · intro p
    rw [hopens, hcloses]
    by_cases hp : p = proc
    · subst hp
      rw [update_self]
      exact Nat.le_succ_of_le (h.closes_le p)
    · rw [update_of_ne hp]
      exact h.closes_le p

theorem MmuInv.closed (h : MmuInv s) (hproc : proc.isCounted = true)
    (hlt : s.closes proc < s.opens proc)
    (hcount : s'.refCount = update s.refCount proc.device (s.refCount proc.device - 1))
    (hopens : s'.opens = s.opens)
    (hcloses : s'.closes = update s.closes proc (s.closes proc + 1))
    (hkept : s'.kept = true)
    (hopen : ∀ d, s'.isOpen d = true ↔ s.isOpen d = true ∧ (d = proc.device → s.refCount d - 1 ≠ 0))
    (honly : ∀ fd d, s'.fds fd = some d → fd = s'.handle d) : MmuInv s' := by
  have hpos := closes_lt_opens h hproc hlt
  have hne : s.refCount proc.device ≠ 0 := UInt32.pos_iff_ne_zero.mp hpos
  refine ⟨⟨?_, ?_, hkept⟩, ?_, honly⟩
  · intro d
    rw [hcount, hopens, hcloses, perDevice_update hproc]
    by_cases hd : d = proc.device
    · subst hd
      have hold := h.counted.count proc.device
      rw [update_self, toNat_dec hne, if_pos rfl]
      omega
    · rw [update_of_ne hd, if_neg hd]
      exact h.counted.count d
  · intro d
    rw [hopen, hcount, h.counted.isOpen d]
    by_cases hd : d = proc.device
    · subst hd
      rw [update_self]
      have hne : s.refCount proc.device - 1 ≠ 0 ↔ 0 < (s.refCount proc.device - 1).toNat := by
        rw [Nat.pos_iff_ne_zero, ne_eq, ne_eq, ← UInt32.toNat_inj]
        rfl
      simp only [true_implies, hne]
      exact ⟨fun hh => hh.2, fun hh => ⟨hpos, hh⟩⟩
    · rw [update_of_ne hd]
      simp [hd]
  · intro p
    rw [hopens, hcloses]
    by_cases hp : p = proc
    · subst hp
      rw [update_self]
      exact hlt
    · rw [update_of_ne hp]
      exact h.closes_le p

/-! ## Every call -/

theorem procMMUOpen_first (hproc : proc.isCounted = true) (hzero : s.refCount proc.device = 0)
    (o : OpenOutcome) : procMMUOpen s proc o =
      openDevice (s.setCount proc.device (s.refCount proc.device + 1)) proc.device o := by
  unfold procMMUOpen
  rw [if_pos hproc, if_neg (not_not.mpr hzero)]

theorem openDevice_opened {d : Device} {o : OpenOutcome} {fd : Int} (hfd : s.fresh o.fd = some fd)
    (hflags : d = .mpuM3 → o.fcntlOk = true) :
    openDevice s d o = (.success, (s.setHandle d fd).setFd fd (some d)) := by
  have hno : ¬ (d = .mpuM3 ∧ o.fcntlOk = false) := by
    intro hno
    rw [hflags hno.1] at hno
    cases hno.2
  unfold openDevice
  rw [hfd]
  exact if_neg hno

theorem procMMUClose_last (hproc : proc.isCounted = true) (hlast : s.refCount proc.device - 1 = 0)
    (o : CloseOutcome) : procMMUClose s proc o =
      closeDevice (s.setCount proc.device (s.refCount proc.device - 1)) proc.device o := by
  unfold procMMUClose
  rw [if_pos hproc, if_neg (not_not.mpr hlast)]

theorem open_inv (h : MmuInv s) {o : OpenOutcome} (hproc : proc.isCounted = true)
    (hsucc : Succeeds s (.mmuOpen proc o)) :
    ∃ s', step s (.mmuOpen proc o) = some s' ∧ MmuInv s' := by
  refine ⟨_, rfl, ?_⟩
  have hkept := h.counted.kept
  simp only [Succeeds] at hsucc
  by_cases hzero : s.refCount proc.device = 0
  · rw [if_pos hzero] at hsucc
    obtain ⟨hfd, hfcntl⟩ := hsucc
    obtain ⟨fd, hfd⟩ := Option.ne_none_iff_exists'.mp hfd
    have hfree : s.fds fd = none := by
      have hsome := (Option.filter_eq_some_iff.mp hfd).2
      simpa using (Bool.and_eq_true_iff.mp hsome).2
    -- the device is not open yet, so that no descriptor is lost
    have hclosed : s.isOpen proc.device = false := by
      rw [Bool.eq_false_iff, ne_eq, h.counted.isOpen, hzero]
      simp
    have hnone : ∀ fd, s.fds fd ≠ some proc.device := by
      intro fd' hfd'
      rw [h.only fd' _ hfd'] at hfd'
      simp [Mmu.isOpen, hfd'] at hclosed
    have heq := (procMMUOpen_first hproc hzero o).trans (openDevice_opened hfd hfcntl)
    simp only [heq]
    refine h.opened hproc rfl (by rw [hzero]; decide) rfl rfl (by simp [hkept]) ?_ ?_
    · intro d
      by_cases hd : d = proc.device
      · subst hd
        simp [Mmu.isOpen, Mmu.setFd, Mmu.setHandle]
      · by_cases hfdd : s.handle d = fd
        · simp [Mmu.isOpen, Mmu.setFd, Mmu.setHandle, Mmu.setCount, hd, hfdd, hfree, Ne.symm hd]
        · simp [Mmu.isOpen, Mmu.setFd, Mmu.setHandle, Mmu.setCount, hd, hfdd]
    · intro fd' d hfd'
      by_cases hfdd : fd' = fd
      · subst hfdd
        simp only [Mmu.setFd, update_self, Option.some.injEq] at hfd'
        simp [Mmu.setFd, Mmu.setHandle, ← hfd']
      · have hold : s.fds fd' = some d := by
          simpa [Mmu.setFd, Mmu.setHandle, Mmu.setCount, hfdd] using hfd'
        have hd : d ≠ proc.device := fun hd => hnone fd' (hd ▸ hold)
        simpa [Mmu.setFd, Mmu.setHandle, Mmu.setCount, hd] using h.only fd' d hold
  · rw [if_neg hzero] at hsucc
    have heq : procMMUOpen s proc o =
        (.success, s.setCount proc.device (s.refCount proc.device + 1)) := by
      simp [procMMUOpen, hproc, hzero]
    have hopen : s.isOpen proc.device = true := by
      rw [h.counted.isOpen, Nat.pos_iff_ne_zero]
      exact fun h0 => hzero (UInt32.toNat_inj.mp h0)
    simp only [heq]
    refine h.opened hproc rfl hsucc rfl rfl (by simp [hkept]) ?_ h.only
    intro d
    refine ⟨fun hd => .inr hd, ?_⟩
    rintro (rfl | hd)
    · exact hopen
    · exact hd

theorem close_inv (h : MmuInv s) {o : CloseOutcome} (hord : Orderly s (.mmuClose proc o))
    (hsucc : Succeeds s (.mmuClose proc o)) :
    ∃ s', step s (.mmuClose proc o) = some s' ∧ MmuInv s' := by
  obtain ⟨hproc, hlt⟩ := hord
  refine ⟨_, rfl, ?_⟩
  have hpos := closes_lt_opens h hproc hlt
  have hopen := (h.counted.isOpen _).mpr hpos
  by_cases hlast : s.refCount proc.device - 1 = 0
  · have hone := eq_one_of_dec hlast (UInt32.pos_iff_ne_zero.mp hpos)
    have hreleased : o ≠ .failed false := hsucc hone
    have hfd : s.fds (s.handle proc.device) = some proc.device := by
      simpa [Mmu.isOpen] using hopen
    obtain ⟨n, hn⟩ : ∃ n, closeDevice (s.setCount proc.device (s.refCount proc.device - 1))
        proc.device o = n := ⟨_, rfl⟩
    -- whether `close` has failed or not, the descriptor is gone
    have hfds : n.2.fds = update s.fds (s.handle proc.device) none ∧
        n.2.refCount = update s.refCount proc.device (s.refCount proc.device - 1) ∧
        n.2.opens = s.opens ∧ n.2.kept = s.kept ∧
        ∀ d, d ≠ proc.device → n.2.handle d = s.handle d := by
      subst hn
      cases o with
      | closed =>
        refine ⟨rfl, rfl, rfl, rfl, ?_⟩
        intro d hd
        exact update_of_ne hd _ _
      | failed released =>
        cases released with
        | true => exact ⟨rfl, rfl, rfl, rfl, fun _ _ => rfl⟩
        | false => exact absurd rfl hreleased
    obtain ⟨hfds, hcount, hopens, hkept, hhandle⟩ := hfds
    have hgone : ∀ fd d, n.2.fds fd = some d → s.fds fd = some d ∧ d ≠ proc.device := by
      intro fd d hd
      rw [hfds] at hd
      by_cases hfd' : fd = s.handle proc.device
      · rw [hfd', update_self] at hd
        cases hd
      · rw [update_of_ne hfd'] at hd
        refine ⟨hd, ?_⟩
        rintro rfl
        exact hfd' (h.only fd _ hd)
    simp only [procMMUClose_last hproc hlast, hn]
    refine h.closed hproc hlt hcount hopens rfl (hkept.trans h.counted.kept) ?_ ?_
    · intro d
      simp only [Mmu.isOpen, beq_iff_eq]
      by_cases hd : d = proc.device
      · subst hd
        refine ⟨fun hd => absurd rfl (hgone _ _ hd).2, fun hd => absurd hlast (hd.2 rfl)⟩
      · have hne : s.handle d ≠ s.handle proc.device ∨ s.fds (s.handle d) ≠ some d := by
          by_contra hboth
          push Not at hboth
          rw [hboth.1, hfd] at hboth
          exact hd (Option.some.inj hboth.2).symm
        rw [hhandle d hd, hfds]
        rcases hne with hne | hne
        · rw [update_of_ne hne]
          simp [hd]
        · refine ⟨fun hd' => ?_, fun hd' => absurd hd'.1 hne⟩
          have := (hgone (s.handle d) d (by rw [hfds]; exact hd')).1
          exact absurd this hne
    · intro fd d hd
      obtain ⟨hold, hne⟩ := hgone fd d hd
      show fd = n.2.handle d
      rw [hhandle d hne]
      exact h.only fd d hold
  · have heq : procMMUClose s proc o =
        (.success, s.setCount proc.device (s.refCount proc.device - 1)) := by
      simp [procMMUClose, hproc, hlast]
    simp only [heq]
    refine h.closed hproc hlt rfl rfl rfl h.counted.kept ?_ h.only
    intro d
    refine ⟨fun hd => ⟨hd, ?_⟩, fun hd => hd.1⟩
    rintro rfl
    exact hlast

theorem step_not_counted {c : Call} (h : MmuInv s) (hord : Orderly s c) (hfail : ¬ Succeeds s c)
    (hstep : step s c = some s') : ¬ Counted s' := by
  intro hcounted
  cases c with
  | mmuOpen proc o =>
    cases hstep
    have hproc : proc.isCounted = true := hord
    have hold := h.counted.count proc.device
    have hnew := hcounted.count proc.device
    have hle := perDevice_le h proc.device
    simp only [Succeeds] at hfail
    by_cases hzero : s.refCount proc.device = 0
    · -- the count is 1 already
      have hfailed : (procMMUOpen s proc o).1 = .osFailure ∧
          (procMMUOpen s proc o).2.refCount proc.device = 1 ∧
          (procMMUOpen s proc o).2.closes = s.closes := by
        rw [if_pos hzero] at hfail
        rw [procMMUOpen_first hproc hzero, hzero]
        unfold openDevice
        have hfresh : (s.setCount proc.device (0 + 1)).fresh o.fd = s.fresh o.fd := rfl
        rw [hfresh]
        split
        · exact ⟨rfl, by simp [Mmu.setHandle, Mmu.setCount], rfl⟩
        · next fd hfd =>
          have hflags : proc.device = .mpuM3 ∧ o.fcntlOk = false := by
            by_contra hno
            apply hfail
            refine ⟨by simp [hfd], ?_⟩
            intro hm3
            by_contra hfcntl
            exact hno ⟨hm3, by simpa using hfcntl⟩
          rw [if_pos hflags]
          exact ⟨rfl, by simp [Mmu.setFd, Mmu.setHandle, Mmu.setCount], rfl⟩
      obtain ⟨hstatus, hcount, hcloses⟩ := hfailed
      rw [hzero] at hold
      simp only [hstatus, hcount, hcloses, reduceCtorEq, if_false] at hnew
      rw [← hold] at hnew
      cases hnew
    · rw [if_neg hzero, not_not] at hfail
      have heq : procMMUOpen s proc o =
          (.success, s.setCount proc.device (s.refCount proc.device + 1)) := by
        unfold procMMUOpen
        rw [if_pos hproc, if_pos hzero]
      simp only [heq, if_true] at hnew
      rw [perDevice_update hproc, if_pos rfl] at hnew
      simp only [Mmu.setCount, update_self, hfail] at hnew
      have hz : (0 : UInt32).toNat = 0 := rfl
      omega
  | mmuClose proc o =>
    cases hstep
    obtain ⟨hproc, hlt⟩ := hord
    have hpos := closes_lt_opens h hproc hlt
    have hopen := (h.counted.isOpen _).mpr hpos
    obtain ⟨hone, rfl⟩ : s.refCount proc.device = 1 ∧ o = .failed false := by
      simpa [Succeeds] using hfail
    have hlast : s.refCount proc.device - 1 = 0 := by
      rw [hone]
      rfl
    have hstill := hcounted.isOpen proc.device
    simp only [procMMUClose_last hproc hlast, closeDevice] at hstill
    have hno := hstill.mp hopen
    simp [Mmu.setCount, hlast] at hno

/-- Where every processor is closed after an open of it that succeeded, the books are right all
along exactly if every first open of a device succeeds, no count overflows and every last close
releases the descriptor. -/
theorem mmu_counted_iff (calls : List Call) (hord : Guarded step Orderly {} calls) :
    Throughout step Counted {} calls ↔ Guarded step Succeeds {} calls := by
  apply throughout_iff_guarded_under (J := MmuInv) (H := Orderly)
  · intro s h
    exact h.counted
  · intro s c s' h hord hsucc hstep
    have hinv : ∃ s', step s c = some s' ∧ MmuInv s' := by
      cases c with
      | mmuOpen proc o => exact open_inv h hord hsucc
      | mmuClose proc o => exact close_inv h hord hsucc
    obtain ⟨s'', hs'', hinv⟩ := hinv
    exact Option.some.inj (hs''.symm.trans hstep) ▸ hinv
  · intro s c h hord hfail
    obtain ⟨s', hs'⟩ : ∃ s', step s c = some s' := by
      cases c with
      | mmuOpen proc o => exact ⟨_, rfl⟩
      | mmuClose proc o => exact ⟨_, rfl⟩
    exact ⟨s', hs', step_not_counted h hord hfail hs'⟩
  · exact initial_mmuInv
  · exact hord

/-- AppM3 and SysM3 are opened and closed; the device is open in between. -/
theorem mmu_counted_twoCores : Throughout step Counted {}
    [.mmuOpen .appM3 ⟨some 7, true⟩, .mmuOpen .sysM3 ⟨none, false⟩,
      .mmuClose .appM3 (.failed false), .mmuClose .sysM3 .closed] := by
  refine (mmu_counted_iff _ ?_).mpr ?_
  · exact .cons rfl rfl (.cons rfl rfl (.cons ⟨rfl, by decide⟩ rfl
      (.cons ⟨rfl, by decide⟩ rfl trivial)))
  · refine .cons ⟨by decide, fun _ => rfl⟩ rfl (.cons ?_ rfl (.cons ?_ rfl (.cons ?_ rfl trivial)))
    · show (2 : UInt32) ≠ 0
      decide
    · intro hone
      exact absurd hone (by decide)
    · intro _
      decide

/-- `open` fails for Tesla. The next call returns success and the device is not open. -/
theorem mmu_not_counted :
    (∃ s, run step {} [.mmuOpen .tesla ⟨none, true⟩, .mmuOpen .tesla ⟨some 7, true⟩] = some s ∧
      s.refCount .dsp = 2 ∧ s.opens .tesla = 1 ∧ s.isOpen .dsp = false) ∧
    ¬ ∀ calls, Guarded step Orderly {} calls → Throughout step Counted {} calls := by
  refine ⟨⟨_, rfl, by decide, by decide, by decide⟩, ?_⟩
  intro hall
  have h := (hall [.mmuOpen .tesla ⟨none, true⟩] (.cons rfl rfl trivial)).2 _ rfl
  exact absurd (h.count .dsp) (by decide)

end Omap4Hal.Procmgr.ProcMMU

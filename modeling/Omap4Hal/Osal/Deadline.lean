import Mathlib.Tactic.Ring

/- The deadlines of the timed waits: `TIMM_OSAL_SemaphoreObtain` (`timm_osal_semaphores.c`) and
   `TIMM_OSAL_EventRetrieve` (`timm_osal_events.c`) both make an absolute time of milliseconds.

   The semaphores split the milliseconds before the microseconds of the current time are added, and
   nothing carries a full second (`semaphore_exact_iff`). The events add first, in 32 bits
   (`event_exact_iff`). `time_t`, `suseconds_t` and `long` have 32 bits and a sign; added to a
   `TIMM_OSAL_U32` they are converted to `unsigned long`. -/
namespace Omap4Hal.Osal.Deadline

structure Timeval where
  tvSec : BitVec 32
  tvUsec : BitVec 32
  deriving DecidableEq, Repr

structure Timespec where
  tvSec : BitVec 32
  tvNsec : BitVec 32
  deriving DecidableEq, Repr

/-- How a thread waits: without a limit, not at all, or until a time. -/
inductive Wait where
  | suspend
  | noSuspend
  | timed (absTimeout : Timespec)
  deriving DecidableEq, Repr

/-- `TIMM_OSAL_SUSPEND` -/
def suspend : BitVec 32 := 0xFFFFFFFF#32

/-- `TIMM_OSAL_NO_SUSPEND` -/
def noSuspend : BitVec 32 := 0#32

/-- The wait of `TIMM_OSAL_SemaphoreObtain`. -/
def semaphoreObtain (ltimeNow : Timeval) (uTimeOut : BitVec 32) : Wait :=
  if suspend = uTimeOut then .suspend
  else if noSuspend = uTimeOut then .noSuspend
  else .timed
    { tvSec := ltimeNow.tvSec + uTimeOut / 1000#32
      tvNsec := 1000#32 * (ltimeNow.tvUsec + uTimeOut % 1000#32 * 1000#32) }

/-- The wait of `TIMM_OSAL_EventRetrieve`, when the flags are not there yet. -/
def eventRetrieve (now : Timeval) (uTimeOutMsec : BitVec 32) : Wait :=
  if noSuspend = uTimeOutMsec then .noSuspend
  else if suspend = uTimeOutMsec then .suspend
  else
    let timeoutUs := now.tvUsec + 1000#32 * uTimeOutMsec
    .timed
      { tvSec := now.tvSec + timeoutUs / 1000000#32
        tvNsec := timeoutUs % 1000000#32 * 1000#32 }

/-! ## Times -/

/-- The microseconds of a time are less than a second. -/
def Timeval.Normal (now : Timeval) : Prop :=
  0 ≤ now.tvUsec.toInt ∧ now.tvUsec.toInt < 1000000

instance (now : Timeval) : Decidable now.Normal := inferInstanceAs (Decidable (_ ∧ _))

/-- A time in microseconds. -/
def Timeval.micros (now : Timeval) : Int := now.tvSec.toInt * 1000000 + now.tvUsec.toInt

/-- A time in nanoseconds. -/
def Timespec.nanos (a : Timespec) : Int := a.tvSec.toInt * 1000000000 + a.tvNsec.toInt

/-- The seconds of the deadline are below the limit of `time_t`. -/
def Room (now : Timeval) (milliseconds : BitVec 32) : Prop :=
  (now.micros + 1000 * milliseconds.toNat) / 1000000 < 2 ^ 31

instance (now : Timeval) (milliseconds : BitVec 32) : Decidable (Room now milliseconds) :=
  inferInstanceAs (Decidable (_ < _))

/-- The time is the current one plus the milliseconds. -/
structure Timespec.Exact (a : Timespec) (now : Timeval) (milliseconds : BitVec 32) : Prop where
  nonneg : 0 ≤ a.tvNsec.toInt
  lt_second : a.tvNsec.toInt < 1000000000
  nanos_eq : a.nanos = 1000 * now.micros + 1000000 * milliseconds.toNat

theorem Timespec.Exact.unique {a b : Timespec} {now : Timeval} {t : BitVec 32}
    (ha : a.Exact now t) (hb : b.Exact now t) : a = b := by
  have hnanos := ha.nanos_eq.trans hb.nanos_eq.symm
  have ha0 := ha.nonneg
  have ha1 := ha.lt_second
  have hb0 := hb.nonneg
  have hb1 := hb.lt_second
  unfold Timespec.nanos at hnanos
  have hsec : a.tvSec = b.tvSec := BitVec.eq_of_toInt_eq (by omega)
  have hnsec : a.tvNsec = b.tvNsec := BitVec.eq_of_toInt_eq (by omega)
  cases a
  cases b
  exact congrArg₂ Timespec.mk hsec hnsec

theorem Timeval.Normal.toInt_eq {now : Timeval} (h : now.Normal) :
    now.tvUsec.toInt = now.tvUsec.toNat := by
  have hcond := BitVec.toInt_eq_toNat_cond now.tvUsec
  have hlt := now.tvUsec.isLt
  have h0 := h.1
  split at hcond <;> omega

theorem toInt_eq_toNat {x : BitVec 32} (h : x.toNat < 2 ^ 31) : x.toInt = x.toNat :=
  BitVec.toInt_eq_toNat_of_lt (by omega)

theorem toInt_add_toNat {x y : BitVec 32} (h : x.toInt + y.toNat < 2 ^ 31) :
    (x + y).toInt = x.toInt + y.toNat := by
  have hx := x.isLt
  have hy := y.isLt
  have hxcond := BitVec.toInt_eq_toNat_cond x
  rw [BitVec.toInt_eq_toNat_cond, BitVec.toNat_add]
  split at hxcond <;> split <;> omega

/-! ## The waits -/

section Waits
variable {now : Timeval} {t : BitVec 32}

/-- The semaphores lose no time, but the nanoseconds can be a second or more. -/
theorem semaphore_exact_iff (hnow : now.Normal) (hroom : Room now t) {a : Timespec}
    (ha : a = ⟨now.tvSec + t / 1000#32, 1000#32 * (now.tvUsec + t % 1000#32 * 1000#32)⟩) :
    a.Exact now t ↔ now.tvUsec.toNat + t.toNat % 1000 * 1000 < 1000000 := by
  have husec := hnow.toInt_eq
  have hlt : now.tvUsec.toNat < 1000000 := by
    have h1 := hnow.2
    omega
  have ht := t.isLt
  have hnsecNat : a.tvNsec.toNat = 1000 * (now.tvUsec.toNat + t.toNat % 1000 * 1000) := by
    rw [ha]
    simp only [BitVec.toNat_mul, BitVec.toNat_add, BitVec.toNat_umod, BitVec.toNat_ofNat,
      Nat.reducePow, Nat.reduceMod]
    omega
  have hnsec : a.tvNsec.toInt = 1000 * (now.tvUsec.toNat + t.toNat % 1000 * 1000) := by
    rw [toInt_eq_toNat (by omega), hnsecNat]
    push_cast
    rfl
  have hsec : a.tvSec.toInt = now.tvSec.toInt + t.toNat / 1000 := by
    have hdiv : (t / 1000#32).toNat = t.toNat / 1000 := BitVec.toNat_udiv
    rw [ha]
    show (now.tvSec + t / 1000#32).toInt = _
    rw [toInt_add_toNat, hdiv]
    · push_cast
      rfl
    · unfold Room Timeval.micros at hroom
      rw [hdiv]
      omega
  constructor
  · intro h
    have hlt' := h.lt_second
    omega
  · intro h
    refine ⟨by omega, by omega, ?_⟩
    rw [Timespec.nanos, Timeval.micros, hsec, hnsec, husec]
    omega

theorem event_exact_iff (hnow : now.Normal) (hroom : Room now t) {a : Timespec}
    (ha : a = ⟨now.tvSec + (now.tvUsec + 1000#32 * t) / 1000000#32,
      (now.tvUsec + 1000#32 * t) % 1000000#32 * 1000#32⟩) :
    a.Exact now t ↔ now.tvUsec.toNat + 1000 * t.toNat < 2 ^ 32 := by
  have husec := hnow.toInt_eq
  have ht := t.isLt
  obtain ⟨us, hus⟩ : ∃ us, now.tvUsec + 1000#32 * t = us := ⟨_, rfl⟩
  have husNat : us.toNat = (now.tvUsec.toNat + 1000 * t.toNat) % 2 ^ 32 := by
    rw [← hus]
    simp only [BitVec.toNat_mul, BitVec.toNat_add, BitVec.toNat_ofNat]
    omega
  rw [hus] at ha
  have hnsecNat : a.tvNsec.toNat = us.toNat % 1000000 * 1000 := by
    rw [ha]
    simp only [BitVec.toNat_mul, BitVec.toNat_umod, BitVec.toNat_ofNat, Nat.reducePow,
      Nat.reduceMod]
    omega
  have hnsec : a.tvNsec.toInt = us.toNat % 1000000 * 1000 := by
    rw [toInt_eq_toNat (by omega), hnsecNat]
    push_cast
    rfl
  have hsec : a.tvSec.toInt = now.tvSec.toInt + us.toNat / 1000000 := by
    have hdiv : (us / 1000000#32).toNat = us.toNat / 1000000 := BitVec.toNat_udiv
    rw [ha]
    show (now.tvSec + us / 1000000#32).toInt = _
    rw [toInt_add_toNat, hdiv]
    · push_cast
      rfl
    · unfold Room Timeval.micros at hroom
      rw [hdiv]
      omega
  have hnanos : a.nanos = 1000 * (now.tvSec.toInt * 1000000 + us.toNat) := by
    rw [Timespec.nanos, hsec, hnsec]
    omega
  constructor
  · intro h
    have heq := hnanos.symm.trans h.nanos_eq
    unfold Timeval.micros at heq
    omega
  · intro h
    refine ⟨by omega, by omega, ?_⟩
    rw [hnanos, Timeval.micros, husec]
    omega

end Waits

/-! ## Both -/

/-- Both functions wait until the current time plus the milliseconds, hence until the same time. -/
def SameDeadline (now : Timeval) (milliseconds : BitVec 32) : Prop :=
  ∃ a b, semaphoreObtain now milliseconds = .timed a ∧ eventRetrieve now milliseconds = .timed b ∧
    a.Exact now milliseconds ∧ b.Exact now milliseconds ∧ a = b

/-- They do exactly if no second is carried and the microseconds have 32 bits. -/
theorem sameDeadline_iff (now : Timeval) (t : BitVec 32) (hnow : now.Normal) (hroom : Room now t)
    (hsuspend : t ≠ suspend) (hnoSuspend : t ≠ noSuspend) :
    SameDeadline now t ↔ now.tvUsec.toNat + t.toNat % 1000 * 1000 < 1000000 ∧
      now.tvUsec.toNat + 1000 * t.toNat < 2 ^ 32 := by
  unfold SameDeadline semaphoreObtain eventRetrieve
  rw [if_neg hsuspend.symm, if_neg hnoSuspend.symm, if_neg hnoSuspend.symm, if_neg hsuspend.symm]
  constructor
  · rintro ⟨a, b, ha, hb, hexactA, hexactB, -⟩
    cases ha
    cases hb
    exact ⟨(semaphore_exact_iff hnow hroom rfl).mp hexactA,
      (event_exact_iff hnow hroom rfl).mp hexactB⟩
  · rintro ⟨hcarry, hwide⟩
    have hexactA := (semaphore_exact_iff hnow hroom rfl).mpr hcarry
    have hexactB := (event_exact_iff hnow hroom rfl).mpr hwide
    exact ⟨_, _, rfl, rfl, hexactA, hexactB, hexactA.unique hexactB⟩

/-- A second and a half from the start of a second. -/
theorem sameDeadline_start : SameDeadline ⟨1300000000#32, 0#32⟩ 1500#32 :=
  (sameDeadline_iff _ _ (by decide) (by decide) (by decide) (by decide)).mpr (by decide)

/-- Half a second from the last half of one: 1.4 seconds in nanoseconds, which the wait refuses. -/
theorem carry_lost : ¬ SameDeadline ⟨1300000000#32, 900000#32⟩ 500#32 := by
  rintro ⟨a, b, ha, hb, hexact, -, -⟩
  cases ha
  exact absurd hexact.lt_second (by decide)

end Omap4Hal.Osal.Deadline

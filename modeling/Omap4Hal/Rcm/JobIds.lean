import Mathlib.Logic.Function.Iterate
import Omap4Hal.Rcm.ServerPlaces

/- What `_RcmServer_acqJobId` (rcm/RcmServer.c) gives its caller. The tracker goes through the ids
   in a circle that leaves out zero, so that from any value on 65535 steps visit each of them
   once; the search therefore finds an id whenever there is one (`acquire_complete`). -/
namespace Omap4Hal.Rcm.Server

open Function (update)

/-- The status codes of `_RcmServer_acqJobId`. -/
inductive AcqStatus where
  | success
  | fail
  | noMemory
  deriving DecidableEq

/-- What the function leaves behind; `none` where `jobIdPtr` is not written. -/
structure Acquired where
  sys : Sys
  status : AcqStatus
  jobIdPtr : Option UInt16

/-- `job` and `gate`: whether the job stream object and its mutex can be allocated. -/
def acquire (s : Sys) (job gate : Bool) : Acquired :=
  match newJobId s.inUse 0xFFFF s.jobId with
  | (tracker, none) => ⟨{ s with jobId := tracker }, .fail, some 0⟩
  | (tracker, some jobId) =>
    if job then
      if gate then
        ⟨{ s with
          jobId := tracker
          jobs := update s.jobs s.allocated { jobId := jobId, empty := true, msgQue := [] }
          allocated := s.allocated + 1
          jobList := s.jobList ++ [s.allocated] }, .success, some jobId⟩
      else ⟨{ s with jobId := tracker }, .fail, none⟩
    else ⟨{ s with jobId := tracker }, .noMemory, none⟩

/-! ## The circle of the ids -/

/-- The step of the tracker. -/
def nextId (tracker : UInt16) : UInt16 := if tracker = 0xFFFF then 1 else tracker + 1

theorem nextId_toNat (t : UInt16) : (nextId t).toNat = t.toNat % 65535 + 1 := by
  have hlt := t.toNat_lt
  rw [nextId]
  split
  next heq => rw [heq]; rfl
  next hne =>
    have hne' : t.toNat ≠ 65535 := fun heq => hne (UInt16.toNat_inj.mp heq)
    simp only [UInt16.toNat_add, UInt16.reduceToNat]
    omega

theorem iterate_nextId (t : UInt16) (k : Nat) :
    (nextId^[k + 1] t).toNat = (t.toNat + k) % 65535 + 1 := by
  induction k with
  | zero => exact nextId_toNat t
  | succ k ih =>
    rw [Function.iterate_succ_apply', nextId_toNat, ih]
    omega

theorem exists_iterate_nextId (t : UInt16) {id : UInt16} (hid : id ≠ 0) :
    ∃ k < 65535, nextId^[k + 1] t = id := by
  have hpos : id.toNat ≠ 0 := fun heq => hid (UInt16.toNat_inj.mp heq)
  have hlt := id.toNat_lt
  refine ⟨(id.toNat - 1 + (65535 - t.toNat % 65535)) % 65535, Nat.mod_lt _ (by decide), ?_⟩
  rw [← UInt16.toNat_inj, iterate_nextId]
  omega

theorem nextId_ne_zero (t : UInt16) : nextId t ≠ 0 := by
  intro hzero
  have hnat := nextId_toNat t
  rw [hzero] at hnat
  simp at hnat

/-! ## The search -/

section Search

variable {inUse : UInt16 → Bool} {count : Nat} {tracker : UInt16}

theorem newJobId_none_iff :
    (newJobId inUse count tracker).2 = none ↔
      ∀ k < count, inUse (nextId^[k + 1] tracker) = true := by
  induction count generalizing tracker with
  | zero => simp [newJobId]
  | succ count ih =>
    rw [newJobId]
    change (if inUse (nextId tracker) then newJobId inUse count (nextId tracker)
      else (nextId tracker, some (nextId tracker))).2 = none ↔ _
    rw [Nat.forall_lt_succ_left]
    cases hused : inUse (nextId tracker) with
    | false => simp [hused]
    | true => simp [hused, ih]

theorem newJobId_none_iff_all :
    (newJobId inUse 0xFFFF tracker).2 = none ↔ ∀ id, id ≠ 0 → inUse id = true := by
  rw [newJobId_none_iff]
  constructor
  · intro h id hid
    obtain ⟨k, hk, rfl⟩ := exists_iterate_nextId tracker hid
    exact h k hk
  · intro h k _
    apply h
    rw [Function.iterate_succ_apply']
    exact nextId_ne_zero _

end Search

/-! ## The list of the jobs -/

/-- The job stream objects in the order of the list. -/
def Sys.streams (s : Sys) : List JobStream := s.jobList.map s.jobs

def Sys.ids (s : Sys) : List UInt16 := s.streams.map JobStream.jobId

theorem inUse_iff {s : Sys} {id : UInt16} : s.inUse id = true ↔ id ∈ s.ids := by
  simp [Sys.inUse, Sys.ids, Sys.streams]

/-- The ids of the listed jobs are different, and none is zero. -/
structure Distinct (ids : List UInt16) : Prop where
  nodup : ids.Nodup
  nonzero : ∀ id ∈ ids, id ≠ 0

theorem Distinct.append {ids : List UInt16} {id : UInt16} (h : Distinct ids) (hid : id ≠ 0)
    (hnew : id ∉ ids) : Distinct (ids ++ [id]) := by
  refine ⟨List.nodup_append.mpr ⟨h.nodup, List.nodup_singleton id, ?_⟩, ?_⟩
  · intro x hx y hy
    rw [List.mem_singleton.mp hy]
    rintro rfl
    exact hnew hx
  · intro x hx
    rcases List.mem_append.mp hx with hx | hx
    · exact h.nonzero x hx
    · rw [List.mem_singleton.mp hx]
      exact hid

theorem streams_append {s s' : Sys} {j : JobStream} (hfresh : ∀ g ∈ s.jobList, g < s.allocated)
    (hjobs : s'.jobs = update s.jobs s.allocated j)
    (hlist : s'.jobList = s.jobList ++ [s.allocated]) : s'.streams = s.streams ++ [j] := by
  have hold : s.jobList.map s'.jobs = s.jobList.map s.jobs := by
    apply List.map_congr_left
    intro g hg
    rw [hjobs, Function.update_of_ne (Nat.ne_of_lt (hfresh g hg))]
  rw [Sys.streams, hlist, List.map_append, hold, List.map_singleton, hjobs, Function.update_self]
  rfl

/-- The outcome of an acquisition whose allocations succeed. -/
inductive Outcome (s : Sys) (r : Acquired) : Prop
  | acquired {id : UInt16} (hstatus : r.status = .success) (hptr : r.jobIdPtr = some id)
      (hid : id ≠ 0) (hfree : id ∉ s.ids)
      (hstreams : r.sys.streams = s.streams ++ [{ jobId := id, empty := true, msgQue := [] }])
  | exhausted (hstatus : r.status = .fail) (hptr : r.jobIdPtr = some 0)
      (hstreams : r.sys.streams = s.streams)

theorem acquire_outcome {s : Sys} (hfresh : ∀ g ∈ s.jobList, g < s.allocated) :
    Outcome s (acquire s true true) := by
  rw [acquire]
  split
  next tracker hnew => exact .exhausted rfl rfl rfl
  next tracker id hnew =>
    have hfree : id ∉ s.ids := by
      rw [← inUse_iff, newJobId_inUse hnew]
      exact Bool.false_ne_true
    exact .acquired rfl rfl (newJobId_nonzero hnew) hfree (streams_append hfresh rfl rfl)

theorem acquire_fail_iff (s : Sys) :
    (acquire s true true).status = .fail ↔ ∀ id, id ≠ 0 → id ∈ s.ids := by
  simp only [← inUse_iff]
  have hnone := @newJobId_none_iff_all s.inUse s.jobId
  rw [← hnone, acquire]
  split
  next tracker hnew => simp [hnew]
  next tracker id hnew => simp [hnew]

/-- The new job has an id of its own, and there is none only if all are in use. -/
theorem acquire_complete (s : Sys) (hfresh : ∀ g ∈ s.jobList, g < s.allocated)
    (hdistinct : Distinct s.ids) :
    Outcome s (acquire s true true) ∧ Distinct (acquire s true true).sys.ids ∧
      ((acquire s true true).status = .fail ↔ ∀ id, id ≠ 0 → id ∈ s.ids) := by
  have houtcome := acquire_outcome hfresh
  refine ⟨houtcome, ?_, acquire_fail_iff s⟩
  rw [Sys.ids]
  cases houtcome with
  | acquired _ _ hid hfree hstreams =>
    rw [hstreams, List.map_append]
    exact hdistinct.append hid hfree
  | exhausted _ _ hstreams =>
    rw [hstreams]
    exact hdistinct

/-- The tracker is at the last id, and jobs with the ids 1 and 3 are there. -/
theorem acquire_complete_wrap :
    let s : Sys :=
      { jobs := fun g => { jobId := if g = 0 then 1 else 3 }, allocated := 2, jobList := [0, 1] }
    Outcome s (acquire s true true) ∧ Distinct (acquire s true true).sys.ids ∧
      ((acquire s true true).status = .fail ↔ ∀ id, id ≠ 0 → id ∈ s.ids) :=
  acquire_complete _ (by decide) ⟨by decide, by simp [Sys.ids, Sys.streams]⟩

end Omap4Hal.Rcm.Server

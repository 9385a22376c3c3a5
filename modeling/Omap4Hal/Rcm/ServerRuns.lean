import Omap4Hal.Rcm.ServerStreams

/- Runs of an RcmServer. `jobStreams_sequential`: in every run whose steps meet `Meets` the
   streams of the jobs are sequential and lossless.

   Without the condition two messages of one job can be on the way at once. In `reuseRun` a
   job is released while a worker executes a message of it, and its id comes round again
   after 65534 other jobs: the worker then takes the new job for the one of its message. In
   `inBandRun` the server thread executes a message of the job itself, while an earlier one is
   on a ready queue. -/
namespace Omap4Hal.Rcm.Server

open Lib
open Function (update)
open Sys

/-! ## Every run -/

structure Inv (c : Pools) (s : Sys) : Prop where
  table : JobTable c s
  flow : Flow s
  turns : Turns s
  lone : Lone s
  order : ∀ g, s.InOrder g

theorem inv_init (c : Pools) : Inv c {} := by
  have hnobody : ∀ p l, ¬ ({} : Sys).HeldAt p l := by
    intro p l
    cases l <;> simp [Sys.HeldAt, Pc.holds]
  refine ⟨table_init c, flow_init, ?_, ?_, ?_⟩
  · refine ⟨?_, ?_, ?_, ?_, ?_⟩
    · exact fun _ p _ l _ hp => absurd hp (hnobody p l)
    · intro g hg
      cases hg
    · intro g hg
      cases hg
    · intro g hg
      obtain ⟨p, l, hp, _⟩ := hg
      exact absurd hp (hnobody p l)
    · exact fun p l hp => absurd hp (hnobody p l)
  · intro p g hp
    cases hp
  · intro g
    refine ⟨List.Sublist.refl _, ?_⟩
    intro k p hp
    cases hp

variable {c : Pools} {s : Sys} {p p' : Packet} {g k : Nat}

theorem step_inv {s' : Sys} {a : Act} (hs : Inv c s) (hmeets : Meets c s a)
    (h : step c s a = some s') : Inv c s' := by
  have hmoves := step_moves hs.table.pooled h
  exact ⟨moves_table hs.table hmoves, moves_flow hs.flow hs.table hmoves,
    moves_turns hs.turns hs.flow hs.table hmeets hmoves, moves_lone hs.lone hs.table hmeets hmoves,
    moves_order hs.order hs.turns hs.flow hs.table hmeets hmoves⟩

theorem at_work_cases {l : Place} (h : s.At p l) (hl : l.atWork = true) :
    (∃ l', s.HeldAt p l' ∧ ∀ g, s.Idle g → p.stream ≠ some g) ∨
      (s.pc .server).running = some p := by
  cases l with
  | ready k => exact .inl ⟨.ready k, h, fun g hg => hg.ready k p h⟩
  | exec t =>
    cases t with
    | server => exact .inr h
    | worker k i =>
      refine .inl ⟨.worker k i, ?_, fun g hg => hg.running k i p h⟩
      rw [Sys.At] at h
      rw [Sys.HeldAt]
      cases hpc : s.pc (.worker k i) with
      | exec q =>
        rw [hpc] at h
        exact h
      | reply q status =>
        rw [hpc] at h
        exact h
      | _ =>
        rw [hpc] at h
        cases h
  | _ => cases hl

theorem Inv.single (h : Inv c s) (g : Nat) (p p' : Packet) (l l' : Place) (hp : p.stream = some g)
    (hp' : p'.stream = some g) (hat : s.At p l) (hat' : s.At p' l') (hl : l.atWork = true)
    (hl' : l'.atWork = true) : p = p' := by
  rcases at_work_cases hat hl with ⟨r, hr, hidle⟩ | hrun
  · rcases at_work_cases hat' hl' with ⟨r', hr', _⟩ | hrun'
    · exact (h.turns.single g p p' r r' hr hr' hp hp').1
    · exact absurd hp (hidle g (h.lone p' g hrun' hp'))
  · rcases at_work_cases hat' hl' with ⟨r', _, hidle'⟩ | hrun'
    · exact absurd hp' (hidle' g (h.lone p g hrun hp))
    · rw [hrun] at hrun'
      exact Option.some.inj hrun'

theorem filter_eq_singleton {α : Type} {l : List α} {a : α} {f : α → Bool} (h : l.Nodup)
    (ha : a ∈ l) (hf : f a = true) (honly : ∀ b ∈ l, f b = true → b = a) : l.filter f = [a] := by
  have hmem : ∀ b, b ∈ l.filter f ↔ b = a := by
    intro b
    rw [List.mem_filter]
    refine ⟨fun hb => honly b hb.1 hb.2, ?_⟩
    rintro rfl
    exact ⟨ha, hf⟩
  have hperm : (l.filter f).Perm [a] :=
    (List.perm_ext_iff_of_nodup (h.filter f) (List.nodup_singleton a)).mpr (by simpa using hmem)
  exact List.perm_singleton.mp hperm

theorem Flow.dropped_once (h : Flow s) (p : Packet) (hp : p ∈ s.dropped) :
    s.ended.filter (fun x => x.1 = p) = [(p, .refused .unprocessed)] ∧ p ∉ s.began := by
  have hat := h.dropped p hp
  refine ⟨?_, ?_⟩
  · apply filter_eq_singleton h.ended hat (by simp)
    intro x hx hxp
    obtain ⟨q, e⟩ := x
    rw [decide_eq_true_iff] at hxp
    have hsame := h.one p (.ended e) _ (hxp ▸ hx) hat
    rw [Place.ended.injEq] at hsame
    rw [hsame, ← hxp]
  · intro hbegan
    obtain ⟨l, hl, hpl⟩ := (h.began p).mp hbegan
    rw [h.one p l _ hpl hat] at hl
    cases hl

/-- In every run whose steps meet the condition, the streams of the jobs are sequential and
lossless. -/
theorem jobStreams_sequential {c : Pools} {calls : List Act} {s : Sys}
    (hmeets : Guarded (step c) (Meets c) {} calls) (h : run (step c) {} calls = some s) :
    Sequential s := by
  have hs : Inv c s := hmeets.run_induct (fun _ _ _ => step_inv) (inv_init c) h
  refine ⟨?_, hs.flow.arrivals, hs.flow.ready, hs.single, ?_, hs.flow.dropped_once⟩
  · intro p hp
    obtain ⟨l, hl⟩ := (hs.flow.somewhere p).mp hp
    exact ⟨l, hl, fun l' hl' => hs.flow.one p l' l hl' hl⟩
  · intro g
    exact (List.sublist_append_left _ _).trans (hs.order g).waiting

/-! ## Runs with one worker -/

/-- One worker; the default pool has none. -/
def oneWorker : Pools := ⟨0, [1]⟩

/-- A message that the server thread executes, from its arrival to its end. -/
def request (d : Desc) : List Act :=
  [.arrive ⟨0x8000, 0, d⟩, .thread .server {}, .thread .server {}, .thread .server {}]

/-- The next `n` jobs after the first, each acquired and released. -/
def otherJobs : Nat → List Act
  | 0 => []
  | n + 1 => otherJobs n ++ (request .jobAcq ++ request (.jobRel (UInt16.ofNat (n + 2))))

/-- A message of job 1 for the worker, as the server takes it. -/
def jobMessage : List Act := [.arrive ⟨0x8001, 1, .rcmMsg⟩, .thread .server {}]

/-- The next three steps of the worker. -/
def workerSteps : List Act :=
  [.thread (.worker 1 0) {}, .thread (.worker 1 0) {}, .thread (.worker 1 0) {}]

/-- Job 1 is acquired, and the worker begins to execute a message of it. -/
def beginJob : List Act :=
  request .jobAcq ++ jobMessage ++ [.thread (.worker 1 0) {}, .thread (.worker 1 0) {}]

def reuseRun : List Act :=
  beginJob ++ (request (.jobRel 1) ++ (otherJobs 65534 ++ (request .jobAcq ++
    (jobMessage ++ (jobMessage ++ workerSteps)))))

def inBandRun : List Act :=
  request .jobAcq ++ jobMessage ++ [.arrive ⟨0x8000, 1, .rcmMsg⟩, .thread .server {}]

section Request

variable {s : Sys} {d : Desc} {g : Nat}

/-- The server thread has taken a request. -/
def inRequest (s : Sys) (d : Desc) : Sys :=
  ({ s with serverQue := [⟨0x8000, 0, d⟩] }.take ⟨0x8000, 0, d⟩ []).begin .server
    (s.packet ⟨0x8000, 0, d⟩)

/-- The state after a request. -/
def answered (s : Sys) (d : Desc) : Sys :=
  let p := s.packet ⟨0x8000, 0, d⟩
  let r := process (inRequest s d) p {}
  ((r.1.goto .server (.reply p r.2)).finish p (.executed r.2)).goto .server .wait

theorem request_run (hpc : s.pc .server = .wait) (hque : s.serverQue = []) :
    run (step oneWorker) s (request d) = some (answered s d) := by
  have h₁ : step oneWorker s (.arrive ⟨0x8000, 0, d⟩) =
      some { s with serverQue := [⟨0x8000, 0, d⟩] } := by
    rw [step, hque]
    rfl
  have h₂ : step oneWorker { s with serverQue := [⟨0x8000, 0, d⟩] } (.thread .server {}) =
      some (inRequest s d) := by
    simp only [step, advance, hpc, serverGet]
    rfl
  rw [request, run_cons h₁, run_cons h₂]
  rfl

variable {jobId : UInt16}

theorem newJobId_free {inUse : UInt16 → Bool} {count : Nat} {tracker : UInt16}
    (hnext : (if tracker = 0xFFFF then 1 else tracker + 1) = jobId) (hfree : inUse jobId = false) :
    newJobId inUse (count + 1) tracker = (jobId, some jobId) := by
  simp only [newJobId, hnext, hfree]
  rfl

/-- What a request leaves alone. -/
structure SameWorker (s s' : Sys) : Prop where
  que : s'.serverQue = []
  server : s'.pc .server = .wait
  worker : s'.pc (.worker 1 0) = s.pc (.worker 1 0)
  ready : s'.readyQueue = s.readyQueue

theorem acqJobId_success {tracker : UInt16}
    (hnew : newJobId s.inUse 0xFFFF s.jobId = (tracker, some jobId)) :
    acqJobId s true = ({ s with
      jobId := tracker
      jobs := update s.jobs s.allocated { jobId := jobId, empty := true, msgQue := [] }
      allocated := s.allocated + 1
      jobList := s.jobList ++ [s.allocated] }, .success) := by
  rw [acqJobId, hnew]
  rfl

theorem relJobId_success (hfind : s.findJob jobId = some g) :
    relJobId s jobId = (s.drop g, .success) := by
  rw [relJobId, hfind]

theorem answered_same {s' : Sys} {status : Option Status}
    (h : process (inRequest s d) (s.packet ⟨0x8000, 0, d⟩) {} = (s', status))
    (hque : s'.serverQue = []) (hworker : s'.pc (.worker 1 0) = s.pc (.worker 1 0))
    (hready : s'.readyQueue = s.readyQueue) :
    SameWorker s (answered s d) ∧ (answered s d).jobId = s'.jobId ∧
      (answered s d).jobList = s'.jobList ∧ (answered s d).jobs = s'.jobs := by
  rw [answered, h]
  refine ⟨⟨hque, ?_, ?_, hready⟩, rfl, rfl, rfl⟩
  · simp [goto]
  · simp [goto, finish, hworker]

theorem answered_acquire (hlist : s.jobList = [])
    (hnext : (if s.jobId = 0xFFFF then 1 else s.jobId + 1) = jobId) :
    SameWorker s (answered s .jobAcq) ∧ (answered s .jobAcq).jobId = jobId ∧
      (answered s .jobAcq).jobList = [s.allocated] ∧
      (answered s .jobAcq).jobs s.allocated = { jobId := jobId, empty := true, msgQue := [] } := by
  have hnew : newJobId (inRequest s .jobAcq).inUse 0xFFFF (inRequest s .jobAcq).jobId =
      (jobId, some jobId) := by
    apply newJobId_free hnext
    simp [inRequest, Sys.inUse, begin, goto, take, hlist]
  have hproc : process (inRequest s .jobAcq) (s.packet ⟨0x8000, 0, .jobAcq⟩) {} =
      ((acqJobId (inRequest s .jobAcq) true).1, some (acqJobId (inRequest s .jobAcq) true).2) := rfl
  rw [acqJobId_success hnew] at hproc
  obtain ⟨hsame, hid, hjobs, hall⟩ := answered_same hproc rfl rfl rfl
  refine ⟨hsame, hid, ?_, ?_⟩
  · rw [hjobs]
    simp [inRequest, begin, goto, take, hlist]
  · rw [hall]
    exact Function.update_self _ _ _

theorem answered_release (hlist : s.jobList = [g]) (hid : (s.jobs g).jobId = jobId) :
    SameWorker s (answered s (.jobRel jobId)) ∧ (answered s (.jobRel jobId)).jobId = s.jobId ∧
      (answered s (.jobRel jobId)).jobList = [] := by
  have hfind : (inRequest s (.jobRel jobId)).findJob jobId = some g := by
    simp [inRequest, findJob, begin, goto, take, hlist, hid]
  have hproc : process (inRequest s (.jobRel jobId)) (s.packet ⟨0x8000, 0, .jobRel jobId⟩) {} =
      ((relJobId (inRequest s (.jobRel jobId)) jobId).1,
        some (relJobId (inRequest s (.jobRel jobId)) jobId).2) := rfl
  rw [relJobId_success hfind] at hproc
  obtain ⟨hsame, htracker, hjobs, _⟩ := answered_same hproc rfl rfl rfl
  refine ⟨hsame, htracker, ?_⟩
  rw [hjobs]
  simp [inRequest, begin, goto, take, drop, hlist]

end Request

/-- Job 1 is released while a second message of it waits. -/
def releaseRun : List Act :=
  request .jobAcq ++ jobMessage ++ jobMessage ++ request (.jobRel 1)

/-- No message of a job is executed by the server thread, and no job is acquired while a message
is on a ready queue or with a worker. -/
theorem meets_of {t : Tid} {e : Env} (hque : ∀ m ∈ s.serverQue, m.jobId = 0 ∨ ¬ c.InBand m)
    (hexec : ∀ p, s.pc t = .exec p → p.desc = .jobAcq → ∀ q l, ¬ s.HeldAt q l) :
    Meets c s (.thread t e) := by
  refine ⟨?_, ?_⟩
  · intro _ _ m rest hm hin g hg
    rcases hque m (by simp [hm]) with hzero | hnot
    · rw [packet, if_pos hzero] at hg
      cases hg
    · exact absurd hin hnot
  · intro p hpc hdesc _ _ q l hq
    exact absurd hq (hexec p hpc hdesc q l)

theorem releaseRun_meets : Guarded (step oneWorker) (Meets oneWorker) {} releaseRun := by
  -- the step of the run that acquires the job, with nothing on the way
  have hnobody : ∀ q l, ¬ (inRequest {} .jobAcq).HeldAt q l := by
    intro q l hq
    cases l with
    | ready k => cases hq
    | worker k i => cases hq
  refine .cons trivial rfl (.cons (meets_of (by decide) ?_) rfl (.cons (meets_of (by decide) ?_) rfl
    (.cons (meets_of (by decide) ?_) rfl ?_)))
  · intro p hp
    cases hp
  · exact fun _ _ _ => hnobody
  · intro p hp
    cases hp
  refine .cons trivial rfl (.cons (meets_of (by decide) ?_) rfl
    (.cons trivial rfl (.cons (meets_of (by decide) ?_) rfl ?_)))
  · intro p hp
    cases hp
  · intro p hp
    cases hp
  refine .cons trivial rfl (.cons (meets_of (by decide) ?_) rfl (.cons (meets_of (by decide) ?_) rfl
    (.cons (meets_of (by decide) ?_) rfl trivial)))
  · intro p hp
    cases hp
  · intro p hp hdesc
    cases hp
    cases hdesc
  · intro p hp
    cases hp

theorem jobStreams_sequential_released :
    ∃ s, run (step oneWorker) {} releaseRun = some s ∧ Sequential s ∧ s.dropped ≠ [] ∧
      s.readyQueue 1 ≠ [] := by
  refine ⟨_, rfl, jobStreams_sequential releaseRun_meets rfl, ?_, ?_⟩
  · decide
  · decide

/-! ## A job id comes round again -/

/-- The worker executes a message of job 1, which has been released, as all others so far. -/
structure Released (s : Sys) (tracker : UInt16) : Prop where
  tracker : s.jobId = tracker
  list : s.jobList = []
  que : s.serverQue = []
  server : s.pc .server = .wait
  worker : ∃ p, s.pc (.worker 1 0) = .exec p ∧ p.jobId = 1 ∧ p.desc = .rcmMsg
  ready : s.readyQueue 1 = []

theorem released_next {tracker jobId : UInt16} (h : Released s tracker)
    (hnext : (if tracker = 0xFFFF then 1 else tracker + 1) = jobId) :
    ∃ s', run (step oneWorker) s (request .jobAcq ++ request (.jobRel jobId)) = some s' ∧
      Released s' jobId := by
  obtain ⟨hsame, hid, hlist, hjob⟩ := answered_acquire h.list (h.tracker ▸ hnext)
  have hself : ((answered s .jobAcq).jobs s.allocated).jobId = jobId := by rw [hjob]
  obtain ⟨hsame', hid', hlist'⟩ := answered_release hlist hself
  refine ⟨answered (answered s .jobAcq) (.jobRel jobId), ?_, ?_⟩
  · rw [run_append (request_run h.server h.que), request_run hsame.server hsame.que]
  · refine ⟨hid'.trans hid, hlist', hsame'.que, hsame'.server, ?_, ?_⟩
    · rw [hsame'.worker, hsame.worker]
      exact h.worker
    · rw [hsame'.ready, hsame.ready]
      exact h.ready

theorem released_otherJobs (h : Released s 1) {n : Nat} (hn : n ≤ 65534) :
    ∃ s', run (step oneWorker) s (otherJobs n) = some s' ∧ Released s' (UInt16.ofNat (n + 1)) := by
  induction n with
  | zero => exact ⟨s, rfl, h⟩
  | succ n ih =>
    obtain ⟨s₁, hrun, hs₁⟩ := ih (by omega)
    have hnext : (if UInt16.ofNat (n + 1) = 0xFFFF then 1 else UInt16.ofNat (n + 1) + 1) =
        UInt16.ofNat (n + 2) := by
      rw [if_neg, ← UInt16.ofNat_one, ← UInt16.ofNat_add]
      intro heq
      have hnat := congrArg UInt16.toNat heq
      simp at hnat
      omega
    obtain ⟨s₂, hrun₂, hs₂⟩ := released_next hs₁ hnext
    exact ⟨s₂, by rw [otherJobs, run_append hrun, hrun₂], hs₂⟩

theorem released_first : ∃ s, run (step oneWorker) {} (beginJob ++ request (.jobRel 1)) = some s ∧
    Released s 1 :=
  ⟨_, rfl, rfl, rfl, rfl, rfl, ⟨_, rfl, rfl, rfl⟩, rfl⟩

theorem jobMessage_run {s' : Sys} (hpc : s.pc .server = .wait) (hque : s.serverQue = [])
    (h : dispatch oneWorker (s.take ⟨0x8001, 1, .rcmMsg⟩ []) (s.packet ⟨0x8001, 1, .rcmMsg⟩) =
      .ok s') :
    run (step oneWorker) s jobMessage = some s' := by
  have hin : ¬ oneWorker.InBand ⟨0x8001, 1, .rcmMsg⟩ := by decide
  have h₁ : step oneWorker s (.arrive ⟨0x8001, 1, .rcmMsg⟩) =
      some { s with serverQue := [⟨0x8001, 1, .rcmMsg⟩] } := by
    rw [step, hque]
    rfl
  have hdispatch : dispatch oneWorker
      ({ s with serverQue := [⟨0x8001, 1, .rcmMsg⟩] }.take ⟨0x8001, 1, .rcmMsg⟩ [])
      ({ s with serverQue := [⟨0x8001, 1, .rcmMsg⟩] }.packet ⟨0x8001, 1, .rcmMsg⟩) = .ok s' := h
  have h₂ : step oneWorker { s with serverQue := [⟨0x8001, 1, .rcmMsg⟩] } (.thread .server {}) =
      some s' := by
    simp only [step, advance, hpc, serverGet]
    rw [if_neg hin, hdispatch]
  rw [jobMessage, run_cons h₁, run_cons h₂, run_nil]

theorem dispatch_first (hpool : getPool c p.poolId = .ok k) (hjob : p.jobId ≠ 0)
    (hfind : s.findJob p.jobId = some g) (hempty : (s.jobs g).empty = true) :
    dispatch c s p = .ok ((s.setJob g { s.jobs g with empty := false }).put k p) := by
  simp only [dispatch, hpool, if_neg hjob, hfind, if_pos hempty]

theorem dispatch_queued (hpool : getPool c p.poolId = .ok k) (hjob : p.jobId ≠ 0)
    (hfind : s.findJob p.jobId = some g) (hempty : ¬ (s.jobs g).empty = true) :
    dispatch c s p =
      .ok (s.setJob g { s.jobs g with msgQue := (s.jobs g).msgQue ++ [p] }) := by
  simp only [dispatch, hpool, if_neg hjob, hfind, if_neg hempty]

theorem workerNext_hand {t : Tid} {rest : List Packet} (hfind : s.findJob p.jobId = some g)
    (hque : (s.jobs g).msgQue = p' :: rest) (hpool : getPool c p'.poolId = .ok k) :
    (workerNext c s t p).readyQueue = update s.readyQueue k (s.readyQueue k ++ [p']) := by
  have hnext : nextMessage c (s.jobs g).msgQue = ([], some (p', k, rest)) := by
    rw [hque, nextMessage, hpool]
  rw [workerNext, hfind]
  simp only [hnext]
  rfl

/-- The worker ends the execution of its message, and takes the next one from the job that has
its id. -/
theorem workerSteps_run {rest : List Packet} (hpc : s.pc (.worker 1 0) = .exec p)
    (hdesc : p.desc = .rcmMsg) (hjob : p.jobId ≠ 0) (hfind : s.findJob p.jobId = some g)
    (hque : (s.jobs g).msgQue = p' :: rest) (hpool : getPool oneWorker p'.poolId = .ok k) :
    ∃ s', run (step oneWorker) s workerSteps = some s' ∧
      s'.readyQueue = update s.readyQueue k (s.readyQueue k ++ [p']) := by
  have h₁ : step oneWorker s (.thread (.worker 1 0) {}) =
      some (s.goto (.worker 1 0) (.reply p none)) := by
    simp only [step, advance, hpc, process, hdesc]
  have h₂ : step oneWorker (s.goto (.worker 1 0) (.reply p none)) (.thread (.worker 1 0) {}) =
      some (((s.goto (.worker 1 0) (.reply p none)).finish p (.executed none)).goto (.worker 1 0)
        (.next p)) := by
    simp [step, advance, goto, hjob]
  have h₃ : step oneWorker (((s.goto (.worker 1 0) (.reply p none)).finish p
      (.executed none)).goto (.worker 1 0) (.next p)) (.thread (.worker 1 0) {}) =
      some (workerNext oneWorker (((s.goto (.worker 1 0) (.reply p none)).finish p
        (.executed none)).goto (.worker 1 0) (.next p)) (.worker 1 0) p) := by
    simp [step, advance, goto]
  have hhand := workerNext_hand (c := oneWorker) (t := .worker 1 0)
    (s := ((s.goto (.worker 1 0) (.reply p none)).finish p (.executed none)).goto (.worker 1 0)
      (.next p)) hfind hque hpool
  refine ⟨_, ?_, hhand⟩
  rw [workerSteps, run_cons h₁, run_cons h₂, run_cons h₃, run_nil]

theorem second_turn (hpc : s.pc .server = .wait) (hque : s.serverQue = []) (hlist : s.jobList = [g])
    (hjob : s.jobs g = { jobId := 1, empty := true, msgQue := [] }) (hready : s.readyQueue 1 = [])
    (hworker : ∃ p, s.pc (.worker 1 0) = .exec p ∧ p.jobId = 1 ∧ p.desc = .rcmMsg) :
    ∃ s' p p', run (step oneWorker) s (jobMessage ++ (jobMessage ++ workerSteps)) = some s' ∧
      s'.readyQueue 1 = [p, p'] ∧ p.stream = some g ∧ p'.stream = some g ∧ p ≠ p' := by
  obtain ⟨p₀, hexec, hid, hdesc⟩ := hworker
  have hone : (1 : UInt16) ≠ 0 := by decide
  have hpool : getPool oneWorker 0x8001 = .ok 1 := rfl
  -- the first message finds the job empty and goes to the ready queue
  have hfind : s.findJob 1 = some g := by simp [findJob, hlist, hjob]
  have hrun := jobMessage_run hpc hque
    (dispatch_first (c := oneWorker) hpool hone hfind (congrArg JobStream.empty hjob))
  obtain ⟨s₁, hs₁⟩ : ∃ s₁, s₁ = ((s.take ⟨0x8001, 1, .rcmMsg⟩ []).setJob g
    { (s.take ⟨0x8001, 1, .rcmMsg⟩ []).jobs g with empty := false }).put 1
      (s.packet ⟨0x8001, 1, .rcmMsg⟩) := ⟨_, rfl⟩
  rw [← hs₁] at hrun
  have hjob₁ : s₁.jobs g = { jobId := 1, empty := false, msgQue := [] } := by
    simp [hs₁, put, setJob, take, hjob]
  have hfind₁ : s₁.findJob 1 = some g := by
    simp [hs₁, findJob, put, setJob, take, hlist, hjob]
  -- the second one waits for its turn
  have hrun₁ := jobMessage_run (s := s₁) (hs₁ ▸ hpc) (hs₁ ▸ rfl)
    (dispatch_queued (c := oneWorker) hpool hone hfind₁ (by simp [take, hjob₁]))
  obtain ⟨s₂, hs₂⟩ : ∃ s₂, s₂ = (s₁.take ⟨0x8001, 1, .rcmMsg⟩ []).setJob g
    { (s₁.take ⟨0x8001, 1, .rcmMsg⟩ []).jobs g with
      msgQue := ((s₁.take ⟨0x8001, 1, .rcmMsg⟩ []).jobs g).msgQue ++
        [s₁.packet ⟨0x8001, 1, .rcmMsg⟩] } := ⟨_, rfl⟩
  rw [← hs₂] at hrun₁
  have hque₂ : (s₂.jobs g).msgQue = [s₁.packet ⟨0x8001, 1, .rcmMsg⟩] := by
    simp [hs₂, setJob, take, hjob₁]
  have hfind₂ : s₂.findJob p₀.jobId = some g := by
    simp [hs₂, hs₁, findJob, put, setJob, take, hlist, hjob, hid]
  have hexec₂ : s₂.pc (.worker 1 0) = .exec p₀ := by
    rw [hs₂, hs₁]
    exact hexec
  obtain ⟨s₃, hrun₂, hready₃⟩ := workerSteps_run hexec₂ hdesc (hid ▸ hone) hfind₂ hque₂ hpool
  refine ⟨s₃, s.packet ⟨0x8001, 1, .rcmMsg⟩, s₁.packet ⟨0x8001, 1, .rcmMsg⟩, ?_, ?_,
    packet_stream hone hfind, packet_stream hone hfind₁, ?_⟩
  · rw [run_append hrun, run_append hrun₁, hrun₂]
  · rw [hready₃, hs₂, hs₁]
    simp [setJob, take, put, hready]
  · intro heq
    have htag := congrArg Packet.tag heq
    rw [hs₁] at htag
    simp [packet, put, setJob, take] at htag

theorem not_sequential_of_ready (hready : s.readyQueue k = [p, p']) (hp : p.stream = some g)
    (hp' : p'.stream = some g) (hne : p ≠ p') : ¬ Sequential s := by
  intro h
  have hat : s.At p (.ready k) := by simp [Sys.At, hready]
  have hat' : s.At p' (.ready k) := by simp [Sys.At, hready]
  exact hne (h.single g p p' _ _ hp hp' hat hat' rfl rfl)

theorem reuseRun_not_sequential :
    ∃ s, run (step oneWorker) {} reuseRun = some s ∧ ¬ Sequential s := by
  obtain ⟨s₀, hrun₀, hs₀⟩ := released_first
  obtain ⟨s₁, hrun₁, hs₁⟩ := released_otherJobs hs₀ (Nat.le_refl 65534)
  have hnext : (if s₁.jobId = 0xFFFF then 1 else s₁.jobId + 1) = 1 := by
    rw [hs₁.tracker]
    rfl
  obtain ⟨hsame, _, hlist, hjob⟩ := answered_acquire hs₁.list hnext
  obtain ⟨s₂, p, p', hrun₂, hready, hp, hp', hne⟩ := second_turn hsame.server hsame.que hlist hjob
    (by rw [hsame.ready, hs₁.ready]) (by rw [hsame.worker]; exact hs₁.worker)
  refine ⟨s₂, ?_, not_sequential_of_ready hready hp hp' hne⟩
  rw [reuseRun, ← List.append_assoc, run_append hrun₀, run_append hrun₁,
    run_append (request_run hs₁.server hs₁.que), hrun₂]

/-- The message that the server thread executes has overtaken the one on the ready queue. -/
theorem inBandRun_not_sequential :
    ∃ s, run (step oneWorker) {} inBandRun = some s ∧ ¬ Sequential s := by
  refine ⟨_, rfl, ?_⟩
  intro h
  have hsame := h.single 0 ⟨⟨0x8001, 1, .rcmMsg⟩, 1, some 0⟩ ⟨⟨0x8000, 1, .rcmMsg⟩, 2, some 0⟩
    (.ready 1) (.exec .server) rfl rfl (List.mem_singleton_self _) rfl rfl rfl
  cases hsame

/-- Neither run keeps the messages of a job apart. -/
theorem jobStreams_overtaken :
    (∃ s, run (step oneWorker) {} reuseRun = some s ∧ ¬ Sequential s) ∧
      ∃ s, run (step oneWorker) {} inBandRun = some s ∧ ¬ Sequential s :=
  ⟨reuseRun_not_sequential, inBandRun_not_sequential⟩

end Omap4Hal.Rcm.Server

import Omap4Hal.Lib.Places
import Omap4Hal.Rcm.Server

/- Where the messages of an RcmServer are after every step of its threads. `Moves` lists
   what a step can do. Every message the server has taken is in one place (`Flow`): in the
   queue of its job, on a ready queue, with the thread that executes it, or done with. This
   holds whatever the clients do. -/
namespace Omap4Hal.Rcm.Server

open Lib
open Function (update update_self update_of_ne)
open Sys
open List (mem_append mem_cons mem_singleton nodup_cons nodup_nil)

/-! ## What a step can do -/

/-- The steps of the threads, one constructor for each place and outcome. -/
inductive Moves (c : Pools) (s : Sys) : Act → Sys → Prop
  | arrive (m : Message) : Moves c s (.arrive m) { s with serverQue := s.serverQue ++ [m] }
  | inBand {e : Env} {m : Message} {rest : List Message} (hpc : s.pc .server = .wait)
      (hque : s.serverQue = m :: rest) (hin : c.InBand m) :
      Moves c s (.thread .server e) ((s.take m rest).begin .server (s.packet m))
  | refuse {e : Env} {m : Message} {rest : List Message} (hpc : s.pc .server = .wait)
      (status : Status) :
      Moves c s (.thread .server e) ((s.take m rest).finish (s.packet m) (.refused status))
  | discrete {e : Env} {m : Message} {rest : List Message} {k : Nat} (hpc : s.pc .server = .wait)
      (hjob : m.jobId = 0) : Moves c s (.thread .server e) ((s.take m rest).put k (s.packet m))
  | first {e : Env} {m : Message} {rest : List Message} {k g : Nat} (hpc : s.pc .server = .wait)
      (hjob : m.jobId ≠ 0) (hfind : s.findJob m.jobId = some g)
      (hempty : (s.jobs g).empty = true) :
      Moves c s (.thread .server e)
        (((s.take m rest).setJob g { s.jobs g with empty := false }).put k (s.packet m))
  | queued {e : Env} {m : Message} {rest : List Message} {k g : Nat} (hpc : s.pc .server = .wait)
      (hjob : m.jobId ≠ 0) (hpool : getPool c m.poolId = .ok k)
      (hfind : s.findJob m.jobId = some g) (hempty : (s.jobs g).empty = false) :
      Moves c s (.thread .server e) ((s.take m rest).setJob g
        { s.jobs g with msgQue := (s.jobs g).msgQue ++ [s.packet m] })
  /-- The execution of a message that leaves the jobs as they are. -/
  | execute {e : Env} {t : Tid} {p : Packet} (hpc : s.pc t = .exec p) (tracker : UInt16)
      (status : Option Status) :
      Moves c s (.thread t e) ({ s with jobId := tracker }.goto t (.reply p status))
  | acquire {e : Env} {t : Tid} {p : Packet} (hpc : s.pc t = .exec p) (hdesc : p.desc = .jobAcq)
      {tracker jobId : UInt16}
      (hnew : newJobId s.inUse 0xFFFF s.jobId = (tracker, some jobId)) (status : Option Status) :
      Moves c s (.thread t e) ({ s with
        jobId := tracker
        jobs := update s.jobs s.allocated { jobId := jobId, empty := true, msgQue := [] }
        allocated := s.allocated + 1
        jobList := s.jobList ++ [s.allocated] }.goto t (.reply p status))
  | release {e : Env} {t : Tid} {p : Packet} (hpc : s.pc t = .exec p) {jobId : UInt16} {g : Nat}
      (hfind : s.findJob jobId = some g) (status : Option Status) :
      Moves c s (.thread t e) ((s.drop g).goto t (.reply p status))
  /-- The server thread is done with a message, or a worker with one of no job. -/
  | replied {e : Env} {t : Tid} {p : Packet} {status : Option Status}
      (hpc : s.pc t = .reply p status) (ht : t = .server ∨ p.jobId = 0) :
      Moves c s (.thread t e) ((s.finish p (.executed status)).goto t .wait)
  | repliedJob {e : Env} {k i : Nat} {p : Packet} {status : Option Status}
      (hpc : s.pc (.worker k i) = .reply p status) (hjob : p.jobId ≠ 0) :
      Moves c s (.thread (.worker k i) e)
        ((s.finish p (.executed status)).goto (.worker k i) (.next p))
  | pend {e : Env} {k i n : Nat} (hpc : s.pc (.worker k i) = .wait) :
      Moves c s (.thread (.worker k i) e)
        ({ s with sem := update s.sem k n }.goto (.worker k i) .get)
  | getNone {e : Env} {k i : Nat} (hpc : s.pc (.worker k i) = .get) :
      Moves c s (.thread (.worker k i) e) (s.goto (.worker k i) .wait)
  | get {e : Env} {k i : Nat} {p : Packet} {rest : List Packet} (hpc : s.pc (.worker k i) = .get)
      (hready : s.readyQueue k = p :: rest) :
      Moves c s (.thread (.worker k i) e)
        ({ s with readyQueue := update s.readyQueue k rest }.begin (.worker k i) p)
  | noJob {e : Env} {k i : Nat} {p : Packet} (hpc : s.pc (.worker k i) = .next p)
      (hfind : s.findJob p.jobId = none) :
      Moves c s (.thread (.worker k i) e) (s.goto (.worker k i) .wait)
  | last {e : Env} {k i g : Nat} {p : Packet} (hpc : s.pc (.worker k i) = .next p)
      (hfind : s.findJob p.jobId = some g) (hque : (s.jobs g).msgQue = []) :
      Moves c s (.thread (.worker k i) e)
        ((s.setJob g { s.jobs g with msgQue := [], empty := true }).goto (.worker k i) .wait)
  | hand {e : Env} {k i g k' : Nat} {p p' : Packet} {rest : List Packet}
      (hpc : s.pc (.worker k i) = .next p) (hfind : s.findJob p.jobId = some g)
      (hque : (s.jobs g).msgQue = p' :: rest) :
      Moves c s (.thread (.worker k i) e)
        (((s.setJob g { s.jobs g with msgQue := rest }).put k' p').goto (.worker k i) .wait)

/-- The messages in the queues of the jobs are for pools that exist. -/
def Pooled (c : Pools) (s : Sys) : Prop :=
  ∀ g, ∀ p ∈ (s.jobs g).msgQue, ∃ k, getPool c p.poolId = .ok k

variable {c : Pools} {s s' : Sys} {p : Packet} {jobId tracker tracker' : UInt16} {g count : Nat}

theorem serverGet_moves {e : Env} (hpc : s.pc .server = .wait) (h : serverGet c s = some s') :
    Moves c s (.thread .server e) s' := by
  rw [serverGet] at h
  split at h
  · cases h
  · next m rest hque =>
    split at h
    · next hin =>
      cases h
      exact .inBand hpc hque hin
    · rw [dispatch] at h
      split at h
      · next s'' hok =>
        cases h
        split at hok
        · cases hok
        · next k hpool =>
          split at hok
          · next hjob =>
            cases hok
            exact .discrete hpc hjob
          · next hjob =>
            split at hok
            · cases hok
            · next g hfind =>
              split at hok
              · next hempty =>
                cases hok
                exact .first hpc hjob hfind hempty
              · next hempty =>
                cases hok
                exact .queued hpc hjob hpool hfind (Bool.eq_false_iff.mpr hempty)
      · cases h
        exact .refuse hpc _

theorem process_moves {t : Tid} {e : Env} (hpc : s.pc t = .exec p) :
    Moves c s (.thread t e) ((process s p e).1.goto t (.reply p (process s p e).2)) := by
  rw [process]
  split
  · next hdesc =>
    rw [acqJobId]
    split
    · exact .execute hpc _ _
    · next hnew =>
      split
      · exact .acquire hpc hdesc hnew _
      · exact .execute hpc _ _
  · rw [relJobId]
    split
    · exact .execute hpc s.jobId _
    · next hfind => exact .release hpc hfind _
  · exact .execute hpc s.jobId _

theorem workerNext_moves {k i : Nat} {e : Env} (hpool : Pooled c s)
    (hpc : s.pc (.worker k i) = .next p) :
    Moves c s (.thread (.worker k i) e) (workerNext c s (.worker k i) p) := by
  rw [workerNext]
  split
  · next hfind => exact .noJob hpc hfind
  · next g hfind =>
    cases hque : (s.jobs g).msgQue with
    | nil =>
      have h := Moves.last (c := c) (e := e) hpc hfind hque
      simpa [nextMessage, Sys.setJob, goto] using h
    | cons p' rest =>
      obtain ⟨k', hk'⟩ := hpool g p' (by simp [hque])
      have h : Moves c s (.thread (.worker k i) e)
        (((s.setJob g { s.jobs g with msgQue := rest }).put k' p').goto (.worker k i) .wait) :=
          .hand hpc hfind hque
      simpa [nextMessage, hk', Sys.setJob, goto, put] using h

theorem step_moves {a : Act} (hpool : Pooled c s) (h : step c s a = some s') : Moves c s a s' := by
  cases a with
  | arrive m =>
    cases h
    exact .arrive m
  | thread t e =>
    rw [step, advance.eq_def] at h
    split at h
    · next hpc => exact serverGet_moves hpc h
    · next hpc =>
      split at h
      · cases h
      · cases h
        exact .pend hpc
    · cases h
    · next hpc =>
      split at h
      · cases h
        exact .getNone hpc
      · next hready =>
        cases h
        exact .get hpc hready
    · next hpc =>
      cases h
      exact process_moves hpc
    · next hpc =>
      cases h
      exact .replied hpc (.inl rfl)
    · next hpc =>
      cases h
      split
      · next hjob => exact .replied hpc (.inr hjob)
      · next hjob => exact .repliedJob hpc hjob
    · cases h
    · next hpc =>
      cases h
      exact workerNext_moves hpool hpc

/-! ## The list of jobs -/

structure JobTable (c : Pools) (s : Sys) : Prop where
  nodup : s.jobList.Nodup
  allocated : ∀ g ∈ s.jobList, g < s.allocated
  ids : ∀ g ∈ s.jobList, ∀ g' ∈ s.jobList, (s.jobs g).jobId = (s.jobs g').jobId → g = g'
  nonzero : ∀ g ∈ s.jobList, (s.jobs g).jobId ≠ 0
  unlisted : ∀ g, g ∉ s.jobList → (s.jobs g).msgQue = []
  stream : ∀ g, ∀ p ∈ (s.jobs g).msgQue, p.stream = some g ∧ p.jobId = (s.jobs g).jobId
  pooled : Pooled c s

theorem findJob_eq_some (h : s.findJob jobId = some g) :
    g ∈ s.jobList ∧ (s.jobs g).jobId = jobId := by
  have hid := List.find?_some h
  rw [decide_eq_true_iff] at hid
  exact ⟨List.mem_of_find?_eq_some h, hid⟩

theorem packet_stream {m : Message} (hjob : m.jobId ≠ 0) (hfind : s.findJob m.jobId = some g) :
    (s.packet m).stream = some g := by
  rw [packet, if_neg hjob, hfind]

theorem findJob_eq_none (h : s.findJob jobId = none) (hg : g ∈ s.jobList) :
    (s.jobs g).jobId ≠ jobId := by
  have hne := List.find?_eq_none.mp h g hg
  rw [decide_eq_true_iff] at hne
  exact hne

theorem newJobId_inUse {inUse : UInt16 → Bool}
    (h : newJobId inUse count tracker = (tracker', some jobId)) : inUse jobId = false := by
  induction count generalizing tracker with
  | zero => cases h
  | succ count ih =>
    rw [newJobId] at h
    generalize (if tracker = 0xFFFF then 1 else tracker + 1) = next at h
    split at h
    · exact ih h
    · next hfree =>
      cases h
      exact Bool.eq_false_iff.mpr hfree

theorem newJobId_nonzero {inUse : UInt16 → Bool}
    (h : newJobId inUse count tracker = (tracker', some jobId)) : jobId ≠ 0 := by
  induction count generalizing tracker with
  | zero => cases h
  | succ count ih =>
    have hnext : (if tracker = 0xFFFF then 1 else tracker + 1) ≠ 0 := by
      split
      · decide
      · next hne =>
        intro hzero
        apply hne
        rw [← UInt16.toNat_inj] at hzero ⊢
        simp at hzero ⊢
        have hlt := tracker.toNat_lt
        omega
    rw [newJobId] at h
    generalize (if tracker = 0xFFFF then 1 else tracker + 1) = next at h hnext
    split at h
    · exact ih h
    · cases h
      exact hnext

theorem newJobId_ne (h : newJobId s.inUse count tracker = (tracker', some jobId))
    (hg : g ∈ s.jobList) :
    (s.jobs g).jobId ≠ jobId := by
  intro heq
  have hfree := newJobId_inUse h
  rw [Sys.inUse, List.any_eq_false] at hfree
  exact hfree g hg (by simp [heq])

section JobTable

variable {c : Pools} {s s' : Sys}

theorem JobTable.keep (h : JobTable c s) (hjobs : s'.jobs = s.jobs) (hlist : s'.jobList = s.jobList)
    (halloc : s'.allocated = s.allocated) : JobTable c s' := by
  refine ⟨hlist ▸ h.nodup, ?_, ?_, ?_, ?_, ?_, ?_⟩
  · rw [hlist, halloc]
    exact h.allocated
  · rw [hlist, hjobs]
    exact h.ids
  · rw [hlist, hjobs]
    exact h.nonzero
  · rw [hlist, hjobs]
    exact h.unlisted
  · rw [hjobs]
    exact h.stream
  · rw [Pooled, hjobs]
    exact h.pooled

theorem JobTable.setJob {g : Nat} {j : JobStream} (h : JobTable c s)
    (hjobs : s'.jobs = update s.jobs g j) (hlist : s'.jobList = s.jobList)
    (halloc : s'.allocated = s.allocated) (hg : g ∈ s.jobList) (hid : j.jobId = (s.jobs g).jobId)
    (hstream : ∀ p ∈ j.msgQue, p.stream = some g ∧ p.jobId = (s.jobs g).jobId)
    (hpool : ∀ p ∈ j.msgQue, ∃ k, getPool c p.poolId = .ok k) : JobTable c s' := by
  have hsame : ∀ g', (s'.jobs g').jobId = (s.jobs g').jobId := by
    intro g'
    by_cases hg' : g' = g
    · rw [hjobs, hg', update_self, hid]
    · rw [hjobs, update_of_ne hg']
  refine ⟨hlist ▸ h.nodup, ?_, ?_, ?_, ?_, ?_, ?_⟩
  · rw [hlist, halloc]
    exact h.allocated
  · intro g₁ h₁ g₂ h₂ heq
    rw [hsame, hsame] at heq
    exact h.ids g₁ (hlist ▸ h₁) g₂ (hlist ▸ h₂) heq
  · intro g' hg'
    rw [hsame]
    exact h.nonzero g' (hlist ▸ hg')
  · intro g' hg'
    rw [hlist] at hg'
    have hne : g' ≠ g := fun heq => hg' (heq ▸ hg)
    rw [hjobs, update_of_ne hne]
    exact h.unlisted g' hg'
  · intro g' p hp
    rw [hsame]
    by_cases hg' : g' = g
    · subst hg'
      rw [hjobs, update_self] at hp
      exact hstream p hp
    · rw [hjobs, update_of_ne hg'] at hp
      exact h.stream g' p hp
  · intro g' p hp
    by_cases hg' : g' = g
    · subst hg'
      rw [hjobs, update_self] at hp
      exact hpool p hp
    · rw [hjobs, update_of_ne hg'] at hp
      exact h.pooled g' p hp

theorem table_acquire {count : Nat} {tracker tracker' jobId : UInt16} (h : JobTable c s)
    (hjobs : s'.jobs = update s.jobs s.allocated { jobId := jobId, empty := true, msgQue := [] })
    (hlist : s'.jobList = s.jobList ++ [s.allocated]) (halloc : s'.allocated = s.allocated + 1)
    (hnew : newJobId s.inUse count tracker = (tracker', some jobId)) : JobTable c s' := by
  have hfresh : s.allocated ∉ s.jobList := fun hmem => Nat.lt_irrefl _ (h.allocated _ hmem)
  have hold : ∀ g ∈ s.jobList, s'.jobs g = s.jobs g := by
    intro g hg
    have hne : g ≠ s.allocated := fun heq => hfresh (heq ▸ hg)
    rw [hjobs, update_of_ne hne]
  have hself : (s'.jobs s.allocated).jobId = jobId := by rw [hjobs, update_self]
  -- the messages that wait are those of before
  have hque : ∀ g, ∀ p ∈ (s'.jobs g).msgQue, p ∈ (s.jobs g).msgQue := by
    intro g p hp
    by_cases hg : g = s.allocated
    · rw [hjobs, hg, update_self] at hp
      cases hp
    · rw [hjobs, update_of_ne hg] at hp
      exact hp
  refine ⟨?_, ?_, ?_, ?_, ?_, ?_, ?_⟩
  · rw [hlist, ← List.concat_eq_append]
    exact h.nodup.concat hfresh
  · intro g hg
    rw [hlist, mem_append, mem_singleton] at hg
    rw [halloc]
    rcases hg with hg | hg
    · exact Nat.lt_succ_of_lt (h.allocated g hg)
    · omega
  · intro g hg g' hg' heq
    rw [hlist, mem_append, mem_singleton] at hg hg'
    rcases hg with hg | rfl
    · rcases hg' with hg' | rfl
      · rw [hold g hg, hold g' hg'] at heq
        exact h.ids g hg g' hg' heq
      · rw [hold g hg, hself] at heq
        exact absurd heq (newJobId_ne hnew hg)
    · rcases hg' with hg' | rfl
      · rw [hself, hold g' hg'] at heq
        exact absurd heq.symm (newJobId_ne hnew hg')
      · rfl
  · intro g hg
    rw [hlist, mem_append, mem_singleton] at hg
    rcases hg with hg | rfl
    · rw [hold g hg]
      exact h.nonzero g hg
    · rw [hself]
      exact newJobId_nonzero hnew
  · intro g hg
    rw [hlist, mem_append, not_or] at hg
    rw [List.eq_nil_iff_forall_not_mem]
    intro p hp
    have hold := hque g p hp
    rw [h.unlisted g hg.1] at hold
    cases hold
  · intro g p hp
    have hmem := hque g p hp
    have hg : g ∈ s.jobList := by
      by_contra hg
      rw [h.unlisted g hg] at hmem
      cases hmem
    rw [hold g hg]
    exact h.stream g p hmem
  · exact fun g p hp => h.pooled g p (hque g p hp)

theorem table_release {g : Nat} (h : JobTable c s)
    (hjobs : s'.jobs = update s.jobs g { s.jobs g with msgQue := [] })
    (hlist : s'.jobList = s.jobList.erase g) (halloc : s'.allocated = s.allocated) :
    JobTable c s' := by
  have hsub : ∀ g' ∈ s'.jobList, g' ∈ s.jobList := by
    intro g' hg'
    rw [hlist] at hg'
    exact List.mem_of_mem_erase hg'
  have hid : ∀ g', (s'.jobs g').jobId = (s.jobs g').jobId := by
    intro g'
    by_cases hg' : g' = g
    · rw [hjobs, hg', update_self]
    · rw [hjobs, update_of_ne hg']
  have hque : ∀ g', ∀ p ∈ (s'.jobs g').msgQue, p ∈ (s.jobs g').msgQue := by
    intro g' p hp
    by_cases hg' : g' = g
    · rw [hjobs, hg', update_self] at hp
      cases hp
    · rw [hjobs, update_of_ne hg'] at hp
      exact hp
  refine ⟨hlist ▸ h.nodup.erase g, ?_, ?_, ?_, ?_, ?_, ?_⟩
  · intro g' hg'
    rw [halloc]
    exact h.allocated g' (hsub g' hg')
  · intro g₁ h₁ g₂ h₂ heq
    rw [hid, hid] at heq
    exact h.ids g₁ (hsub g₁ h₁) g₂ (hsub g₂ h₂) heq
  · intro g' hg'
    rw [hid]
    exact h.nonzero g' (hsub g' hg')
  · intro g' hg'
    by_cases hne : g' = g
    · rw [hjobs, hne, update_self]
    · rw [hlist, List.mem_erase_of_ne hne] at hg'
      rw [hjobs, update_of_ne hne]
      exact h.unlisted g' hg'
  · intro g' p hp
    rw [hid]
    exact h.stream g' p (hque g' p hp)
  · exact fun g' p hp => h.pooled g' p (hque g' p hp)

end JobTable

theorem table_init (c : Pools) : JobTable c {} := by
  refine ⟨nodup_nil, ?_, ?_, ?_, fun _ _ => rfl, ?_, ?_⟩ <;> simp [Pooled]

theorem moves_table {a : Act} (hs : JobTable c s) (h : Moves c s a s') :
    JobTable c s' := by
  cases h with
  | @first _ m rest k g _ hjob hfind _ =>
    exact hs.setJob rfl rfl rfl (findJob_eq_some hfind).1 rfl (hs.stream g) (hs.pooled g)
  | @queued _ m rest k g _ hjob hpool hfind _ =>
    refine hs.setJob rfl rfl rfl (findJob_eq_some hfind).1 rfl ?_ ?_
    · intro p hp
      rcases mem_append.mp hp with hp | hp
      · exact hs.stream g p hp
      · obtain ⟨_, hid⟩ := findJob_eq_some hfind
        rw [mem_singleton.mp hp]
        exact ⟨packet_stream hjob hfind, hid.symm⟩
    · intro p hp
      rcases mem_append.mp hp with hp | hp
      · exact hs.pooled g p hp
      · rw [mem_singleton.mp hp]
        exact ⟨k, hpool⟩
  | @acquire _ t p _ _ tracker jobId hnew _ =>
    exact table_acquire hs rfl rfl rfl hnew
  | @release _ t p _ jobId g hfind _ => exact table_release hs rfl rfl rfl
  | @last _ k i g p _ hfind hque =>
    exact hs.setJob rfl rfl rfl (findJob_eq_some hfind).1 rfl (fun _ hp => (by cases hp))
      (fun _ hp => (by cases hp))
  | @hand _ k i g k' p p' rest _ hfind hque =>
    have hsub : ∀ q ∈ rest, q ∈ (s.jobs g).msgQue := by
      intro q hq
      rw [hque]
      exact List.mem_cons_of_mem _ hq
    exact hs.setJob rfl rfl rfl (findJob_eq_some hfind).1 rfl
      (fun q hq => hs.stream g q (hsub q hq)) (fun q hq => hs.pooled g q (hsub q hq))
  | _ => exact hs.keep rfl rfl rfl

/-! ## Where the messages are -/

/-- A place of a message whose execution has begun. -/
def Place.begun : Place → Bool
  | .exec _ => true
  | .ended (.executed _) => true
  | _ => false

structure Flow (s : Sys) : Prop where
  one : OnePlace s.At
  somewhere : ∀ p, p ∈ s.arrivals ↔ ∃ l, s.At p l
  fresh : ∀ p ∈ s.arrivals, p.tag < s.taken
  discrete : ∀ p ∈ s.arrivals, p.stream ≠ none → p.jobId ≠ 0
  arrivals : s.arrivals.Nodup
  waiting : ∀ g, (s.jobs g).msgQue.Nodup
  ready : ∀ k, (s.readyQueue k).Nodup
  ended : s.ended.Nodup
  began : ∀ p, p ∈ s.began ↔ ∃ l, l.begun = true ∧ s.At p l
  dropped : ∀ p ∈ s.dropped, s.At p (.ended (.refused .unprocessed))

section Step

variable {s s' : Sys} {t : Tid} {p : Packet} {l l' : Place} {q q' : Pc} {g k : Nat} {e : Ending}

theorem running_keep (hpc : s.pc t = q) (hpc' : s'.pc = update s.pc t q')
    (hq : q'.running = q.running) (t' : Tid) : (s'.pc t').running = (s.pc t').running := by
  by_cases ht : t' = t
  · rw [hpc', ht, update_self, hq, hpc]
  · rw [hpc', update_of_ne ht]

theorem running_iff (hpc : s.pc t = q) (hpc' : s'.pc = update s.pc t q')
    (hq : q'.running = q.running) (b : Packet) (t' : Tid) :
    s'.At b (.exec t') ↔ s.At b (.exec t') := by
  simp only [Sys.At, running_keep hpc hpc' hq]

theorem Flow.keep (h : Flow s) (hque : ∀ g, (s'.jobs g).msgQue = (s.jobs g).msgQue)
    (hready : s'.readyQueue = s.readyQueue) (hrun : ∀ t, (s'.pc t).running = (s.pc t).running)
    (hended : s'.ended = s.ended) (harrivals : s'.arrivals = s.arrivals)
    (htaken : s'.taken = s.taken) (hbegan : s'.began = s.began)
    (hdropped : s'.dropped = s.dropped) : Flow s' := by
  have hat : s'.At = s.At := by
    funext p l
    cases l with
    | waiting g => simp only [Sys.At, hque]
    | ready k => simp only [Sys.At, hready]
    | exec t => simp only [Sys.At, hrun]
    | ended e => simp only [Sys.At, hended]
  refine ⟨hat ▸ h.one, ?_, ?_, ?_, harrivals ▸ h.arrivals, ?_, hready ▸ h.ready, hended ▸ h.ended,
    ?_, ?_⟩
  · rw [harrivals, hat]
    exact h.somewhere
  · rw [harrivals, htaken]
    exact h.fresh
  · rw [harrivals]
    exact h.discrete
  · intro g
    rw [hque g]
    exact h.waiting g
  · rw [hbegan, hat]
    exact h.began
  · rw [hdropped, hat]
    exact h.dropped

theorem Flow.step (h : Flow s)
    (hat : ∀ b r, s'.At b r ↔ (b = p ∧ r = l') ∨ (b ≠ p ∧ s.At b r))
    (hnot : ¬ s.At p (.ended (.refused .unprocessed)))
    (hpast : ∀ r, s.At p r → r.begun = true → l'.begun = true)
    (hbegan : ∀ b, b ∈ s'.began ↔ b ∈ s.began ∨ (b = p ∧ l'.begun = true))
    (hdropped : s'.dropped = s.dropped)
    (harrivals : ∀ b, b ∈ s'.arrivals ↔ b = p ∨ b ∈ s.arrivals)
    (hfresh : ∀ b ∈ s'.arrivals, b.tag < s'.taken)
    (hdiscrete : ∀ b ∈ s'.arrivals, b.stream ≠ none → b.jobId ≠ 0)
    (hnodup : s'.arrivals.Nodup) (hwaiting : ∀ g, (s'.jobs g).msgQue.Nodup)
    (hready : ∀ k, (s'.readyQueue k).Nodup) (hended : s'.ended.Nodup) : Flow s' := by
  refine ⟨onePlace_of_at_iff h.one hat, ?_, hfresh, hdiscrete, hnodup, hwaiting, hready, hended,
    ?_, ?_⟩
  · intro b
    rw [harrivals b, somewhere_of_at_iff hat b, h.somewhere b]
  · intro b
    rw [hbegan b]
    by_cases hb : b = p
    · subst hb
      have hself : (∃ r, r.begun = true ∧ s'.At b r) ↔ l'.begun = true := by simp [hat]
      rw [hself, h.began b]
      refine ⟨?_, fun hl => .inr ⟨rfl, hl⟩⟩
      intro hor
      rcases hor with ⟨r, hr, hbr⟩ | ⟨_, hl⟩
      · exact hpast r hbr hr
      · exact hl
    · rw [h.began b]
      simp [hat, hb]
  · intro b hb
    rw [hdropped] at hb
    have hold := h.dropped b hb
    refine (hat b _).mpr (.inr ⟨?_, hold⟩)
    rintro rfl
    exact hnot hold

theorem Flow.came {m : Message} (h : Flow s) (hcame : Came s.At s'.At (s.packet m) l)
    (hbegan : ∀ b, b ∈ s'.began ↔ b ∈ s.began ∨ (b = s.packet m ∧ l.begun = true))
    (hdropped : s'.dropped = s.dropped) (harrivals : s'.arrivals = s.arrivals ++ [s.packet m])
    (htaken : s'.taken = s.taken + 1) (hwaiting : ∀ g, (s'.jobs g).msgQue.Nodup)
    (hready : ∀ k, (s'.readyQueue k).Nodup) (hended : s'.ended.Nodup) : Flow s' := by
  have hmem : ∀ b, b ∈ s'.arrivals ↔ b = s.packet m ∨ b ∈ s.arrivals := by
    intro b
    rw [harrivals, mem_append, mem_singleton, or_comm]
  refine h.step hcame.at_iff (hcame.before _) (fun r hr => absurd hr (hcame.before r)) hbegan
    hdropped hmem ?_ ?_ ?_ hwaiting hready hended
  · intro b hb
    rw [htaken]
    rcases (hmem b).mp hb with rfl | hb
    · exact Nat.lt_succ_self _
    · exact Nat.lt_succ_of_lt (h.fresh b hb)
  · intro b hb hstream
    rcases (hmem b).mp hb with rfl | hb
    · intro hzero
      have hnone : (s.packet m).stream = none := if_pos hzero
      exact hstream hnone
    · exact h.discrete b hb hstream
  · rw [harrivals, ← List.concat_eq_append]
    apply h.arrivals.concat
    rw [h.somewhere]
    exact fun ⟨r, hr⟩ => hcame.before r hr

theorem Flow.move (h : Flow s) (hmoved : Moved s.At s'.At p l l')
    (hl : l ≠ .ended (.refused .unprocessed)) (hpast : l.begun = true → l'.begun = true)
    (hbegan : ∀ b, b ∈ s'.began ↔ b ∈ s.began ∨ (b = p ∧ l'.begun = true))
    (hdropped : s'.dropped = s.dropped) (harrivals : s'.arrivals = s.arrivals)
    (htaken : s'.taken = s.taken) (hwaiting : ∀ g, (s'.jobs g).msgQue.Nodup)
    (hready : ∀ k, (s'.readyQueue k).Nodup) (hended : s'.ended.Nodup) : Flow s' := by
  have hmem : p ∈ s.arrivals := (h.somewhere p).mpr ⟨l, hmoved.before⟩
  refine h.step (hmoved.at_iff h.one) ?_ ?_ hbegan hdropped ?_ ?_ ?_ (harrivals ▸ h.arrivals)
    hwaiting hready hended
  · intro hat
    exact hl (h.one p _ _ hmoved.before hat)
  · intro r hr hbegun
    rw [h.one p r l hr hmoved.before] at hbegun
    exact hpast hbegun
  · intro b
    rw [harrivals]
    exact ⟨.inr, fun hb => hb.elim (fun hb => hb ▸ hmem) id⟩
  · rw [harrivals, htaken]
    exact h.fresh
  · rw [harrivals]
    exact h.discrete

theorem Flow.packet_nowhere (h : Flow s) (m : Message) (l : Place) : ¬ s.At (s.packet m) l := by
  intro hat
  have hlt := h.fresh _ ((h.somewhere _).mpr ⟨l, hat⟩)
  exact Nat.lt_irrefl _ hlt

/-! The four ways in which a message comes to a place, with what else has to stay. -/

theorem came_ready (hnew : ∀ l, ¬ s.At p l)
    (hready : s'.readyQueue = update s.readyQueue k (s.readyQueue k ++ [p]))
    (hque : ∀ g, (s'.jobs g).msgQue = (s.jobs g).msgQue)
    (hrun : ∀ t, (s'.pc t).running = (s.pc t).running) (hended : s'.ended = s.ended) :
    Came s.At s'.At p (.ready k) := by
  refine ⟨hnew, ?_, ?_⟩
  · intro b
    simp [Sys.At, hready]
  · intro b r hr
    cases r with
    | waiting g => simp only [Sys.At, hque]
    | ready k' =>
      have hk : k' ≠ k := fun hk => hr (hk ▸ rfl)
      simp only [Sys.At, hready, update_of_ne hk]
    | exec t => simp only [Sys.At, hrun]
    | ended e => simp only [Sys.At, hended]

theorem came_waiting (hnew : ∀ l, ¬ s.At p l)
    (hjobs : s'.jobs = update s.jobs g { s.jobs g with msgQue := (s.jobs g).msgQue ++ [p] })
    (hready : s'.readyQueue = s.readyQueue) (hpc : s'.pc = s.pc) (hended : s'.ended = s.ended) :
    Came s.At s'.At p (.waiting g) := by
  refine ⟨hnew, ?_, ?_⟩
  · intro b
    simp [Sys.At, hjobs]
  · intro b r hr
    cases r with
    | waiting g' =>
      have hg : g' ≠ g := fun hg => hr (hg ▸ rfl)
      simp only [Sys.At, hjobs, update_of_ne hg]
    | ready k => simp only [Sys.At, hready]
    | exec t => simp only [Sys.At, hpc]
    | ended e => simp only [Sys.At, hended]

theorem came_exec (hnew : ∀ l, ¬ s.At p l) (hpc : s.pc t = q) (hq : q.running = none)
    (hpc' : s'.pc = update s.pc t (.exec p)) (hjobs : s'.jobs = s.jobs)
    (hready : s'.readyQueue = s.readyQueue) (hended : s'.ended = s.ended) :
    Came s.At s'.At p (.exec t) := by
  have hnone : (s.pc t).running = none := by rw [hpc, hq]
  have hself : (s'.pc t).running = some p := by
    rw [hpc', update_self]
    rfl
  refine ⟨hnew, ?_, ?_⟩
  · intro b
    simp [Sys.At, hself, hnone, eq_comm]
  · intro b r hr
    cases r with
    | waiting g => simp only [Sys.At, hjobs]
    | ready k => simp only [Sys.At, hready]
    | exec t' =>
      have ht : t' ≠ t := fun ht => hr (ht ▸ rfl)
      simp only [Sys.At, hpc', update_of_ne ht]
    | ended e => simp only [Sys.At, hended]

theorem came_ended (hnew : ∀ l, ¬ s.At p l) (hended : s'.ended = s.ended ++ [(p, e)])
    (hjobs : s'.jobs = s.jobs) (hready : s'.readyQueue = s.readyQueue) (hpc : s'.pc = s.pc) :
    Came s.At s'.At p (.ended e) := by
  refine ⟨hnew, ?_, ?_⟩
  · intro b
    simp [Sys.At, hended]
  · intro b r hr
    cases r with
    | waiting g => simp only [Sys.At, hjobs]
    | ready k => simp only [Sys.At, hready]
    | exec t => simp only [Sys.At, hpc]
    | ended e' =>
      have he : e' ≠ e := fun he => hr (he ▸ rfl)
      simp [Sys.At, hended, he]

theorem moved_get {i : Nat} {rest : List Packet} (h : Flow s) (hpc : s.pc (.worker k i) = .get)
    (hready : s.readyQueue k = p :: rest) :
    Moved s.At ({ s with readyQueue := update s.readyQueue k rest }.begin (.worker k i) p).At p
      (.ready k) (.exec (.worker k i)) := by
  have hnodup := h.ready k
  rw [hready, nodup_cons] at hnodup
  refine ⟨by simp [Sys.At, hready], Place.noConfusion, ?_, ?_, ?_⟩
  · intro b
    simp only [Sys.At, begin, goto, update_self, hready, mem_cons]
    refine ⟨fun hb => ⟨.inr hb, fun hbp => hnodup.1 (hbp ▸ hb)⟩, fun hb => hb.1.resolve_left hb.2⟩
  · intro b
    simp [Sys.At, begin, goto, hpc, Pc.running, eq_comm]
  · intro b r hr hr'
    cases r with
    | waiting g => exact Iff.rfl
    | ready k' =>
      have hk : k' ≠ k := fun hk => hr (hk ▸ rfl)
      simp [Sys.At, begin, goto, hk]
    | exec t' =>
      have ht : t' ≠ .worker k i := fun ht => hr' (ht ▸ rfl)
      simp [Sys.At, begin, goto, ht]
    | ended e => exact Iff.rfl

theorem moved_replied {status : Option Status} (hpc : s.pc t = .reply p status)
    (hq : q.running = none) :
    Moved s.At ((s.finish p (.executed status)).goto t q).At p (.exec t)
      (.ended (.executed status)) := by
  have hself : (s.pc t).running = some p := by
    rw [hpc]
    rfl
  refine ⟨hself, Place.noConfusion, ?_, ?_, ?_⟩
  · intro b
    simp [Sys.At, goto, hq, hself, eq_comm]
  · intro b
    simp [Sys.At, goto, finish]
  · intro b r hr hr'
    cases r with
    | waiting g => exact Iff.rfl
    | ready k => exact Iff.rfl
    | exec t' =>
      have ht : t' ≠ t := fun ht => hr (ht ▸ rfl)
      simp [Sys.At, goto, finish, ht]
    | ended e =>
      have he : e ≠ .executed status := fun he => hr' (he ▸ rfl)
      simp [Sys.At, goto, finish, he]

theorem moved_hand {rest : List Packet} (h : Flow s) (hpc : s.pc t = q) (hq : q.running = none)
    (hque : (s.jobs g).msgQue = p :: rest) :
    Moved s.At (((s.setJob g { s.jobs g with msgQue := rest }).put k p).goto t .wait).At p
      (.waiting g) (.ready k) := by
  have hnodup := h.waiting g
  rw [hque, nodup_cons] at hnodup
  refine ⟨by simp [Sys.At, hque], Place.noConfusion, ?_, ?_, ?_⟩
  · intro b
    simp only [Sys.At, put, Sys.setJob, goto, update_self, hque, mem_cons]
    refine ⟨fun hb => ⟨.inr hb, fun hbp => hnodup.1 (hbp ▸ hb)⟩, fun hb => hb.1.resolve_left hb.2⟩
  · intro b
    simp [Sys.At, put, Sys.setJob, goto]
  · intro b r hr hr'
    cases r with
    | waiting g' =>
      have hg : g' ≠ g := fun hg => hr (hg ▸ rfl)
      simp [Sys.At, put, Sys.setJob, goto, hg]
    | ready k' =>
      have hk : k' ≠ k := fun hk => hr' (hk ▸ rfl)
      simp [Sys.At, put, Sys.setJob, goto, hk]
    | exec t' =>
      refine running_iff hpc rfl ?_ b t'
      exact hq.symm
    | ended e => exact Iff.rfl

theorem movedAll_drop {status : Option Status} (hpc : s.pc t = .exec p) :
    MovedAll s.At ((s.drop g).goto t (.reply p status)).At (.waiting g)
      (.ended (.refused .unprocessed)) := by
  refine ⟨?_, ?_, ?_⟩
  · intro b
    simp [Sys.At, drop, goto]
  · intro b
    simp [Sys.At, drop, goto]
  · intro b r hr hr'
    cases r with
    | waiting g' =>
      have hg : g' ≠ g := fun hg => hr (hg ▸ rfl)
      simp [Sys.At, drop, goto, hg]
    | ready k => exact Iff.rfl
    | exec t' =>
      refine running_iff hpc rfl ?_ b t'
      rfl
    | ended e =>
      have he : e ≠ .refused .unprocessed := fun he => hr' (he ▸ rfl)
      simp [Sys.At, drop, goto, he.symm]

end Step

theorem nodup_append_singleton {α : Type} {l : List α} {a : α} (h : l.Nodup) (ha : a ∉ l) :
    (l ++ [a]).Nodup := by
  rw [← List.concat_eq_append]
  exact h.concat ha

theorem nodup_update {α : Type} {f : Nat → List α} {n : Nat} {l : List α}
    (h : ∀ m, (f m).Nodup) (hl : l.Nodup) (m : Nat) : (update f n l m).Nodup := by
  by_cases hm : m = n
  · rw [hm, update_self]
    exact hl
  · rw [update_of_ne hm]
    exact h m

theorem msgQue_update {jobs : Nat → JobStream} {j : JobStream} (hj : j.msgQue = (jobs g).msgQue)
    (g' : Nat) :
    (update jobs g j g').msgQue = (jobs g').msgQue := by
  by_cases hg : g' = g
  · rw [hg, update_self, hj]
  · rw [update_of_ne hg]

theorem waiting_update {jobs : Nat → JobStream} {j : JobStream} (h : ∀ g, (jobs g).msgQue.Nodup)
    (hj : j.msgQue.Nodup) (g' : Nat) :
    (update jobs g j g').msgQue.Nodup := by
  by_cases hg : g' = g
  · rw [hg, update_self]
    exact hj
  · rw [update_of_ne hg]
    exact h g'

theorem began_same {l : List Packet} {r : Place} (hr : r.begun = false) (b : Packet) :
    b ∈ l ↔ b ∈ l ∨ (b = p ∧ r.begun = true) := by
  simp [hr]

theorem began_more {l : List Packet} {r : Place} (hr : r.begun = true) (b : Packet) :
    b ∈ l ++ [p] ↔ b ∈ l ∨ (b = p ∧ r.begun = true) := by
  simp [hr]

theorem flow_replied {t : Tid} {status : Option Status} {q : Pc} (hs : Flow s)
    (hpc : s.pc t = .reply p status) (hq : q.running = none) :
    Flow ((s.finish p (.executed status)).goto t q) := by
  have hmoved := moved_replied hpc hq
  have hbegan : p ∈ s.began := (hs.began p).mpr ⟨.exec t, rfl, hmoved.before⟩
  refine hs.move hmoved Place.noConfusion (fun _ => rfl) ?_ rfl rfl rfl hs.waiting hs.ready ?_
  · intro b
    refine ⟨.inl, fun hb => hb.elim id fun hb => ?_⟩
    rw [hb.1]
    exact hbegan
  · apply nodup_append_singleton hs.ended
    intro hmem
    have hsame := hs.one p _ (.ended (.executed status)) hmoved.before hmem
    cases hsame

theorem flow_release {t : Tid} {status : Option Status} (hs : Flow s) (hpc : s.pc t = .exec p) :
    Flow ((s.drop g).goto t (.reply p status)) := by
  have hall : MovedAll s.At ((s.drop g).goto t (.reply p status)).At (.waiting g)
    (.ended (.refused .unprocessed)) := movedAll_drop hpc
  refine ⟨hall.onePlace hs.one, ?_, hs.fresh, hs.discrete, hs.arrivals,
    waiting_update hs.waiting nodup_nil, hs.ready, ?_, ?_, ?_⟩
  · intro b
    rw [hall.somewhere hs.one b]
    exact hs.somewhere b
  · apply hs.ended.append
    · exact (hs.waiting g).map fun b b' heq => congrArg Prod.fst heq
    · intro x hx hx'
      obtain ⟨b, hb, rfl⟩ := List.mem_map.mp hx'
      have hsame := hs.one b (.ended (.refused .unprocessed)) (.waiting g) hx hb
      cases hsame
  · intro b
    -- neither of the two places is one where the execution has begun
    have hother : ∀ l, l.begun = true →
        (((s.drop g).goto t (.reply p status)).At b l ↔ s.At b l) := by
      intro l hl
      apply hall.other b l
      · rintro rfl
        cases hl
      · rintro rfl
        cases hl
    refine (hs.began b).trans ⟨?_, ?_⟩
    · intro h
      obtain ⟨l, hl, hb⟩ := h
      exact ⟨l, hl, (hother l hl).mpr hb⟩
    · intro h
      obtain ⟨l, hl, hb⟩ := h
      exact ⟨l, hl, (hother l hl).mp hb⟩
  · intro b hb
    rcases mem_append.mp hb with hb | hb
    · exact (hall.came b).mpr (.inl (hs.dropped b hb))
    · exact (hall.came b).mpr (.inr hb)

theorem nowhere_init (p : Packet) (l : Place) : ¬ ({} : Sys).At p l := by
  cases l <;> simp [Sys.At, Pc.running]

theorem flow_init : Flow {} := by
  refine ⟨fun p l _ hl => absurd hl (nowhere_init p l), ?_, nofun, nofun, nodup_nil,
    fun _ => nodup_nil, fun _ => nodup_nil, nodup_nil, ?_, nofun⟩
  · intro p
    simp [nowhere_init]
  · intro p
    simp [nowhere_init]

theorem moves_flow {a : Act} (hs : Flow s) (htable : JobTable c s) (h : Moves c s a s') :
    Flow s' := by
  cases h with
  | arrive m =>
    exact hs.keep (fun _ => rfl) rfl (fun _ => rfl) rfl rfl rfl rfl rfl
  | @inBand _ m rest hpc _ _ =>
    have hnew := hs.packet_nowhere m
    exact hs.came (came_exec hnew hpc rfl rfl rfl rfl rfl) (began_more rfl) rfl rfl rfl hs.waiting
      hs.ready hs.ended
  | @refuse _ m rest _ status =>
    have hnew := hs.packet_nowhere m
    exact hs.came (came_ended hnew rfl rfl rfl rfl) (began_same rfl) rfl rfl rfl hs.waiting hs.ready
      (nodup_append_singleton hs.ended (hnew (.ended (.refused status))))
  | @discrete _ m rest k _ _ =>
    have hnew := hs.packet_nowhere m
    exact hs.came (came_ready hnew rfl (fun _ => rfl) (fun _ => rfl) rfl) (began_same rfl) rfl rfl
      rfl hs.waiting (nodup_update hs.ready (nodup_append_singleton (hs.ready k) (hnew (.ready k))))
      hs.ended
  | @first _ m rest k g _ _ _ _ =>
    have hnew := hs.packet_nowhere m
    exact hs.came (came_ready hnew rfl (msgQue_update rfl) (fun _ => rfl) rfl) (began_same rfl) rfl
      rfl rfl (waiting_update hs.waiting (hs.waiting g))
      (nodup_update hs.ready (nodup_append_singleton (hs.ready k) (hnew (.ready k)))) hs.ended
  | @queued _ m rest k g _ _ _ _ _ =>
    have hnew := hs.packet_nowhere m
    exact hs.came (came_waiting hnew rfl rfl rfl rfl) (began_same rfl) rfl rfl rfl
      (waiting_update hs.waiting (nodup_append_singleton (hs.waiting g) (hnew (.waiting g))))
      hs.ready hs.ended
  | @execute _ t p hpc tracker status =>
    exact hs.keep (fun _ => rfl) rfl (running_keep hpc rfl rfl) rfl rfl rfl rfl rfl
  | @acquire _ t p hpc _ tracker jobId _ status =>
    have hnone := htable.unlisted s.allocated fun hmem =>
      Nat.lt_irrefl _ (htable.allocated _ hmem)
    exact hs.keep (msgQue_update hnone.symm) rfl (running_keep hpc rfl rfl) rfl rfl rfl rfl rfl
  | @release _ t p hpc jobId g _ status =>
    exact flow_release hs hpc
  | replied hpc _ => exact flow_replied hs hpc rfl
  | repliedJob hpc _ => exact flow_replied hs hpc rfl
  | pend hpc => exact hs.keep (fun _ => rfl) rfl (running_keep hpc rfl rfl) rfl rfl rfl rfl rfl
  | getNone hpc => exact hs.keep (fun _ => rfl) rfl (running_keep hpc rfl rfl) rfl rfl rfl rfl rfl
  | @get _ k i p rest hpc hready =>
    have hnodup := hs.ready k
    rw [hready, nodup_cons] at hnodup
    exact hs.move (moved_get hs hpc hready) Place.noConfusion (fun h => (by cases h))
      (began_more rfl) rfl rfl rfl hs.waiting (nodup_update hs.ready hnodup.2) hs.ended
  | noJob hpc _ => exact hs.keep (fun _ => rfl) rfl (running_keep hpc rfl rfl) rfl rfl rfl rfl rfl
  | last hpc _ hque =>
    exact hs.keep (msgQue_update hque.symm) rfl (running_keep hpc rfl rfl) rfl rfl rfl rfl rfl
  | @hand _ k i g k' p p' rest hpc _ hque =>
    have hnodup := hs.waiting g
    rw [hque, nodup_cons] at hnodup
    have hmoved := moved_hand (k := k') hs hpc rfl hque
    have hnot : p' ∉ s.readyQueue k' := by
      intro hmem
      have hsame := hs.one p' _ (.ready k') hmoved.before hmem
      cases hsame
    exact hs.move hmoved Place.noConfusion (fun h => (by cases h)) (began_same rfl) rfl rfl rfl
      (waiting_update hs.waiting hnodup.2)
      (nodup_update hs.ready (nodup_append_singleton (hs.ready k') hnot)) hs.ended

end Omap4Hal.Rcm.Server

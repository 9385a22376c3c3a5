import Omap4Hal.Rcm.Accounts

/- The steps of the threads of an RcmServer under the condition `Meets`. `Turn` lists them, with
   what is known when a step is taken; each is a step of `Server` too, so that every message
   is in one place. Over it the books are kept that show that nothing is left behind when the
   threads come to rest: as many posts as there are messages on a ready queue, and a message on
   its way for every job that is not empty. -/
namespace Omap4Hal.Rcm.Accounts

open Lib
open Omap4Hal.Rcm.Server
open Function (update update_self update_of_ne)

/-! ## What a step can do -/

/-- The pool of the message exists and has a worker. -/
def Staffed (c : Pools) (m : Message) (k : Nat) : Prop :=
  getPool c m.poolId = .ok k ∧ 0 < c.count k

/-- `freed` are the messages that are freed. -/
inductive Turn (c : Pools) (freed : Packet → Prop) (s : Sys) : Sys → Prop
  | inBand {m : Message} {rest : List Message} (hpc : s.pc .server = .wait)
      (hque : s.serverQue = m :: rest) (hdesc : m.desc ≠ .symAdd) (hin : c.InBand m) :
      Turn c freed s ((s.take m rest).begin .server (s.packet m))
  | refuse {m : Message} {rest : List Message} (hpc : s.pc .server = .wait)
      (hque : s.serverQue = m :: rest) (hdesc : m.desc ≠ .symAdd) (status : Status) :
      Turn c freed s ((s.take m rest).finish (s.packet m) (.refused status))
  | discrete {m : Message} {rest : List Message} {k : Nat} (hpc : s.pc .server = .wait)
      (hque : s.serverQue = m :: rest) (hdesc : m.desc ≠ .symAdd) (hpool : Staffed c m k)
      (hjob : m.jobId = 0) : Turn c freed s ((s.take m rest).put k (s.packet m))
  | first {m : Message} {rest : List Message} {k g : Nat} (hpc : s.pc .server = .wait)
      (hque : s.serverQue = m :: rest) (hdesc : m.desc ≠ .symAdd) (hpool : Staffed c m k)
      (hjob : m.jobId ≠ 0) (hfind : s.findJob m.jobId = some g)
      (hempty : (s.jobs g).empty = true) :
      Turn c freed s
        (((s.take m rest).setJob g { s.jobs g with empty := false }).put k (s.packet m))
  | queued {m : Message} {rest : List Message} {k g : Nat} (hpc : s.pc .server = .wait)
      (hque : s.serverQue = m :: rest) (hdesc : m.desc ≠ .symAdd) (hpool : Staffed c m k)
      (hjob : m.jobId ≠ 0) (hfind : s.findJob m.jobId = some g)
      (hempty : (s.jobs g).empty = false) :
      Turn c freed s ((s.take m rest).setJob g
        { s.jobs g with msgQue := (s.jobs g).msgQue ++ [s.packet m] })
  | execute {t : Tid} {p : Packet} (hpc : s.pc t = .exec p) (tracker : UInt16)
      (status : Option Status) (hfreed : status = none → freed p) :
      Turn c freed s ({ s with jobId := tracker }.goto t (.reply p status))
  | acquire {t : Tid} {p : Packet} (hpc : s.pc t = .exec p) (hdesc : p.desc = .jobAcq)
      {tracker jobId : UInt16}
      (hnew : newJobId s.inUse 0xFFFF s.jobId = (tracker, some jobId)) (status : Status) :
      Turn c freed s ({ s with
        jobId := tracker
        jobs := update s.jobs s.allocated { jobId := jobId, empty := true, msgQue := [] }
        allocated := s.allocated + 1
        jobList := s.jobList ++ [s.allocated] }.goto t (.reply p (some status)))
  | release {t : Tid} {p : Packet} (hpc : s.pc t = .exec p) {jobId : UInt16} {g : Nat}
      (hfind : s.findJob jobId = some g) (status : Status) :
      Turn c freed s ((s.drop g).goto t (.reply p (some status)))
  | replied {t : Tid} {p : Packet} {status : Option Status}
      (hpc : s.pc t = .reply p status) (ht : t = .server ∨ p.jobId = 0) :
      Turn c freed s ((s.finish p (.executed status)).goto t .wait)
  | repliedJob {k i : Nat} {p : Packet} {status : Option Status}
      (hpc : s.pc (.worker k i) = .reply p status) (hjob : p.jobId ≠ 0) :
      Turn c freed s ((s.finish p (.executed status)).goto (.worker k i) (.next p))
  | pend {k i n : Nat} (hpc : s.pc (.worker k i) = .wait) (hi : i < c.count k)
      (hsem : s.sem k = n + 1) :
      Turn c freed s ({ s with sem := update s.sem k n }.goto (.worker k i) .get)
  | getNone {k i : Nat} (hpc : s.pc (.worker k i) = .get) (hready : s.readyQueue k = []) :
      Turn c freed s (s.goto (.worker k i) .wait)
  | get {k i : Nat} {p : Packet} {rest : List Packet} (hpc : s.pc (.worker k i) = .get)
      (hready : s.readyQueue k = p :: rest) :
      Turn c freed s ({ s with readyQueue := update s.readyQueue k rest }.begin (.worker k i) p)
  | noJob {k i : Nat} {p : Packet} (hpc : s.pc (.worker k i) = .next p)
      (hfind : s.findJob p.jobId = none) : Turn c freed s (s.goto (.worker k i) .wait)
  | last {k i g : Nat} {p : Packet} (hpc : s.pc (.worker k i) = .next p)
      (hfind : s.findJob p.jobId = some g) (hque : (s.jobs g).msgQue = []) :
      Turn c freed s
        ((s.setJob g { s.jobs g with msgQue := [], empty := true }).goto (.worker k i) .wait)
  | hand {k i g k' : Nat} {p p' : Packet} {rest : List Packet}
      (hpc : s.pc (.worker k i) = .next p) (hfind : s.findJob p.jobId = some g)
      (hque : (s.jobs g).msgQue = p' :: rest) (hpool : getPool c p'.poolId = .ok k') :
      Turn c freed s
        (((s.setJob g { s.jobs g with msgQue := rest }).put k' p').goto (.worker k i) .wait)

theorem turn_moves {c : Pools} {freed : Packet → Prop} {s s' : Sys}
    (h : Turn c freed s s') : ∃ a, Moves c s a s' := by
  cases h with
  | inBand hpc hque _ hin => exact ⟨_, .inBand (e := {}) hpc hque hin⟩
  | refuse hpc _ _ status => exact ⟨_, .refuse (e := {}) hpc status⟩
  | discrete hpc _ _ _ hjob => exact ⟨_, .discrete (e := {}) hpc hjob⟩
  | first hpc _ _ _ hjob hfind hempty => exact ⟨_, .first (e := {}) hpc hjob hfind hempty⟩
  | queued hpc _ _ hpool hjob hfind hempty =>
    exact ⟨_, .queued (e := {}) hpc hjob hpool.1 hfind hempty⟩
  | execute hpc tracker status _ => exact ⟨_, .execute (e := {}) hpc tracker status⟩
  | acquire hpc hdesc hnew status => exact ⟨_, .acquire (e := {}) hpc hdesc hnew (some status)⟩
  | release hpc hfind status => exact ⟨_, .release (e := {}) hpc hfind (some status)⟩
  | replied hpc ht => exact ⟨_, .replied (e := {}) hpc ht⟩
  | repliedJob hpc hjob => exact ⟨_, .repliedJob (e := {}) hpc hjob⟩
  | pend hpc _ _ => exact ⟨_, .pend (e := {}) hpc⟩
  | getNone hpc _ => exact ⟨_, .getNone (e := {}) hpc⟩
  | get hpc hready => exact ⟨_, .get (e := {}) hpc hready⟩
  | noJob hpc hfind => exact ⟨_, .noJob (e := {}) hpc hfind⟩
  | last hpc hfind hque => exact ⟨_, .last (e := {}) hpc hfind hque⟩
  | hand hpc hfind hque _ => exact ⟨_, .hand (e := {}) hpc hfind hque⟩

section

variable {c : Pools} {freed : Packet → Prop} {w w' : World} {e : Outside}

theorem serverGet_turn {s s' : Sys} (hpc : s.pc .server = .wait)
    (hdesc : ∀ m rest, s.serverQue = m :: rest → m.desc ≠ .symAdd ∧
      (¬ c.InBand m → ∀ k, getPool c m.poolId = .ok k → 0 < c.count k))
    (h : serverGet c s true = some s') : Turn c freed s s' := by
  rw [serverGet] at h
  split at h
  · cases h
  next m rest hque =>
  obtain ⟨hserved, hstaff⟩ := hdesc m rest hque
  split at h
  next hin =>
    cases h
    exact .inBand hpc hque hserved hin
  next hin =>
  rw [dispatch] at h
  cases hpool : getPool c m.poolId with
  | error err =>
    have hpool' : getPool c (s.packet m).poolId = .error err := hpool
    simp only [hpool'] at h
    cases h
    exact .refuse hpc hque hserved _
  | ok k =>
    have hpool' : getPool c (s.packet m).poolId = .ok k := hpool
    have hk : Staffed c m k := ⟨hpool, hstaff hin k hpool⟩
    simp only [hpool', if_true] at h
    by_cases hjob : (s.packet m).jobId = 0
    · simp only [hjob, if_true] at h
      cases h
      exact .discrete hpc hque hserved hk hjob
    · simp only [hjob, if_false] at h
      cases hfind : s.findJob m.jobId with
      | none =>
        have hfind' : (s.take m rest).findJob (s.packet m).jobId = none := hfind
        simp only [hfind'] at h
        cases h
        exact .refuse hpc hque hserved _
      | some g =>
        have hfind' : (s.take m rest).findJob (s.packet m).jobId = some g := hfind
        simp only [hfind'] at h
        cases hempty : (s.jobs g).empty with
        | true =>
          have hempty' : ((s.take m rest).jobs g).empty = true := hempty
          simp only [hempty', if_true] at h
          cases h
          exact .first hpc hque hserved hk hjob hfind hempty
        | false =>
          have hempty' : ((s.take m rest).jobs g).empty = false := hempty
          rw [if_neg (Bool.eq_false_iff.mp hempty')] at h
          cases h
          exact .queued hpc hque hserved hk hjob hfind hempty

theorem outcome_frees {d : Desc} {result : Int} (h : outcome e d = .frees result) :
    d = .cmd ∧ 0 ≤ result := by
  cases d with
  | cmd =>
    rw [outcome] at h
    split at h
    · cases h
    · cases h
    · split at h
      · cases h
      next hneg =>
        cases h
        exact ⟨rfl, Int.not_lt.mp hneg⟩
  | rcmMsg =>
    rw [outcome] at h
    split at h <;> cases h
  | dpc =>
    rw [outcome] at h
    split at h <;> cases h
  | symIdx => cases h
  | symAdd => cases h
  | jobAcq => cases h
  | jobRel jobId => cases h

theorem outcome_cases {d : Desc} (hcall : Callable e d) (hserved : d ≠ .symAdd)
    (hacq : d ≠ .jobAcq) (hrel : ∀ jobId, d ≠ .jobRel jobId) :
    (∃ status, outcome e d = .replies status) ∨ ∃ result, outcome e d = .frees result := by
  cases d with
  | rcmMsg =>
    have hfxn : e.fxn ≠ .ok none := hcall
    rw [outcome]
    split
    · exact .inl ⟨_, rfl⟩
    next hnone => exact absurd hnone hfxn
    · exact .inl ⟨_, rfl⟩
  | cmd =>
    have hfxn : e.fxn ≠ .ok none := hcall
    rw [outcome]
    split
    · exact .inl ⟨_, rfl⟩
    next hnone => exact absurd hnone hfxn
    next result _ =>
      by_cases hneg : result < 0
      · exact .inl ⟨_, if_pos hneg⟩
      · exact .inr ⟨result, if_neg hneg⟩
  | dpc =>
    obtain ⟨result, hfxn⟩ : ∃ result, e.fxn = .ok (some result) := hcall
    rw [outcome, hfxn]
    exact .inl ⟨_, rfl⟩
  | symIdx => exact .inl ⟨_, rfl⟩
  | symAdd => exact absurd rfl hserved
  | jobAcq => exact absurd rfl hacq
  | jobRel jobId => exact absurd rfl (hrel jobId)

/-- The message has been freed. -/
def Freed (w : World) (p : Packet) : Prop := ∃ result, (p, result) ∈ w.frees

/-- A message that a step frees is a command that has succeeded. -/
def Frees (w w' : World) : Prop :=
  w'.frees = w.frees ∨
    ∃ p result, w'.frees = w.frees ++ [(p, result)] ∧ p.desc = .cmd ∧ 0 ≤ result

theorem exec_frees (w : World) (t : Tid) (p : Packet) : Frees w (exec w t p e) := by
  rw [exec.eq_def]
  split
  · exact .inl rfl
  · exact .inl rfl
  · split
    · exact .inl rfl
    next result hout => exact .inr ⟨p, result, rfl, outcome_frees hout⟩
    · exact .inl rfl
    · exact .inl rfl
    · exact .inl rfl

theorem advance_frees {t : Tid} (h : advance c w t e = some w') : Frees w w' := by
  rw [advance.eq_def] at h
  split at h
  · cases h
  · split at h
    · obtain ⟨s, _, rfl⟩ := Option.map_eq_some_iff.mp h
      exact .inl rfl
    · cases h
      exact exec_frees w _ _
    · cases h
      exact .inl rfl
    · obtain ⟨s, _, rfl⟩ := Option.map_eq_some_iff.mp h
      exact .inl rfl

theorem Frees.keep (h : Frees w w') {p : Packet} (hp : Freed w p) : Freed w' p := by
  obtain ⟨result, hmem⟩ := hp
  rcases h with heq | ⟨_, _, heq, _⟩
  · exact ⟨result, heq ▸ hmem⟩
  · exact ⟨result, heq ▸ List.mem_append_left _ hmem⟩

theorem exec_turn {t : Tid} {p : Packet} (hcrash : w.crashed = false)
    (hpc : w.sys.pc t = .exec p) (hserved : p.desc ≠ .symAdd) (hcall : Callable e p.desc) :
    Turn c (Freed (exec w t p e)) w.sys (exec w t p e).sys ∧ (exec w t p e).crashed = false := by
  rw [exec.eq_def]
  split
  next hdesc =>
    refine ⟨?_, hcrash⟩
    rw [acqJobId]
    split
    · exact .execute hpc _ _ (absurd · (Option.some_ne_none _))
    next hnew =>
      split
      · exact .acquire hpc hdesc hnew _
      · exact .execute hpc _ _ (absurd · (Option.some_ne_none _))
  next =>
    refine ⟨?_, hcrash⟩
    rw [relJobId]
    split
    · exact .execute hpc w.sys.jobId _ (absurd · (Option.some_ne_none _))
    next hfind => exact .release hpc hfind _
  next hacq hrel =>
    rcases outcome_cases hcall hserved hacq hrel with ⟨status, hout⟩ | ⟨result, hout⟩
    · rw [hout]
      exact ⟨.execute hpc w.sys.jobId _ (absurd · (Option.some_ne_none _)), hcrash⟩
    · rw [hout]
      refine ⟨.execute hpc w.sys.jobId _ ?_, hcrash⟩
      intro _
      exact ⟨result, List.mem_append_right _ (List.mem_singleton_self _)⟩

/-- As every message in the queue of a job is for a pool that exists, the first one is taken. -/
theorem workerNext_turn {s : Sys} {k i : Nat} {p : Packet} {posts : List Bool}
    (hpool : Pooled c s) (hposts : posts.headD true = true)
    (hpc : s.pc (.worker k i) = .next p) :
    Turn c freed s (workerNext c s (.worker k i) p posts) := by
  rw [workerNext]
  split
  next hfind => exact .noJob hpc hfind
  next g hfind =>
    rw [handOn.eq_def]
    cases hque : (s.jobs g).msgQue with
    | nil =>
      have h : Turn c freed s _ := .last hpc hfind hque
      simpa [hque, nextMessage, Sys.setJob, Sys.goto] using h
    | cons p' rest =>
      obtain ⟨k', hk'⟩ := hpool g p' (by simp [hque])
      have h : Turn c freed s _ := .hand hpc hfind hque hk'
      cases posts with
      | nil => simpa [hque, nextMessage, hk', Sys.setJob, Sys.goto, Sys.put] using h
      | cons post posts =>
        obtain rfl : post = true := hposts
        simpa [hque, nextMessage, hk', Sys.setJob, Sys.goto, Sys.put] using h

theorem advance_turn {t : Tid} (hcrash : w.crashed = false) (hpool : Pooled c w.sys)
    (hserved : ∀ p, w.sys.pc t = .exec p → p.desc ≠ .symAdd) (hmeets : Meets c w (.thread t e))
    (h : advance c w t e = some w') :
    Turn c (Freed w') w.sys w'.sys ∧ w'.crashed = false := by
  rw [advance.eq_def, if_neg (Bool.eq_false_iff.mp hcrash)] at h
  rw [Meets.eq_def] at hmeets
  simp only at hmeets
  split at h
  next hpc =>
    rw [hpc] at hmeets
    obtain ⟨hpost, hdesc⟩ := hmeets
    obtain ⟨s, hget, rfl⟩ := Option.map_eq_some_iff.mp h
    rw [hpost] at hget
    exact ⟨serverGet_turn hpc hdesc hget, hcrash⟩
  next p hpc =>
    cases h
    rw [hpc] at hmeets
    exact exec_turn hcrash hpc (hserved p hpc) hmeets
  next p k i hpc =>
    cases h
    rw [hpc] at hmeets
    exact ⟨workerNext_turn hpool hmeets hpc, hcrash⟩
  next hexec hserver hnext =>
    obtain ⟨s, hadv, rfl⟩ := Option.map_eq_some_iff.mp h
    refine ⟨?_, hcrash⟩
    rw [Server.advance.eq_def] at hadv
    split at hadv
    next hpc => exact absurd rfl (hserver hpc)
    next k i hpc =>
      split at hadv
      · cases hadv
      next hsem =>
        cases hadv
        obtain ⟨n, hn⟩ := Nat.exists_eq_succ_of_ne_zero (show w.sys.sem k ≠ 0 by omega)
        have hpred : w.sys.sem k - 1 = n := by omega
        rw [hpred]
        exact .pend hpc (by omega) hn
    · cases hadv
    next k i hpc =>
      split at hadv
      next hready =>
        cases hadv
        exact .getNone hpc hready
      next hready =>
        cases hadv
        exact .get hpc hready
    next p hpc => exact absurd hpc (hexec p)
    next hpc =>
      cases hadv
      exact .replied hpc (.inl rfl)
    next p status k i hpc =>
      cases hadv
      by_cases hjob : p.jobId = 0
      · rw [if_pos hjob]
        exact .replied hpc (.inr hjob)
      · rw [if_neg hjob]
        exact .repliedJob hpc hjob
    · cases hadv
    next p k i hpc => exact absurd rfl (hnext p k i hpc)

end

/-! ## The threads and what is done with -/

structure Crew (c : Pools) (freed : Packet → Prop) (s : Sys) : Prop where
  server : s.pc .server ≠ .get ∧ ∀ p, s.pc .server ≠ .next p
  workers : ∀ k i, s.pc (.worker k i) ≠ .wait → i < c.count k
  freeing : ∀ t p, s.pc t = .reply p none → freed p
  ended : ∀ p, (p, .executed none) ∈ s.ended → freed p
  served : ∀ p ∈ s.arrivals, p.desc ≠ .symAdd

section

variable {c : Pools} {freed : Packet → Prop} {s s' : Sys} {t : Tid} {q : Pc}

theorem Crew.goto (h : Crew c freed s) (hpc : s'.pc = update s.pc t q)
    (hserver : t = .server → q ≠ .get ∧ ∀ p, q ≠ .next p)
    (hworker : ∀ k i, t = .worker k i → q ≠ .wait → i < c.count k)
    (hfreeing : ∀ p, q = .reply p none → freed p)
    (hended : ∀ p, (p, .executed none) ∈ s'.ended → freed p)
    (hserved : ∀ p ∈ s'.arrivals, p.desc ≠ .symAdd) : Crew c freed s' := by
  refine ⟨?_, ?_, ?_, hended, hserved⟩
  · rw [hpc]
    by_cases ht : t = .server
    · subst ht
      rw [update_self]
      exact hserver rfl
    · rw [update_of_ne (Ne.symm ht)]
      exact h.server
  · intro k i hne
    rw [hpc] at hne
    by_cases ht : t = .worker k i
    · subst ht
      rw [update_self] at hne
      exact hworker k i rfl hne
    · rw [update_of_ne (Ne.symm ht)] at hne
      exact h.workers k i hne
  · intro t' p hp
    rw [hpc] at hp
    by_cases ht : t' = t
    · subst ht
      rw [update_self] at hp
      exact hfreeing p hp
    · rw [update_of_ne ht] at hp
      exact h.freeing t' p hp

theorem Crew.finish_ended (h : Crew c freed s) {p : Packet} {e : Ending}
    (hp : e = .executed none → freed p) {b : Packet}
    (hb : (b, .executed none) ∈ s.ended ++ [(p, e)]) : freed b := by
  rcases List.mem_append.mp hb with hb | hb
  · exact h.ended b hb
  · obtain ⟨rfl, he⟩ := Prod.mk.inj (List.mem_singleton.mp hb)
    exact hp he.symm

theorem Crew.take_served (h : Crew c freed s) {m : Message} (hm : m.desc ≠ .symAdd) {b : Packet}
    (hb : b ∈ s.arrivals ++ [s.packet m]) : b.desc ≠ .symAdd := by
  rcases List.mem_append.mp hb with hb | hb
  · exact h.served b hb
  · rw [List.mem_singleton.mp hb]
    exact hm

theorem turn_crew (h : Crew c freed s) (hturn : Turn c freed s s') : Crew c freed s' := by
  have hbusy : ∀ k i, s.pc (.worker k i) ≠ .wait → ∀ k' i', Tid.worker k i = .worker k' i' →
      i' < c.count k' := by
    intro k i hne k' i' heq
    cases heq
    exact h.workers k i hne
  cases hturn with
  | inBand hpc hque hdesc hin =>
    exact h.goto rfl (fun _ => ⟨nofun, nofun⟩) nofun nofun h.ended
      (fun _ hb => h.take_served hdesc hb)
  | refuse hpc hque hdesc status =>
    exact ⟨h.server, h.workers, h.freeing,
      fun _ hb => h.finish_ended (e := .refused status) nofun hb,
      fun _ hb => h.take_served hdesc hb⟩
  | discrete hpc hque hdesc hpool hjob =>
    exact ⟨h.server, h.workers, h.freeing, h.ended, fun _ hb => h.take_served hdesc hb⟩
  | first hpc hque hdesc hpool hjob hfind hempty =>
    exact ⟨h.server, h.workers, h.freeing, h.ended, fun _ hb => h.take_served hdesc hb⟩
  | queued hpc hque hdesc hpool hjob hfind hempty =>
    exact ⟨h.server, h.workers, h.freeing, h.ended, fun _ hb => h.take_served hdesc hb⟩
  | @execute t p hpc tracker status hfreed =>
    refine h.goto rfl (fun _ => ⟨nofun, nofun⟩) ?_ ?_ h.ended h.served
    · intro k i ht _
      exact h.workers k i (by rw [← ht, hpc]; nofun)
    · intro b hb
      cases hb
      exact hfreed rfl
  | acquire hpc hdesc hnew status =>
    refine h.goto rfl (fun _ => ⟨nofun, nofun⟩) ?_ nofun h.ended h.served
    intro k i ht _
    exact h.workers k i (by rw [← ht, hpc]; nofun)
  | release hpc hfind status =>
    refine h.goto rfl (fun _ => ⟨nofun, nofun⟩) ?_ nofun ?_ h.served
    · intro k i ht _
      exact h.workers k i (by rw [← ht, hpc]; nofun)
    · intro b hb
      rcases List.mem_append.mp hb with hb | hb
      · exact h.ended b hb
      · obtain ⟨p', _, heq⟩ := List.mem_map.mp hb
        cases heq
  | replied hpc ht =>
    refine h.goto rfl (fun _ => ⟨nofun, nofun⟩) ?_ nofun ?_ h.served
    · intro k i _ hne
      exact absurd rfl hne
    · intro b hb
      refine h.finish_ended ?_ hb
      intro heq
      cases heq
      exact h.freeing _ _ hpc
  | @repliedJob k i p status hpc hjob =>
    refine h.goto rfl nofun ?_ nofun ?_ h.served
    · intro k' i' ht _
      exact hbusy k i (by rw [hpc]; nofun) k' i' ht
    · intro b hb
      refine h.finish_ended ?_ hb
      intro heq
      cases heq
      exact h.freeing _ _ hpc
  | pend hpc hi hsem =>
    refine h.goto rfl nofun ?_ nofun h.ended h.served
    intro k' i' ht _
    cases ht
    exact hi
  | getNone hpc hready =>
    exact h.goto rfl nofun (fun _ _ _ hne => absurd rfl hne) nofun h.ended h.served
  | @get k i p rest hpc hready =>
    refine h.goto rfl nofun ?_ nofun h.ended h.served
    intro k' i' ht _
    exact hbusy k i (by rw [hpc]; nofun) k' i' ht
  | noJob hpc hfind =>
    exact h.goto rfl nofun (fun _ _ _ hne => absurd rfl hne) nofun h.ended h.served
  | last hpc hfind hque =>
    exact h.goto rfl nofun (fun _ _ _ hne => absurd rfl hne) nofun h.ended h.served
  | hand hpc hfind hque hpool =>
    exact h.goto rfl nofun (fun _ _ _ hne => absurd rfl hne) nofun h.ended h.served

end

/-! ## Posts -/

/-- The number of workers of a pool that are about to take a message. -/
def gets (c : Pools) (s : Sys) (k : Nat) : Nat :=
  Nat.count (fun i => s.pc (.worker k i) = .get) (c.count k)

/-- There is a post, or a worker that has been woken, for every message on a ready queue; and
messages are put only where there are workers. -/
structure Posted (c : Pools) (s : Sys) : Prop where
  woken : ∀ k, (s.readyQueue k).length ≤ s.sem k + gets c s k
  ready : ∀ k, s.readyQueue k ≠ [] → 0 < c.count k
  waiting : ∀ g, ∀ p ∈ (s.jobs g).msgQue, ∀ k, getPool c p.poolId = .ok k → 0 < c.count k

section

variable {c : Pools} {freed : Packet → Prop} {s s' : Sys} {k i : Nat} {t : Tid} {q : Pc}
  {p : Packet}

theorem gets_congr (h : ∀ k i, s'.pc (.worker k i) = .get ↔ s.pc (.worker k i) = .get) (k : Nat) :
    gets c s' k = gets c s k :=
  count_congr_below fun i _ => h k i

theorem gets_goto (hpc : s'.pc = update s.pc t q) (hold : s.pc t ≠ .get) (hnew : q ≠ .get)
    (k : Nat) : gets c s' k = gets c s k := by
  apply gets_congr
  intro k i
  rw [hpc]
  by_cases ht : Tid.worker k i = t
  · subst ht
    rw [update_self]
    exact iff_of_false hnew hold
  · rw [update_of_ne ht]

theorem gets_other {k' : Nat} (hpc : s'.pc = update s.pc (.worker k i) q) (hk : k' ≠ k) :
    gets c s' k' = gets c s k' := by
  apply count_congr_below
  intro i' _
  rw [hpc, update_of_ne]
  intro heq
  cases heq
  exact hk rfl

theorem gets_come (hpc : s'.pc = update s.pc (.worker k i) .get) (hold : s.pc (.worker k i) ≠ .get)
    (hi : i < c.count k) : gets c s' k = gets c s k + 1 := by
  apply count_set hi hold
  · rw [hpc, update_self]
  · intro i' hi'
    rw [hpc, update_of_ne]
    intro heq
    cases heq
    exact hi' rfl

theorem gets_leave (hpc : s'.pc = update s.pc (.worker k i) q) (hold : s.pc (.worker k i) = .get)
    (hnew : q ≠ .get) (hi : i < c.count k) : gets c s k = gets c s' k + 1 := by
  apply count_set hi
  · rw [hpc, update_self]
    exact hnew
  · exact hold
  · intro i' hi'
    rw [hpc, update_of_ne]
    intro heq
    cases heq
    exact hi' rfl

theorem Posted.keep (h : Posted c s) (hready : s'.readyQueue = s.readyQueue)
    (hsem : s'.sem = s.sem) (hgets : ∀ k, gets c s' k = gets c s k)
    (hque : ∀ g, ∀ p ∈ (s'.jobs g).msgQue, p ∈ (s.jobs g).msgQue) : Posted c s' := by
  refine ⟨?_, ?_, ?_⟩
  · intro k
    rw [hready, hsem, hgets]
    exact h.woken k
  · rw [hready]
    exact h.ready
  · intro g p hp
    exact h.waiting g p (hque g p hp)

theorem Posted.put (h : Posted c s)
    (hready : s'.readyQueue = update s.readyQueue k (s.readyQueue k ++ [p]))
    (hsem : s'.sem = update s.sem k (s.sem k + 1)) (hgets : ∀ k, gets c s' k = gets c s k)
    (hk : 0 < c.count k) (hque : ∀ g, ∀ p ∈ (s'.jobs g).msgQue, p ∈ (s.jobs g).msgQue) :
    Posted c s' := by
  refine ⟨?_, ?_, ?_⟩
  · intro k'
    have hwoken := h.woken k'
    rw [hready, hsem, hgets]
    by_cases hk' : k' = k
    · subst hk'
      rw [update_self, update_self, List.length_append, List.length_singleton]
      omega
    · rw [update_of_ne hk', update_of_ne hk']
      exact hwoken
  · intro k' hne
    by_cases hk' : k' = k
    · rw [hk']
      exact hk
    · rw [hready, update_of_ne hk'] at hne
      exact h.ready k' hne
  · intro g b hb
    exact h.waiting g b (hque g b hb)

theorem mem_msgQue_update {g : Nat} {j : JobStream} (hj : ∀ b ∈ j.msgQue, b ∈ (s.jobs g).msgQue)
    (g' : Nat) (b : Packet) (hb : b ∈ (update s.jobs g j g').msgQue) : b ∈ (s.jobs g').msgQue := by
  by_cases hg : g' = g
  · subst hg
    rw [update_self] at hb
    exact hj b hb
  · rwa [update_of_ne hg] at hb

theorem turn_posted (h : Posted c s) (hcrew : Crew c freed s) (hturn : Turn c freed s s') :
    Posted c s' := by
  have hsame : ∀ g, ∀ b ∈ (s.jobs g).msgQue, b ∈ (s.jobs g).msgQue := fun _ _ hb => hb
  cases hturn with
  | inBand hpc hque hdesc hin =>
    exact h.keep rfl rfl (gets_goto rfl (by rw [hpc]; exact Pc.noConfusion) Pc.noConfusion) hsame
  | refuse hpc hque hdesc status => exact h.keep rfl rfl (fun _ => rfl) hsame
  | discrete hpc hque hdesc hpool hjob => exact h.put rfl rfl (fun _ => rfl) hpool.2 hsame
  | first hpc hque hdesc hpool hjob hfind hempty =>
    exact h.put rfl rfl (fun _ => rfl) hpool.2 (mem_msgQue_update fun _ hb => hb)
  | @queued m rest k g hpc hque hdesc hpool hjob hfind hempty =>
    refine ⟨h.woken, h.ready, ?_⟩
    intro g' b hb k' hk'
    by_cases hg : g' = g
    · subst hg
      have hb' : b ∈ (s.jobs g').msgQue ++ [s.packet m] := by
        simpa [Sys.setJob] using hb
      rcases List.mem_append.mp hb' with hb' | hb'
      · exact h.waiting g' b hb' k' hk'
      · rw [List.mem_singleton.mp hb', show (s.packet m).poolId = m.poolId from rfl, hpool.1] at hk'
        cases hk'
        exact hpool.2
    · refine h.waiting g' b ?_ k' hk'
      simpa [Sys.setJob, Sys.take, update_of_ne hg] using hb
  | execute hpc tracker status hfreed =>
    exact h.keep rfl rfl (gets_goto rfl (by rw [hpc]; exact Pc.noConfusion) Pc.noConfusion) hsame
  | acquire hpc hdesc hnew status =>
    exact h.keep rfl rfl (gets_goto rfl (by rw [hpc]; exact Pc.noConfusion) Pc.noConfusion)
      (mem_msgQue_update fun _ hb => absurd hb List.not_mem_nil)
  | release hpc hfind status =>
    exact h.keep rfl rfl (gets_goto rfl (by rw [hpc]; exact Pc.noConfusion) Pc.noConfusion)
      (mem_msgQue_update fun _ hb => absurd hb List.not_mem_nil)
  | replied hpc ht =>
    exact h.keep rfl rfl (gets_goto rfl (by rw [hpc]; exact Pc.noConfusion) Pc.noConfusion) hsame
  | repliedJob hpc hjob =>
    exact h.keep rfl rfl (gets_goto rfl (by rw [hpc]; exact Pc.noConfusion) Pc.noConfusion) hsame
  | @pend k i n hpc hi hsem =>
    refine ⟨?_, h.ready, h.waiting⟩
    intro k'
    have hwoken := h.woken k'
    by_cases hk : k' = k
    · subst hk
      have hcome : gets c ({ s with sem := update s.sem k' n }.goto (.worker k' i) .get) k' =
          gets c s k' + 1 := gets_come rfl (by rw [hpc]; exact Pc.noConfusion) hi
      rw [hcome]
      show (s.readyQueue k').length ≤ update s.sem k' n k' + _
      rw [update_self]
      omega
    · rw [gets_other (s := s) rfl hk]
      show (s.readyQueue k').length ≤ update s.sem k n k' + _
      rw [update_of_ne hk]
      exact hwoken
  | @getNone k i hpc hready =>
    refine ⟨?_, h.ready, h.waiting⟩
    intro k'
    by_cases hk : k' = k
    · subst hk
      show (s.readyQueue k').length ≤ _
      rw [hready]
      exact Nat.zero_le _
    · rw [gets_other (s := s) rfl hk]
      exact h.woken k'
  | @get k i p rest hpc hready =>
    have hi := hcrew.workers k i (by rw [hpc]; exact Pc.noConfusion)
    refine ⟨?_, ?_, h.waiting⟩
    · intro k'
      have hwoken := h.woken k'
      by_cases hk : k' = k
      · subst hk
        have hleave : gets c s k' =
            gets c ({ s with readyQueue := update s.readyQueue k' rest }.begin (.worker k' i) p) k'
              + 1 := gets_leave (q := .exec p) rfl hpc Pc.noConfusion hi
        show (update s.readyQueue k' rest k').length ≤ s.sem k' + _
        rw [hready, List.length_cons] at hwoken
        rw [update_self]
        omega
      · rw [gets_other (s := s) rfl hk]
        show (update s.readyQueue k rest k').length ≤ s.sem k' + _
        rw [update_of_ne hk]
        exact hwoken
    · intro k' hne
      by_cases hk : k' = k
      · subst hk
        exact h.ready k' (by rw [hready]; exact List.cons_ne_nil _ _)
      · refine h.ready k' ?_
        intro hnil
        apply hne
        show update s.readyQueue k rest k' = []
        rw [update_of_ne hk, hnil]
  | noJob hpc hfind =>
    exact h.keep rfl rfl (gets_goto rfl (by rw [hpc]; exact Pc.noConfusion) Pc.noConfusion) hsame
  | last hpc hfind hque =>
    exact h.keep rfl rfl (gets_goto rfl (by rw [hpc]; exact Pc.noConfusion) Pc.noConfusion)
      (mem_msgQue_update fun _ hb => absurd hb List.not_mem_nil)
  | @hand k i g k' p p' rest hpc hfind hque hpool =>
    have hstaff : 0 < c.count k' := h.waiting g p' (by rw [hque]; exact List.mem_cons_self) k' hpool
    refine h.put rfl rfl (gets_goto rfl (by rw [hpc]; exact Pc.noConfusion) Pc.noConfusion) hstaff
      (mem_msgQue_update ?_)
    intro b hb
    rw [hque]
    exact List.mem_cons_of_mem _ hb

end

/-! ## Jobs that are not empty -/

/-- The thread has a message of the job, or has just executed one. -/
def Carries (jobId : UInt16) : Pc → Prop
  | .exec p => p.jobId = jobId
  | .reply p _ => p.jobId = jobId
  | .next p => p.jobId = jobId
  | _ => False

/-- A message with the job id is on a ready queue or with a worker. -/
def OnWay (s : Sys) (jobId : UInt16) : Prop :=
  (∃ k p, p ∈ s.readyQueue k ∧ p.jobId = jobId) ∨ ∃ k i, Carries jobId (s.pc (.worker k i))

structure Driven (s : Sys) : Prop where
  empty : ∀ g ∈ s.jobList, (s.jobs g).empty = true → (s.jobs g).msgQue = []
  onWay : ∀ g ∈ s.jobList, (s.jobs g).empty = false → OnWay s (s.jobs g).jobId

section

variable {c : Pools} {freed : Packet → Prop} {s s' : Sys} {t : Tid} {q : Pc} {g : Nat}
  {jobId : UInt16}

/-- A message on its way stays so if no ready queue loses one and no thread that carries one for
the job stops to do so. -/
theorem OnWay.goto (h : OnWay s jobId) (hpc : s'.pc = update s.pc t q)
    (hready : ∀ k p, p ∈ s.readyQueue k → ∃ k', p ∈ s'.readyQueue k')
    (hcarry : ∀ k i, t = .worker k i → Carries jobId (s.pc t) → Carries jobId q) :
    OnWay s' jobId := by
  rcases h with ⟨k, p, hp, hjob⟩ | ⟨k, i, hc⟩
  · obtain ⟨k', hk'⟩ := hready k p hp
    exact .inl ⟨k', p, hk', hjob⟩
  · refine .inr ⟨k, i, ?_⟩
    rw [hpc]
    by_cases ht : Tid.worker k i = t
    · subst ht
      rw [update_self]
      exact hcarry k i rfl hc
    · rw [update_of_ne ht]
      exact hc

theorem OnWay.keep (h : OnWay s jobId) (hpc : s'.pc = s.pc)
    (hready : ∀ k p, p ∈ s.readyQueue k → ∃ k', p ∈ s'.readyQueue k') : OnWay s' jobId := by
  rcases h with ⟨k, p, hp, hjob⟩ | ⟨k, i, hc⟩
  · obtain ⟨k', hk'⟩ := hready k p hp
    exact .inl ⟨k', p, hk', hjob⟩
  · exact .inr ⟨k, i, by rw [hpc]; exact hc⟩

theorem mem_ready_put {k : Nat} {p : Packet}
    (hready : s'.readyQueue = update s.readyQueue k (s.readyQueue k ++ [p])) (k' : Nat)
    (b : Packet) (hb : b ∈ s.readyQueue k') : ∃ k'', b ∈ s'.readyQueue k'' := by
  refine ⟨k', ?_⟩
  rw [hready]
  by_cases hk : k' = k
  · subst hk
    rw [update_self]
    exact List.mem_append_left _ hb
  · rwa [update_of_ne hk]

theorem Driven.keep (h : Driven s) (hlist : s'.jobList = s.jobList) (hjobs : s'.jobs = s.jobs)
    (honWay : ∀ g ∈ s.jobList, OnWay s (s.jobs g).jobId → OnWay s' (s.jobs g).jobId) :
    Driven s' := by
  refine ⟨?_, ?_⟩
  · rw [hlist, hjobs]
    exact h.empty
  · intro g hg hempty
    rw [hlist] at hg
    rw [hjobs] at hempty ⊢
    exact honWay g hg (h.onWay g hg hempty)

theorem Driven.setJob (h : Driven s) {j : JobStream}
    (hlist : ∀ g' ∈ s'.jobList, g' ≠ g → g' ∈ s.jobList)
    (hjobs : s'.jobs = update s.jobs g j) (hempty : j.empty = true → j.msgQue = [])
    (hself : g ∈ s'.jobList → j.empty = false → OnWay s' j.jobId)
    (honWay : ∀ g' ∈ s.jobList, g' ≠ g → OnWay s (s.jobs g').jobId → OnWay s' (s.jobs g').jobId) :
    Driven s' := by
  refine ⟨?_, ?_⟩
  · intro g' hg' he
    rw [hjobs] at he ⊢
    by_cases hg : g' = g
    · subst hg
      rw [update_self] at he ⊢
      exact hempty he
    · rw [update_of_ne hg] at he ⊢
      exact h.empty g' (hlist g' hg' hg) he
  · intro g' hg' he
    rw [hjobs] at he ⊢
    by_cases hg : g' = g
    · subst hg
      rw [update_self] at he ⊢
      exact hself hg' he
    · rw [update_of_ne hg] at he ⊢
      have hmem := hlist g' hg' hg
      exact honWay g' hmem hg (h.onWay g' hmem he)

theorem carries_next {p : Packet} {q : Pc} (hpc : s.pc t = .next p) (hne : p.jobId ≠ jobId) :
    Carries jobId (s.pc t) → Carries jobId q := by
  intro hc
  rw [hpc] at hc
  exact absurd hc hne

theorem turn_driven (h : Driven s) (htable : JobTable c s) (hturn : Turn c freed s s') :
    Driven s' := by
  have hsame : ∀ k p, p ∈ s.readyQueue k → ∃ k', p ∈ s.readyQueue k' := fun k _ hp => ⟨k, hp⟩
  have hlisted : ∀ g g', g' ∈ s.jobList → g' ≠ g → g' ∈ s.jobList := fun _ _ hg _ => hg
  cases hturn with
  | inBand hpc hque hdesc hin =>
    exact h.keep rfl rfl (fun g _ hw => hw.goto rfl hsame nofun)
  | refuse hpc hque hdesc status => exact h.keep rfl rfl (fun g _ hw => hw.keep rfl hsame)
  | discrete hpc hque hdesc hpool hjob =>
    exact h.keep rfl rfl (fun g _ hw => hw.keep rfl (mem_ready_put rfl))
  | @first m rest k g hpc hque hdesc hpool hjob hfind hempty =>
    obtain ⟨hmem, hid⟩ := findJob_eq_some hfind
    refine h.setJob (hlisted g) rfl nofun ?_ (fun g' _ _ hw => hw.keep rfl (mem_ready_put rfl))
    intro _ _
    refine .inl ⟨k, s.packet m, ?_, hid.symm⟩
    show s.packet m ∈ update s.readyQueue k (s.readyQueue k ++ [s.packet m]) k
    rw [update_self]
    exact List.mem_append_right _ (List.mem_singleton_self _)
  | @queued m rest k g hpc hque hdesc hpool hjob hfind hempty =>
    obtain ⟨hmem, _⟩ := findJob_eq_some hfind
    refine h.setJob (hlisted g) rfl ?_ ?_ (fun g' _ _ hw => hw.keep rfl hsame)
    · intro htrue
      rw [show (s.jobs g).empty = true from htrue] at hempty
      cases hempty
    · intro _ _
      exact (h.onWay g hmem hempty).keep rfl hsame
  | execute hpc tracker status hfreed =>
    refine h.keep rfl rfl (fun g _ hw => hw.goto rfl hsame ?_)
    intro k i _ hc
    rw [hpc] at hc
    exact hc
  | acquire hpc hdesc hnew status =>
    refine h.setJob (g := s.allocated) ?_ rfl (fun _ => rfl) nofun ?_
    · intro g' hg' hne
      rcases List.mem_append.mp hg' with hg' | hg'
      · exact hg'
      · exact absurd (List.mem_singleton.mp hg') hne
    · intro g' _ _ hw
      refine hw.goto rfl hsame ?_
      intro k i _ hc
      rw [hpc] at hc
      exact hc
  | @release t p hpc jobId g hfind status =>
    refine h.setJob (g := g) (fun _ hg' _ => List.mem_of_mem_erase hg') rfl (fun _ => rfl) ?_ ?_
    · intro hmem
      exact absurd hmem htable.nodup.not_mem_erase
    · intro g' _ _ hw
      refine hw.goto rfl hsame ?_
      intro k i _ hc
      rw [hpc] at hc
      exact hc
  | @replied t p status hpc ht =>
    refine h.keep rfl rfl (fun g hg hw => hw.goto rfl hsame ?_)
    intro k i hworker hc
    rw [hpc] at hc
    rcases ht with rfl | hzero
    · cases hworker
    · -- a job has an id, and this message has none
      exact absurd (hc.symm.trans hzero) (htable.nonzero g hg)
  | repliedJob hpc hjob =>
    refine h.keep rfl rfl (fun g _ hw => hw.goto rfl hsame ?_)
    intro _ _ _ hc
    rw [hpc] at hc
    exact hc
  | pend hpc hi hsem =>
    refine h.keep rfl rfl (fun g _ hw => hw.goto rfl hsame ?_)
    intro _ _ _ hc
    rw [hpc] at hc
    cases hc
  | getNone hpc hready =>
    refine h.keep rfl rfl (fun g _ hw => hw.goto rfl hsame ?_)
    intro _ _ _ hc
    rw [hpc] at hc
    cases hc
  | @get k i p rest hpc hready =>
    -- the message at the head is carried by the worker now
    refine h.keep rfl rfl ?_
    intro g _ hw
    have hpc' : ∀ k' i', Carries (s.jobs g).jobId (s.pc (.worker k' i')) →
        Carries (s.jobs g).jobId (update s.pc (.worker k i) (.exec p) (.worker k' i')) := by
      intro k' i' hc
      rw [update_of_ne]
      · exact hc
      · intro heq
        rw [heq, hpc] at hc
        cases hc
    rcases hw with ⟨k', b, hb, hjob⟩ | ⟨k', i', hc⟩
    · by_cases hk : k' = k
      · subst hk
        rw [hready] at hb
        rcases List.mem_cons.mp hb with rfl | hb
        · refine .inr ⟨k', i, ?_⟩
          show Carries _ (update s.pc (.worker k' i) (.exec b) (.worker k' i))
          rw [update_self]
          exact hjob
        · refine .inl ⟨k', b, ?_, hjob⟩
          show b ∈ update s.readyQueue k' rest k'
          rwa [update_self]
      · refine .inl ⟨k', b, ?_, hjob⟩
        show b ∈ update s.readyQueue k rest k'
        rwa [update_of_ne hk]
    · exact .inr ⟨k', i', hpc' k' i' hc⟩
  | noJob hpc hfind =>
    refine h.keep rfl rfl (fun g hg hw => hw.goto rfl hsame ?_)
    intro _ _ _
    exact carries_next hpc (findJob_eq_none hfind hg).symm
  | @last k i g p hpc hfind hque =>
    obtain ⟨hmem, hid⟩ := findJob_eq_some hfind
    refine h.setJob (hlisted g) rfl (fun _ => rfl) nofun ?_
    intro g' hg' hne hw
    refine hw.goto rfl hsame ?_
    intro _ _ _
    refine carries_next hpc ?_
    intro heq
    exact hne (htable.ids g' hg' g hmem (heq.symm.trans hid.symm))
  | @hand k i g k' p p' rest hpc hfind hque hpool =>
    obtain ⟨hmem, hid⟩ := findJob_eq_some hfind
    refine h.setJob (hlisted g) rfl ?_ ?_ ?_
    · intro htrue
      have hnil := h.empty g hmem htrue
      rw [hque] at hnil
      cases hnil
    · intro _ _
      have hjob := (htable.stream g p' (by rw [hque]; exact List.mem_cons_self)).2
      refine .inl ⟨k', p', ?_, hjob⟩
      show p' ∈ update s.readyQueue k' (s.readyQueue k' ++ [p']) k'
      rw [update_self]
      exact List.mem_append_right _ (List.mem_singleton_self _)
    · intro g' hg' hne hw
      refine hw.goto rfl (mem_ready_put rfl) ?_
      intro _ _ _
      refine carries_next hpc ?_
      intro heq
      exact hne (htable.ids g' hg' g hmem (heq.symm.trans hid.symm))

end

end Omap4Hal.Rcm.Accounts

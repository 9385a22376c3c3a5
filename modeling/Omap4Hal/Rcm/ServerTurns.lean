import Omap4Hal.Rcm.ServerPlaces

/- Whose turn it is in a job stream of an RcmServer. A message of a job that is on a ready
   queue or with a worker has the turn: while there is one the job is not `empty`, and no
   other message of the job gets there (`Turns`).

   A worker finds the job of the message it has executed by the job id. This needs that the
   id has not been given to a new job in the meantime (`Meets`). -/
namespace Omap4Hal.Rcm.Server

open Lib
open Function (update update_self update_of_ne)

/-- The message that a worker executes, or has executed and not yet looked for the next. -/
def Pc.holds : Pc → Option Packet
  | .exec p => some p
  | .reply p _ => some p
  | .next p => some p
  | _ => none

inductive TurnPlace where
  | ready (k : Nat)
  | worker (k i : Nat)

/-- The message is on a ready queue or with a worker. -/
def Sys.HeldAt (s : Sys) (p : Packet) : TurnPlace → Prop
  | .ready k => p ∈ s.readyQueue k
  | .worker k i => (s.pc (.worker k i)).holds = some p

/-- The server has no message of the job: none waits, is on a ready queue or is executed. -/
structure Sys.Idle (s : Sys) (g : Nat) : Prop where
  waiting : (s.jobs g).msgQue = []
  ready : ∀ k, ∀ p ∈ s.readyQueue k, p.stream ≠ some g
  running : ∀ k i p, (s.pc (.worker k i)).running = some p → p.stream ≠ some g

/-- The condition on a step. A message of a job is executed by the server thread only if
there is no other one of that job; and a job id is given out only if no message with that id
is on a ready queue or with a worker. -/
def Meets (c : Pools) (s : Sys) : Act → Prop
  | .arrive _ => True
  | .thread t _ =>
    (t = .server → s.pc .server = .wait → ∀ m rest, s.serverQue = m :: rest → c.InBand m →
      ∀ g, (s.packet m).stream = some g → s.Idle g) ∧
    (∀ p, s.pc t = .exec p → p.desc = .jobAcq →
      ∀ jobId, (newJobId s.inUse 0xFFFF s.jobId).2 = some jobId →
        ∀ q l, s.HeldAt q l → q.jobId ≠ jobId)

def Sys.Busy (s : Sys) (g : Nat) : Prop := ∃ p l, s.HeldAt p l ∧ p.stream = some g

structure Turns (s : Sys) : Prop where
  single : ∀ g p p' l l', s.HeldAt p l → s.HeldAt p' l' → p.stream = some g → p'.stream = some g →
    p = p' ∧ l = l'
  empty : ∀ g ∈ s.jobList, (s.jobs g).empty = true ↔ ¬ s.Busy g
  idle : ∀ g ∈ s.jobList, (s.jobs g).empty = true → (s.jobs g).msgQue = []
  born : ∀ g, s.Busy g → g < s.allocated
  /-- The job that a worker will find is that of its message. -/
  owner : ∀ p l, s.HeldAt p l → ∀ g ∈ s.jobList, (s.jobs g).jobId = p.jobId ↔ p.stream = some g

section Held

variable {s s' : Sys} {t : Tid} {p : Packet} {q q' : Pc} {g k i : Nat} {l l' : TurnPlace}

theorem Sys.HeldAt.busy (h : s.HeldAt p l) (hp : p.stream = some g) : s.Busy g := ⟨p, l, h, hp⟩

theorem holds_keep (hpc : s.pc t = q) (hpc' : s'.pc = update s.pc t q')
    (hq : q'.holds = q.holds ∨ t = .server) (k i : Nat) :
    (s'.pc (.worker k i)).holds = (s.pc (.worker k i)).holds := by
  by_cases ht : t = .worker k i
  · subst ht
    rw [hpc', update_self, hpc]
    exact hq.resolve_right Tid.noConfusion
  · rw [hpc', update_of_ne (Ne.symm ht)]

theorem heldAt_congr (hready : s'.readyQueue = s.readyQueue)
    (hholds : ∀ k i, (s'.pc (.worker k i)).holds = (s.pc (.worker k i)).holds) :
    s'.HeldAt = s.HeldAt := by
  funext p l
  cases l with
  | ready k => simp only [Sys.HeldAt, hready]
  | worker k i => simp only [Sys.HeldAt, hholds]

theorem heldAt_release (hpc' : s'.pc = update s.pc (.worker k i) .wait)
    (hready : s'.readyQueue = s.readyQueue) (b : Packet) (r : TurnPlace) :
    s'.HeldAt b r ↔ s.HeldAt b r ∧ r ≠ .worker k i := by
  cases r with
  | ready k' => simp [Sys.HeldAt, hready]
  | worker k' i' =>
    by_cases heq : k' = k ∧ i' = i
    · obtain ⟨rfl, rfl⟩ := heq
      simp [Sys.HeldAt, hpc', Pc.holds]
    · have hne : Tid.worker k' i' ≠ .worker k i := by
        intro h
        cases h
        exact heq ⟨rfl, rfl⟩
      simp [Sys.HeldAt, hpc', hne, heq]

theorem Turns.keep (h : Turns s) (hheld : s'.HeldAt = s.HeldAt) (hlist : s'.jobList = s.jobList)
    (halloc : s'.allocated = s.allocated) (hid : ∀ g, (s'.jobs g).jobId = (s.jobs g).jobId)
    (hempty : ∀ g, (s'.jobs g).empty = (s.jobs g).empty)
    (hidle : ∀ g ∈ s.jobList, (s.jobs g).empty = true → (s'.jobs g).msgQue = []) : Turns s' := by
  have hbusy : s'.Busy = s.Busy := by
    funext g
    rw [Sys.Busy, hheld]
    rfl
  refine ⟨?_, ?_, ?_, ?_, ?_⟩
  · rw [hheld]
    exact h.single
  · intro g hg
    rw [hlist] at hg
    rw [hempty, hbusy]
    exact h.empty g hg
  · intro g hg he
    rw [hlist] at hg
    rw [hempty] at he
    exact hidle g hg he
  · rw [hbusy, halloc]
    exact h.born
  · intro p l hp g hg
    rw [hheld] at hp
    rw [hlist] at hg
    rw [hid]
    exact h.owner p l hp g hg

/-- Two messages of one job are the same one, if this holds of those before and the new one is
the only one of its job. -/
theorem single_of (h : Turns s) (hback : ∀ b r, s'.HeldAt b r → s.HeldAt b r ∨ (b = p ∧ r = l))
    (hfree : ∀ g, p.stream = some g → ∀ b r, s'.HeldAt b r → b.stream = some g → b = p ∧ r = l)
    (g : Nat) (b b' : Packet) (r r' : TurnPlace) (hb : s'.HeldAt b r) (hb' : s'.HeldAt b' r')
    (hg : b.stream = some g) (hg' : b'.stream = some g) : b = b' ∧ r = r' := by
  rcases hback b r hb with hold | ⟨rfl, rfl⟩
  · rcases hback b' r' hb' with hold' | ⟨rfl, rfl⟩
    · exact h.single g b b' r r' hold hold' hg hg'
    · exact hfree g hg' b r hb hg
  · obtain ⟨h₁, h₂⟩ := hfree g hg b' r' hb' hg'
    exact ⟨h₁.symm, h₂.symm⟩

theorem heldAt_put (hready : s'.readyQueue = update s.readyQueue k (s.readyQueue k ++ [p]))
    (hholds : ∀ k i, (s'.pc (.worker k i)).holds = (s.pc (.worker k i)).holds) (b : Packet)
    (r : TurnPlace) : s'.HeldAt b r ↔ s.HeldAt b r ∨ (b = p ∧ r = .ready k) := by
  cases r with
  | ready k' =>
    by_cases hk : k' = k
    · subst hk
      simp [Sys.HeldAt, hready]
    · simp [Sys.HeldAt, hready, hk]
  | worker k' i' => simp [Sys.HeldAt, hholds]

theorem heldAt_get {rest : List Packet} (hpc : s.pc (.worker k i) = .get)
    (hpc' : s'.pc = update s.pc (.worker k i) (.exec p)) (hready : s.readyQueue k = p :: rest)
    (hready' : s'.readyQueue = update s.readyQueue k rest) (hnodup : (s.readyQueue k).Nodup)
    (b : Packet) (r : TurnPlace) :
    s'.HeldAt b r ↔ (b = p ∧ r = .worker k i) ∨ (s.HeldAt b r ∧ ¬ (b = p ∧ r = .ready k)) := by
  rw [hready, List.nodup_cons] at hnodup
  cases r with
  | ready k' =>
    by_cases hk : k' = k
    · subst hk
      simp only [Sys.HeldAt, hready', update_self, hready, List.mem_cons, reduceCtorEq,
        and_false, false_or, and_true]
      refine ⟨fun hb => ⟨.inr hb, fun hbp => hnodup.1 (hbp ▸ hb)⟩, fun hb => hb.1.resolve_left hb.2⟩
    · simp [Sys.HeldAt, hready', hk]
  | worker k' i' =>
    by_cases heq : k' = k ∧ i' = i
    · obtain ⟨rfl, rfl⟩ := heq
      simp [Sys.HeldAt, hpc', hpc, Pc.holds, eq_comm]
    · have hne : Tid.worker k' i' ≠ .worker k i := by
        intro h
        cases h
        exact heq ⟨rfl, rfl⟩
      simp [Sys.HeldAt, hpc', hne, heq]

theorem heldAt_hand {k' : Nat} (hpc' : s'.pc = update s.pc (.worker k i) .wait)
    (hready : s'.readyQueue = update s.readyQueue k' (s.readyQueue k' ++ [p])) (b : Packet)
    (r : TurnPlace) :
    s'.HeldAt b r ↔ (s.HeldAt b r ∧ r ≠ .worker k i) ∨ (b = p ∧ r = .ready k') := by
  -- first the one, then the other
  have hput : (s.put k' p).HeldAt b r ↔ s.HeldAt b r ∨ (b = p ∧ r = .ready k') := by
    apply heldAt_put rfl
    exact fun _ _ => rfl
  rw [heldAt_release (s := s.put k' p) hpc' hready b r, hput, or_and_right]
  refine or_congr Iff.rfl ⟨And.left, fun h => ⟨h, ?_⟩⟩
  rw [h.2]
  exact TurnPlace.noConfusion

theorem busy_release (hpc' : s'.pc = update s.pc (.worker k i) .wait)
    (hready : s'.readyQueue = s.readyQueue) (hp : s.HeldAt p (.worker k i))
    (hg : p.stream ≠ some g) : s'.Busy g ↔ s.Busy g := by
  refine ⟨?_, ?_⟩
  · intro h
    obtain ⟨b, r, hb, hbg⟩ := h
    exact ((heldAt_release hpc' hready b r).mp hb).1.busy hbg
  · intro h
    obtain ⟨b, r, hb, hbg⟩ := h
    refine ⟨b, r, (heldAt_release hpc' hready b r).mpr ⟨hb, ?_⟩, hbg⟩
    rintro rfl
    rw [Sys.HeldAt] at hb hp
    rw [hb] at hp
    exact hg (Option.some.inj hp ▸ hbg)

theorem Turns.giveUp (h : Turns s) (hpc' : s'.pc = update s.pc (.worker k i) .wait)
    (hready : s'.readyQueue = s.readyQueue) (hlist : s'.jobList = s.jobList)
    (halloc : s'.allocated = s.allocated) (hid : ∀ g, (s'.jobs g).jobId = (s.jobs g).jobId)
    (hempty : ∀ g ∈ s.jobList, (s'.jobs g).empty = true ↔ ¬ s'.Busy g)
    (hidle : ∀ g ∈ s.jobList, (s'.jobs g).empty = true → (s'.jobs g).msgQue = []) : Turns s' := by
  have hback : ∀ b r, s'.HeldAt b r → s.HeldAt b r := fun b r hb =>
    ((heldAt_release hpc' hready b r).mp hb).1
  refine ⟨?_, hlist ▸ hempty, hlist ▸ hidle, ?_, ?_⟩
  · exact fun g b b' r r' hb hb' => h.single g b b' r r' (hback b r hb) (hback b' r' hb')
  · intro g hg
    obtain ⟨b, r, hb, hbg⟩ := hg
    rw [halloc]
    exact h.born g ((hback b r hb).busy hbg)
  · intro b r hb g hg
    rw [hid]
    exact h.owner b r (hback b r hb) g (hlist ▸ hg)

end Held

theorem jobId_update {jobs jobs' : Nat → JobStream} {g : Nat} {j : JobStream}
    (hjobs : jobs' = update jobs g j) (hj : j.jobId = (jobs g).jobId) (g' : Nat) :
    (jobs' g').jobId = (jobs g').jobId := by
  by_cases hg : g' = g
  · rw [hjobs, hg, update_self, hj]
  · rw [hjobs, update_of_ne hg]

section Turn

variable {c : Pools} {s s' : Sys} {p p' : Packet} {g k i : Nat} {l : TurnPlace}

/-- A message gets the turn of its job. What remains is what the flag says of that job. -/
theorem busy_other (hback : ∀ b r, s'.HeldAt b r → s.HeldAt b r ∨ (b = p ∧ r = l))
    (hkeep : ∀ b r, s.HeldAt b r → b.stream = some g → ∃ r', s'.HeldAt b r')
    (hg : p.stream ≠ some g) : s'.Busy g ↔ s.Busy g := by
  refine ⟨?_, ?_⟩
  · intro h
    obtain ⟨b, r, hb, hbg⟩ := h
    rcases hback b r hb with hb | ⟨rfl, _⟩
    · exact hb.busy hbg
    · exact absurd hbg hg
  · intro h
    obtain ⟨b, r, hb, hbg⟩ := h
    obtain ⟨r', hr'⟩ := hkeep b r hb hbg
    exact hr'.busy hbg

theorem owner_of_id (htable : JobTable c s) (hg : g ∈ s.jobList)
    (hid : p.jobId = (s.jobs g).jobId) (hstream : p.stream = some g) :
    ∀ g' ∈ s.jobList, (s.jobs g').jobId = p.jobId ↔ p.stream = some g' := by
  intro g' hg'
  rw [hstream]
  refine ⟨?_, ?_⟩
  · intro hid'
    exact congrArg some (htable.ids g hg g' hg' (hid'.trans hid).symm)
  · intro heq
    cases heq
    exact hid.symm

theorem turns_first (hs : Turns s) (htable : JobTable c s) (hg : g ∈ s.jobList)
    (hid : p.jobId = (s.jobs g).jobId) (hstream : p.stream = some g)
    (hempty : (s.jobs g).empty = true)
    (hheld : ∀ b r, s'.HeldAt b r ↔ s.HeldAt b r ∨ (b = p ∧ r = .ready k))
    (hjobs : s'.jobs = update s.jobs g { s.jobs g with empty := false })
    (hlist : s'.jobList = s.jobList) (halloc : s'.allocated = s.allocated) : Turns s' := by
  have hfree : ¬ s.Busy g := (hs.empty g hg).mp hempty
  have hself : s'.HeldAt p (.ready k) := (hheld p _).mpr (.inr ⟨rfl, rfl⟩)
  refine ⟨?_, ?_, ?_, ?_, ?_⟩
  · apply single_of hs fun b r hb => (hheld b r).mp hb
    intro g' hg' b r hb hbg
    rw [hstream] at hg'
    cases hg'
    rcases (hheld b r).mp hb with hb | hb
    · exact absurd (hb.busy hbg) hfree
    · exact hb
  · intro g' hg'
    rw [hlist] at hg'
    by_cases hne : g' = g
    · subst hne
      simp [hjobs, hself.busy hstream]
    · rw [busy_other (fun b r hb => (hheld b r).mp hb)
        (fun b r hb _ => ⟨r, (hheld b r).mpr (.inl hb)⟩), hjobs, update_of_ne hne]
      · exact hs.empty g' hg'
      · rw [hstream]
        exact fun heq => hne (Option.some.inj heq).symm
  · intro g' hg' he
    rw [hlist] at hg'
    by_cases hne : g' = g
    · simp [hjobs, hne] at he
    · rw [hjobs, update_of_ne hne] at he ⊢
      exact hs.idle g' hg' he
  · intro g' h
    obtain ⟨b, r, hb, hbg⟩ := h
    rw [halloc]
    rcases (hheld b r).mp hb with hb | ⟨rfl, _⟩
    · exact hs.born g' (hb.busy hbg)
    · rw [hstream] at hbg
      cases hbg
      exact htable.allocated g hg
  · intro b r hb g' hg'
    rw [hlist] at hg'
    rw [jobId_update hjobs rfl]
    rcases (hheld b r).mp hb with hb | ⟨rfl, _⟩
    · exact hs.owner b r hb g' hg'
    · exact owner_of_id htable hg hid hstream g' hg'

theorem turns_discrete (hs : Turns s) (htable : JobTable c s) (hp : p.stream = none)
    (hzero : p.jobId = 0) (hheld : ∀ b r, s'.HeldAt b r ↔ s.HeldAt b r ∨ (b = p ∧ r = .ready k))
    (hjobs : s'.jobs = s.jobs) (hlist : s'.jobList = s.jobList)
    (halloc : s'.allocated = s.allocated) : Turns s' := by
  have hnone : ∀ g, p.stream ≠ some g := fun g hg => by simp [hp] at hg
  have hbusy : ∀ g, s'.Busy g ↔ s.Busy g := fun g =>
    busy_other (fun b r hb => (hheld b r).mp hb) (fun b r hb _ => ⟨r, (hheld b r).mpr (.inl hb)⟩)
      (hnone g)
  refine ⟨?_, ?_, ?_, ?_, ?_⟩
  · exact single_of hs (fun b r hb => (hheld b r).mp hb) fun g hg => absurd hg (hnone g)
  · intro g hg
    rw [hjobs, hbusy g]
    exact hs.empty g (hlist ▸ hg)
  · rw [hjobs, hlist]
    exact hs.idle
  · intro g hg
    rw [halloc]
    exact hs.born g ((hbusy g).mp hg)
  · intro b r hb g hg
    rw [hjobs]
    rcases (hheld b r).mp hb with hb | ⟨rfl, _⟩
    · exact hs.owner b r hb g (hlist ▸ hg)
    · rw [hp, hzero]
      have hne := htable.nonzero g (hlist ▸ hg)
      simp [hne]

theorem turns_get (hs : Turns s)
    (hheld : ∀ b r, s'.HeldAt b r ↔
      (b = p ∧ r = .worker k i) ∨ (s.HeldAt b r ∧ ¬ (b = p ∧ r = .ready k)))
    (hp : s.HeldAt p (.ready k)) (hjobs : s'.jobs = s.jobs) (hlist : s'.jobList = s.jobList)
    (halloc : s'.allocated = s.allocated) : Turns s' := by
  have hback : ∀ b r, s'.HeldAt b r → ∃ r', s.HeldAt b r' := by
    intro b r hb
    rcases (hheld b r).mp hb with ⟨rfl, _⟩ | ⟨hb, _⟩
    · exact ⟨_, hp⟩
    · exact ⟨r, hb⟩
  have hbusy : ∀ g, s'.Busy g ↔ s.Busy g := by
    intro g
    refine ⟨?_, ?_⟩
    · intro h
      obtain ⟨b, r, hb, hbg⟩ := h
      obtain ⟨r', hr'⟩ := hback b r hb
      exact hr'.busy hbg
    · intro h
      obtain ⟨b, r, hb, hbg⟩ := h
      by_cases hbp : b = p
      · exact ⟨b, .worker k i, (hheld b _).mpr (.inl ⟨hbp, rfl⟩), hbg⟩
      · exact ⟨b, r, (hheld b r).mpr (.inr ⟨hb, fun h => hbp h.1⟩), hbg⟩
  refine ⟨?_, ?_, ?_, ?_, ?_⟩
  · refine single_of (p := p) (l := .worker k i) hs ?_ ?_
    · intro b r hb
      rcases (hheld b r).mp hb with hb | hb
      · exact .inr hb
      · exact .inl hb.1
    · intro g hg b r hb hbg
      rcases (hheld b r).mp hb with hb | ⟨hb, hne⟩
      · exact hb
      · exact absurd (hs.single g b p r _ hb hp hbg hg) hne
  · intro g hg
    rw [hjobs, hbusy g]
    exact hs.empty g (hlist ▸ hg)
  · rw [hjobs, hlist]
    exact hs.idle
  · intro g hg
    rw [halloc]
    exact hs.born g ((hbusy g).mp hg)
  · intro b r hb g hg
    rw [hjobs]
    obtain ⟨r', hr'⟩ := hback b r hb
    exact hs.owner b r' hr' g (hlist ▸ hg)

theorem turns_last (hs : Turns s) (hg : g ∈ s.jobList) (hp : s.HeldAt p (.worker k i))
    (hstream : p.stream = some g) (hpc' : s'.pc = update s.pc (.worker k i) .wait)
    (hready : s'.readyQueue = s.readyQueue)
    (hjobs : s'.jobs = update s.jobs g { s.jobs g with msgQue := [], empty := true })
    (hlist : s'.jobList = s.jobList) (halloc : s'.allocated = s.allocated) : Turns s' := by
  refine hs.giveUp hpc' hready hlist halloc (jobId_update hjobs rfl) ?_ ?_
  · intro g' hg'
    by_cases hne : g' = g
    · subst hne
      have hfree : ¬ s'.Busy g' := by
        intro h
        obtain ⟨b, r, hb, hbg⟩ := h
        obtain ⟨hb, hr⟩ := (heldAt_release hpc' hready b r).mp hb
        exact hr (hs.single g' b p r _ hb hp hbg hstream).2
      simp [hjobs, hfree]
    · have hother : p.stream ≠ some g' := by
        rw [hstream]
        exact fun heq => hne (Option.some.inj heq).symm
      rw [busy_release hpc' hready hp hother, hjobs, update_of_ne hne]
      exact hs.empty g' hg'
  · intro g' hg' he
    by_cases hne : g' = g
    · rw [hjobs, hne, update_self]
    · rw [hjobs, update_of_ne hne] at he ⊢
      exact hs.idle g' hg' he

theorem turns_hand (hs : Turns s) (htable : JobTable c s) (hg : g ∈ s.jobList)
    (hid : p'.jobId = (s.jobs g).jobId) (hstream' : p'.stream = some g)
    (hp : s.HeldAt p (.worker k i)) (hstream : p.stream = some g) {k' : Nat} {rest : List Packet}
    (hheld : ∀ b r, s'.HeldAt b r ↔
      (s.HeldAt b r ∧ r ≠ .worker k i) ∨ (b = p' ∧ r = .ready k'))
    (hjobs : s'.jobs = update s.jobs g { s.jobs g with msgQue := rest })
    (hlist : s'.jobList = s.jobList) (halloc : s'.allocated = s.allocated) : Turns s' := by
  have hbusy : s.Busy g := hp.busy hstream
  have hempty : (s.jobs g).empty ≠ true := fun he => (hs.empty g hg).mp he hbusy
  have hself : s'.HeldAt p' (.ready k') := (hheld p' _).mpr (.inr ⟨rfl, rfl⟩)
  have hback : ∀ b r, s'.HeldAt b r → s.HeldAt b r ∨ (b = p' ∧ r = .ready k') := by
    intro b r hb
    exact ((hheld b r).mp hb).imp And.left id
  have hsame : ∀ g', s'.Busy g' ↔ s.Busy g' := by
    intro g'
    by_cases hne : g' = g
    · subst hne
      exact ⟨fun _ => hbusy, fun _ => hself.busy hstream'⟩
    · refine busy_other hback ?_ ?_
      · intro b r hb hbg
        refine ⟨r, (hheld b r).mpr (.inl ⟨hb, ?_⟩)⟩
        rintro rfl
        rw [Sys.HeldAt] at hb hp
        rw [hb] at hp
        cases hp
        rw [hbg] at hstream
        exact hne (Option.some.inj hstream)
      · rw [hstream']
        exact fun heq => hne (Option.some.inj heq).symm
  refine ⟨?_, ?_, ?_, ?_, ?_⟩
  · apply single_of hs hback
    intro g' hg' b r hb hbg
    rw [hstream'] at hg'
    cases hg'
    rcases (hheld b r).mp hb with ⟨hb, hne⟩ | hb
    · exact absurd (hs.single g b p r _ hb hp hbg hstream).2 hne
    · exact hb
  · intro g' hg'
    have he : (s'.jobs g').empty = (s.jobs g').empty := by
      by_cases hne : g' = g
      · rw [hjobs, hne, update_self]
      · rw [hjobs, update_of_ne hne]
    rw [he, hsame g']
    exact hs.empty g' (hlist ▸ hg')
  · intro g' hg' he
    by_cases hne : g' = g
    · subst hne
      rw [hjobs, update_self] at he
      exact absurd he hempty
    · rw [hjobs, update_of_ne hne] at he ⊢
      exact hs.idle g' (hlist ▸ hg') he
  · intro g' h
    rw [halloc]
    exact hs.born g' ((hsame g').mp h)
  · intro b r hb g' hg'
    rw [jobId_update hjobs rfl]
    rcases hback b r hb with hb | ⟨rfl, _⟩
    · exact hs.owner b r hb g' (hlist ▸ hg')
    · exact owner_of_id htable hg hid hstream' g' (hlist ▸ hg')

/-- A new job, whose id no message has that is on a ready queue or with a worker. -/
theorem turns_acquire (hs : Turns s) (htable : JobTable c s) {jobId : UInt16}
    (hheld : s'.HeldAt = s.HeldAt)
    (hjobs : s'.jobs = update s.jobs s.allocated { jobId := jobId, empty := true, msgQue := [] })
    (hlist : s'.jobList = s.jobList ++ [s.allocated]) (halloc : s'.allocated = s.allocated + 1)
    (hnew : ∀ q l, s.HeldAt q l → q.jobId ≠ jobId) : Turns s' := by
  have hfresh : ¬ s.Busy s.allocated := fun h => Nat.lt_irrefl _ (hs.born _ h)
  have hbusy : s'.Busy = s.Busy := by
    funext g
    rw [Sys.Busy, hheld]
    rfl
  have hcases : ∀ g ∈ s'.jobList, (g ∈ s.jobList ∧ s'.jobs g = s.jobs g) ∨ g = s.allocated := by
    intro g hg
    rw [hlist, List.mem_append, List.mem_singleton] at hg
    refine hg.imp_left fun hg => ⟨hg, ?_⟩
    rw [hjobs, update_of_ne (Nat.ne_of_lt (htable.allocated g hg))]
  have hself : s'.jobs s.allocated = { jobId := jobId, empty := true, msgQue := [] } := by
    rw [hjobs, update_self]
  refine ⟨?_, ?_, ?_, ?_, ?_⟩
  · rw [hheld]
    exact hs.single
  · intro g hg
    rw [hbusy]
    rcases hcases g hg with ⟨hg, heq⟩ | rfl
    · rw [heq]
      exact hs.empty g hg
    · simp [hself, hfresh]
  · intro g hg he
    rcases hcases g hg with ⟨hg, heq⟩ | rfl
    · rw [heq] at he ⊢
      exact hs.idle g hg he
    · rw [hself]
  · intro g hg
    rw [hbusy] at hg
    rw [halloc]
    exact Nat.lt_succ_of_lt (hs.born g hg)
  · intro b r hb g hg
    rw [hheld] at hb
    rcases hcases g hg with ⟨hg, heq⟩ | rfl
    · rw [heq]
      exact hs.owner b r hb g hg
    · rw [hself]
      refine ⟨fun hid => absurd hid.symm (hnew b r hb), fun hbg => absurd (hb.busy hbg) hfresh⟩

theorem turns_release (hs : Turns s) (hheld : s'.HeldAt = s.HeldAt)
    (hjobs : s'.jobs = update s.jobs g { s.jobs g with msgQue := [] })
    (hlist : s'.jobList = s.jobList.erase g) (halloc : s'.allocated = s.allocated) : Turns s' := by
  have hbusy : s'.Busy = s.Busy := by
    funext g
    rw [Sys.Busy, hheld]
    rfl
  have hmem : ∀ g' ∈ s'.jobList, g' ∈ s.jobList := by
    intro g' hg'
    rw [hlist] at hg'
    exact List.mem_of_mem_erase hg'
  have hempty : ∀ g', (s'.jobs g').empty = (s.jobs g').empty := by
    intro g'
    by_cases hne : g' = g
    · rw [hjobs, hne, update_self]
    · rw [hjobs, update_of_ne hne]
  refine ⟨?_, ?_, ?_, ?_, ?_⟩
  · rw [hheld]
    exact hs.single
  · intro g' hg'
    rw [hempty, hbusy]
    exact hs.empty g' (hmem g' hg')
  · intro g' hg' he
    rw [hempty] at he
    by_cases hne : g' = g
    · rw [hjobs, hne, update_self]
    · rw [hjobs, update_of_ne hne]
      exact hs.idle g' (hmem g' hg') he
  · rw [hbusy, halloc]
    exact hs.born
  · intro b r hb g' hg'
    rw [hheld] at hb
    rw [jobId_update hjobs rfl]
    exact hs.owner b r hb g' (hmem g' hg')

end Turn

theorem moves_turns {c : Pools} {s s' : Sys} {a : Act} (hs : Turns s) (hflow : Flow s)
    (htable : JobTable c s) (hmeets : Meets c s a) (h : Moves c s a s') : Turns s' := by
  -- a step that changes nobody's turn
  have hquiet : ∀ {t : Sys}, t.HeldAt = s.HeldAt → t.jobList = s.jobList →
      t.allocated = s.allocated → t.jobs = s.jobs → Turns t := by
    intro t hheld hlist halloc hjobs
    apply hs.keep hheld hlist halloc
    · exact fun g => by rw [hjobs]
    · exact fun g => by rw [hjobs]
    · intro g hg he
      rw [hjobs]
      exact hs.idle g hg he
  cases h with
  | arrive m => exact hquiet rfl rfl rfl rfl
  | inBand hpc _ _ =>
    exact hquiet (heldAt_congr rfl (holds_keep hpc rfl (.inr rfl))) rfl rfl rfl
  | refuse _ _ => exact hquiet rfl rfl rfl rfl
  | discrete _ hjob =>
    exact turns_discrete hs htable (if_pos hjob) hjob (heldAt_put rfl fun _ _ => rfl) rfl rfl rfl
  | first _ hjob hfind hempty =>
    obtain ⟨hg, hid⟩ := findJob_eq_some hfind
    exact turns_first hs htable hg hid.symm (packet_stream hjob hfind) hempty
      (heldAt_put rfl fun _ _ => rfl) rfl rfl rfl
  | @queued _ m rest k g _ _ _ _ hempty =>
    refine hs.keep rfl rfl rfl (jobId_update rfl rfl) ?_ ?_
    · intro g'
      by_cases hne : g' = g
      · subst hne
        simp [Sys.setJob]
      · simp [Sys.setJob, Sys.take, hne]
    · intro g' hg' he
      by_cases hne : g' = g
      · subst hne
        rw [hempty] at he
        cases he
      · simp only [Sys.setJob, Sys.take, update_of_ne hne]
        exact hs.idle g' hg' he
  | execute hpc tracker status =>
    exact hquiet (heldAt_congr rfl (holds_keep hpc rfl (.inl rfl))) rfl rfl rfl
  | @acquire _ t p hpc hdesc tracker jobId hnew status =>
    refine turns_acquire hs htable (heldAt_congr rfl (holds_keep hpc rfl (.inl rfl))) rfl rfl rfl ?_
    exact hmeets.2 p hpc hdesc jobId (by rw [hnew])
  | release hpc _ _ =>
    exact turns_release hs (heldAt_congr rfl (holds_keep hpc rfl (.inl rfl))) rfl rfl rfl
  | @replied _ t p status hpc ht =>
    cases t with
    | server => exact hquiet (heldAt_congr rfl (holds_keep hpc rfl (.inr rfl))) rfl rfl rfl
    | worker k i =>
      have hzero : p.jobId = 0 := ht.resolve_left Tid.noConfusion
      have hrun : (s.pc (.worker k i)).running = some p := by rw [hpc]; rfl
      have hheld : s.HeldAt p (.worker k i) := by rw [Sys.HeldAt, hpc]; rfl
      have hnone : p.stream = none := by
        by_contra hne
        have harr := (hflow.somewhere p).mpr ⟨.exec (.worker k i), hrun⟩
        exact hflow.discrete p harr hne hzero
      have hbusy : ∀ g, ((s.finish p (.executed status)).goto (.worker k i) .wait).Busy g ↔
          s.Busy g := fun g => busy_release rfl rfl hheld (by simp [hnone])
      refine hs.giveUp rfl rfl rfl rfl (fun _ => rfl) ?_ hs.idle
      intro g hg
      rw [hbusy g]
      exact hs.empty g hg
  | repliedJob hpc _ =>
    exact hquiet (heldAt_congr rfl (holds_keep hpc rfl (.inl rfl))) rfl rfl rfl
  | pend hpc => exact hquiet (heldAt_congr rfl (holds_keep hpc rfl (.inl rfl))) rfl rfl rfl
  | getNone hpc => exact hquiet (heldAt_congr rfl (holds_keep hpc rfl (.inl rfl))) rfl rfl rfl
  | @get _ k i p rest hpc hready =>
    refine turns_get hs (heldAt_get hpc rfl hready rfl (hflow.ready k)) ?_ rfl rfl rfl
    rw [Sys.HeldAt, hready]
    exact List.mem_cons_self
  | @noJob _ k i p hpc hfind =>
    -- no job in the list has the id of the message, so none has its turn
    have hheld : s.HeldAt p (.worker k i) := by rw [Sys.HeldAt, hpc]; rfl
    refine hs.giveUp rfl rfl rfl rfl (fun _ => rfl) ?_ hs.idle
    intro g hg
    have hne : p.stream ≠ some g := by
      intro hstream
      exact findJob_eq_none hfind hg ((hs.owner p _ hheld g hg).mpr hstream)
    have hbusy : (s.goto (.worker k i) .wait).Busy g ↔ s.Busy g := busy_release rfl rfl hheld hne
    rw [hbusy]
    exact hs.empty g hg
  | @last _ k i g p hpc hfind hque =>
    obtain ⟨hg, hid⟩ := findJob_eq_some hfind
    have hheld : s.HeldAt p (.worker k i) := by rw [Sys.HeldAt, hpc]; rfl
    exact turns_last hs hg hheld ((hs.owner p _ hheld g hg).mp hid) rfl rfl rfl rfl rfl
  | @hand _ k i g k' p p' rest hpc hfind hque =>
    obtain ⟨hg, hid⟩ := findJob_eq_some hfind
    have hheld : s.HeldAt p (.worker k i) := by rw [Sys.HeldAt, hpc]; rfl
    obtain ⟨hstream', hid'⟩ := htable.stream g p' (by simp [hque])
    exact turns_hand hs htable hg hid' hstream' hheld ((hs.owner p _ hheld g hg).mp hid)
      (heldAt_hand rfl rfl) rfl rfl rfl

end Omap4Hal.Rcm.Server

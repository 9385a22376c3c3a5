import Mathlib.Algebra.BigOperators.Group.Finset.Basic
import Mathlib.Algebra.BigOperators.Ring.List
import Omap4Hal.Rcm.AccountTurns

/- The account of an RcmServer after every run. Each step of a thread lowers what is still to be
   done with the messages (`work`), and a message brings in 7; so the threads come to rest.
   At rest there is no message in a queue: a ready queue with one would have a post, and a job
   with one would have another on its way. -/
namespace Omap4Hal.Rcm.Accounts

open Lib
open Omap4Hal.Rcm.Server
open Function (update update_self update_of_ne)
open Finset (range)
open List (length_append length_cons length_singleton)

/-! ## What is still to be done -/

def weight : Pc → Nat
  | .wait => 0
  | .get => 1
  | .next _ => 2
  | .reply _ _ => 3
  | .exec _ => 4

/-- The number of pools. -/
def poolMap0Len (c : Pools) : Nat := c.workerPools.length + 1

def jobWork (s : Sys) : Nat := ∑ g ∈ range s.allocated, 6 * (s.jobs g).msgQue.length

def readyWork (c : Pools) (s : Sys) : Nat :=
  ∑ k ∈ range (poolMap0Len c), (4 * (s.readyQueue k).length + 2 * s.sem k)

def threadWork (c : Pools) (s : Sys) : Nat :=
  weight (s.pc .server) +
    ∑ k ∈ range (poolMap0Len c), ∑ i ∈ range (c.count k), weight (s.pc (.worker k i))

def work (c : Pools) (s : Sys) : Nat :=
  7 * s.serverQue.length + jobWork s + readyWork c s + threadWork c s

theorem sum_range_change {n k : Nat} {f g : Nat → Nat} (hk : k < n)
    (h : ∀ j, j ≠ k → g j = f j) : ∑ j ∈ range n, g j + f k = ∑ j ∈ range n, f j + g k := by
  have hmem : k ∈ range n := Finset.mem_range.mpr hk
  have hrest : ∑ j ∈ (range n).erase k, g j = ∑ j ∈ (range n).erase k, f j := by
    apply Finset.sum_congr rfl
    intro j hj
    exact h j (Finset.ne_of_mem_erase hj)
  rw [← Finset.add_sum_erase _ g hmem, ← Finset.add_sum_erase _ f hmem, hrest]
  omega

section

variable {c : Pools} {freed : Packet → Prop} {s s' : Sys} {t : Tid} {q : Pc} {k i g : Nat}

theorem count_lt (h : i < c.count k) : k < poolMap0Len c := by
  unfold poolMap0Len
  by_contra hk
  have hzero : c.count k = 0 := by
    unfold Pools.count
    rw [List.getD_eq_getElem?_getD, List.getElem?_eq_none (by rw [length_cons]; omega)]
    rfl
  omega

theorem getPool_lt {poolId : UInt16} (h : getPool c poolId = .ok k) : k < poolMap0Len c := by
  unfold getPool at h
  split at h
  · dsimp only at h
    split at h
    next hlt =>
      cases h
      exact hlt
    · cases h
  · cases h

theorem threadWork_goto (hpc : s'.pc = update s.pc t q)
    (ht : ∀ k i, t = .worker k i → i < c.count k) :
    threadWork c s' + weight (s.pc t) = threadWork c s + weight q := by
  unfold threadWork
  cases t with
  | server =>
    have hworkers : ∀ k i, s'.pc (.worker k i) = s.pc (.worker k i) := by
      intro k i
      rw [hpc, update_of_ne (by nofun)]
    simp only [hworkers]
    rw [hpc, update_self]
    omega
  | worker k i =>
    have hi := ht k i rfl
    have hserver : s'.pc .server = s.pc .server := by
      rw [hpc, update_of_ne (by nofun)]
    have hinner : ∑ i' ∈ range (c.count k), weight (s'.pc (.worker k i')) +
        weight (s.pc (.worker k i)) =
        ∑ i' ∈ range (c.count k), weight (s.pc (.worker k i')) + weight (s'.pc (.worker k i)) := by
      refine sum_range_change (f := fun i' => weight (s.pc (.worker k i'))) hi ?_
      intro i' hne
      rw [hpc, update_of_ne]
      intro heq
      cases heq
      exact hne rfl
    have houter := sum_range_change (n := poolMap0Len c) (k := k)
      (f := fun k' => ∑ i' ∈ range (c.count k'), weight (s.pc (.worker k' i')))
      (g := fun k' => ∑ i' ∈ range (c.count k'), weight (s'.pc (.worker k' i'))) (count_lt hi) (by
        intro k' hne
        refine Finset.sum_congr rfl ?_
        intro i' _
        rw [hpc, update_of_ne]
        intro heq
        cases heq
        exact hne rfl)
    have hself : s'.pc (.worker k i) = q := by rw [hpc, update_self]
    rw [hself] at hinner
    rw [hserver]
    omega

theorem threadWork_keep (hpc : s'.pc = s.pc) : threadWork c s' + 0 = threadWork c s + 0 := by
  simp only [threadWork, hpc]

theorem readyWork_keep (hready : s'.readyQueue = s.readyQueue) (hsem : s'.sem = s.sem) :
    readyWork c s' + 0 = readyWork c s + 0 := by
  simp only [readyWork, hready, hsem]

theorem readyWork_change {que : List Packet} {n : Nat}
    (hready : s'.readyQueue = update s.readyQueue k que) (hsem : s'.sem = update s.sem k n)
    (hk : k < poolMap0Len c) :
    readyWork c s' + (4 * (s.readyQueue k).length + 2 * s.sem k) =
      readyWork c s + (4 * que.length + 2 * n) := by
  have h := sum_range_change (f := fun k => 4 * (s.readyQueue k).length + 2 * s.sem k)
    (g := fun k => 4 * (s'.readyQueue k).length + 2 * s'.sem k) hk (by
      intro j hne
      rw [hready, hsem, update_of_ne hne, update_of_ne hne])
  rw [hready, hsem, update_self, update_self] at h
  unfold readyWork
  rw [hready, hsem]
  exact h

theorem jobWork_keep (hjobs : s'.jobs = s.jobs) (halloc : s'.allocated = s.allocated) :
    jobWork s' + 0 = jobWork s + 0 := by
  simp only [jobWork, hjobs, halloc]

theorem jobWork_change {j : JobStream} (hjobs : s'.jobs = update s.jobs g j)
    (halloc : s'.allocated = s.allocated) (hg : g < s.allocated) :
    jobWork s' + 6 * (s.jobs g).msgQue.length = jobWork s + 6 * j.msgQue.length := by
  have h := sum_range_change (f := fun g => 6 * (s.jobs g).msgQue.length)
    (g := fun g => 6 * (s'.jobs g).msgQue.length) hg (by
      intro j hne
      rw [hjobs, update_of_ne hne])
  rw [hjobs, update_self] at h
  unfold jobWork
  rw [hjobs, halloc]
  exact h

theorem jobWork_acquire {jobId : UInt16}
    (hjobs : s'.jobs = update s.jobs s.allocated { jobId := jobId, empty := true, msgQue := [] })
    (halloc : s'.allocated = s.allocated + 1) : jobWork s' + 0 = jobWork s + 0 := by
  have hrest : ∑ g ∈ range s.allocated, 6 * (s'.jobs g).msgQue.length =
      ∑ g ∈ range s.allocated, 6 * (s.jobs g).msgQue.length := by
    apply Finset.sum_congr rfl
    intro g hg
    rw [hjobs, update_of_ne (Nat.ne_of_lt (Finset.mem_range.mp hg))]
  unfold jobWork
  rw [halloc, Finset.sum_range_succ, hrest, hjobs, update_self]
  rfl

/-- The parts that a step gives up outweigh those that it takes up. -/
theorem work_lower {n x x' y y' z z' : Nat} (hque : s'.serverQue.length = n)
    (hjob : jobWork s' + x = jobWork s + x') (hready : readyWork c s' + y = readyWork c s + y')
    (hthread : threadWork c s' + z = threadWork c s + z')
    (hle : 7 * n + x' + y' + z' + 1 ≤ 7 * s.serverQue.length + x + y + z) :
    work c s' + 1 ≤ work c s := by
  unfold work
  omega

theorem turn_work (hcrew : Crew c freed s) (htable : JobTable c s) (hturn : Turn c freed s s') :
    work c s' + 1 ≤ work c s := by
  have hbusy : ∀ t, s.pc t ≠ .wait → ∀ k i, t = .worker k i → i < c.count k := by
    intro t hne k i ht
    exact hcrew.workers k i (ht ▸ hne)
  have hlisted : ∀ jobId g, s.findJob jobId = some g → g < s.allocated :=
    fun _ g hfind => htable.allocated g (findJob_eq_some hfind).1
  cases hturn with
  | @inBand m rest hpc hque hdesc hin =>
    refine work_lower rfl (jobWork_keep rfl rfl) (readyWork_keep rfl rfl)
      (threadWork_goto (t := .server) rfl nofun) ?_
    show 7 * rest.length + 0 + 0 + 4 + 1 ≤ 7 * s.serverQue.length + 0 + 0 + _
    rw [hque, length_cons]
    omega
  | @refuse m rest hpc hque hdesc status =>
    refine work_lower rfl (jobWork_keep rfl rfl) (readyWork_keep rfl rfl) (threadWork_keep rfl) ?_
    show 7 * rest.length + 0 + 0 + 0 + 1 ≤ 7 * s.serverQue.length + 0 + 0 + 0
    rw [hque, length_cons]
    omega
  | @discrete m rest k hpc hque hdesc hpool hjob =>
    refine work_lower rfl (jobWork_keep rfl rfl) (readyWork_change rfl rfl (getPool_lt hpool.1))
      (threadWork_keep rfl) ?_
    show 7 * rest.length + 0 + (4 * (s.readyQueue k ++ [s.packet m]).length + 2 * (s.sem k + 1))
      + 0 + 1 ≤ 7 * s.serverQue.length + 0 + (4 * (s.readyQueue k).length + 2 * s.sem k) + 0
    rw [hque, length_cons, length_append, length_singleton]
    omega
  | @first m rest k g hpc hque hdesc hpool hjob hfind hempty =>
    refine work_lower rfl (jobWork_change rfl rfl (hlisted _ _ hfind))
      (readyWork_change rfl rfl (getPool_lt hpool.1)) (threadWork_keep rfl) ?_
    show 7 * rest.length + 6 * (s.jobs g).msgQue.length +
      (4 * (s.readyQueue k ++ [s.packet m]).length + 2 * (s.sem k + 1)) + 0 + 1 ≤
      7 * s.serverQue.length + 6 * (s.jobs g).msgQue.length +
      (4 * (s.readyQueue k).length + 2 * s.sem k) + 0
    rw [hque, length_cons, length_append, length_singleton]
    omega
  | @queued m rest k g hpc hque hdesc hpool hjob hfind hempty =>
    refine work_lower rfl (jobWork_change rfl rfl (hlisted _ _ hfind)) (readyWork_keep rfl rfl)
      (threadWork_keep rfl) ?_
    show 7 * rest.length + 6 * ((s.jobs g).msgQue ++ [s.packet m]).length + 0 + 0 + 1 ≤
      7 * s.serverQue.length + 6 * (s.jobs g).msgQue.length + 0 + 0
    rw [hque, length_cons, length_append, length_singleton]
    omega
  | @execute t p hpc tracker status hfreed =>
    refine work_lower rfl (jobWork_keep rfl rfl) (readyWork_keep rfl rfl)
      (threadWork_goto (t := t) rfl (hbusy t (by rw [hpc]; nofun))) ?_
    rw [hpc]
    exact Nat.le_refl _
  | @acquire t p hpc hdesc tracker jobId hnew status =>
    refine work_lower rfl (jobWork_acquire rfl rfl) (readyWork_keep rfl rfl)
      (threadWork_goto (t := t) rfl (hbusy t (by rw [hpc]; nofun))) ?_
    rw [hpc]
    exact Nat.le_refl _
  | @release t p hpc jobId g hfind status =>
    refine work_lower rfl (jobWork_change rfl rfl (hlisted _ _ hfind)) (readyWork_keep rfl rfl)
      (threadWork_goto (t := t) rfl (hbusy t (by rw [hpc]; nofun))) ?_
    rw [hpc]
    show 7 * s.serverQue.length + 0 + 0 + 3 + 1 ≤
      7 * s.serverQue.length + 6 * (s.jobs g).msgQue.length + 0 + 4
    omega
  | @replied t p status hpc ht =>
    refine work_lower rfl (jobWork_keep rfl rfl) (readyWork_keep rfl rfl)
      (threadWork_goto (t := t) rfl (hbusy t (by rw [hpc]; nofun))) ?_
    rw [hpc]
    show 7 * s.serverQue.length + 0 + 0 + 0 + 1 ≤ 7 * s.serverQue.length + 0 + 0 + 3
    omega
  | @repliedJob k i p status hpc hjob =>
    refine work_lower rfl (jobWork_keep rfl rfl) (readyWork_keep rfl rfl)
      (threadWork_goto (t := .worker k i) rfl (hbusy _ (by rw [hpc]; nofun))) ?_
    rw [hpc]
    exact Nat.le_refl _
  | @pend k i n hpc hi hsem =>
    refine work_lower rfl (jobWork_keep rfl rfl)
      (readyWork_change (Function.update_eq_self k s.readyQueue).symm rfl
        (count_lt hi)) (threadWork_goto (t := .worker k i) rfl ?_) ?_
    · intro k' i' heq
      cases heq
      exact hi
    · rw [hpc, hsem]
      show 7 * s.serverQue.length + 0 + (4 * (s.readyQueue k).length + 2 * n) + 1 + 1 ≤
        7 * s.serverQue.length + 0 + (4 * (s.readyQueue k).length + 2 * (n + 1)) + 0
      omega
  | @getNone k i hpc hready =>
    refine work_lower rfl (jobWork_keep rfl rfl) (readyWork_keep rfl rfl)
      (threadWork_goto (t := .worker k i) rfl (hbusy _ (by rw [hpc]; nofun))) ?_
    rw [hpc]
    exact Nat.le_refl _
  | @get k i p rest hpc hready =>
    have hi := hbusy (.worker k i) (by rw [hpc]; nofun) k i rfl
    refine work_lower rfl (jobWork_keep rfl rfl)
      (readyWork_change (n := s.sem k) rfl (Function.update_eq_self k _).symm (count_lt hi))
      (threadWork_goto (t := .worker k i) rfl (hbusy _ (by rw [hpc]; nofun))) ?_
    rw [hpc, hready, length_cons]
    show 7 * s.serverQue.length + 0 + (4 * rest.length + 2 * s.sem k) + 4 + 1 ≤
      7 * s.serverQue.length + 0 + (4 * (rest.length + 1) + 2 * s.sem k) + 1
    omega
  | @noJob k i p hpc hfind =>
    refine work_lower rfl (jobWork_keep rfl rfl) (readyWork_keep rfl rfl)
      (threadWork_goto (t := .worker k i) rfl (hbusy _ (by rw [hpc]; nofun))) ?_
    rw [hpc]
    show 7 * s.serverQue.length + 0 + 0 + 0 + 1 ≤ 7 * s.serverQue.length + 0 + 0 + 2
    omega
  | @last k i g p hpc hfind hque =>
    refine work_lower rfl (jobWork_change rfl rfl (hlisted _ _ hfind)) (readyWork_keep rfl rfl)
      (threadWork_goto (t := .worker k i) rfl (hbusy _ (by rw [hpc]; nofun))) ?_
    rw [hpc, hque]
    show 7 * s.serverQue.length + 0 + 0 + 0 + 1 ≤ 7 * s.serverQue.length + 0 + 0 + 2
    omega
  | @hand k i g k' p p' rest hpc hfind hque hpool =>
    refine work_lower rfl (jobWork_change rfl rfl (hlisted _ _ hfind))
      (readyWork_change rfl rfl (getPool_lt hpool))
      (threadWork_goto (t := .worker k i) rfl (hbusy _ (by rw [hpc]; nofun))) ?_
    rw [hpc, hque, length_cons]
    show 7 * s.serverQue.length + 6 * rest.length +
      (4 * (s.readyQueue k' ++ [p']).length + 2 * (s.sem k' + 1)) + 0 + 1 ≤
      7 * s.serverQue.length + 6 * (rest.length + 1) +
      (4 * (s.readyQueue k').length + 2 * s.sem k') + 2
    rw [length_append, length_singleton]
    omega

end

/-! ## Every run -/

structure Books (c : Pools) (w : World) : Prop where
  crashed : w.crashed = false
  table : JobTable c w.sys
  flow : Flow w.sys
  crew : Crew c (Freed w) w.sys
  succeeded : ∀ p result, (p, result) ∈ w.frees → p.desc = .cmd ∧ 0 ≤ result
  posted : Posted c w.sys
  driven : Driven w.sys

section

variable {c : Pools} {w w' : World}

theorem books_init (c : Pools) : Books c {} where
  crashed := rfl
  table := table_init c
  flow := flow_init
  crew := ⟨⟨nofun, nofun⟩, fun _ _ h => absurd rfl h, nofun, nofun, nofun⟩
  succeeded := nofun
  posted := ⟨fun _ => Nat.zero_le _, fun _ h => absurd rfl h, nofun⟩
  driven := ⟨nofun, nofun⟩

theorem step_books {a : Act} (h : Books c w) (hmeets : Meets c w a) (hstep : step c w a = some w') :
    Books c w' ∧ work c w'.sys + a.steps ≤ work c w.sys + 7 * a.arrivals := by
  cases a with
  | arrive m =>
    cases hstep
    have hmoves : Moves c w.sys (.arrive (decode m))
        { w.sys with serverQue := w.sys.serverQue ++ [decode m] } := .arrive _
    refine ⟨⟨h.crashed, moves_table h.table hmoves, moves_flow h.flow h.table hmoves,
      ⟨h.crew.server, h.crew.workers, h.crew.freeing, h.crew.ended, h.crew.served⟩,
      h.succeeded,
      ⟨h.posted.woken, h.posted.ready, h.posted.waiting⟩, ⟨h.driven.empty, h.driven.onWay⟩⟩, ?_⟩
    show 7 * (w.sys.serverQue ++ [decode m]).length + jobWork w.sys + readyWork c w.sys +
      threadWork c w.sys + 0 ≤ 7 * w.sys.serverQue.length + jobWork w.sys + readyWork c w.sys +
      threadWork c w.sys + 7
    rw [length_append, length_singleton]
    omega
  | thread t e =>
    have hserved : ∀ p, w.sys.pc t = .exec p → p.desc ≠ .symAdd := by
      intro p hpc
      refine h.crew.served p ((h.flow.somewhere p).mpr ⟨.exec t, ?_⟩)
      show (w.sys.pc t).running = some p
      rw [hpc]
      rfl
    obtain ⟨hturn, hcrashed⟩ := advance_turn h.crashed h.table.pooled hserved hmeets hstep
    obtain ⟨a, hmoves⟩ := turn_moves hturn
    have hfrees := advance_frees hstep
    have hcrew : Crew c (Freed w') w.sys :=
      ⟨h.crew.server, h.crew.workers, fun t p hp => hfrees.keep (h.crew.freeing t p hp),
        fun p hp => hfrees.keep (h.crew.ended p hp), h.crew.served⟩
    have hsucceeded : ∀ p result, (p, result) ∈ w'.frees → p.desc = .cmd ∧ 0 ≤ result := by
      rcases hfrees with heq | ⟨p', result', heq, hcmd⟩
      · rw [heq]
        exact h.succeeded
      · intro p result hp
        rw [heq] at hp
        rcases List.mem_append.mp hp with hp | hp
        · exact h.succeeded p result hp
        · cases List.mem_singleton.mp hp
          exact hcmd
    refine ⟨⟨hcrashed, moves_table h.table hmoves, moves_flow h.flow h.table hmoves,
      turn_crew hcrew hturn, hsucceeded, turn_posted h.posted hcrew hturn,
      turn_driven h.driven h.table hturn⟩, ?_⟩
    exact turn_work hcrew h.table hturn

theorem Books.waits (h : Books c w) (hrest : AtRest c w) (t : Tid) : w.sys.pc t = .wait := by
  have hnone := hrest t {}
  rw [advance.eq_def, if_neg (Bool.eq_false_iff.mp h.crashed)] at hnone
  cases hpc : w.sys.pc t with
  | wait => rfl
  | get =>
    cases t with
    | server => exact absurd hpc h.crew.server.1
    | worker k i =>
      simp only [hpc, Server.advance, Option.map_eq_none_iff] at hnone
      split at hnone
      · cases hnone
      · cases hnone
  | exec p =>
    simp only [hpc] at hnone
    cases hnone
  | reply p status =>
    cases t with
    | server =>
      simp only [hpc, Server.advance, Option.map_some] at hnone
      cases hnone
    | worker k i =>
      simp only [hpc, Server.advance, Option.map_some] at hnone
      cases hnone
  | next p =>
    cases t with
    | server => exact absurd hpc (h.crew.server.2 p)
    | worker k i =>
      simp only [hpc] at hnone
      cases hnone

theorem Books.ready_nil (h : Books c w) (hrest : AtRest c w) (k : Nat) :
    w.sys.readyQueue k = [] := by
  by_contra hne
  have hcount := h.posted.ready k hne
  have hgets : gets c w.sys k = 0 := by
    unfold gets
    rw [Nat.count_iff_forall_not]
    intro i _ hget
    rw [h.waits hrest] at hget
    cases hget
  have hsem : w.sys.sem k = 0 := by
    by_contra hpos
    have hnone := hrest (.worker k 0) {}
    have hwait : ¬ (c.count k ≤ 0 ∨ w.sys.sem k = 0) := by omega
    rw [advance.eq_def, if_neg (Bool.eq_false_iff.mp h.crashed)] at hnone
    simp only [h.waits hrest, Server.advance, if_neg hwait, Option.map_some] at hnone
    cases hnone
  have hwoken := h.posted.woken k
  rw [hgets, hsem] at hwoken
  exact hne (List.length_eq_zero_iff.mp (by omega))

theorem Books.msgQue_nil (h : Books c w) (hrest : AtRest c w) (g : Nat) :
    (w.sys.jobs g).msgQue = [] := by
  by_cases hg : g ∈ w.sys.jobList
  · cases hempty : (w.sys.jobs g).empty with
    | true => exact h.driven.empty g hg hempty
    | false =>
      rcases h.driven.onWay g hg hempty with ⟨k, p, hp, _⟩ | ⟨k, i, hc⟩
      · rw [h.ready_nil hrest k] at hp
        cases hp
      · rw [h.waits hrest] at hc
        cases hc
  · exact h.table.unlisted g hg

theorem Books.settled (h : Books c w) (hrest : AtRest c w) :
    w.sys.serverQue = [] ∧ ∀ p ∈ w.sys.arrivals, ∃ e, (p, e) ∈ w.sys.ended := by
  refine ⟨?_, ?_⟩
  · have hnone := hrest .server {}
    rw [advance.eq_def, if_neg (Bool.eq_false_iff.mp h.crashed)] at hnone
    simp only [h.waits hrest, Option.map_eq_none_iff] at hnone
    rw [serverGet] at hnone
    split at hnone
    next hque => exact hque
    · split at hnone
      · cases hnone
      · split at hnone
        · cases hnone
        · cases hnone
  · intro p hp
    obtain ⟨l, hl⟩ := (h.flow.somewhere p).mp hp
    cases l with
    | waiting g =>
      have hmem : p ∈ (w.sys.jobs g).msgQue := hl
      rw [h.msgQue_nil hrest] at hmem
      cases hmem
    | ready k =>
      have hmem : p ∈ w.sys.readyQueue k := hl
      rw [h.ready_nil hrest] at hmem
      cases hmem
    | exec t =>
      have hrun : (w.sys.pc t).running = some p := hl
      rw [h.waits hrest] at hrun
      cases hrun
    | ended e => exact ⟨e, hl⟩

theorem ended_once {s : Sys} (h : Flow s) : (s.ended.map Prod.fst).Nodup := by
  refine List.Nodup.map_on ?_ h.ended
  rintro ⟨p, e⟩ hx ⟨p', e'⟩ hy heq
  obtain rfl : p = p' := heq
  have hsame := h.one p (.ended e) (.ended e') hx hy
  cases hsame
  rfl

end

/-- In every run that meets the condition, with any pools and any order of the threads, the messages
are accounted for. -/
theorem messages_accounted (c : Pools) (acts : List Act) (w : World)
    (hmeets : Guarded (step c) (Meets c) {} acts) (h : run (step c) {} acts = some w) :
    Accounted c acts w := by
  obtain ⟨hbooks, hwork⟩ := hmeets.run_potential (I := Books c) (Φ := fun w => work c w.sys)
    (fun _ _ _ hs hG hstep => step_books hs hG hstep) (books_init c) h
  refine ⟨?_, ended_once hbooks.flow, hbooks.crew.ended, hbooks.succeeded, ?_, hbooks.settled⟩
  · intro p hp
    obtain ⟨l, hl⟩ := (hbooks.flow.somewhere p).mp hp
    exact ⟨l, hl, fun l' hl' => hbooks.flow.one p l' l hl' hl⟩
  · have hzero : work c ({} : World).sys = 0 := by
      simp [work, jobWork, readyWork, threadWork, weight]
    have hgain : (acts.map fun a => 7 * a.arrivals).sum = 7 * (acts.map Act.arrivals).sum :=
      List.sum_map_mul_left acts Act.arrivals 7
    rw [hzero, hgain] at hwork
    show (acts.map fun a => a.steps).sum ≤ _
    omega

/-- A command for the one worker of a pool, from its arrival until it is freed. -/
def oneMessage : List Act :=
  [.arrive { desc := 0x0500, poolId := 0x8001, jobId := 0 }, .thread .server {},
    .thread (.worker 1 0) {}, .thread (.worker 1 0) {}, .thread (.worker 1 0) {},
    .thread (.worker 1 0) {}]

theorem messages_accounted_oneMessage :
    ∃ w, run (step ⟨0, [1]⟩) {} oneMessage = some w ∧ Accounted ⟨0, [1]⟩ oneMessage w ∧
      w.sys.ended.map Prod.snd = [.executed none] ∧ w.frees.map Prod.snd = [0] := by
  refine ⟨_, rfl, messages_accounted ⟨0, [1]⟩ oneMessage _ ?_ rfl, rfl, rfl⟩
  refine .cons trivial rfl (.cons ⟨rfl, ?_⟩ rfl (.cons trivial rfl (.cons trivial rfl
    (.cons ?_ rfl (.cons trivial rfl trivial)))))
  · intro m rest hque
    cases hque
    refine ⟨nofun, ?_⟩
    intro _ k hk
    cases hk
    decide
  · show Except.ok (some 0) ≠ Except.ok none
    nofun

/-- A server without workers, and a `SYM_ADD` message: the server thread executes it and goes back
to its queue. -/
def symAddRun : List Act :=
  [.arrive { desc := 0x0300, poolId := 0x8000, jobId := 0 }, .thread .server {},
    .thread .server {}]

/-- Nothing is done with the message. -/
theorem symAdd_not_accounted :
    ¬ ∀ (c : Pools) (acts : List Act) (w : World), run (step c) {} acts = some w →
      Accounted c acts w := by
  intro hall
  have hacc := hall ⟨0, []⟩ symAddRun _ rfl
  have hcount : ∀ k i, (Pools.mk 0 []).count k ≤ i := by
    intro k i
    cases k <;> exact Nat.zero_le i
  have hrest := hacc.settled ?_
  · obtain ⟨e, he⟩ := hrest.2 _ (List.mem_singleton_self _)
    cases he
  · intro t e
    cases t with
    | server => rfl
    | worker k i =>
      show Option.map _ (if (Pools.mk 0 []).count k ≤ i ∨ _ then none else _) = none
      rw [if_pos (.inl (hcount k i))]
      rfl

end Omap4Hal.Rcm.Accounts

import Omap4Hal.Lib.Run
import Omap4Hal.Rcm.MailmanDelivery

/- The role of mailman in an RcmClient is handed on. While the queue lock is free and a
   recipient waits for a message, some call has been signalled or will attempt the queue
   lock by itself (`Handover`). With the places of the messages this gives
   `mailman_delivers`, for every number of calls and every interleaving. -/
namespace Omap4Hal.Rcm.Mailman

open Lib
open Function (update update_self update_of_ne)
open Sys

/-! ## The mailman -/

/-- Has searched the new mail and is not the mailman. -/
def Pc.searched : Pc → Bool
  | .tryQueue => true
  | .enlist => true
  | .enlistRelease => true
  | .wait => true
  | .awake => true
  | .pickup => true
  | _ => false

/-- A call that will attempt the queue lock: its message is not in the mailbox. -/
def Sys.OnItsWay (s : Sys) (c : Nat) : Prop :=
  s.pc c = .tryQueue ∨
    ((s.pc c = .again ∨ s.pc c = .search ∨ s.pc c = .leave false) ∧
      ∀ m ∈ s.newMail, m.msgId ≠ s.msgId c)

def Sys.Waits (s : Sys) : Prop := ∃ r ∈ s.recipients, s.msg r = none

structure Handover (s : Sys) : Prop where
  /-- The mailbox has nothing for a call that has searched it. -/
  absent : ∀ c, (s.pc c).searched = true → ∀ m ∈ s.newMail, m.msgId ≠ s.msgId c
  /-- A call becomes a recipient only while there is a mailman. -/
  busy : ∀ c, s.pc c = .enlist → s.queueLock = 0
  /-- A mailman that leaves has signalled a recipient. -/
  leaving : ∀ c, s.pc c = .releaseQueue → s.Waits → ∃ r, s.Signalled r
  free : s.queueLock ≠ 0 → s.Waits → ∃ c, s.Signalled c ∨ s.OnItsWay c

variable {s s' : Sys} {c c' : Nat} {p q : Pc}

theorem Moves.pc_other (h : Moves s c s') (hc : c' ≠ c) :
    s'.pc c' = s.pc c' := by
  cases h <;> exact update_of_ne hc _ _

theorem Locks.mbx_unique (h : Locks s) {p' : Pc} (hpc : s.pc c = p) (hpc' : s.pc c' = p')
    (hp : p.hasMbx = true) (hp' : p'.hasMbx = true) : c = c' := by
  apply h.mbx.exclusive
  · rw [hpc, hp]
  · rw [hpc', hp']

theorem Locks.queueLock_eq_zero (h : Locks s) (hpc : s.pc c = p) (hp : p.hasQueue = true) :
    s.queueLock = 0 := by
  apply h.queue.count_eq_zero (i := c)
  rw [hpc, hp]

theorem absent_keep (h : Handover s) (hpc : s.pc c = q) (hpc' : s'.pc = update s.pc c p)
    (hid : s'.msgId = s.msgId) (hsub : ∀ m ∈ s'.newMail, m ∈ s.newMail)
    (hp : p.searched = true → q.searched = true) (c' : Nat) (hc' : (s'.pc c').searched = true)
    (m : Msg) (hm : m ∈ s'.newMail) :
    m.msgId ≠ s'.msgId c' := by
  rw [hid]
  apply h.absent c' _ m (hsub m hm)
  by_cases hc : c' = c
  · rw [hpc', hc, update_self] at hc'
    rw [hc, hpc, hp hc']
  · rw [hpc', update_of_ne hc] at hc'
    exact hc'

theorem afterRelease_searched (h : q.afterRelease = some p) (hp : p.searched = true) :
    q.searched = true := by
  cases q with
  | enlistRelease => rfl
  | leave found =>
    cases found <;>
    · cases h
      cases hp
  | foundRelease =>
    cases h
    cases hp
  | releaseMbx =>
    cases h
    cases hp
  | emptyRelease =>
    cases h
    cases hp
  | _ => cases h

theorem moves_absent (hs : Handover s) (hlocks : Locks s) (hlist : Listing s) (h : Moves s c s') :
    ∀ c', (s'.pc c').searched = true → ∀ m ∈ s'.newMail, m.msgId ≠ s'.msgId c' := by
  have hsame : ∀ m ∈ s.newMail, m ∈ s.newMail := fun _ hm => hm
  cases h with
  | start hpc _ =>
    rcases hpc with hpc | hpc
    · exact absent_keep hs hpc rfl rfl hsame (fun h => by cases h)
    · exact absent_keep hs hpc rfl rfl hsame (fun h => by cases h)
  | found hpc _ =>
    refine absent_keep hs hpc rfl rfl ?_ (fun h => by cases h)
    intro m hm
    exact List.mem_of_mem_erase hm
  | notFound hpc hfind =>
    intro c' hc' m hm
    by_cases hc : c' = c
    · rw [hc]
      have hne := List.find?_eq_none.mp hfind m hm
      rw [decide_eq_true_iff] at hne
      exact hne
    · simp only [goto, update_of_ne hc] at hc'
      exact hs.absent c' hc' m hm
  | queueBusy hpc _ => exact absent_keep hs hpc rfl rfl hsame (fun _ => rfl)
  | queueFree hpc _ => exact absent_keep hs hpc rfl rfl hsame (fun h => by cases h)
  | pollEmpty hpc => exact absent_keep hs hpc rfl rfl hsame (fun h => by cases h)
  | pollGet hpc _ => exact absent_keep hs hpc rfl rfl hsame (fun h => by cases h)
  | own hpc _ => exact absent_keep hs hpc rfl rfl hsame (fun h => by cases h)
  | deliver hpc _ _ => exact absent_keep hs hpc rfl rfl hsame (fun h => by cases h)
  | @store m₀ hpc _ hfind =>
    intro c' hc' m hm
    have hc : c' ≠ c := by
      intro hc
      simp only [goto, hc, update_self] at hc'
      cases hc'
    simp only [goto, update_of_ne hc] at hc'
    rcases List.mem_append.mp hm with hm | hm
    · exact hs.absent c' hc' m hm
    · -- the new message is for no recipient, and no other call has the mailbox lock
      obtain rfl := List.mem_singleton.mp hm
      have hlisted : c' ∈ s.recipients := by
        rw [hlist.mem c']
        by_contra hnot
        have hmbx : (s.pc c').hasMbx = true := by
          cases hq : s.pc c' <;> simp_all [Pc.searched, Pc.listed, Pc.hasMbx]
        exact hc (hlocks.mbx_unique rfl hpc hmbx rfl)
      have hne := List.find?_eq_none.mp hfind c' hlisted
      rw [decide_eq_true_iff] at hne
      exact fun heq => hne heq.symm
  | appoint hpc _ => exact absent_keep hs hpc rfl rfl hsame (fun h => by cases h)
  | appointNone hpc _ => exact absent_keep hs hpc rfl rfl hsame (fun h => by cases h)
  | releaseQueue hpc => exact absent_keep hs hpc rfl rfl hsame (fun h => by cases h)
  | release hpc =>
    exact absent_keep hs rfl rfl rfl hsame (afterRelease_searched hpc)
  | blockGet hpc _ => exact absent_keep hs hpc rfl rfl hsame (fun h => by cases h)
  | reacquire hpc _ => exact absent_keep hs hpc rfl rfl hsame (fun h => by cases h)
  | enlist hpc => exact absent_keep hs hpc rfl rfl hsame (fun _ => rfl)
  | wake hpc _ => exact absent_keep hs hpc rfl rfl hsame (fun _ => rfl)
  | awake hpc _ => exact absent_keep hs hpc rfl rfl hsame (fun _ => rfl)
  | pickup hpc _ => exact absent_keep hs hpc rfl rfl hsame (fun h => by cases h)
  | pickupNone hpc _ => exact absent_keep hs hpc rfl rfl hsame (fun h => by cases h)

theorem busy_keep (h : Handover s) (hpc' : s'.pc = update s.pc c p) (hp : p ≠ .enlist)
    (hlock : s'.queueLock = s.queueLock) (c' : Nat) (hc' : s'.pc c' = .enlist) :
    s'.queueLock = 0 := by
  have hc : c' ≠ c := by
    intro hc
    rw [hpc', hc, update_self] at hc'
    exact hp hc'
  rw [hpc', update_of_ne hc] at hc'
  rw [hlock]
  exact h.busy c' hc'

theorem moves_busy (hs : Handover s) (hlocks : Locks s) (h : Moves s c s') :
    ∀ c', s'.pc c' = .enlist → s'.queueLock = 0 := by
  cases h with
  | queueBusy _ hlock =>
    intro c' _
    exact hlock
  | queueFree hpc hlock =>
    intro c' hc'
    have hc : c' ≠ c := by
      intro hc
      simp only [goto, hc, update_self] at hc'
      cases hc'
    simp only [goto, update_of_ne hc] at hc'
    rw [hs.busy c' hc'] at hlock
    cases hlock
  | releaseQueue hpc =>
    -- a call at `enlist` has the mailbox lock, which the mailman has
    intro c' hc'
    by_cases hc : c' = c
    · simp only [goto, hc, update_self] at hc'
      cases hc'
    · simp only [goto, update_of_ne hc] at hc'
      exact absurd (hlocks.mbx_unique hc' hpc rfl rfl) hc
  | release hpc =>
    refine busy_keep hs rfl ?_ rfl
    rintro rfl
    exact absurd (afterRelease_eq_some hpc).2.1 (by decide)
  | _ => exact busy_keep hs rfl Pc.noConfusion rfl

/-- While a mailman leaves it has both locks: another call can only wake up. -/
theorem moves_of_leaving (hlocks : Locks s) (hpc' : s.pc c' = .releaseQueue) (hne : c ≠ c')
    (h : Moves s c s') :
    s.pc c = .wait ∧ ∃ n, s.event c = n + 1 ∧
      s' = { s with event := update s.event c n }.goto c .awake := by
  have hmbx : ∀ {q : Pc}, s.pc c = q → q.hasMbx ≠ true := by
    intro q hpc hq
    exact hne (hlocks.mbx_unique hpc hpc' hq rfl)
  have hqueue : ∀ {q : Pc}, s.pc c = q → q.hasQueue ≠ true := by
    intro q hpc hq
    exact hne (hlocks.queue.exclusive (by rw [hpc, hq]) (by rw [hpc']; rfl))
  have hzero : ∀ {n : Nat}, s.mbxLock ≠ n + 1 := by
    intro n hn
    have h0 := hlocks.mbx.count_eq_zero (i := c') (by rw [hpc']; rfl)
    omega
  cases h with
  | start _ hlock => exact absurd hlock hzero
  | found hpc _ => exact absurd rfl (hmbx hpc)
  | notFound hpc _ => exact absurd rfl (hmbx hpc)
  | queueBusy hpc _ => exact absurd rfl (hmbx hpc)
  | queueFree hpc _ => exact absurd rfl (hmbx hpc)
  | pollEmpty hpc => exact absurd rfl (hmbx hpc)
  | pollGet hpc _ => exact absurd rfl (hmbx hpc)
  | own hpc _ => exact absurd rfl (hmbx hpc)
  | deliver hpc _ _ => exact absurd rfl (hmbx hpc)
  | store hpc _ _ => exact absurd rfl (hmbx hpc)
  | appoint hpc _ => exact absurd rfl (hmbx hpc)
  | appointNone hpc _ => exact absurd rfl (hmbx hpc)
  | releaseQueue hpc => exact absurd rfl (hmbx hpc)
  | release hpc => exact absurd (afterRelease_eq_some hpc).1 (hmbx rfl)
  | blockGet hpc _ => exact absurd rfl (hqueue hpc)
  | reacquire _ hlock => exact absurd hlock hzero
  | enlist hpc => exact absurd rfl (hmbx hpc)
  | wake hpc hevent => exact ⟨hpc, _, hevent, rfl⟩
  | awake _ hlock => exact absurd hlock hzero
  | pickup hpc _ => exact absurd rfl (hmbx hpc)
  | pickupNone hpc _ => exact absurd rfl (hmbx hpc)

theorem Sys.Signalled.frame {r : Nat} (h : s.Signalled r) (hr : r ∈ s'.recipients)
    (hmsg : s'.msg r = s.msg r) (hevent : s'.event r = s.event r) (hpc : s'.pc r = s.pc r) :
    s'.Signalled r := by
  rw [Sys.Signalled, hmsg, hevent, hpc]
  exact ⟨hr, h.2⟩

theorem Sys.Signalled.awoken {r : Nat} (h : s.Signalled r) (hp : p = .awake ∨ p = .pickup)
    (hpc' : s'.pc = update s.pc c p) (hr : s'.recipients = s.recipients) (hmsg : s'.msg = s.msg)
    (hevent : ∀ c', c' ≠ c → s'.event c' = s.event c') : s'.Signalled r := by
  by_cases hc : r = c
  · subst hc
    rw [Sys.Signalled, hr, hmsg, hpc', update_self]
    exact ⟨h.1, h.2.1, .inr hp⟩
  · apply h.frame (hr ▸ h.1) (congrFun hmsg r) (hevent r hc)
    rw [hpc', update_of_ne hc]

theorem appoint_signals (h : Moves s c s') (hpc' : s'.pc c = .releaseQueue) (hw : s'.Waits) :
    ∃ r, s'.Signalled r := by
  have hp : ∀ {t : Sys} {p : Pc}, t.pc = update s.pc c p → t.pc c = .releaseQueue →
      p = .releaseQueue := by
    intro t p ht htc
    rw [ht, update_self] at htc
    exact htc
  cases h with
  | appoint _ hfind =>
    refine ⟨_, List.mem_of_find?_eq_some hfind, ?_, .inl ?_⟩
    · have hmsg := List.find?_some hfind
      rw [decide_eq_true_iff] at hmsg
      exact hmsg
    · simp [goto, signal]
  | appointNone _ hfind =>
    obtain ⟨r, hr, hmsg⟩ := hw
    have hne := List.find?_eq_none.mp hfind r hr
    rw [decide_eq_true_iff] at hne
    exact absurd hmsg hne
  | release hpc =>
    have hp := hp rfl hpc'
    rw [hp] at hpc
    exact absurd (afterRelease_eq_some hpc).2.1 (by decide)
  | _ => exact Pc.noConfusion (hp rfl hpc')

theorem moves_leaving (hs : Handover s) (hlocks : Locks s) (h : Moves s c s') :
    ∀ c', s'.pc c' = .releaseQueue → s'.Waits → ∃ r, s'.Signalled r := by
  intro c' hc' hw
  by_cases hc : c' = c
  · subst hc
    exact appoint_signals h hc' hw
  · rw [h.pc_other hc] at hc'
    obtain ⟨_, n, _, rfl⟩ := moves_of_leaving hlocks hc' (Ne.symm hc) h
    obtain ⟨r, hr⟩ := hs.leaving c' hc' hw
    refine ⟨r, hr.awoken (.inl rfl) rfl rfl rfl ?_⟩
    intro c'' hne
    exact update_of_ne hne _ _

theorem Sys.OnItsWay.betweenLocks (h : s.OnItsWay c) :
    (s.pc c).betweenLocks = true := by
  rcases h with h | ⟨h | h | h, _⟩ <;>
  · rw [h]
    rfl

theorem not_onItsWay (hpc : s.pc c = q) (hq : q.betweenLocks = false) : ¬ s.OnItsWay c := by
  intro h
  have hbetween := h.betweenLocks
  rw [hpc, hq] at hbetween
  cases hbetween

theorem not_signalled (hlist : Listing s) (hpc : s.pc c = q) (hq : q.listed = false) :
    ¬ s.Signalled c := by
  intro h
  have hlisted := (hlist.mem c).mp h.1
  rw [hpc, hq] at hlisted
  cases hlisted

theorem not_successor (hlist : Listing s) (hpc : s.pc c = q) (hl : q.listed = false)
    (hb : q.betweenLocks = false) :
    ¬ (s.Signalled c ∨ s.OnItsWay c) := by
  intro h
  rcases h with h | h
  · exact not_signalled hlist hpc hl h
  · exact not_onItsWay hpc hb h

/-- A step of one call that leaves the queue lock and the other recipients alone. The next
mailman is still there, if it was another call, and else `hself` says where it has got. -/
theorem free_keep (hs : Handover s) (hpc' : s'.pc = update s.pc c p)
    (hid : ∀ r, r ≠ c → s'.msgId r = s.msgId r) (hlock : s'.queueLock = s.queueLock)
    (hmsg : s'.msg = s.msg) (hsub : ∀ r ∈ s'.recipients, r ∈ s.recipients)
    (hrec : ∀ r, r ≠ c → r ∈ s.recipients → r ∈ s'.recipients)
    (hevent : ∀ r, r ≠ c → s'.event r = s.event r) (hnew : ∀ m ∈ s'.newMail, m ∈ s.newMail)
    (hself : s.Signalled c ∨ s.OnItsWay c → s'.Signalled c ∨ s'.OnItsWay c) :
    s'.queueLock ≠ 0 → s'.Waits → ∃ w, s'.Signalled w ∨ s'.OnItsWay w := by
  intro hfree hw
  obtain ⟨r, hr, hnone⟩ := hw
  have hw : s.Waits := ⟨r, hsub r hr, hmsg ▸ hnone⟩
  obtain ⟨w, h⟩ := hs.free (hlock ▸ hfree) hw
  refine ⟨w, ?_⟩
  by_cases hc : w = c
  · subst hc
    exact hself h
  · have hpc : s'.pc w = s.pc w := by rw [hpc', update_of_ne hc]
    rcases h with h | h
    · exact .inl (h.frame (hrec w hc h.1) (congrFun hmsg w) (hevent w hc) hpc)
    · right
      rw [Sys.OnItsWay, hpc, hid w hc]
      exact h.imp id fun h => ⟨h.1, fun m hm => h.2 m (hnew m hm)⟩

theorem release_successor (hlist : Listing s) (hpc : (s.pc c).afterRelease = some p)
    (h : s.Signalled c ∨ s.OnItsWay c) :
    (s.postMbx.goto c p).Signalled c ∨ (s.postMbx.goto c p).OnItsWay c := by
  cases hq : s.pc c with
  | enlistRelease =>
    rw [hq] at hpc
    cases hpc
    rcases h with ⟨hr, hmsg, hevent⟩ | h
    · rw [hq] at hevent
      exact .inl ⟨hr, hmsg, .inl (hevent.resolve_right (by simp))⟩
    · exact absurd h (not_onItsWay hq rfl)
  | leave found =>
    cases found with
    | true => exact absurd h (not_successor hlist hq rfl rfl)
    | false =>
      rw [hq] at hpc
      cases hpc
      rcases h with h | h
      · exact absurd h (not_signalled hlist hq rfl)
      · rcases h with h | ⟨_, habsent⟩
        · rw [hq] at h
          cases h
        · exact .inr (.inr ⟨.inl (update_self _ _ _), habsent⟩)
  | foundRelease => exact absurd h (not_successor hlist hq rfl rfl)
  | releaseMbx => exact absurd h (not_successor hlist hq rfl rfl)
  | emptyRelease => exact absurd h (not_successor hlist hq rfl rfl)
  | _ =>
    rw [hq] at hpc
    cases hpc

theorem moves_free (hs : Handover s) (hlocks : Locks s) (hlist : Listing s) (h : Moves s c s') :
    s'.queueLock ≠ 0 → s'.Waits → ∃ w, s'.Signalled w ∨ s'.OnItsWay w := by
  -- the steps of the mailman
  have hbusy : ∀ {q : Pc} {P : Prop}, s.pc c = q → q.hasQueue = true → s.queueLock ≠ 0 → P :=
    fun hpc hq hfree => absurd (hlocks.queueLock_eq_zero hpc hq) hfree
  cases h with
  | start hpc _ =>
    rcases hpc with hpc | hpc
    · exact free_keep hs rfl (fun _ _ => rfl) rfl rfl (fun _ h => h) (fun _ _ h => h)
        (fun _ _ => rfl) (fun _ h => h) fun h => absurd h (not_successor hlist hpc rfl rfl)
    · refine free_keep hs rfl (fun _ _ => rfl) rfl rfl (fun _ h => h) (fun _ _ h => h)
        (fun _ _ => rfl) (fun _ h => h) ?_
      intro h
      rcases h with h | h | ⟨_, habsent⟩
      · exact absurd h (not_signalled hlist hpc rfl)
      · rw [hpc] at h
        cases h
      · exact .inr (.inr ⟨.inr (.inl (update_self _ _ _)), habsent⟩)
  | found hpc hfind =>
    refine free_keep hs rfl (fun _ _ => rfl) rfl rfl (fun _ h => h) (fun _ _ h => h)
      (fun _ _ => rfl) (fun _ h => List.mem_of_mem_erase h) ?_
    intro h
    rcases h with h | h | ⟨_, habsent⟩
    · exact absurd h (not_signalled hlist hpc rfl)
    · rw [hpc] at h
      cases h
    · have hid := List.find?_some hfind
      rw [decide_eq_true_iff] at hid
      exact absurd hid (habsent _ (List.mem_of_find?_eq_some hfind))
  | notFound _ _ =>
    exact free_keep hs rfl (fun _ _ => rfl) rfl rfl (fun _ h => h) (fun _ _ h => h)
      (fun _ _ => rfl) (fun _ h => h) fun _ => .inr (.inl (update_self _ _ _))
  | queueBusy _ hlock => exact fun hfree => absurd hlock hfree
  | queueFree hpc hlock =>
    intro hfree
    have hzero := (moves_locks hlocks (.queueFree hpc hlock)).queueLock_eq_zero (c := c)
      (p := .poll) (update_self _ _ _) rfl
    exact absurd hzero hfree
  | pollEmpty hpc => exact hbusy hpc rfl
  | pollGet hpc _ => exact hbusy hpc rfl
  | own hpc _ => exact hbusy hpc rfl
  | deliver hpc _ _ => exact hbusy hpc rfl
  | store hpc _ _ => exact hbusy hpc rfl
  | appoint hpc _ => exact hbusy hpc rfl
  | appointNone hpc _ => exact hbusy hpc rfl
  | releaseQueue hpc =>
    intro _ hw
    obtain ⟨r, hr⟩ := hs.leaving c hpc hw
    have hc : r ≠ c := by
      rintro rfl
      exact not_successor hlist hpc rfl rfl (.inl hr)
    exact ⟨r, .inl (hr.frame hr.1 rfl rfl (update_of_ne hc _ _))⟩
  | release hpc =>
    exact free_keep hs rfl (fun _ _ => rfl) rfl rfl (fun _ h => h) (fun _ _ h => h)
      (fun _ _ => rfl) (fun _ h => h) (release_successor hlist hpc)
  | blockGet hpc _ => exact hbusy hpc rfl
  | reacquire hpc _ => exact hbusy hpc rfl
  | enlist hpc => exact fun hfree => absurd (hs.busy c hpc) hfree
  | wake hpc _ =>
    have hevent : ∀ n r, r ≠ c → update s.event c n r = s.event r :=
      fun n r hr => update_of_ne hr n s.event
    refine free_keep hs rfl (fun _ _ => rfl) rfl rfl (fun _ h => h) (fun _ _ h => h)
      (hevent _) (fun _ h => h) ?_
    intro h
    rcases h with h | h
    · exact .inl (h.awoken (.inl rfl) rfl rfl rfl (hevent _))
    · exact absurd h (not_onItsWay hpc rfl)
  | awake hpc _ =>
    refine free_keep hs rfl (fun _ _ => rfl) rfl rfl (fun _ h => h) (fun _ _ h => h)
      (fun _ _ => rfl) (fun _ h => h) ?_
    intro h
    rcases h with h | h
    · exact .inl (h.awoken (.inr rfl) rfl rfl rfl fun _ _ => rfl)
    · exact absurd h (not_onItsWay hpc rfl)
  | pickup hpc hmsg =>
    refine free_keep hs rfl (fun _ _ => rfl) rfl rfl (fun _ h => List.mem_of_mem_erase h)
      (fun _ hr h => (List.mem_erase_of_ne hr).mpr h) (fun _ _ => rfl) (fun _ h => h) ?_
    intro h
    rcases h with h | h
    · rw [h.2.1] at hmsg
      cases hmsg
    · exact absurd h (not_onItsWay hpc rfl)
  | pickupNone hpc hmsg =>
    -- the recipient was signalled without a message: it tries to be the mailman
    refine free_keep hs rfl (fun _ _ => rfl) rfl rfl (fun _ h => List.mem_of_mem_erase h)
      (fun _ hr h => (List.mem_erase_of_ne hr).mpr h) (fun _ _ => rfl) (fun _ h => h) ?_
    intro _
    exact .inr (.inr ⟨.inr (.inr (update_self _ _ _)),
      hs.absent c (by rw [hpc]; rfl)⟩)

theorem moves_handover (hs : Handover s) (hlocks : Locks s) (hlist : Listing s) (h : Moves s c s') :
    Handover s' :=
  ⟨moves_absent hs hlocks hlist h, moves_busy hs hlocks h, moves_leaving hs hlocks h,
    moves_free hs hlocks hlist h⟩

theorem call_handover (hs : Handover s) (hlist : Listing s) {id : UInt16} (hidle : s.pc c = .idle) :
    Handover ({ s with msgId := update s.msgId c id }.goto c .start) := by
  have hother : ∀ {q : Pc} {c' : Nat}, update s.pc c .start c' = q → q ≠ .start → c' ≠ c := by
    intro q c' hq hne hc
    rw [hc, update_self] at hq
    exact hne hq.symm
  refine ⟨?_, ?_, ?_, ?_⟩
  · intro c' hc' m hm
    have hc : c' ≠ c := by
      rintro rfl
      simp only [goto, update_self] at hc'
      cases hc'
    simp only [goto, update_of_ne hc] at hc' ⊢
    exact hs.absent c' hc' m hm
  · intro c' hc'
    have hc := hother hc' Pc.noConfusion
    simp only [goto, update_of_ne hc] at hc'
    exact hs.busy c' hc'
  · intro c' hc' hw
    have hc := hother hc' Pc.noConfusion
    simp only [goto, update_of_ne hc] at hc'
    obtain ⟨r, hr⟩ := hs.leaving c' hc' hw
    have hrc : r ≠ c := by
      rintro rfl
      exact not_signalled hlist hidle rfl hr
    exact ⟨r, hr.frame hr.1 rfl rfl (update_of_ne hrc _ _)⟩
  · exact free_keep hs rfl (fun _ hr => update_of_ne hr _ _) rfl rfl (fun _ h => h)
      (fun _ _ h => h) (fun _ _ => rfl) (fun _ h => h)
      fun h => absurd h (not_successor hlist hidle rfl rfl)

/-! ## Every run -/

structure Inv (s : Sys) : Prop where
  locks : Locks s
  listing : Listing s
  mail : Mail s
  handover : Handover s

theorem inv_init : Inv {} := by
  refine ⟨⟨.inl ⟨rfl, fun _ => rfl⟩, .inl ⟨rfl, fun _ => rfl⟩⟩, ⟨List.nodup_nil, ?_⟩, ?_, ?_⟩
  · intro c
    simp [Pc.listed]
  · have hnowhere : ∀ m p, ¬ ({} : Sys).At m p := by
      intro m p
      cases p <;> simp [Sys.At, Pc.hand]
    refine ⟨?_, ?_, List.nodup_nil, List.nodup_nil, ?_, ?_, ?_, ?_⟩
    · exact fun m p _ hp => absurd hp (hnowhere m p)
    · intro m
      simp [hnowhere]
    · exact fun m _ p _ hp => absurd hp (hnowhere m p)
    · exact fun _ _ h => (by cases h)
    · exact fun m p _ _ hp => absurd hp (hnowhere m p)
    · intro c
      simp [Pc.found]
  · refine ⟨fun _ h => (by cases h), fun _ h => (by cases h), fun _ h => (by cases h), ?_⟩
    intro _ hw
    obtain ⟨r, hr, _⟩ := hw
    cases hr

theorem step_inv (hs : Inv s) (h : Step s s') : Inv s' := by
  cases h with
  | arrive m hnew hid =>
    have ho := hs.handover
    exact ⟨⟨hs.locks.mbx, hs.locks.queue⟩, ⟨hs.listing.nodup, hs.listing.mem⟩,
      arrive_mail hs.mail hnew hid, ⟨ho.absent, ho.busy, ho.leaving, ho.free⟩⟩
  | call c id hidle hid =>
    exact ⟨hs.locks.keep hidle rfl rfl rfl rfl rfl, hs.listing.keep hidle rfl rfl rfl,
      call_mail hs.mail hs.listing hidle hid, call_handover hs.handover hs.listing hidle⟩
  | advance c h =>
    have hmoves := advance_moves h
    exact ⟨moves_locks hs.locks hmoves, moves_listing hs.listing hmoves,
      moves_mail hs.mail hs.listing hmoves,
      moves_handover hs.handover hs.locks hs.listing hmoves⟩

theorem reachable_inv (h : Reachable s) : Inv s := by
  induction h with
  | init => exact inv_init
  | step _ h ih => exact step_inv ih h

/-- In every interleaving no message is lost, doubled or given to another caller, and the
role of mailman is handed on. -/
theorem mailman_delivers {s : Sys} (h : Reachable s) : Delivers s := by
  have hs := reachable_inv h
  refine ⟨?_, hs.mail.queue, hs.mail.newMail, ?_, ?_, ?_⟩
  · intro m hm
    obtain ⟨p, hp⟩ := (hs.mail.somewhere m).mp hm
    exact ⟨p, hp, fun q hq => hs.mail.one m q p hq hp⟩
  · intro c m hm
    exact hs.mail.own m (.returned c) c rfl hm
  · intro c hpc
    apply (hs.mail.found c).mpr
    rw [hpc]
    rfl
  · intro hfree hbetween r hr
    by_cases hmsg : s.msg r = none
    · right
      obtain ⟨w, hw | hw⟩ := hs.handover.free hfree ⟨r, hr, hmsg⟩
      · exact ⟨w, hw⟩
      · exact absurd hw (not_onItsWay rfl (hbetween w))
    · exact .inl hmsg

theorem reachable_run {t : Sys} (cs : List Nat) (hs : Reachable s) (h : run advance s cs = some t) :
    Reachable t :=
  run_induct (fun _ c _ hs h => .step hs (.advance c h)) hs h

/-- Call 0 is the mailman and call 1 waits. The message for call 0 comes; when it has given
back the queue lock, call 1 has been signalled. -/
theorem mailman_delivers_handover : ∃ s, Reachable s ∧ Delivers s ∧ s.queueLock ≠ 0 ∧
    (∀ c, (s.pc c).betweenLocks = false) ∧ s.recipients = [1] ∧ s.msg 1 = none := by
  have h₁ : Reachable _ := .step .init (.call 0 1 rfl fun _ h => (by cases h))
  have h₂ := reachable_run [0, 0, 0, 0, 0] h₁ rfl
  have h₃ : Reachable _ := .step h₂ (.call 1 2 rfl (by
    intro c' hc'
    match c' with
    | 0 => decide
    | n + 1 => cases hc'))
  have h₄ := reachable_run [1, 1, 1, 1, 1] h₃ rfl
  have h₅ : Reachable _ := .step h₄ (.arrive ⟨0, 1⟩ (by decide) (by
    intro m p hm
    have harrived := ((reachable_inv h₄).mail.somewhere m).mpr ⟨p, hm⟩
    cases harrived))
  have h₆ := reachable_run [0, 0, 0, 0, 0] h₅ rfl
  refine ⟨_, h₆, mailman_delivers h₆, ?_, ?_, rfl, rfl⟩
  · decide
  · intro c
    match c with
    | 0 => rfl
    | 1 => rfl
    | n + 2 => rfl

end Omap4Hal.Rcm.Mailman

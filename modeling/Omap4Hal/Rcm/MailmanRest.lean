import Omap4Hal.Rcm.MailmanHandover

/- An RcmClient at rest. When no call can go on, there is nothing left to do: a call that has not
   returned is the mailman, who waits for the next message, or a recipient; as long as there is
   one there is exactly one mailman; and no message that has arrived is for any of them
   (`at_rest_settled`). So the calls cannot block each other, whatever their order was.

   A recipient does not miss its message, as its event counts the signals (`Informed`). -/
namespace Omap4Hal.Rcm.Mailman

open Lib
open Function (update update_self update_of_ne)

/-- Mailman, without its own message. -/
def Pc.seeks : Pc → Bool
  | .poll => true
  | .sort _ => true
  | .emptyRelease => true
  | .blockGet => true
  | .reacquire _ => true
  | _ => false

/-- A recipient before it has come to its event. -/
def Pc.waits : Pc → Bool
  | .enlistRelease => true
  | .wait => true
  | _ => false

structure Informed (s : Sys) : Prop where
  /-- The mailbox has nothing for the mailman. -/
  absent : ∀ c, (s.pc c).seeks = true → ∀ m ∈ s.newMail, m.msgId ≠ s.msgId c
  /-- A recipient that has a message is signalled. -/
  signalled : ∀ c, (s.pc c).waits = true → s.msg c ≠ none → s.event c ≠ 0

variable {s s' : Sys} {c c' : Nat} {p q : Pc}

/-! ## What a step does to the mailbox and the events -/

theorem Pc.hasQueue_of_seeks (h : q.seeks = true) : q.hasQueue = true := by
  cases q <;> first | rfl | cases h

theorem Pc.active_of_hasQueue (h : q.hasQueue = true) : q.active = true := by
  cases q <;> first | rfl | cases h

theorem Pc.active_of_listed (h : q.listed = true) : q.active = true := by
  cases q <;> first | rfl | cases h

theorem afterRelease_before (h : q.afterRelease = some p) :
    (p.seeks = true → q.seeks = true) ∧ (p.waits = true → q.waits = true) := by
  cases q with
  | leave found =>
    cases found <;>
    · cases h
      decide
  | foundRelease | releaseMbx | emptyRelease | enlistRelease =>
    cases h
    decide
  | _ => cases h

theorem goto_pc_self {t : Sys} : (t.goto c p).pc c = p := update_self _ _ _

theorem Moves.msgId (h : Moves s c s') : s'.msgId = s.msgId := by
  cases h <;> rfl

theorem Moves.newMail (h : Moves s c s') {m : Msg} (hm : m ∈ s'.newMail) :
    m ∈ s.newMail ∨ s.pc c = .sort m ∧ m.msgId ≠ s.msgId c := by
  cases h with
  | found _ _ => exact .inl (List.mem_of_mem_erase hm)
  | store hpc hid _ =>
    rcases List.mem_append.mp hm with hm | hm
    · exact .inl hm
    · rw [List.mem_singleton.mp hm]
      exact .inr ⟨hpc, hid⟩
  | _ => exact .inl hm

theorem Moves.seeks (h : Moves s c s') (hc : (s'.pc c).seeks = true) :
    (s.pc c).seeks = true ∨ s.pc c = .tryQueue := by
  cases h with
  | queueFree hpc _ => exact .inr hpc
  | pollEmpty hpc | pollGet hpc _ | deliver hpc _ _ | store hpc _ _ | blockGet hpc _
    | reacquire hpc _ =>
    left
    rw [hpc]
    rfl
  | release hpc =>
    rw [goto_pc_self] at hc
    exact .inl ((afterRelease_before hpc).1 hc)
  | _ =>
    rw [goto_pc_self] at hc
    cases hc

/-- A recipient that waits has no message yet, or is signalled in this step, or the step does
not concern it. -/
theorem Moves.signals (h : Moves s c s') (hw : (s'.pc c').waits = true) :
    s'.msg c' = none ∨ s'.event c' ≠ 0 ∨
      (s.pc c').waits = true ∧ s'.msg c' = s.msg c' ∧ s'.event c' = s.event c' := by
  have hsignal : ∀ r, update s.event r (s.event r + 1) c' ≠ 0 ∨
      c' ≠ r ∧ update s.event r (s.event r + 1) c' = s.event c' := by
    intro r
    by_cases hr : c' = r
    · left
      rw [hr, update_self]
      exact Nat.succ_ne_zero _
    · exact .inr ⟨hr, update_of_ne hr _ _⟩
  by_cases hc : c' = c
  · subst hc
    cases h with
    | enlist _ => exact .inl (update_self _ _ _)
    | release hpc =>
      rw [goto_pc_self] at hw
      exact .inr (.inr ⟨(afterRelease_before hpc).2 hw, rfl, rfl⟩)
    | _ =>
      rw [goto_pc_self] at hw
      cases hw
  · rw [h.pc_other hc] at hw
    cases h with
    | @deliver _ _ _ r _ =>
      exact .inr ((hsignal r).imp_right fun h => ⟨hw, update_of_ne h.1 _ _, h.2⟩)
    | @appoint _ r _ => exact .inr ((hsignal r).imp_right fun h => ⟨hw, rfl, h.2⟩)
    | enlist _ =>
      exact .inr (.inr ⟨hw, update_of_ne hc _ _, update_of_ne hc _ _⟩)
    | wake _ _ => exact .inr (.inr ⟨hw, rfl, update_of_ne hc _ _⟩)
    | _ => exact .inr (.inr ⟨hw, rfl, rfl⟩)

theorem moves_informed (hs : Informed s) (hinv : Inv s) (h : Moves s c s') : Informed s' := by
  refine ⟨?_, ?_⟩
  · intro c' hc' m hm
    rw [h.msgId]
    by_cases hc : c' = c
    · subst hc
      rcases h.newMail hm with hm | ⟨_, hid⟩
      · rcases h.seeks hc' with hseeks | hpc
        · exact hs.absent c' hseeks m hm
        · exact hinv.handover.absent c' (by rw [hpc]; rfl) m hm
      · exact hid
    · rw [h.pc_other hc] at hc'
      rcases h.newMail hm with hm | ⟨hpc, _⟩
      · exact hs.absent c' hc' m hm
      · -- two calls would have the queue lock
        exact absurd (hinv.locks.queue.exclusive (Pc.hasQueue_of_seeks hc') (by rw [hpc]; rfl)) hc
  · intro c' hw hmsg
    rcases h.signals hw with hnone | hevent | ⟨hw, hmsg', hevent⟩
    · exact absurd hnone hmsg
    · exact hevent
    · rw [hevent]
      exact hs.signalled c' hw (hmsg' ▸ hmsg)

theorem call_informed (hs : Informed s) {id : UInt16} :
    Informed ({ s with msgId := update s.msgId c id }.goto c .start) := by
  refine ⟨?_, ?_⟩
  · intro c' hc' m hm
    by_cases hc : c' = c
    · rw [hc, goto_pc_self] at hc'
      cases hc'
    · simp only [Sys.goto, update_of_ne hc] at hc' ⊢
      exact hs.absent c' hc' m hm
  · intro c' hw hmsg
    by_cases hc : c' = c
    · rw [hc, goto_pc_self] at hw
      cases hw
    · simp only [Sys.goto, update_of_ne hc] at hw
      exact hs.signalled c' hw hmsg

theorem reachable_informed (h : Reachable s) : Informed s := by
  induction h with
  | init => exact ⟨fun _ h => (by cases h), fun _ h => (by cases h)⟩
  | step hs h ih =>
    cases h with
    | arrive m hnew hid => exact ⟨ih.absent, ih.signalled⟩
    | call c id hidle hid => exact call_informed ih
    | advance c h => exact moves_informed ih (reachable_inv hs) (advance_moves h)

/-! ## No step left -/

theorem advance_of_hasMbx (h : (s.pc c).hasMbx = true) : advance s c ≠ none := by
  cases hpc : s.pc c with
  | search | tryQueue | poll | sort _ | appoint | pickup =>
    simp only [advance, hpc]
    repeat' split
    all_goals exact Option.some_ne_none _
  | idle | start | again | blockGet | reacquire _ | wait | awake | done =>
    rw [hpc] at h
    cases h
  | _ =>
    simp only [advance, hpc]
    exact Option.some_ne_none _

def Sys.AtRest (s : Sys) : Prop := ∀ c, advance s c = none

theorem Sys.AtRest.hasMbx (hrest : s.AtRest) (c : Nat) : (s.pc c).hasMbx = false := by
  by_contra h
  exact advance_of_hasMbx (by simpa using h) (hrest c)

theorem Sys.AtRest.pend (hrest : s.AtRest) (hlocks : Locks s) : s.pendMbx ≠ none := by
  rw [Sys.pendMbx]
  split
  · next hzero =>
    rcases hlocks.mbx with ⟨hone, _⟩ | ⟨_, c, hc, _⟩
    · rw [hzero] at hone
      cases hone
    · exact absurd (hc.symm.trans (hrest.hasMbx c)) Bool.noConfusion
  · exact Option.some_ne_none _

theorem Sys.AtRest.place (hrest : s.AtRest) (hlocks : Locks s) (hc : (s.pc c).active = true) :
    s.pc c = .blockGet ∧ s.queue = [] ∨ s.pc c = .wait ∧ s.event c = 0 := by
  have hstep := hrest c
  have hmbx := hrest.hasMbx c
  have hpend := hrest.pend hlocks
  cases hpc : s.pc c with
  | start | again | reacquire _ | awake =>
    simp only [advance, hpc, Option.map_eq_none_iff] at hstep
    exact absurd hstep hpend
  | blockGet =>
    simp only [advance, hpc] at hstep
    split at hstep
    · next hqueue => exact .inl ⟨rfl, hqueue⟩
    · cases hstep
  | wait =>
    simp only [advance, hpc] at hstep
    split at hstep
    · next hevent => exact .inr ⟨rfl, hevent⟩
    · cases hstep
  | idle | done =>
    rw [hpc] at hc
    cases hc
  | _ =>
    rw [hpc] at hmbx
    cases hmbx

theorem Sys.AtRest.mailman (hrest : s.AtRest) (hinv : Inv s) (hinf : Informed s)
    (hc : (s.pc c).active = true) : ∃ w, s.pc w = .blockGet := by
  have hplace := fun {c' : Nat} => hrest.place (c := c') hinv.locks
  have hmailman : s.queueLock = 0 → ∃ w, s.pc w = .blockGet := by
    intro hzero
    rcases hinv.locks.queue with ⟨hone, _⟩ | ⟨_, w, hw, _⟩
    · rw [hzero] at hone
      cases hone
    · have hw : (s.pc w).hasQueue = true := hw
      rcases hplace (Pc.active_of_hasQueue hw) with ⟨hpc, _⟩ | ⟨hpc, _⟩
      · exact ⟨w, hpc⟩
      · rw [hpc] at hw
        cases hw
  rcases hplace hc with ⟨hpc, _⟩ | ⟨hpc, hevent⟩
  · exact ⟨c, hpc⟩
  · -- a recipient without a message: the queue lock is taken, or a successor could go on
    have hmem : c ∈ s.recipients := (hinv.listing.mem c).mpr (by rw [hpc]; rfl)
    have hmsg : s.msg c = none := by
      by_contra hmsg
      exact hinf.signalled c (by rw [hpc]; rfl) hmsg hevent
    by_contra hno
    obtain ⟨w, hw⟩ := hinv.handover.free (fun h => hno (hmailman h)) ⟨c, hmem, hmsg⟩
    have hactive : (s.pc w).active = true := by
      rcases hw with ⟨hw, _⟩ | hw
      · exact Pc.active_of_listed ((hinv.listing.mem w).mp hw)
      · rcases hw with hw | ⟨hw | hw | hw, _⟩ <;> rw [hw] <;> rfl
    rcases hplace hactive with ⟨hq, _⟩ | ⟨hq, hzero⟩
    · exact hno ⟨w, hq⟩
    · rcases hw with ⟨_, _, hsig⟩ | hw
      · rw [hq] at hsig
        exact absurd hzero (hsig.resolve_right (by simp))
      · exact not_onItsWay hq rfl hw

/-- What is left when no call can go on. -/
structure Settled (s : Sys) : Prop where
  waiting : ∀ c, (s.pc c).active = true → s.pc c = .blockGet ∨ s.pc c = .wait
  mailman : ∀ c, (s.pc c).active = true → s.queue = [] ∧ ∃! w, s.pc w = .blockGet
  /-- No message that has come is for a call that waits. -/
  nothing : ∀ c, (s.pc c).active = true → ∀ m p, s.At m p → p.undelivered = true →
    m.msgId ≠ s.msgId c

/-- The calls cannot block each other: in every interleaving, when none can go on, one of those
that have not returned is the mailman, the others wait for their events, and none of their
messages has come. -/
theorem at_rest_settled {s : Sys} (h : Reachable s) (hrest : s.AtRest) : Settled s := by
  have hinv := reachable_inv h
  have hinf := reachable_informed h
  have hqueue : ∀ c, (s.pc c).active = true → s.queue = [] ∧ ∃! w, s.pc w = .blockGet := by
    intro c hc
    obtain ⟨w, hw⟩ := hrest.mailman hinv hinf hc
    refine ⟨?_, w, hw, ?_⟩
    · rcases hrest.place hinv.locks (c := w) (by rw [hw]; rfl) with ⟨_, hq⟩ | ⟨hpc, _⟩
      · exact hq
      · rw [hw] at hpc
        cases hpc
    · intro w' hw'
      exact hinv.locks.queue.exclusive (by rw [hw']; rfl) (by rw [hw]; rfl)
  refine ⟨?_, hqueue, ?_⟩
  · intro c hc
    exact (hrest.place hinv.locks hc).imp And.left And.left
  · intro c hc m p hm hp
    cases p with
    | queue =>
      have hm : m ∈ s.queue := hm
      rw [(hqueue c hc).1] at hm
      cases hm
    | hand w =>
      have hm : (s.pc w).hand = some m := hm
      have hactive : (s.pc w).active = true := by
        cases hpc : s.pc w <;> first | rfl | (rw [hpc] at hm; cases hm)
      rcases hrest.place hinv.locks hactive with ⟨hpc, _⟩ | ⟨hpc, _⟩ <;>
      · rw [hpc] at hm
        cases hm
    | newMail =>
      rcases hrest.place hinv.locks hc with ⟨hpc, _⟩ | ⟨hpc, _⟩
      · exact hinf.absent c (by rw [hpc]; rfl) m hm
      · exact hinv.handover.absent c (by rw [hpc]; rfl) m hm
    | recipient w =>
      obtain ⟨hw, hmsg⟩ : w ∈ s.recipients ∧ s.msg w = some m := hm
      have hlisted := (hinv.listing.mem w).mp hw
      rcases hrest.place hinv.locks (Pc.active_of_listed hlisted) with ⟨hpc, _⟩ | ⟨hpc, hevent⟩
      · rw [hpc] at hlisted
        cases hlisted
      · exact absurd hevent (hinf.signalled w (by rw [hpc]; rfl) (by simp [hmsg]))
    | returned _ => cases hp

/-- Call 0 is the mailman and waits for a message, and call 1 waits for call 0. -/
theorem at_rest_settled_two : ∃ s, Reachable s ∧ s.AtRest ∧ Settled s ∧
    s.pc 0 = .blockGet ∧ s.pc 1 = .wait := by
  have h₁ : Reachable _ := .step .init (.call 0 1 rfl fun _ h => (by cases h))
  have h₂ := reachable_run [0, 0, 0, 0, 0] h₁ rfl
  have h₃ : Reachable _ := .step h₂ (.call 1 2 rfl (by
    intro c' hc'
    cases c' with
    | zero => decide
    | succ n => cases hc'))
  have h₄ := reachable_run [1, 1, 1, 1, 1] h₃ rfl
  refine ⟨_, h₄, ?_, at_rest_settled h₄ ?_, rfl, rfl⟩ <;>
  · intro c
    rcases c with _ | _ | n <;> rfl

end Omap4Hal.Rcm.Mailman

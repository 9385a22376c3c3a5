import Omap4Hal.Lib.Mutex
import Omap4Hal.Lib.Places
import Omap4Hal.Rcm.Mailman

/- Where the locks, the recipients and the messages of an RcmClient are after every step
   of `_RcmClient_getReturnMsg`. Each lock is with at most one call (`Locks`), the list of
   recipients has the calls that wait (`Listing`), and every message that has arrived is in
   one place (`Mail`). -/
namespace Omap4Hal.Rcm.Mailman

open Lib
open Function (update update_self update_of_ne)
open Sys

/-! ## The two locks -/

def Pc.hasMbx : Pc → Bool
  | .search => true
  | .foundRelease => true
  | .tryQueue => true
  | .poll => true
  | .sort _ => true
  | .appoint => true
  | .releaseQueue => true
  | .releaseMbx => true
  | .emptyRelease => true
  | .enlist => true
  | .enlistRelease => true
  | .pickup => true
  | .leave _ => true
  | _ => false

def Pc.hasQueue : Pc → Bool
  | .poll => true
  | .sort _ => true
  | .appoint => true
  | .releaseQueue => true
  | .emptyRelease => true
  | .blockGet => true
  | .reacquire _ => true
  | _ => false

/-- On the list of recipients. -/
def Pc.listed : Pc → Bool
  | .enlistRelease => true
  | .wait => true
  | .awake => true
  | .pickup => true
  | _ => false

/-- Has its message. -/
def Pc.found : Pc → Bool
  | .foundRelease => true
  | .appoint => true
  | .releaseQueue => true
  | .releaseMbx => true
  | .leave found => found
  | .done => true
  | _ => false

variable {q p : Pc} {s s' : Sys} {c : Nat}

theorem Pc.active_of_hasMbx (h : q.hasMbx = true) : q.active = true := by
  cases q <;> first | rfl | exact absurd h (by decide)

theorem afterRelease_eq_some (h : q.afterRelease = some p) :
    q.hasMbx = true ∧ p.hasMbx = false ∧ p.hasQueue = q.hasQueue ∧ p.listed = q.listed ∧
      p.hand = q.hand ∧ p.found = q.found := by
  cases q with
  | leave found =>
    cases found with
    | true =>
      cases h
      decide
    | false =>
      cases h
      decide
  | foundRelease =>
    cases h
    decide
  | releaseMbx =>
    cases h
    decide
  | emptyRelease =>
    cases h
    decide
  | enlistRelease =>
    cases h
    decide
  | _ => cases h

section Place

variable {pc pc' : Nat → Pc} {c n : Nat} {p q : Pc}

theorem place_keep {α : Type} {f : Pc → α} (hpc : pc c = q) (hpc' : pc' = update pc c p)
    (hf : f p = f q) (c' : Nat) : f (pc' c') = f (pc c') := by
  by_cases hc : c' = c
  · rw [hpc', hc, update_self, hf, hpc]
  · rw [hpc', update_of_ne hc]

variable {f : Pc → Bool}

theorem mutex_keep (h : Mutex n fun c => f (pc c)) (hpc : pc c = q) (hpc' : pc' = update pc c p)
    (hf : f p = f q) : Mutex n fun c => f (pc' c) :=
  h.keep (place_keep hpc hpc' hf)

theorem mutex_pend {k : Nat} (h : Mutex k fun c => f (pc c)) (hlock : k = n + 1)
    (hpc' : pc' = update pc c p) (hf : f p = true) : Mutex n fun c => f (pc' c) := by
  subst hlock
  apply h.acquire (i := c)
  · rw [hpc', update_self, hf]
  · intro c' hc'
    rw [hpc', update_of_ne hc']

theorem mutex_post (h : Mutex n fun c => f (pc c)) (hpc : f (pc c) = true)
    (hpc' : pc' = update pc c p) (hf : f p = false) : Mutex (n + 1) fun c => f (pc' c) := by
  apply h.release (i := c) hpc
  · rw [hpc', update_self, hf]
  · intro c' hc'
    rw [hpc', update_of_ne hc']

end Place

structure Locks (s : Sys) : Prop where
  mbx : Mutex s.mbxLock fun c => (s.pc c).hasMbx
  queue : Mutex s.queueLock fun c => (s.pc c).hasQueue

theorem Locks.keep (h : Locks s) (hpc : s.pc c = q) (hpc' : s'.pc = update s.pc c p)
    (hm : s'.mbxLock = s.mbxLock) (hq : s'.queueLock = s.queueLock) (hmbx : p.hasMbx = q.hasMbx)
    (hqueue : p.hasQueue = q.hasQueue) : Locks s' :=
  ⟨hm ▸ mutex_keep h.mbx hpc hpc' hmbx, hq ▸ mutex_keep h.queue hpc hpc' hqueue⟩

theorem moves_locks (hs : Locks s) (h : Moves s c s') : Locks s' := by
  cases h with
  | start hpc hlock =>
    rcases hpc with hpc | hpc
    · exact ⟨mutex_pend hs.mbx hlock rfl rfl, mutex_keep hs.queue hpc rfl rfl⟩
    · exact ⟨mutex_pend hs.mbx hlock rfl rfl, mutex_keep hs.queue hpc rfl rfl⟩
  | found hpc _ => exact hs.keep hpc rfl rfl rfl rfl rfl
  | notFound hpc _ => exact hs.keep hpc rfl rfl rfl rfl rfl
  | queueBusy hpc _ => exact hs.keep hpc rfl rfl rfl rfl rfl
  | queueFree hpc hlock =>
    exact ⟨mutex_keep hs.mbx hpc rfl rfl, mutex_pend hs.queue hlock rfl rfl⟩
  | pollEmpty hpc => exact hs.keep hpc rfl rfl rfl rfl rfl
  | pollGet hpc _ => exact hs.keep hpc rfl rfl rfl rfl rfl
  | own hpc _ => exact hs.keep hpc rfl rfl rfl rfl rfl
  | deliver hpc _ _ => exact hs.keep hpc rfl rfl rfl rfl rfl
  | store hpc _ _ => exact hs.keep hpc rfl rfl rfl rfl rfl
  | appoint hpc _ => exact hs.keep hpc rfl rfl rfl rfl rfl
  | appointNone hpc _ => exact hs.keep hpc rfl rfl rfl rfl rfl
  | releaseQueue hpc =>
    exact ⟨mutex_keep hs.mbx hpc rfl rfl, mutex_post hs.queue (by rw [hpc]; rfl) rfl rfl⟩
  | release hpc =>
    obtain ⟨hmbx, hmbx', hqueue, _⟩ := afterRelease_eq_some hpc
    exact ⟨mutex_post hs.mbx hmbx rfl hmbx', mutex_keep hs.queue rfl rfl hqueue⟩
  | blockGet hpc _ => exact hs.keep hpc rfl rfl rfl rfl rfl
  | reacquire hpc hlock =>
    exact ⟨mutex_pend hs.mbx hlock rfl rfl, mutex_keep hs.queue hpc rfl rfl⟩
  | enlist hpc => exact hs.keep hpc rfl rfl rfl rfl rfl
  | wake hpc _ => exact hs.keep hpc rfl rfl rfl rfl rfl
  | awake hpc hlock =>
    exact ⟨mutex_pend hs.mbx hlock rfl rfl, mutex_keep hs.queue hpc rfl rfl⟩
  | pickup hpc _ => exact hs.keep hpc rfl rfl rfl rfl rfl
  | pickupNone hpc _ => exact hs.keep hpc rfl rfl rfl rfl rfl

/-! ## The list of recipients -/

structure Listing (s : Sys) : Prop where
  nodup : s.recipients.Nodup
  mem : ∀ c, c ∈ s.recipients ↔ (s.pc c).listed = true

theorem Listing.keep (h : Listing s) (hpc : s.pc c = q) (hpc' : s'.pc = update s.pc c p)
    (hr : s'.recipients = s.recipients) (hlisted : p.listed = q.listed) : Listing s' := by
  refine ⟨hr ▸ h.nodup, ?_⟩
  intro c'
  rw [hr, h.mem c', place_keep hpc hpc' hlisted]

theorem Listing.erase (h : Listing s) (hpc' : s'.pc = update s.pc c p)
    (hr : s'.recipients = s.recipients.erase c) (hlisted : p.listed = false) : Listing s' := by
  refine ⟨hr ▸ h.nodup.erase c, ?_⟩
  intro c'
  rw [hr, h.nodup.mem_erase_iff, h.mem c', hpc']
  by_cases hc : c' = c
  · simp [hc, hlisted]
  · simp [hc]

theorem moves_listing (hs : Listing s) (h : Moves s c s') : Listing s' := by
  cases h with
  | start hpc hlock =>
    rcases hpc with hpc | hpc
    · exact hs.keep hpc rfl rfl rfl
    · exact hs.keep hpc rfl rfl rfl
  | found hpc _ => exact hs.keep hpc rfl rfl rfl
  | notFound hpc _ => exact hs.keep hpc rfl rfl rfl
  | queueBusy hpc _ => exact hs.keep hpc rfl rfl rfl
  | queueFree hpc _ => exact hs.keep hpc rfl rfl rfl
  | pollEmpty hpc => exact hs.keep hpc rfl rfl rfl
  | pollGet hpc _ => exact hs.keep hpc rfl rfl rfl
  | own hpc _ => exact hs.keep hpc rfl rfl rfl
  | deliver hpc _ _ => exact hs.keep hpc rfl rfl rfl
  | store hpc _ _ => exact hs.keep hpc rfl rfl rfl
  | appoint hpc _ => exact hs.keep hpc rfl rfl rfl
  | appointNone hpc _ => exact hs.keep hpc rfl rfl rfl
  | releaseQueue hpc => exact hs.keep hpc rfl rfl rfl
  | release hpc => exact hs.keep rfl rfl rfl (afterRelease_eq_some hpc).2.2.2.1
  | blockGet hpc _ => exact hs.keep hpc rfl rfl rfl
  | reacquire hpc _ => exact hs.keep hpc rfl rfl rfl
  | enlist hpc =>
    have hnew : c ∉ s.recipients := by
      rw [hs.mem c, hpc]
      decide
    refine ⟨List.concat_eq_append ▸ hs.nodup.concat hnew, ?_⟩
    intro c'
    by_cases hc : c' = c
    · simp [goto, hc, Pc.listed]
    · simp [goto, hc, hs.mem c']
  | wake hpc _ => exact hs.keep hpc rfl rfl rfl
  | awake hpc _ => exact hs.keep hpc rfl rfl rfl
  | pickup hpc _ => exact hs.erase rfl rfl rfl
  | pickupNone hpc _ => exact hs.erase rfl rfl rfl

/-! ## Where the messages are -/

/-- The call that a place belongs to, for a message that has been assigned to one. -/
def Place.call : Place → Option Nat
  | .recipient c => some c
  | .returned c => some c
  | _ => none

structure Mail (s : Sys) : Prop where
  one : OnePlace s.At
  somewhere : ∀ m, m ∈ s.arrived ↔ ∃ p, s.At m p
  queue : s.queue.Nodup
  newMail : s.newMail.Nodup
  ids : ∀ m m' p p', s.At m p → s.At m' p' → p.undelivered = true → p'.undelivered = true →
    m.msgId = m'.msgId → m = m'
  calls : ∀ c c', (s.pc c).active = true → (s.pc c').active = true → s.msgId c = s.msgId c' →
    c = c'
  own : ∀ m p c, p.call = some c → s.At m p → m.msgId = s.msgId c
  found : ∀ c, s.returnMsg c ≠ none ↔ (s.pc c).found = true

theorem at_congr (hq : s'.queue = s.queue) (hn : s'.newMail = s.newMail)
    (hret : s'.returnMsg = s.returnMsg) (hhand : ∀ c, (s'.pc c).hand = (s.pc c).hand)
    (hr : ∀ r m, (r ∈ s'.recipients ∧ s'.msg r = some m) ↔ (r ∈ s.recipients ∧ s.msg r = some m)) :
    s'.At = s.At := by
  funext m p
  cases p with
  | queue => simp only [Sys.At, hq]
  | hand c => simp only [Sys.At, hhand]
  | newMail => simp only [Sys.At, hn]
  | recipient c => exact propext (hr c m)
  | returned c => simp only [Sys.At, hret]

section Step

variable {s s' : Sys} {c : Nat} {p q : Pc} {m : Msg} {l l' : Place}

/-- The call is in the function before and after the step, or at its end. -/
theorem calls_keep (h : Mail s) (hpc : s.pc c = q) (hpc' : s'.pc = update s.pc c p)
    (hid : s'.msgId = s.msgId) (hq : q.active = true) (c₁ c₂ : Nat)
    (h₁ : (s'.pc c₁).active = true) (h₂ : (s'.pc c₂).active = true)
    (heq : s'.msgId c₁ = s'.msgId c₂) : c₁ = c₂ := by
  have hactive : ∀ c', (s'.pc c').active = true → (s.pc c').active = true := by
    intro c' hc'
    by_cases hc : c' = c
    · rw [hc, hpc, hq]
    · rw [hpc', update_of_ne hc] at hc'
      exact hc'
  exact h.calls c₁ c₂ (hactive c₁ h₁) (hactive c₂ h₂) (hid ▸ heq)

theorem Mail.keep (h : Mail s) (hat : s'.At = s.At) (hpc : s.pc c = q)
    (hpc' : s'.pc = update s.pc c p) (harrived : s'.arrived = s.arrived)
    (hqueue : s'.queue = s.queue) (hnew : s'.newMail = s.newMail)
    (hret : s'.returnMsg = s.returnMsg) (hid : s'.msgId = s.msgId) (hq : q.active = true)
    (hfound : p.found = q.found) : Mail s' := by
  refine ⟨hat ▸ h.one, ?_, hqueue ▸ h.queue, hnew ▸ h.newMail, ?_, calls_keep h hpc hpc' hid hq,
    ?_, ?_⟩
  · rw [hat, harrived]
    exact h.somewhere
  · rw [hat]
    exact h.ids
  · rw [hat, hid]
    exact h.own
  · intro c'
    rw [hret, h.found c', place_keep hpc hpc' hfound]

theorem Mail.move (h : Mail s) (hmoved : Moved s.At s'.At m l l') (hl : l.undelivered = true)
    (hpc : s.pc c = q) (hpc' : s'.pc = update s.pc c p) (harrived : s'.arrived = s.arrived)
    (hid : s'.msgId = s.msgId) (hq : q.active = true) (hqueue : s'.queue.Nodup)
    (hnew : s'.newMail.Nodup) (hown : ∀ c', l'.call = some c' → m.msgId = s.msgId c')
    (hfound : ∀ c', s'.returnMsg c' ≠ none ↔ (s'.pc c').found = true) : Mail s' := by
  have hat := hmoved.at_iff h.one
  -- a message that is not delivered now was not delivered before
  have hback : ∀ b r, s'.At b r → r.undelivered = true →
      ∃ r₀, s.At b r₀ ∧ r₀.undelivered = true := by
    intro b r hb hr
    rcases (hat b r).mp hb with ⟨rfl, _⟩ | ⟨_, hb⟩
    · exact ⟨l, hmoved.before, hl⟩
    · exact ⟨r, hb, hr⟩
  refine ⟨onePlace_of_at_iff h.one hat, ?_, hqueue, hnew, ?_, calls_keep h hpc hpc' hid hq, ?_,
    hfound⟩
  · intro b
    rw [harrived, h.somewhere b, somewhere_of_at_iff hat b]
    refine ⟨.inr, ?_⟩
    intro hb
    rcases hb with rfl | hb
    · exact ⟨l, hmoved.before⟩
    · exact hb
  · intro b b' r r' hb hb' hr hr' hbb
    obtain ⟨r₀, hb₀, hr₀⟩ := hback b r hb hr
    obtain ⟨r₀', hb₀', hr₀'⟩ := hback b' r' hb' hr'
    exact h.ids b b' r₀ r₀' hb₀ hb₀' hr₀ hr₀' hbb
  · intro b r c' hr hb
    rw [hid]
    rcases (hat b r).mp hb with ⟨rfl, rfl⟩ | ⟨_, hb⟩
    · exact hown c' hr
    · exact h.own b r c' hr hb

theorem hand_iff (hpc : s.pc c = q) (hpc' : s'.pc = update s.pc c p) (hhand : p.hand = q.hand)
    (b : Msg) (c' : Nat) : s'.At b (.hand c') ↔ s.At b (.hand c') := by
  simp only [Sys.At, place_keep hpc hpc' hhand]

theorem hand_other (hpc' : s'.pc = update s.pc c p) (b : Msg) {c' : Nat} (hc : c' ≠ c) :
    s'.At b (.hand c') ↔ s.At b (.hand c') := by
  simp only [Sys.At, hpc', update_of_ne hc]

theorem returnMsg_eq_none (h : Mail s) (hpc : s.pc c = q) (hq : q.found = false) :
    s.returnMsg c = none := by
  by_contra hne
  have hfound := (h.found c).mp hne
  rw [hpc, hq] at hfound
  cases hfound

theorem moved_get {rest : List Msg} (h : Mail s) (hqueue : s.queue = m :: rest)
    (hpc : s.pc c = q) (hq : q.hand = none) (hp : p.hand = some m) :
    Moved s.At ({ s with queue := rest }.goto c p).At m .queue (.hand c) := by
  have hnodup := h.queue
  rw [hqueue, List.nodup_cons] at hnodup
  refine ⟨?_, Place.noConfusion, ?_, ?_, ?_⟩
  · simp [Sys.At, hqueue]
  · intro b
    simp only [Sys.At, goto, hqueue, List.mem_cons]
    refine ⟨fun hb => ⟨.inr hb, fun hbm => hnodup.1 (hbm ▸ hb)⟩, fun hb => hb.1.resolve_left hb.2⟩
  · intro b
    simp [Sys.At, goto, hpc, hq, hp, eq_comm]
  · intro b r hr hr'
    cases r with
    | queue => exact absurd rfl hr
    | hand c' => exact hand_other rfl b fun hc => hr' (hc ▸ rfl)
    | newMail => exact Iff.rfl
    | recipient c' => exact Iff.rfl
    | returned c' => exact Iff.rfl

theorem moved_found (h : Mail s) (hpc : s.pc c = .search)
    (hfind : s.newMail.find? (fun m => m.msgId = s.msgId c) = some m) :
    Moved s.At (({ s with newMail := s.newMail.erase m }.setReturn c m).goto c .foundRelease).At
      m .newMail (.returned c) := by
  have hnone := returnMsg_eq_none h hpc rfl
  refine ⟨List.mem_of_find?_eq_some hfind, Place.noConfusion, ?_, ?_, ?_⟩
  · intro b
    simp only [Sys.At, goto, setReturn]
    rw [h.newMail.mem_erase_iff, and_comm]
  · intro b
    simp [Sys.At, goto, setReturn, hnone, eq_comm]
  · intro b r hr hr'
    cases r with
    | queue => exact Iff.rfl
    | hand c' => exact hand_iff (p := .foundRelease) hpc rfl rfl b c'
    | newMail => exact absurd rfl hr
    | recipient c' => exact Iff.rfl
    | returned c' =>
      have hc : c' ≠ c := fun hc => hr' (hc ▸ rfl)
      simp [Sys.At, goto, setReturn, hc]

theorem moved_own (h : Mail s) (hpc : s.pc c = .sort m) :
    Moved s.At ((s.setReturn c m).goto c .appoint).At m (.hand c) (.returned c) := by
  have hnone := returnMsg_eq_none h hpc rfl
  refine ⟨by simp [Sys.At, hpc, Pc.hand], Place.noConfusion, ?_, ?_, ?_⟩
  · intro b
    simp [Sys.At, goto, hpc, Pc.hand, eq_comm]
  · intro b
    simp [Sys.At, goto, setReturn, hnone, eq_comm]
  · intro b r hr hr'
    cases r with
    | queue => exact Iff.rfl
    | hand c' => exact hand_other rfl b fun hc => hr (hc ▸ rfl)
    | newMail => exact Iff.rfl
    | recipient c' => exact Iff.rfl
    | returned c' =>
      have hc : c' ≠ c := fun hc => hr' (hc ▸ rfl)
      simp [Sys.At, goto, setReturn, hc]

/-- From the hand of the mailman to the recipient that waits for it, which has no other
message with the same id. -/
theorem moved_deliver {r : Nat} (h : Mail s) (hpc : s.pc c = .sort m)
    (hfind : s.recipients.find? (fun r => s.msgId r = m.msgId) = some r) :
    Moved s.At (({ s with msg := update s.msg r (some m) }.signal r).goto c .poll).At
      m (.hand c) (.recipient r) := by
  have hmem := List.mem_of_find?_eq_some hfind
  have hid : s.msgId r = m.msgId := by simpa using List.find?_some hfind
  have hhand : s.At m (.hand c) := by simp [Sys.At, hpc, Pc.hand]
  have hnone : s.msg r = none := by
    by_contra hne
    obtain ⟨m', hm'⟩ := Option.ne_none_iff_exists'.mp hne
    have hat : s.At m' (.recipient r) := ⟨hmem, hm'⟩
    have hm : m' = m := h.ids m' m _ _ hat hhand rfl rfl ((h.own m' _ r rfl hat).trans hid)
    have hsame := h.one m _ _ (hm ▸ hat) hhand
    cases hsame
  refine ⟨hhand, Place.noConfusion, ?_, ?_, ?_⟩
  · intro b
    simp [Sys.At, goto, hpc, Pc.hand, eq_comm]
  · intro b
    simp [Sys.At, goto, signal, hmem, hnone, eq_comm]
  · intro b l hl hl'
    cases l with
    | queue => exact Iff.rfl
    | hand c' => exact hand_other rfl b fun hc => hl (hc ▸ rfl)
    | newMail => exact Iff.rfl
    | recipient c' =>
      have hc : c' ≠ r := fun hc => hl' (hc ▸ rfl)
      simp [Sys.At, goto, signal, hc]
    | returned c' => exact Iff.rfl

theorem moved_store (hpc : s.pc c = .sort m) :
    Moved s.At ({ s with newMail := s.newMail ++ [m] }.goto c .poll).At m (.hand c) .newMail := by
  refine ⟨by simp [Sys.At, hpc, Pc.hand], Place.noConfusion, ?_, ?_, ?_⟩
  · intro b
    simp [Sys.At, goto, hpc, Pc.hand, eq_comm]
  · intro b
    simp [Sys.At, goto]
  · intro b r hr hr'
    cases r with
    | queue => exact Iff.rfl
    | hand c' => exact hand_other rfl b fun hc => hr (hc ▸ rfl)
    | newMail => exact absurd rfl hr'
    | recipient c' => exact Iff.rfl
    | returned c' => exact Iff.rfl

theorem moved_pickup (h : Mail s) (hlist : Listing s) (hpc : s.pc c = .pickup)
    (hmsg : s.msg c = some m) :
    Moved s.At
      (({ s with recipients := s.recipients.erase c }.setReturn c m).goto c (.leave true)).At
      m (.recipient c) (.returned c) := by
  have hnone := returnMsg_eq_none h hpc rfl
  have hmem : c ∈ s.recipients := (hlist.mem c).mpr (by rw [hpc]; rfl)
  refine ⟨⟨hmem, hmsg⟩, Place.noConfusion, ?_, ?_, ?_⟩
  · intro b
    simp [Sys.At, goto, setReturn, hlist.nodup.mem_erase_iff, hmsg, eq_comm]
  · intro b
    simp [Sys.At, goto, setReturn, hnone, eq_comm]
  · intro b r hr hr'
    cases r with
    | queue => exact Iff.rfl
    | hand c' => exact hand_iff (p := .leave true) hpc rfl rfl b c'
    | newMail => exact Iff.rfl
    | recipient c' =>
      have hc : c' ≠ c := fun hc => hr (hc ▸ rfl)
      simp [Sys.At, goto, setReturn, hlist.nodup.mem_erase_iff, hc]
    | returned c' =>
      have hc : c' ≠ c := fun hc => hr' (hc ▸ rfl)
      simp [Sys.At, goto, setReturn, hc]

theorem found_set {t : Sys} (h : Mail s) (hret : t.returnMsg = update s.returnMsg c (some m))
    (hpc' : t.pc = update s.pc c p) (hp : p.found = true) (c' : Nat) :
    t.returnMsg c' ≠ none ↔ (t.pc c').found = true := by
  rw [hret, hpc']
  by_cases hc : c' = c
  · simp [hc, hp]
  · simp only [update_of_ne hc]
    exact h.found c'

theorem found_keep {t : Sys} (h : Mail s) (hret : t.returnMsg = s.returnMsg) (hpc : s.pc c = q)
    (hpc' : t.pc = update s.pc c p) (hp : p.found = q.found) (c' : Nat) :
    t.returnMsg c' ≠ none ↔ (t.pc c').found = true := by
  rw [hret, place_keep hpc hpc' hp]
  exact h.found c'

end Step

theorem moves_mail (hs : Mail s) (hlist : Listing s) (h : Moves s c s') :
    Mail s' := by
  -- a step that only changes the place of the call, a lock or an event
  have hquiet : ∀ {t : Sys} {p q : Pc}, s.pc c = q → t.pc = update s.pc c p →
      p.hand = q.hand → p.found = q.found → q.active = true → t.queue = s.queue →
      t.newMail = s.newMail → t.returnMsg = s.returnMsg → t.recipients = s.recipients →
      t.msg = s.msg → t.arrived = s.arrived → t.msgId = s.msgId → Mail t := by
    intro t p q hpc hpc' hhand hfound hq hqueue hnew hret hrec hmsg harr hid
    have hat : t.At = s.At :=
      at_congr hqueue hnew hret (place_keep hpc hpc' hhand) (by rw [hrec, hmsg]; simp)
    exact hs.keep hat hpc hpc' harr hqueue hnew hret hid hq hfound
  cases h with
  | start hpc _ =>
    rcases hpc with hpc | hpc
    · exact hquiet hpc rfl rfl rfl rfl rfl rfl rfl rfl rfl rfl rfl
    · exact hquiet hpc rfl rfl rfl rfl rfl rfl rfl rfl rfl rfl rfl
  | found hpc hfind =>
    apply hs.move (moved_found hs hpc hfind) rfl hpc rfl rfl rfl rfl hs.queue (hs.newMail.erase _)
    · intro c' hc'
      cases hc'
      simpa using List.find?_some hfind
    · exact found_set hs rfl rfl rfl
  | notFound hpc _ => exact hquiet hpc rfl rfl rfl rfl rfl rfl rfl rfl rfl rfl rfl
  | queueBusy hpc _ => exact hquiet hpc rfl rfl rfl rfl rfl rfl rfl rfl rfl rfl rfl
  | queueFree hpc _ => exact hquiet hpc rfl rfl rfl rfl rfl rfl rfl rfl rfl rfl rfl
  | pollEmpty hpc => exact hquiet hpc rfl rfl rfl rfl rfl rfl rfl rfl rfl rfl rfl
  | @pollGet hpc m rest hqueue =>
    have hmoved := moved_get (p := .sort m) hs hqueue hpc rfl rfl
    have hnodup := hs.queue
    rw [hqueue, List.nodup_cons] at hnodup
    apply hs.move hmoved rfl hpc rfl rfl rfl rfl hnodup.2 hs.newMail
    · intro c' hc'
      cases hc'
    · exact found_keep hs rfl hpc rfl rfl
  | own hpc hid =>
    apply hs.move (moved_own hs hpc) rfl hpc rfl rfl rfl rfl hs.queue hs.newMail
    · intro c' hc'
      cases hc'
      exact hid
    · exact found_set hs rfl rfl rfl
  | deliver hpc _ hfind =>
    apply hs.move (moved_deliver hs hpc hfind) rfl hpc rfl rfl rfl rfl hs.queue hs.newMail
    · intro c' hc'
      cases hc'
      have hid := List.find?_some hfind
      rw [decide_eq_true_iff] at hid
      exact hid.symm
    · exact found_keep hs rfl hpc rfl rfl
  | @store m hpc _ _ =>
    have hnot : m ∉ s.newMail := by
      intro hmem
      have hsame := hs.one m .newMail (.hand c) hmem (by simp [Sys.At, hpc, Pc.hand])
      cases hsame
    apply hs.move (moved_store hpc) rfl hpc rfl rfl rfl rfl hs.queue
      (List.concat_eq_append ▸ hs.newMail.concat hnot)
    · intro c' hc'
      cases hc'
    · exact found_keep hs rfl hpc rfl rfl
  | appoint hpc _ => exact hquiet hpc rfl rfl rfl rfl rfl rfl rfl rfl rfl rfl rfl
  | appointNone hpc _ => exact hquiet hpc rfl rfl rfl rfl rfl rfl rfl rfl rfl rfl rfl
  | releaseQueue hpc => exact hquiet hpc rfl rfl rfl rfl rfl rfl rfl rfl rfl rfl rfl
  | release hpc =>
    obtain ⟨hmbx, _, _, _, hhand, hfound⟩ := afterRelease_eq_some hpc
    exact hquiet rfl rfl hhand hfound (Pc.active_of_hasMbx hmbx) rfl rfl rfl rfl rfl rfl rfl
  | @blockGet hpc m rest hqueue =>
    have hmoved := moved_get (p := .reacquire m) hs hqueue hpc rfl rfl
    have hnodup := hs.queue
    rw [hqueue, List.nodup_cons] at hnodup
    apply hs.move hmoved rfl hpc rfl rfl rfl rfl hnodup.2 hs.newMail
    · intro c' hc'
      cases hc'
    · exact found_keep hs rfl hpc rfl rfl
  | reacquire hpc _ => exact hquiet hpc rfl rfl rfl rfl rfl rfl rfl rfl rfl rfl rfl
  | enlist hpc =>
    have hnot : c ∉ s.recipients := by
      rw [hlist.mem c, hpc]
      decide
    refine hs.keep (at_congr rfl rfl rfl (place_keep hpc rfl rfl) ?_) hpc rfl rfl rfl rfl rfl rfl
      rfl rfl
    intro r m
    by_cases hr : r = c
    · simp [goto, hr, hnot]
    · simp [goto, hr]
  | wake hpc _ => exact hquiet hpc rfl rfl rfl rfl rfl rfl rfl rfl rfl rfl rfl
  | awake hpc _ => exact hquiet hpc rfl rfl rfl rfl rfl rfl rfl rfl rfl rfl rfl
  | pickup hpc hmsg =>
    have hmem : c ∈ s.recipients := (hlist.mem c).mpr (by rw [hpc]; rfl)
    apply hs.move (moved_pickup hs hlist hpc hmsg) rfl hpc rfl rfl rfl rfl hs.queue hs.newMail
    · intro c' hc'
      cases hc'
      exact hs.own _ (.recipient c) c rfl ⟨hmem, hmsg⟩
    · exact found_set hs rfl rfl rfl
  | pickupNone hpc hmsg =>
    refine hs.keep (at_congr rfl rfl rfl (place_keep hpc rfl rfl) ?_) hpc rfl rfl rfl rfl rfl rfl
      rfl rfl
    intro r m
    by_cases hr : r = c
    · simp [goto, hr, hmsg]
    · simp [goto, hr, hlist.nodup.mem_erase_iff]

theorem arrive_mail (hs : Mail s) {m : Msg} (hnew : m ∉ s.arrived)
    (hid : ∀ m' p, s.At m' p → p.undelivered = true → m'.msgId ≠ m.msgId) :
    Mail { s with queue := s.queue ++ [m], arrived := s.arrived ++ [m] } := by
  have hnowhere : ∀ p, ¬ s.At m p := fun p hp => hnew ((hs.somewhere m).mpr ⟨p, hp⟩)
  have hcame : Came s.At
      ({ s with queue := s.queue ++ [m], arrived := s.arrived ++ [m] } : Sys).At m .queue := by
    refine ⟨hnowhere, ?_, ?_⟩
    · intro b
      simp [Sys.At]
    · intro b r hr
      cases r with
      | queue => exact absurd rfl hr
      | hand c' => exact Iff.rfl
      | newMail => exact Iff.rfl
      | recipient c' => exact Iff.rfl
      | returned c' => exact Iff.rfl
  have hat := hcame.at_iff
  refine ⟨onePlace_of_at_iff hs.one hat, ?_, ?_, hs.newMail, ?_, hs.calls, ?_, hs.found⟩
  · intro b
    rw [somewhere_of_at_iff hat b, ← hs.somewhere b, List.mem_append, List.mem_singleton, or_comm]
  · exact List.concat_eq_append ▸ hs.queue.concat (hnowhere .queue)
  · intro b b' r r' hb hb' hr hr' hbb
    rcases (hat b r).mp hb with ⟨hbm, _⟩ | ⟨_, hold⟩
    · rcases (hat b' r').mp hb' with ⟨hbm', _⟩ | ⟨_, hold'⟩
      · rw [hbm, hbm']
      · exact absurd (hbm ▸ hbb).symm (hid b' r' hold' hr')
    · rcases (hat b' r').mp hb' with ⟨hbm', _⟩ | ⟨_, hold'⟩
      · exact absurd (hbm' ▸ hbb) (hid b r hold hr)
      · exact hs.ids b b' r r' hold hold' hr hr' hbb
  · intro b r c hr hb
    rcases (hat b r).mp hb with ⟨_, rfl⟩ | ⟨_, hb⟩
    · cases hr
    · exact hs.own b r c hr hb

theorem call_mail (hs : Mail s) (hlist : Listing s) {id : UInt16} (hidle : s.pc c = .idle)
    (hid : ∀ c', (s.pc c').active = true → s.msgId c' ≠ id) :
    Mail ({ s with msgId := update s.msgId c id }.goto c .start) := by
  have hat : ({ s with msgId := update s.msgId c id }.goto c .start).At = s.At :=
    at_congr rfl rfl rfl (place_keep hidle rfl rfl) fun _ _ => Iff.rfl
  -- nothing is assigned to a call that has not begun
  have hother : ∀ m p c', p.call = some c' → s.At m p → c' ≠ c := by
    intro m p c' hp hm hc
    subst hc
    cases p with
    | recipient c'' =>
      obtain rfl := Option.some.inj hp
      have hlisted := (hlist.mem c'').mp hm.1
      rw [hidle] at hlisted
      cases hlisted
    | returned c'' =>
      cases hp
      have hnone := returnMsg_eq_none hs hidle rfl
      rw [Sys.At, hnone] at hm
      cases hm
    | _ => cases hp
  refine ⟨hat ▸ hs.one, ?_, hs.queue, hs.newMail, ?_, ?_, ?_, found_keep hs rfl hidle rfl rfl⟩
  · rw [hat]
    exact hs.somewhere
  · rw [hat]
    exact hs.ids
  · intro c₁ c₂ h₁ h₂ heq
    by_cases hc₁ : c₁ = c
    · by_cases hc₂ : c₂ = c
      · rw [hc₁, hc₂]
      · simp only [goto, hc₁, update_self,
          update_of_ne hc₂] at h₂ heq
        exact absurd heq.symm (hid c₂ h₂)
    · by_cases hc₂ : c₂ = c
      · simp only [goto, hc₂, update_self,
          update_of_ne hc₁] at h₁ heq
        exact absurd heq (hid c₁ h₁)
      · simp only [goto, update_of_ne hc₁,
          update_of_ne hc₂] at h₁ h₂ heq
        exact hs.calls c₁ c₂ h₁ h₂ heq
  · rw [hat]
    intro m p c' hp hm
    simp only [goto, update_of_ne (hother m p c' hp hm)]
    exact hs.own m p c' hp hm

end Omap4Hal.Rcm.Mailman

import Omap4Hal.Rcm.ServerTurns

/- The messages of a job of an RcmServer begin in the order of their arrival: what has begun
   and what waits are, in this order, part of what has arrived (`InOrder`). A message that the
   server thread executes itself is the only one of its job (`Lone`). -/
namespace Omap4Hal.Rcm.Server

open Lib
open Function (update update_of_ne update_self)
open Sys

/-! ## The messages that the server thread executes -/

def Lone (s : Sys) : Prop :=
  ∀ p g, (s.pc .server).running = some p → p.stream = some g → s.Idle g

section Idle

variable {s s' : Sys} {g : Nat}

theorem Sys.Idle.shrink (h : s.Idle g)
    (hque : ∀ p ∈ (s'.jobs g).msgQue, p ∈ (s.jobs g).msgQue)
    (hready : ∀ k, ∀ p ∈ s'.readyQueue k, p.stream = some g → ∃ k', p ∈ s.readyQueue k')
    (hrun : ∀ k i p, (s'.pc (.worker k i)).running = some p →
      (s.pc (.worker k i)).running = some p ∨ ∃ k', p ∈ s.readyQueue k') : s'.Idle g := by
  refine ⟨?_, ?_, ?_⟩
  · rw [List.eq_nil_iff_forall_not_mem]
    intro p hp
    have hold := hque p hp
    rw [h.waiting] at hold
    cases hold
  · intro k p hp hg
    obtain ⟨k', hk'⟩ := hready k p hp hg
    exact h.ready k' p hk' hg
  · intro k i p hp hg
    rcases hrun k i p hp with hp | ⟨k', hk'⟩
    · exact h.running k i p hp hg
    · exact h.ready k' p hk' hg

theorem Sys.Idle.keep (h : s.Idle g)
    (hque : ∀ p ∈ (s'.jobs g).msgQue, p ∈ (s.jobs g).msgQue)
    (hready : s'.readyQueue = s.readyQueue)
    (hrun : ∀ k i p, (s'.pc (.worker k i)).running = some p →
      (s.pc (.worker k i)).running = some p) : s'.Idle g := by
  apply h.shrink hque
  · intro k p hp _
    rw [hready] at hp
    exact ⟨k, hp⟩
  · exact fun k i p hp => .inl (hrun k i p hp)

end Idle

theorem running_sub {s s' : Sys} {t : Tid} {q q' : Pc} (hpc : s.pc t = q)
    (hpc' : s'.pc = update s.pc t q') (hq : q'.running = q.running ∨ q'.running = none) (t' : Tid)
    (p : Packet) (hp : (s'.pc t').running = some p) : (s.pc t').running = some p := by
  by_cases ht : t' = t
  · subst ht
    rw [hpc', update_self] at hp
    rcases hq with hq | hq
    · rw [hpc, ← hq, hp]
    · rw [hq] at hp
      cases hp
  · rw [hpc', update_of_ne ht] at hp
    exact hp

theorem moves_lone {c : Pools} {s s' : Sys} {a : Act} (hs : Lone s) (htable : JobTable c s)
    (hmeets : Meets c s a) (h : Moves c s a s') : Lone s' := by
  -- the server thread waits, so it executes nothing
  have hwait : ∀ {u : Sys}, u.pc .server = .wait → Lone u := by
    intro u hpc p g hp _
    rw [hpc] at hp
    cases hp
  -- a thread that begins nothing, with all the messages that were there
  have hquiet : ∀ {u : Sys} {t : Tid} {q q' : Pc}, s.pc t = q → u.pc = update s.pc t q' →
      q'.running = q.running ∨ q'.running = none → u.readyQueue = s.readyQueue →
      (∀ g, ∀ p ∈ (u.jobs g).msgQue, p ∈ (s.jobs g).msgQue) → Lone u := by
    intro u t q q' hpc hpc' hq hready hque p g hp hg
    have hidle := hs p g (running_sub hpc hpc' hq .server p hp) hg
    exact hidle.keep (hque g) hready fun k i => running_sub hpc hpc' hq (.worker k i)
  have hsame : ∀ g, ∀ p ∈ (s.jobs g).msgQue, p ∈ (s.jobs g).msgQue := fun _ _ hp => hp
  cases h with
  | arrive m => exact fun p g hp hg => (hs p g hp hg).keep (hsame g) rfl fun _ _ _ h => h
  | @inBand _ m rest hpc hque hin =>
    intro p g hp hg
    have hpkt : s.packet m = p := by
      simpa [Sys.begin, goto, Pc.running] using hp
    have hidle := hmeets.1 rfl hpc m rest hque hin g (hpkt ▸ hg)
    refine hidle.keep (hsame g) rfl ?_
    intro k i b hb
    simpa [Sys.begin, goto, take] using hb
  | refuse hpc _ => exact hwait hpc
  | discrete hpc _ => exact hwait hpc
  | first hpc _ _ _ => exact hwait hpc
  | queued hpc _ _ _ _ => exact hwait hpc
  | execute hpc _ _ => exact hquiet hpc rfl (.inl rfl) rfl hsame
  | acquire hpc _ hnew _ =>
    refine hquiet hpc rfl (.inl rfl) rfl ?_
    intro g p hp
    by_cases hg : g = s.allocated
    · simp [goto, hg] at hp
    · simpa [goto, hg] using hp
  | @release _ t p hpc jobId g _ _ =>
    refine hquiet hpc rfl (.inl rfl) rfl ?_
    intro g' p hp
    by_cases hg : g' = g
    · simp [goto, drop, hg] at hp
    · simpa [goto, drop, hg] using hp
  | replied hpc _ => exact hquiet hpc rfl (.inr rfl) rfl hsame
  | repliedJob hpc _ => exact hquiet hpc rfl (.inr rfl) rfl hsame
  | pend hpc => exact hquiet hpc rfl (.inl rfl) rfl hsame
  | getNone hpc => exact hquiet hpc rfl (.inl rfl) rfl hsame
  | @get _ k i p rest hpc hready =>
    intro b g hb hg
    have hidle := hs b g hb hg
    refine hidle.shrink (hsame g) ?_ ?_
    · intro k' p' hp' _
      by_cases hk : k' = k
      · subst hk
        simp [Sys.begin, goto] at hp'
        exact ⟨k', by simp [hready, hp']⟩
      · exact ⟨k', by simpa [Sys.begin, goto, hk] using hp'⟩
    · intro k' i' p' hp'
      by_cases ht : Tid.worker k' i' = .worker k i
      · simp [Sys.begin, goto, ht, Pc.running] at hp'
        exact .inr ⟨k, by simp [hready, hp']⟩
      · simp [Sys.begin, goto, ht] at hp'
        exact .inl hp'
  | noJob hpc _ => exact hquiet hpc rfl (.inl rfl) rfl hsame
  | @last _ k i g p hpc _ hque =>
    refine hquiet hpc rfl (.inl rfl) rfl ?_
    intro g' p hp
    by_cases hg : g' = g
    · simp [goto, setJob, hg] at hp
    · simpa [goto, setJob, hg] using hp
  | @hand _ k i g k' p p' rest hpc _ hque =>
    intro b g' hb hg'
    have hidle := hs b g' hb hg'
    have hstream := (htable.stream g p' (by simp [hque])).1
    have hne : g' ≠ g := by
      rintro rfl
      rw [hidle.waiting] at hque
      cases hque
    refine hidle.shrink ?_ ?_ ?_
    · intro q hq
      simpa [goto, put, setJob, hne] using hq
    · intro k₁ q hq hqg
      by_cases hk : k₁ = k'
      · subst hk
        simp only [goto, put, setJob, update_self, List.mem_append,
          List.mem_singleton] at hq
        rcases hq with hq | rfl
        · exact ⟨k₁, hq⟩
        · rw [hqg] at hstream
          exact absurd (Option.some.inj hstream) hne
      · exact ⟨k₁, by simpa [goto, put, setJob, hk] using hq⟩
    · exact fun k₁ i₁ q hq => .inl (running_sub hpc rfl (.inr rfl) _ q hq)

/-! ## The order of the messages -/

/-- What has begun, the message on a ready queue, and what waits, in this order. -/
structure Sys.InOrder (s : Sys) (g : Nat) : Prop where
  waiting : (messagesOf g s.began ++ (s.jobs g).msgQue).Sublist (messagesOf g s.arrivals)
  ready : ∀ k, ∀ p ∈ s.readyQueue k, p.stream = some g →
    (messagesOf g s.began ++ p :: (s.jobs g).msgQue).Sublist (messagesOf g s.arrivals)

theorem messagesOf_concat {g : Nat} {l : List Packet} {p : Packet} (hp : p.stream = some g) :
    messagesOf g (l ++ [p]) = messagesOf g l ++ [p] := by
  simp [messagesOf, hp]

theorem messagesOf_other {g : Nat} {l : List Packet} {p : Packet} (hp : p.stream ≠ some g) :
    messagesOf g (l ++ [p]) = messagesOf g l := by
  simp [messagesOf, hp]

theorem messagesOf_sublist {g : Nat} (l : List Packet) (p : Packet) :
    (messagesOf g l).Sublist (messagesOf g (l ++ [p])) :=
  (List.sublist_append_left l [p]).filter _

section Order

variable {s s' : Sys} {g : Nat} {p : Packet}

theorem Sys.InOrder.keep (h : s.InOrder g) (hbegan : messagesOf g s'.began = messagesOf g s.began)
    (harrivals : (messagesOf g s.arrivals).Sublist (messagesOf g s'.arrivals))
    (hque : (s'.jobs g).msgQue.Sublist (s.jobs g).msgQue)
    (hready : ∀ k, ∀ p ∈ s'.readyQueue k, p.stream = some g → ∃ k', p ∈ s.readyQueue k') :
    s'.InOrder g := by
  refine ⟨?_, ?_⟩
  · rw [hbegan]
    exact ((List.Sublist.refl _).append hque).trans (h.waiting.trans harrivals)
  · intro k p hp hg
    obtain ⟨k', hk'⟩ := hready k p hp hg
    rw [hbegan]
    exact ((List.Sublist.refl _).append (hque.cons_cons p)).trans
      ((h.ready k' p hk' hg).trans harrivals)

theorem sublist_concat {l l' : List Packet} (h : l.Sublist l') (p : Packet) :
    (l ++ [p]).Sublist (l' ++ [p]) :=
  h.append (List.Sublist.refl _)

theorem inOrder_begin_alone (h : s.InOrder g) (hidle : s.Idle g) (hp : p.stream = some g)
    (hbegan : s'.began = s.began ++ [p]) (harrivals : s'.arrivals = s.arrivals ++ [p])
    (hjobs : s'.jobs = s.jobs) (hready : s'.readyQueue = s.readyQueue) : s'.InOrder g := by
  refine ⟨?_, ?_⟩
  · have hwait := h.waiting
    rw [hidle.waiting, List.append_nil] at hwait
    rw [hbegan, harrivals, hjobs, hidle.waiting, messagesOf_concat hp, messagesOf_concat hp,
      List.append_nil]
    exact sublist_concat hwait p
  · intro k q hq hqg
    rw [hready] at hq
    exact absurd hqg (hidle.ready k q hq)

theorem inOrder_first {k : Nat} (h : s.InOrder g) (hfree : ¬ s.Busy g)
    (hque : (s.jobs g).msgQue = []) (hp : p.stream = some g) (hbegan : s'.began = s.began)
    (harrivals : s'.arrivals = s.arrivals ++ [p]) (hque' : (s'.jobs g).msgQue = [])
    (hready : s'.readyQueue = update s.readyQueue k (s.readyQueue k ++ [p])) : s'.InOrder g := by
  have hwait := h.waiting
  rw [hque, List.append_nil] at hwait
  refine ⟨?_, ?_⟩
  · rw [hbegan, harrivals, hque', List.append_nil]
    exact hwait.trans (messagesOf_sublist _ p)
  · intro k' q hq hqg
    have hq : q ∈ s.readyQueue k' ∨ q = p := by
      by_cases hk : k' = k
      · subst hk
        simpa [hready] using hq
      · rw [hready, update_of_ne hk] at hq
        exact .inl hq
    rcases hq with hq | rfl
    · exact absurd ⟨q, .ready k', hq, hqg⟩ hfree
    · rw [hbegan, harrivals, hque', messagesOf_concat hqg]
      exact sublist_concat hwait q

theorem inOrder_queued (h : s.InOrder g) (hp : p.stream = some g) (hbegan : s'.began = s.began)
    (harrivals : s'.arrivals = s.arrivals ++ [p])
    (hque : (s'.jobs g).msgQue = (s.jobs g).msgQue ++ [p])
    (hready : s'.readyQueue = s.readyQueue) : s'.InOrder g := by
  refine ⟨?_, ?_⟩
  · rw [hbegan, harrivals, hque, messagesOf_concat hp, ← List.append_assoc]
    exact sublist_concat h.waiting p
  · intro k q hq hqg
    rw [hready] at hq
    rw [hbegan, harrivals, hque, messagesOf_concat hp, ← List.cons_append, ← List.append_assoc]
    exact sublist_concat (h.ready k q hq hqg) p

theorem inOrder_get {k : Nat} (h : s.InOrder g) (hp : p.stream = some g)
    (hmem : p ∈ s.readyQueue k) (hbegan : s'.began = s.began ++ [p])
    (harrivals : s'.arrivals = s.arrivals) (hjobs : s'.jobs = s.jobs)
    (hready : ∀ k, ∀ q ∈ s'.readyQueue k, q.stream ≠ some g) : s'.InOrder g := by
  refine ⟨?_, ?_⟩
  · rw [hbegan, harrivals, hjobs, messagesOf_concat hp, List.append_assoc]
    exact h.ready k p hmem hp
  · intro k' q hq hqg
    exact absurd hqg (hready k' q hq)

theorem inOrder_hand {rest : List Packet} (h : s.InOrder g) (hque : (s.jobs g).msgQue = p :: rest)
    (hbegan : s'.began = s.began) (harrivals : s'.arrivals = s.arrivals)
    (hque' : (s'.jobs g).msgQue = rest)
    (hready : ∀ k, ∀ q ∈ s'.readyQueue k, q.stream = some g → q = p) : s'.InOrder g := by
  have hwait := h.waiting
  rw [hque] at hwait
  refine ⟨?_, ?_⟩
  · rw [hbegan, harrivals, hque']
    exact ((List.Sublist.refl _).append (List.sublist_cons_self p rest)).trans hwait
  · intro k q hq hqg
    rw [hready k q hq hqg, hbegan, harrivals, hque']
    exact hwait

end Order

theorem mem_put {f : Nat → List Packet} {k k' : Nat} {p q : Packet}
    (h : q ∈ update f k (f k ++ [p]) k') : q ∈ f k' ∨ q = p := by
  by_cases hk : k' = k
  · subst hk
    simpa using h
  · rw [update_of_ne hk] at h
    exact .inl h

theorem moves_order {c : Pools} {s s' : Sys} {a : Act} (hs : ∀ g, s.InOrder g) (hturns : Turns s)
    (hflow : Flow s) (htable : JobTable c s) (hmeets : Meets c s a) (h : Moves c s a s') :
    ∀ g, s'.InOrder g := by
  -- nothing begins, and no message comes to a ready queue
  have hquiet : ∀ {u : Sys}, u.began = s.began → u.arrivals = s.arrivals →
      (∀ g, (u.jobs g).msgQue.Sublist (s.jobs g).msgQue) → u.readyQueue = s.readyQueue →
      ∀ g, u.InOrder g := by
    intro u hbegan harrivals hque hready g
    apply (hs g).keep (by rw [hbegan]) (by rw [harrivals]) (hque g)
    intro k p hp _
    exact ⟨k, hready ▸ hp⟩
  have hsame : ∀ g, (s.jobs g).msgQue.Sublist (s.jobs g).msgQue := fun _ => List.Sublist.refl _
  have hold : ∀ k, ∀ p ∈ s.readyQueue k, ∃ k', p ∈ s.readyQueue k' := fun k p hp => ⟨k, hp⟩
  cases h with
  | arrive m => exact hquiet rfl rfl hsame rfl
  | @inBand _ m rest hpc hque hin =>
    intro g
    by_cases hg : (s.packet m).stream = some g
    · exact inOrder_begin_alone (hs g) (hmeets.1 rfl hpc m rest hque hin g hg) hg rfl rfl rfl rfl
    · exact (hs g).keep (messagesOf_other hg) (messagesOf_sublist _ _) (hsame g)
        fun k p hp _ => hold k p hp
  | refuse _ _ =>
    exact fun g => (hs g).keep rfl (messagesOf_sublist _ _) (hsame g) fun k p hp _ => hold k p hp
  | @discrete _ m rest k _ hjob =>
    intro g
    refine (hs g).keep rfl (messagesOf_sublist _ _) (hsame g) ?_
    intro k' q hq hqg
    rcases mem_put hq with hq | rfl
    · exact ⟨k', hq⟩
    · have hnone : (s.packet m).stream = none := if_pos hjob
      rw [hnone] at hqg
      cases hqg
  | @first _ m rest k g _ hjob hfind hempty =>
    obtain ⟨hg, _⟩ := findJob_eq_some hfind
    have hstream := packet_stream hjob hfind
    intro g'
    by_cases hne : g' = g
    · subst hne
      have hque := hturns.idle g' hg hempty
      refine inOrder_first (hs g') ((hturns.empty g' hg).mp hempty) hque hstream rfl rfl ?_ rfl
      simpa [put, setJob] using hque
    · refine (hs g').keep rfl (messagesOf_sublist _ _) ?_ ?_
      · simp [put, setJob, take, hne]
      · intro k' q hq hqg
        rcases mem_put hq with hq | rfl
        · exact ⟨k', hq⟩
        · rw [hstream] at hqg
          exact absurd (Option.some.inj hqg).symm hne
  | @queued _ m rest k g _ hjob _ hfind _ =>
    intro g'
    by_cases hne : g' = g
    · subst hne
      refine inOrder_queued (hs g') (packet_stream hjob hfind) rfl rfl ?_ rfl
      simp [setJob]
    · refine (hs g').keep rfl (messagesOf_sublist _ _) ?_ fun k p hp _ => hold k p hp
      simp [setJob, take, hne]
  | execute _ _ _ => exact hquiet rfl rfl hsame rfl
  | acquire _ _ _ _ =>
    refine hquiet rfl rfl ?_ rfl
    intro g
    by_cases hg : g = s.allocated
    · simp [goto, hg]
    · simp [goto, hg]
  | @release _ t p _ jobId g _ _ =>
    refine hquiet rfl rfl ?_ rfl
    intro g'
    by_cases hg : g' = g
    · simp [goto, drop, hg]
    · simp [goto, drop, hg]
  | replied _ _ => exact hquiet rfl rfl hsame rfl
  | repliedJob _ _ => exact hquiet rfl rfl hsame rfl
  | pend _ => exact hquiet rfl rfl hsame rfl
  | getNone _ => exact hquiet rfl rfl hsame rfl
  | @get _ k i p rest hpc hready =>
    have hmem : p ∈ s.readyQueue k := by simp [hready]
    have hnodup := hflow.ready k
    rw [hready, List.nodup_cons] at hnodup
    -- what is on the ready queues now, and was there before
    have hback : ∀ k', ∀ q ∈ update s.readyQueue k rest k', q ∈ s.readyQueue k' ∧
        (k' = k → q ∈ rest) := by
      intro k' q hq
      by_cases hk : k' = k
      · subst hk
        rw [update_self] at hq
        exact ⟨by simp [hready, hq], fun _ => hq⟩
      · rw [update_of_ne hk] at hq
        exact ⟨hq, fun h => absurd h hk⟩
    intro g
    by_cases hg : p.stream = some g
    · refine inOrder_get (hs g) hg hmem rfl rfl rfl ?_
      intro k' q hq hqg
      obtain ⟨hq, hrest⟩ := hback k' q hq
      obtain ⟨rfl, hplace⟩ := hturns.single g q p (.ready k') (.ready k) hq hmem hqg hg
      cases hplace
      exact hnodup.1 (hrest rfl)
    · exact (hs g).keep (messagesOf_other hg) (List.Sublist.refl _) (hsame g)
        fun k' q hq _ => ⟨k', (hback k' q hq).1⟩
  | noJob _ _ => exact hquiet rfl rfl hsame rfl
  | @last _ k i g p _ _ hque =>
    refine hquiet rfl rfl ?_ rfl
    intro g'
    by_cases hg : g' = g
    · simp [goto, setJob, hg]
    · simp [goto, setJob, hg]
  | @hand _ k i g k' p p' rest hpc hfind hque =>
    obtain ⟨hg, hid⟩ := findJob_eq_some hfind
    have hheld : s.HeldAt p (.worker k i) := by rw [Sys.HeldAt, hpc]; rfl
    have hstream := (hturns.owner p _ hheld g hg).mp hid
    have hstream' := (htable.stream g p' (by simp [hque])).1
    intro g'
    by_cases hne : g' = g
    · subst hne
      refine inOrder_hand (hs g') hque rfl rfl (by simp [goto, put, setJob]) ?_
      -- the worker had the turn, so no other message of the job was on a ready queue
      intro k₁ q hq hqg
      rcases mem_put hq with hq | hq
      · have hplace := (hturns.single g' q p (.ready k₁) _ hq hheld hqg hstream).2
        cases hplace
      · exact hq
    · refine (hs g').keep rfl (List.Sublist.refl _) ?_ ?_
      · simp [goto, put, setJob, hne]
      · intro k₁ q hq hqg
        rcases mem_put hq with hq | rfl
        · exact ⟨k₁, hq⟩
        · rw [hstream'] at hqg
          exact absurd (Option.some.inj hqg).symm hne

end Omap4Hal.Rcm.Server

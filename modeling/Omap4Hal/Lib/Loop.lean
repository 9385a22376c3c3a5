import Mathlib.Logic.Basic

/- Loops. The body of a loop says of each state whether the loop goes on or is left,
   and `loop` runs it with a number of passes to spend, `none` when they do not
   suffice. `Visits` says that a predicate holds of every state a pass starts in.
   A measure that every pass lowers bounds the passes; the other rules carry an
   invariant, or an equivalence with `Visits`, through all of them.

   A body that may itself not return is the body of `loopM`. A program with loops is
   then a function of the passes it may spend in each of them, and `Returns` says that
   some number of passes suffices. `Gives` is the same for a recursion with fuel, whose
   result is then the only one. -/
namespace Omap4Hal.Lib

variable {σ : Type}

/-- How one pass through the body ends. -/
inductive Flow (σ : Type) where
  | next (s : σ)
  | stop (s : σ)

/-- The state after the pass. -/
def Flow.state : Flow σ → σ
  | .next s => s
  | .stop s => s

/-- The state in which the loop is left. -/
def loop (body : σ → Flow σ) : Nat → σ → Option σ
  | 0, _ => none
  | n + 1, s =>
    match body s with
    | .next s' => loop body n s'
    | .stop s' => some s'

/-- Every state a pass starts in satisfies `G`. -/
def Visits (body : σ → Flow σ) (G : σ → Prop) : Nat → σ → Prop
  | 0, _ => True
  | n + 1, s => G s ∧ ∀ s', body s = .next s' → Visits body G n s'

variable {body : σ → Flow σ}

variable {n : Nat} {s s' t : σ} {I : σ → Prop}

theorem loop_next (h : body s = .next s') :
    loop body (n + 1) s = loop body n s' := by
  rw [loop, h]

theorem loop_stop (h : body s = .stop s') :
    loop body (n + 1) s = some s' := by
  rw [loop, h]

theorem loop_terminates {μ : σ → Nat} (hμ : ∀ s s', body s = .next s' → μ s' < μ s) (hn : μ s < n) :
    ∃ t, loop body n s = some t := by
  induction n generalizing s with
  | zero => omega
  | succ n ih =>
    cases hb : body s with
    | stop t => exact ⟨t, loop_stop hb⟩
    | next s' =>
      rw [loop_next hb]
      apply ih
      have hlt := hμ s s' hb
      omega

/-- Total correctness. If every state of an invariant is left with `P` or goes on to a smaller
one, the loop is left with `P`. -/
theorem loop_total {P : σ → Prop} {μ : σ → Nat}
    (hbody : ∀ s, I s → (∃ t, body s = .stop t ∧ P t) ∨ ∃ s', body s = .next s' ∧ I s' ∧ μ s' < μ s)
    (hs : I s) (hn : μ s < n) : ∃ t, loop body n s = some t ∧ P t := by
  induction n generalizing s with
  | zero => omega
  | succ n ih =>
    rcases hbody s hs with ⟨t, hb, hP⟩ | ⟨s', hb, hI, hlt⟩
    · exact ⟨t, loop_stop hb, hP⟩
    · rw [loop_next hb]
      exact ih hI (by omega)

theorem loop_induct (hnext : ∀ s s', I s → body s = .next s' → I s')
    (hstop : ∀ s t, I s → body s = .stop t → I t) (hs : I s) (h : loop body n s = some t) :
    I t := by
  induction n generalizing s with
  | zero => cases h
  | succ n ih =>
    cases hb : body s with
    | stop s' =>
      rw [loop_stop hb, Option.some.injEq] at h
      exact h ▸ hstop s s' hs hb
    | next s' =>
      rw [loop_next hb] at h
      exact ih (hnext s s' hs hb) h

/-- The last pass of a loop that is left starts in a state that the passes before it
have kept. -/
theorem loop_last (hnext : ∀ s s', I s → body s = .next s' → I s') (hs : I s)
    (h : loop body n s = some t) : ∃ s', I s' ∧ body s' = .stop t := by
  induction n generalizing s with
  | zero => cases h
  | succ n ih =>
    cases hb : body s with
    | stop s' =>
      rw [loop_stop hb, Option.some.injEq] at h
      exact ⟨s, hs, h ▸ hb⟩
    | next s' =>
      rw [loop_next hb] at h
      exact ih (hnext s s' hs hb) h

/-- The guarded-loop rule. `Q` relates the state a pass starts in to the one in
which the loop is left. A pass that meets the guard keeps `I` and carries `Q` to the
next state; a state that does not meet it is never in relation to the outcome. -/
theorem loop_iff_visits {G : σ → Prop} {Q : σ → σ → Prop}
    (hnext : ∀ s s', I s → G s → body s = .next s' → I s' ∧ ∀ t, Q s t ↔ Q s' t)
    (hstop : ∀ s t, I s → G s → body s = .stop t → Q s t)
    (hbad : ∀ n s t, I s → ¬ G s → loop body n s = some t → ¬ Q s t) (hs : I s)
    (h : loop body n s = some t) :
    Q s t ↔ Visits body G n s := by
  induction n generalizing s with
  | zero => cases h
  | succ n ih =>
    by_cases hG : G s
    · cases hb : body s with
      | stop s' =>
        have ht : s' = t := by rwa [loop_stop hb, Option.some.injEq] at h
        subst ht
        refine ⟨fun _ => ⟨hG, ?_⟩, fun _ => hstop s s' hs hG hb⟩
        intro s'' hs''
        rw [hb] at hs''
        cases hs''
      | next s' =>
        -- `Q` of this state is `Q` of the next one, where the induction applies
        obtain ⟨hs', hQ⟩ := hnext s s' hs hG hb
        rw [loop_next hb] at h
        rw [hQ t, ih hs' h]
        constructor
        · intro hv
          refine ⟨hG, ?_⟩
          intro s'' hs''
          obtain rfl : s' = s'' := by simpa [hb] using hs''
          exact hv
        · intro hv
          exact hv.2 s' hb
    · exact ⟨fun hq => absurd hq (hbad (n + 1) s t hs hG h), fun hv => absurd hv.1 hG⟩

theorem Visits.of_forall {G : σ → Prop} (h : ∀ s, G s) : Visits body G n s := by
  induction n generalizing s with
  | zero => trivial
  | succ n ih => exact ⟨h s, fun _ _ => ih⟩

/-- A loop whose body does the same wherever the guard holds. -/
theorem Visits.loop_congr {body' : σ → Flow σ} {G : σ → Prop} (h : Visits body G n s)
    (hsame : ∀ s, G s → body' s = body s) : loop body' n s = loop body n s := by
  induction n generalizing s with
  | zero => rfl
  | succ n ih =>
    have hbody := hsame s h.1
    cases hb : body s with
    | stop t => rw [loop_stop hb, loop_stop (hbody.trans hb)]
    | next s' =>
      rw [loop_next hb, loop_next (hbody.trans hb)]
      exact ih (h.2 s' hb)

/-- A loop that is left after `n` passes is left the same way if it may make more. -/
theorem loop_mono {m : Nat} (hnm : n ≤ m) (h : loop body n s = some t) :
    loop body m s = some t := by
  induction n generalizing m s with
  | zero => cases h
  | succ n ih =>
    obtain ⟨m, rfl⟩ : ∃ m', m = m' + 1 := ⟨m - 1, by omega⟩
    cases hb : body s with
    | stop s' =>
      rw [loop_stop hb] at h ⊢
      exact h
    | next s' =>
      rw [loop_next hb] at h ⊢
      exact ih (by omega) h

/-- The simulation rule. If the passes of one loop end as those of the other do, in related
states, then it is left whenever the other one is. -/
theorem loop_simulates {τ : Type} {body : σ → Flow σ} {body' : τ → Flow τ} {R R' : σ → τ → Prop}
    (hpass : ∀ s t, R s t →
      (∃ s' t', body s = .next s' ∧ body' t = .next t' ∧ R s' t') ∨
      ∃ s' t', body s = .stop s' ∧ body' t = .stop t' ∧ R' s' t')
    {t t' : τ} (hs : R s t) (h : loop body' n t = some t') :
    ∃ s', loop body n s = some s' ∧ R' s' t' := by
  induction n generalizing s t with
  | zero => cases h
  | succ n ih =>
    rcases hpass s t hs with ⟨s₁, t₁, hb, hb', hR⟩ | ⟨s₁, t₁, hb, hb', hR⟩
    · rw [loop_next hb'] at h
      rw [loop_next hb]
      exact ih hR h
    · rw [loop_stop hb', Option.some.injEq] at h
      exact ⟨s₁, loop_stop hb, h ▸ hR⟩

/-! ## Loops whose body may not return -/

def loopM (body : σ → Option (Flow σ)) : Nat → σ → Option σ
  | 0, _ => none
  | n + 1, s =>
    match body s with
    | none => none
    | some (.next s') => loopM body n s'
    | some (.stop s') => some s'

theorem loopM_next {body : σ → Option (Flow σ)} (h : body s = some (.next s')) :
    loopM body (n + 1) s = loopM body n s' := by
  rw [loopM, h]

theorem loopM_stop {body : σ → Option (Flow σ)} (h : body s = some (.stop s')) :
    loopM body (n + 1) s = some s' := by
  rw [loopM, h]

theorem loopM_eq_some {body : σ → Option (Flow σ)} (h : loopM body n s = some t) :
    ∃ m, n = m + 1 ∧ (body s = some (.stop t) ∨
      ∃ s', body s = some (.next s') ∧ loopM body m s' = some t) := by
  cases n with
  | zero => cases h
  | succ n =>
    refine ⟨n, rfl, ?_⟩
    rw [loopM] at h
    split at h
    next => cases h
    next s' hb => exact Or.inr ⟨s', hb, h⟩
    next s' hb =>
      rw [Option.some.injEq] at h
      exact Or.inl (h ▸ hb)

/-- More passes, of the loop and inside its body, do not change how it is left. -/
theorem loopM_mono {b₁ b₂ : σ → Option (Flow σ)} (hb : ∀ s x, b₁ s = some x → b₂ s = some x)
    {m : Nat} (hnm : n ≤ m) (h : loopM b₁ n s = some t) : loopM b₂ m s = some t := by
  induction n generalizing m s with
  | zero => cases h
  | succ n ih =>
    obtain ⟨m, rfl⟩ : ∃ m', m = m' + 1 := ⟨m - 1, by omega⟩
    obtain ⟨k, hk, hfirst⟩ := loopM_eq_some h
    obtain rfl : n = k := by omega
    rcases hfirst with hstop | ⟨s', hnext, hrest⟩
    · exact loopM_stop (hb _ _ hstop)
    · rw [loopM_next (hb _ _ hnext)]
      exact ih (by omega) hrest

/-- A loop is left if its body returns in every state of an invariant and lowers a
measure. -/
theorem loopM_terminates {body : σ → Option (Flow σ)} {μ : σ → Nat}
    (hbody : ∀ s, I s →
      (∃ t, body s = some (.stop t)) ∨ ∃ s', body s = some (.next s') ∧ I s' ∧ μ s' < μ s)
    (hs : I s) (hn : μ s < n) : ∃ t, loopM body n s = some t := by
  induction n generalizing s with
  | zero => omega
  | succ n ih =>
    rcases hbody s hs with ⟨t, ht⟩ | ⟨s', hs', hI, hlt⟩
    · exact ⟨t, loopM_stop ht⟩
    · rw [loopM_next hs']
      exact ih hI (by omega)

/-- Some number of passes suffices, and this is the result. -/
def Returns {α : Type} (f : Nat → Option α) (a : α) : Prop := ∃ n, f n = some a

/-! ## Recursions with fuel -/

section Fuel

variable {α β : Type} {f g : Nat → Option α} {a : α}

/-- Some fuel suffices, and whatever suffices leads to this result. -/
structure Gives (f : Nat → Option α) (a : α) : Prop where
  returns : Returns f a
  unique : ∀ n b, f n = some b → b = a

theorem Gives.const (a : α) : Gives (fun _ => some a) a :=
  ⟨⟨0, rfl⟩, fun _ _ h => (Option.some.inj h).symm⟩

/-- A loop that is left once is left the same way with any number of passes that suffices. -/
theorem gives_loop {n : Nat} {s t : σ} (h : loop body n s = some t) :
    Gives (fun m => loop body m s) t := by
  refine ⟨⟨n, h⟩, ?_⟩
  intro m u hu
  have ht := loop_mono (Nat.le_max_left n m) h
  have hu := loop_mono (Nat.le_max_right n m) hu
  exact Option.some.inj (hu.symm.trans ht)

theorem Gives.succ (h : Gives g a) (hzero : f 0 = none) (hsucc : ∀ n, f (n + 1) = g n) :
    Gives f a := by
  obtain ⟨⟨n, hn⟩, hunique⟩ := h
  refine ⟨⟨n + 1, (hsucc n).trans hn⟩, ?_⟩
  intro m b hb
  cases m with
  | zero => exact absurd hb (by simp [hzero])
  | succ m => exact hunique m b ((hsucc m).symm.trans hb)

theorem Gives.bind (h : Gives f a) {k : α → Option β} {b : β} (hk : k a = some b) :
    Gives (fun n => (f n).bind k) b := by
  obtain ⟨⟨n, hn⟩, hunique⟩ := h
  refine ⟨⟨n, by simp only [hn, Option.bind_some, hk]⟩, ?_⟩
  intro m c hc
  obtain ⟨x, hx, hkx⟩ := Option.bind_eq_some_iff.mp hc
  rw [hunique m x hx, hk] at hkx
  exact (Option.some.inj hkx).symm

theorem Gives.map (h : Gives f a) (k : α → β) : Gives (fun n => (f n).map k) (k a) := by
  obtain ⟨⟨n, hn⟩, hunique⟩ := h
  refine ⟨⟨n, by simp only [hn, Option.map_some]⟩, ?_⟩
  intro m c hc
  obtain ⟨x, hx, rfl⟩ := Option.map_eq_some_iff.mp hc
  rw [hunique m x hx]

theorem Gives.exists_iff (h : Gives f a) {P : α → Prop} :
    (∃ n b, f n = some b ∧ P b) ↔ P a := by
  constructor
  · rintro ⟨n, b, hb, hP⟩
    exact h.unique n b hb ▸ hP
  · intro hP
    obtain ⟨n, hn⟩ := h.returns
    exact ⟨n, a, hn, hP⟩

end Fuel

end Omap4Hal.Lib

import Mathlib.Algebra.GroupWithZero.Nat
import Mathlib.Data.List.Basic

/- Runs of a transition function. A component is a state type, a type of calls
   and a step; a step that does not return (a wild pointer, a loop that never
   ends) is `none`. Four notions are used of a run: its last state (`run`), that
   every step meets a guard in the state it starts from (`Guarded`), and that
   every state it passes through satisfies a predicate, with every step
   returning (`Always`) or as far as the steps return (`Throughout`). The rules
   below reduce each of them to one step.

   What is still to be done may be a number that an arrival raises and every other step
   lowers; then the steps of a run are bounded by the arrivals (`run_potential`). -/
namespace Omap4Hal.Lib

variable {σ α : Type}

/-- Make the calls in order. `none` as soon as one of them does not return. -/
def run (step : σ → α → Option σ) : σ → List α → Option σ
  | s, [] => some s
  | s, a :: as => (step s a).bind fun s' => run step s' as

/-- Every call of the run meets the guard in the state it is made in. -/
def Guarded (step : σ → α → Option σ) (G : σ → α → Prop) : σ → List α → Prop
  | _, [] => True
  | s, a :: as => G s a ∧ ∀ s', step s a = some s' → Guarded step G s' as

/-- Every call of the run returns, and every state it passes through, the first
and the last included, satisfies `P`. -/
def Always (step : σ → α → Option σ) (P : σ → Prop) : σ → List α → Prop
  | s, [] => P s
  | s, a :: as => P s ∧ ∃ s', step s a = some s' ∧ Always step P s' as

/-- Every state the run passes through, for as long as its calls return,
satisfies `P`. -/
def Throughout (step : σ → α → Option σ) (P : σ → Prop) : σ → List α → Prop
  | s, [] => P s
  | s, a :: as => P s ∧ ∀ s', step s a = some s' → Throughout step P s' as

variable {step : σ → α → Option σ}

/-- A guard that can be evaluated can be evaluated along a run. -/
instance Guarded.decidable {G : σ → α → Prop} [∀ s a, Decidable (G s a)] :
    ∀ s as, Decidable (Guarded step G s as)
  | _, [] => isTrue trivial
  | s, a :: as =>
    match h : step s a with
    | none => decidable_of_iff (G s a) ⟨fun hG => ⟨hG, by simp [h]⟩, And.left⟩
    | some s' =>
      have : Decidable (Guarded step G s' as) := Guarded.decidable s' as
      decidable_of_iff (G s a ∧ Guarded step G s' as) (by simp [Guarded, h])

@[simp] theorem run_nil (s : σ) : run step s [] = some s := rfl

variable {s t : σ} {as : List α} {I J P : σ → Prop} {G H : σ → α → Prop}

theorem run_cons {s' : σ} {a : α} (h : step s a = some s') :
    run step s (a :: as) = run step s' as := by
  simp [run, h]

theorem run_cons_eq_some {a : α} (h : run step s (a :: as) = some t) :
    ∃ s', step s a = some s' ∧ run step s' as = some t := by
  simpa [run, Option.bind_eq_some_iff] using h

theorem run_append {bs : List α} (h : run step s as = some t) :
    run step s (as ++ bs) = run step t bs := by
  induction as generalizing s with
  | nil =>
    simp only [run_nil, Option.some.injEq] at h
    rw [List.nil_append, h]
  | cons a as ih =>
    obtain ⟨s', h₁, h₂⟩ := run_cons_eq_some h
    rw [List.cons_append, run_cons h₁, ih h₂]

theorem run_induct (hstep : ∀ s a s', I s → step s a = some s' → I s') (hs : I s)
    (h : run step s as = some t) : I t := by
  induction as generalizing s with
  | nil =>
    simp only [run_nil, Option.some.injEq] at h
    exact h ▸ hs
  | cons a as ih =>
    obtain ⟨s', h₁, h₂⟩ := run_cons_eq_some h
    exact ih (hstep s a s' hs h₁) h₂

theorem Guarded.cons {s' : σ} {a : α} (hG : G s a) (h : step s a = some s')
    (hrest : Guarded step G s' as) : Guarded step G s (a :: as) := by
  refine ⟨hG, ?_⟩
  intro t ht
  rw [h] at ht
  exact Option.some.inj ht ▸ hrest

/-- What every step that meets the guard keeps, every guarded run keeps. -/
theorem Guarded.run_induct (hstep : ∀ s a s', I s → G s a → step s a = some s' → I s')
    (hG : Guarded step G s as) (hs : I s) (h : run step s as = some t) :
    I t := by
  induction as generalizing s with
  | nil =>
    simp only [run_nil, Option.some.injEq] at h
    exact h ▸ hs
  | cons a as ih =>
    obtain ⟨s', h₁, h₂⟩ := run_cons_eq_some h
    exact ih (hG.2 s' h₁) (hstep s a s' hs hG.1 h₁) h₂

theorem guarded_and :
    Guarded step (fun s a => G s a ∧ H s a) s as ↔ Guarded step G s as ∧ Guarded step H s as := by
  induction as generalizing s with
  | nil => exact ⟨fun _ => ⟨trivial, trivial⟩, fun _ => trivial⟩
  | cons a as ih =>
    constructor
    · rintro ⟨⟨hG, hH⟩, hrest⟩
      exact ⟨⟨hG, fun s' hs' => (ih.mp (hrest s' hs')).1⟩, hH, fun s' hs' =>
        (ih.mp (hrest s' hs')).2⟩
    · rintro ⟨⟨hG, hrestG⟩, hH, hrestH⟩
      exact ⟨⟨hG, hH⟩, fun s' hs' => ih.mpr ⟨hrestG s' hs', hrestH s' hs'⟩⟩

theorem guarded_congr (hiff : ∀ s a, J s → (G s a ↔ H s a))
    (hkeep : ∀ s a s', J s → H s a → step s a = some s' → J s') (hs : J s) :
    Guarded step G s as ↔ Guarded step H s as := by
  induction as generalizing s with
  | nil => exact Iff.rfl
  | cons a as ih =>
    refine ⟨?_, ?_⟩
    · intro h
      obtain ⟨hG, hrest⟩ := h
      have hH := (hiff s a hs).mp hG
      exact ⟨hH, fun s' hs' => (ih (hkeep s a s' hs hH hs')).mp (hrest s' hs')⟩
    · intro h
      obtain ⟨hH, hrest⟩ := h
      exact ⟨(hiff s a hs).mpr hH, fun s' hs' => (ih (hkeep s a s' hs hH hs')).mpr (hrest s' hs')⟩

/-- A guard that gives another one in every state that the run can be in. -/
theorem Guarded.mono (hGH : ∀ s a, J s → G s a → H s a)
    (hkeep : ∀ s a s', J s → G s a → step s a = some s' → J s') (hG : Guarded step G s as)
    (hs : J s) : Guarded step H s as := by
  induction as generalizing s with
  | nil => trivial
  | cons a as ih =>
    obtain ⟨ha, hrest⟩ := hG
    exact ⟨hGH s a hs ha, fun s' hs' => ih (hrest s' hs') (hkeep s a s' hs ha hs')⟩

theorem guarded_congr_of_forall {D : α → Prop} (hiff : ∀ s a, J s → D a → (G s a ↔ H s a))
    (hkeep : ∀ s a s', J s → D a → H s a → step s a = some s' → J s') (hs : J s)
    (has : ∀ a ∈ as, D a) : Guarded step G s as ↔ Guarded step H s as := by
  induction as generalizing s with
  | nil => exact Iff.rfl
  | cons a as ih =>
    obtain ⟨ha, hrest⟩ := List.forall_mem_cons.mp has
    refine ⟨?_, ?_⟩
    · intro h
      obtain ⟨hG, htail⟩ := h
      have hH := (hiff s a hs ha).mp hG
      exact ⟨hH, fun s' hs' => (ih (hkeep s a s' hs ha hH hs') hrest).mp (htail s' hs')⟩
    · intro h
      obtain ⟨hH, htail⟩ := h
      exact ⟨(hiff s a hs ha).mpr hH, fun s' hs' =>
        (ih (hkeep s a s' hs ha hH hs') hrest).mpr (htail s' hs')⟩

theorem Always.head (h : Always step P s as) : P s := by
  cases as with
  | nil => exact h
  | cons a as => exact h.1

/-- A run all of whose states satisfy `P` ends in one that does. -/
theorem Always.last (h : Always step P s as) :
    ∃ t, run step s as = some t ∧ P t := by
  induction as generalizing s with
  | nil => exact ⟨s, rfl, h⟩
  | cons a as ih =>
    obtain ⟨_, s', hs', hrest⟩ := h
    obtain ⟨t, ht, hP⟩ := ih hrest
    exact ⟨t, by rw [run_cons hs', ht], hP⟩

/-- If a call that meets the guard returns and keeps the inductive invariant `J`, then a
guarded run returns, with what `J` gives all along it. -/
theorem Guarded.always (hJP : ∀ s, J s → P s)
    (hstep : ∀ s a, J s → G s a → ∃ s', step s a = some s' ∧ J s') (hG : Guarded step G s as)
    (hs : J s) : Always step P s as := by
  induction as generalizing s with
  | nil => exact hJP s hs
  | cons a as ih =>
    obtain ⟨s', hs', hJ⟩ := hstep s a hs hG.1
    exact ⟨hJP s hs, s', hs', ih (hG.2 s' hs') hJ⟩

/-- The guarded-run rule. `I` holds of every state whatever the guard says; from
a state that satisfies `P`, a call keeps `P` exactly when it meets the guard.
Then `P` holds all along a run exactly when every call of it meets the guard. -/
theorem always_iff_guarded (hI : ∀ s a s', I s → step s a = some s' → I s')
    (hstep : ∀ s a, I s → P s → ((∃ s', step s a = some s' ∧ P s') ↔ G s a)) (hs : I s) (hP : P s) :
    Always step P s as ↔ Guarded step G s as := by
  induction as generalizing s with
  | nil => exact ⟨fun _ => trivial, fun _ => hP⟩
  | cons a as ih =>
    constructor
    · intro h
      obtain ⟨_, s', hs', hrest⟩ := h
      refine ⟨(hstep s a hs hP).mp ⟨s', hs', hrest.head⟩, ?_⟩
      intro s'' hs''
      obtain rfl : s' = s'' := by simpa [hs'] using hs''
      exact (ih (hI s a s' hs hs') hrest.head).mp hrest
    · intro h
      obtain ⟨hG, hrest⟩ := h
      obtain ⟨s', hs', hP'⟩ := (hstep s a hs hP).mpr hG
      exact ⟨hP, s', hs', (ih (hI s a s' hs hs') hP').mpr (hrest s' hs')⟩

/-- The same rule under a proviso `H` that every call meets, with an inductive invariant `J`
that gives `P`: a call that meets the guard returns and keeps it, and one that does not leads
out of `P`. -/
theorem always_iff_guarded_under (hJP : ∀ s, J s → P s)
    (hgood : ∀ s a, J s → H s a → G s a → ∃ s', step s a = some s' ∧ J s')
    (hbad : ∀ s a s', J s → H s a → ¬ G s a → step s a = some s' → ¬ P s') (hs : J s)
    (hH : Guarded step H s as) :
    Always step P s as ↔ Guarded step G s as := by
  induction as generalizing s with
  | nil => exact ⟨fun _ => trivial, fun _ => hJP s hs⟩
  | cons a as ih =>
    obtain ⟨hHa, hHrest⟩ := hH
    constructor
    · intro h
      obtain ⟨_, s', hs', hrest⟩ := h
      have hG : G s a := by
        by_contra hG
        exact hbad s a s' hs hHa hG hs' hrest.head
      obtain ⟨t, ht, hJ⟩ := hgood s a hs hHa hG
      obtain rfl : t = s' := by simpa [hs'] using ht.symm
      refine ⟨hG, ?_⟩
      intro s'' hs''
      obtain rfl : t = s'' := by simpa [hs'] using hs''
      exact (ih hJ (hHrest t ht)).mp hrest
    · intro h
      obtain ⟨hG, hrest⟩ := h
      obtain ⟨s', hs', hJ⟩ := hgood s a hs hHa hG
      exact ⟨hJP s hs, s', hs', (ih hJ (hHrest s' hs')).mpr (hrest s' hs')⟩

theorem Throughout.head (h : Throughout step P s as) :
    P s := by
  cases as with
  | nil => exact h
  | cons a as => exact h.1

theorem Throughout.last (h : Throughout step P s as) (hrun : run step s as = some t) : P t := by
  induction as generalizing s with
  | nil =>
    simp only [run_nil, Option.some.injEq] at hrun
    exact hrun ▸ h
  | cons a as ih =>
    obtain ⟨s', h₁, h₂⟩ := run_cons_eq_some hrun
    exact ih (h.2 s' h₁) h₂

theorem Throughout.mono {Q : σ → Prop} (hPQ : ∀ s, P s → Q s) (h : Throughout step P s as) :
    Throughout step Q s as := by
  induction as generalizing s with
  | nil => exact hPQ s h
  | cons a as ih => exact ⟨hPQ s h.1, fun s' hs' => ih (h.2 s' hs')⟩

theorem Throughout.guarded (hPG : ∀ s a, P s → G s a) (h : Throughout step P s as) :
    Guarded step G s as := by
  induction as generalizing s with
  | nil => trivial
  | cons a as ih => exact ⟨hPG s a h.1, fun s' hs' => ih (h.2 s' hs')⟩

/-- The same rule where steps need not return, under a proviso `H` that every call
meets. `J` is the inductive invariant: it gives `P`, a call that meets the guard
keeps it, and one that does not leads out of `P`. -/
theorem throughout_iff_guarded_under (hJP : ∀ s, J s → P s)
    (hgood : ∀ s a s', J s → H s a → G s a → step s a = some s' → J s')
    (hbad : ∀ s a, J s → H s a → ¬ G s a → ∃ s', step s a = some s' ∧ ¬ P s') (hs : J s)
    (hH : Guarded step H s as) :
    Throughout step P s as ↔ Guarded step G s as := by
  induction as generalizing s with
  | nil => exact ⟨fun _ => trivial, fun _ => hJP s hs⟩
  | cons a as ih =>
    obtain ⟨hHa, hHrest⟩ := hH
    constructor
    · intro h
      obtain ⟨_, hrest⟩ := h
      -- the first call that does not meet the guard would lead out of `P`
      have hG : G s a := by
        by_contra hG
        obtain ⟨s', hs', hP⟩ := hbad s a hs hHa hG
        exact hP (hrest s' hs').head
      refine ⟨hG, ?_⟩
      intro s' hs'
      exact (ih (hgood s a s' hs hHa hG hs') (hHrest s' hs')).mp (hrest s' hs')
    · intro h
      obtain ⟨hG, hrest⟩ := h
      refine ⟨hJP s hs, ?_⟩
      intro s' hs'
      exact (ih (hgood s a s' hs hHa hG hs') (hHrest s' hs')).mpr (hrest s' hs')

theorem guarded_true (s : σ) (as : List α) : Guarded step (fun _ _ => True) s as := by
  induction as generalizing s with
  | nil => trivial
  | cons a as ih => exact ⟨trivial, fun s' _ => ih s'⟩

theorem guarded_of_always (hG : ∀ s a, G s a) (s : σ) (as : List α) :
    Guarded step G s as := by
  induction as generalizing s with
  | nil => trivial
  | cons a as ih => exact ⟨hG s a, fun s' _ => ih s'⟩

theorem guarded_of_forall {D : α → Prop} (s : σ) (h : ∀ a ∈ as, D a) :
    Guarded step (fun _ a => D a) s as := by
  induction as generalizing s with
  | nil => trivial
  | cons a as ih =>
    obtain ⟨ha, hrest⟩ := List.forall_mem_cons.mp h
    exact ⟨ha, fun s' _ => ih s' hrest⟩

/-- Where every call returns, a guard on the calls alone is one for each of them. -/
theorem guarded_iff_forall {D : α → Prop} (htotal : ∀ s a, ∃ s', step s a = some s') (s : σ) :
    Guarded step (fun _ a => D a) s as ↔ ∀ a ∈ as, D a := by
  refine ⟨?_, guarded_of_forall s⟩
  intro h
  induction as generalizing s with
  | nil => exact fun a ha => absurd ha List.not_mem_nil
  | cons a as ih =>
    obtain ⟨s', hs'⟩ := htotal s a
    exact List.forall_mem_cons.mpr ⟨h.1, ih s' (h.2 s' hs')⟩

theorem throughout_iff_guarded (hJP : ∀ s, J s → P s)
    (hgood : ∀ s a s', J s → G s a → step s a = some s' → J s')
    (hbad : ∀ s a, J s → ¬ G s a → ∃ s', step s a = some s' ∧ ¬ P s') (hs : J s) :
    Throughout step P s as ↔ Guarded step G s as :=
  throughout_iff_guarded_under hJP (fun s a s' h _ => hgood s a s' h) (fun s a h _ => hbad s a h)
    hs (guarded_true s as)

/-! ## Counting with a potential -/

/-- Each step costs no more than it lowers the potential, beyond what it brings in. -/
theorem Guarded.run_potential {I : σ → Prop} {G : σ → α → Prop} {Φ : σ → Nat} {cost gain : α → Nat}
    (hstep : ∀ s a s', I s → G s a → step s a = some s' →
      I s' ∧ Φ s' + cost a ≤ Φ s + gain a)
    {s t : σ} {as : List α} (hG : Guarded step G s as) (hs : I s) (h : run step s as = some t) :
    I t ∧ Φ t + (as.map cost).sum ≤ Φ s + (as.map gain).sum := by
  induction as generalizing s with
  | nil =>
    simp only [run_nil, Option.some.injEq] at h
    rw [← h]
    exact ⟨hs, Nat.le_refl _⟩
  | cons a as ih =>
    obtain ⟨s', h₁, h₂⟩ := run_cons_eq_some h
    obtain ⟨hs', hpay⟩ := hstep s a s' hs hG.1 h₁
    obtain ⟨ht, hrest⟩ := ih (hG.2 s' h₁) hs' h₂
    refine ⟨ht, ?_⟩
    simp only [List.map_cons, List.sum_cons]
    omega

end Omap4Hal.Lib

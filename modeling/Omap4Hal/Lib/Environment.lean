import Omap4Hal.Lib.Run

/- Runs of a step that also looks at an environment: something that is fixed for the run and is
   no part of the state. Two runs that differ only in it are in the same states for as long as
   every step is blind to it in the state it starts from. -/
namespace Omap4Hal.Lib

variable {ε σ α : Type} (step : ε → σ → α → σ)

/-- The outcome is the same in every environment. -/
def Blind (s : σ) (a : α) : Prop := ∀ e e', step e s a = step e' s a

/-- The step in one environment, which always returns. -/
def stepIn (e : ε) (s : σ) (a : α) : Option σ := some (step e s a)

/-- The runs agree after every number of steps. -/
def Agree (s : σ) (as : List α) : Prop :=
  ∀ e e' n, (as.take n).foldl (step e) s = (as.take n).foldl (step e') s

variable {step}

theorem agree_cons_iff {s : σ} {a : α} {as : List α} (e₀ : ε) :
    Agree step s (a :: as) ↔ Blind step s a ∧ Agree step (step e₀ s a) as := by
  constructor
  · intro h
    have hblind : Blind step s a := fun e e' => by simpa using h e e' 1
    refine ⟨hblind, ?_⟩
    intro e e' n
    have hnext := h e e' (n + 1)
    rwa [List.take_succ_cons, List.foldl_cons, List.foldl_cons, hblind e e₀, hblind e' e₀]
      at hnext
  · rintro ⟨hblind, hrest⟩ e e' n
    cases n with
    | zero => rfl
    | succ n =>
      rw [List.take_succ_cons, List.foldl_cons, List.foldl_cons, hblind e e₀, hblind e' e₀]
      exact hrest e e' n

/-- The rule for two runs. In which environment the states are looked at makes no difference. -/
theorem agree_iff_guarded (e₀ : ε) {s : σ} {as : List α} :
    Agree step s as ↔ Guarded (stepIn step e₀) (Blind step) s as := by
  induction as generalizing s with
  | nil => exact ⟨fun _ => trivial, fun _ _ _ n => by cases n <;> rfl⟩
  | cons a as ih =>
    rw [agree_cons_iff e₀, ih]
    apply and_congr_right
    intro _
    constructor
    · intro h s' hs'
      exact Option.some.inj hs' ▸ h
    · intro h
      exact h _ rfl

end Omap4Hal.Lib

import Omap4Hal.Lib.Run

/- Two machines that are given the same calls. Each call returns an answer and a new state, or
   does not return; in lockstep the answers are equal all along, and the states are related
   before and after each call. One of the machines is the code, the other says what it is for. -/
namespace Omap4Hal.Lib

variable {σ τ α ω : Type}

def Lockstep (R : σ → τ → Prop) (step : σ → α → Option (ω × σ)) (spec : τ → α → Option (ω × τ)) :
    σ → τ → List α → Prop
  | s, t, [] => R s t
  | s, t, a :: as => R s t ∧
    match step s a, spec t a with
    | some r, some r' => r.1 = r'.1 ∧ Lockstep R step spec r.2 r'.2 as
    | none, none => True
    | _, _ => False

variable {R : σ → τ → Prop} {step : σ → α → Option (ω × σ)} {spec : τ → α → Option (ω × τ)}

/-- The run rule. `J` is the inductive relation: from states it relates, a call that meets the
guard has the same outcome on both sides and keeps it, and one that does not has different
answers. Then the machines are in lockstep exactly as long as the calls meet the guard. -/
theorem lockstep_iff_guarded {J : σ → τ → Prop} {G : σ → α → Prop} (hJR : ∀ s t, J s t → R s t)
    (hgood : ∀ s t a, J s t → G s a → (step s a = none ∧ spec t a = none) ∨
      ∃ x s' t', step s a = some (x, s') ∧ spec t a = some (x, t') ∧ J s' t')
    (hbad : ∀ s t a, J s t → ¬ G s a →
      ∃ x s' y t', step s a = some (x, s') ∧ spec t a = some (y, t') ∧ x ≠ y)
    {s : σ} {t : τ} {as : List α} (hs : J s t) :
    Lockstep R step spec s t as ↔ Guarded (fun s a => (step s a).map Prod.snd) G s as := by
  induction as generalizing s t with
  | nil => exact ⟨fun _ => trivial, fun _ => hJR s t hs⟩
  | cons a as ih =>
    rw [Lockstep]
    by_cases hG : G s a
    · rcases hgood s t a hs hG with ⟨hnone, hnone'⟩ | ⟨x, s', t', hsome, hsome', hJ⟩
      · rw [hnone, hnone']
        refine ⟨fun _ => ⟨hG, ?_⟩, fun _ => ⟨hJR s t hs, trivial⟩⟩
        intro s' hs'
        simp [hnone] at hs'
      · rw [hsome, hsome']
        have hiff := ih hJ
        constructor
        · intro h
          refine ⟨hG, ?_⟩
          intro s'' hs''
          obtain rfl : s' = s'' := by simpa [hsome] using hs''
          exact hiff.mp h.2.2
        · intro h
          exact ⟨hJR s t hs, rfl, hiff.mpr (h.2 s' (by simp [hsome]))⟩
    · obtain ⟨x, s', y, t', hsome, hsome', hne⟩ := hbad s t a hs hG
      rw [hsome, hsome']
      refine ⟨fun h => absurd h.2.1 hne, fun h => absurd h.1 hG⟩

end Omap4Hal.Lib

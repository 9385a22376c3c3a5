import Mathlib.Logic.Basic

/- Items that are each in one place. `At a p` says that item `a` is at place `p`; a step
   moves one item from a place to another (`Moved`), or all that are there (`MovedAll`), or
   brings a new one in (`Came`). Each way no item is in two places, and none is lost. -/
namespace Omap4Hal.Lib

variable {α π : Type} {At At' : α → π → Prop} {a b : α} {p q : π}

/-- No item is in two places. -/
def OnePlace (At : α → π → Prop) : Prop := ∀ a p q, At a p → At a q → p = q

/-- The item `a`, and no other, goes from `p` to `q`. -/
structure Moved (At At' : α → π → Prop) (a : α) (p q : π) : Prop where
  before : At a p
  ne : p ≠ q
  left : ∀ b, At' b p ↔ At b p ∧ b ≠ a
  came : ∀ b, At' b q ↔ At b q ∨ b = a
  other : ∀ b r, r ≠ p → r ≠ q → (At' b r ↔ At b r)

/-- What is at `p` goes to `q`. -/
structure MovedAll (At At' : α → π → Prop) (p q : π) : Prop where
  left : ∀ b, ¬ At' b p
  came : ∀ b, At' b q ↔ At b q ∨ At b p
  other : ∀ b r, r ≠ p → r ≠ q → (At' b r ↔ At b r)

/-- The item `a`, which was nowhere, comes in at `q`. -/
structure Came (At At' : α → π → Prop) (a : α) (q : π) : Prop where
  before : ∀ p, ¬ At a p
  came : ∀ b, At' b q ↔ At b q ∨ b = a
  other : ∀ b r, r ≠ q → (At' b r ↔ At b r)

theorem Moved.at_iff (h : Moved At At' a p q) (hone : OnePlace At) (b : α) (r : π) :
    At' b r ↔ (b = a ∧ r = q) ∨ (b ≠ a ∧ At b r) := by
  by_cases hrq : r = q
  · subst hrq
    rw [h.came]
    by_cases hb : b = a
    · simp [hb]
    · simp [hb]
  · by_cases hrp : r = p
    · subst hrp
      rw [h.left]
      simp [hrq, and_comm]
    · rw [h.other b r hrp hrq]
      refine ⟨?_, ?_⟩
      · intro hb
        refine .inr ⟨?_, hb⟩
        intro hba
        exact hrp (hone a r p (hba ▸ hb) h.before)
      · intro hb
        rcases hb with ⟨_, hr⟩ | ⟨_, hb⟩
        · exact absurd hr hrq
        · exact hb

theorem Came.at_iff (h : Came At At' a q) (b : α) (r : π) :
    At' b r ↔ (b = a ∧ r = q) ∨ (b ≠ a ∧ At b r) := by
  by_cases hb : b = a
  · subst hb
    by_cases hrq : r = q
    · subst hrq
      simp [h.came]
    · simp [h.other b r hrq, h.before r, hrq]
  · by_cases hrq : r = q
    · subst hrq
      simp [h.came, hb]
    · simp [h.other b r hrq, hb]

/-- The places after all have moved: `q` for what was at `p`, and else as before. -/
theorem MovedAll.at_iff (h : MovedAll At At' p q) (hone : OnePlace At) (b : α) (r : π) :
    At' b r ↔ (At b p ∧ r = q) ∨ (¬ At b p ∧ At b r) := by
  by_cases hb : At b p
  · have hr : r = p ∨ ¬ At b r := by
      by_cases hbr : At b r
      · exact .inl (hone b r p hbr hb)
      · exact .inr hbr
    by_cases hrq : r = q
    · subst hrq
      simp [h.came, hb]
    · rcases hr with rfl | hr
      · simp [h.left, hrq, hb]
      · have hrp : r ≠ p := fun hrp => hr (hrp ▸ hb)
        simp [h.other b r hrp hrq, hr, hrq, hb]
  · by_cases hrp : r = p
    · subst hrp
      simp [h.left, hb]
    · by_cases hrq : r = q
      · subst hrq
        simp [h.came, hb]
      · simp [h.other b r hrp hrq, hb]

theorem MovedAll.onePlace (h : MovedAll At At' p q) (hone : OnePlace At) : OnePlace At' := by
  intro b r r' hr hr'
  rcases (h.at_iff hone b r).mp hr with ⟨hb, rfl⟩ | ⟨hb, hr⟩
  · rcases (h.at_iff hone b r').mp hr' with ⟨_, rfl⟩ | ⟨hnb, _⟩
    · rfl
    · exact absurd hb hnb
  · rcases (h.at_iff hone b r').mp hr' with ⟨hpb, _⟩ | ⟨_, hr'⟩
    · exact absurd hpb hb
    · exact hone b r r' hr hr'

theorem MovedAll.somewhere (h : MovedAll At At' p q) (hone : OnePlace At) (b : α) :
    (∃ r, At' b r) ↔ ∃ r, At b r := by
  by_cases hb : At b p
  · refine ⟨fun _ => ⟨p, hb⟩, fun _ => ⟨q, (h.came b).mpr (.inr hb)⟩⟩
  · simp [h.at_iff hone, hb]

theorem onePlace_of_at_iff (hone : OnePlace At)
    (h : ∀ b r, At' b r ↔ (b = a ∧ r = q) ∨ (b ≠ a ∧ At b r)) : OnePlace At' := by
  intro b r r' hr hr'
  rcases (h b r).mp hr with ⟨hb, hrq⟩ | ⟨hb, hr⟩
  · rcases (h b r').mp hr' with ⟨_, hrq'⟩ | ⟨hne, _⟩
    · rw [hrq, hrq']
    · exact absurd hb hne
  · rcases (h b r').mp hr' with ⟨hba, _⟩ | ⟨_, hr'⟩
    · exact absurd hba hb
    · exact hone b r r' hr hr'

/-- What is somewhere after the step: the item of the step, and what was somewhere. -/
theorem somewhere_of_at_iff (h : ∀ b r, At' b r ↔ (b = a ∧ r = q) ∨ (b ≠ a ∧ At b r)) (b : α) :
    (∃ r, At' b r) ↔ b = a ∨ ∃ r, At b r := by
  by_cases hb : b = a
  · subst hb
    simp [h]
  · simp [h, hb]

end Omap4Hal.Lib

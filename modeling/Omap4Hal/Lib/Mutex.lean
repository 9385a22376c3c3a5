import Mathlib.Data.Nat.Notation
import Mathlib.Tactic.ByContra

/- A counting semaphore that is used as a lock, by any number of threads. `Mutex` ties
   the count to who holds the lock: it is 1 and nobody does, or it is 0 and exactly one
   thread does. The rules say what a step of one thread does to it. -/
namespace Omap4Hal.Lib

variable {ι : Type} {count : ℕ} {holds holds' : ι → Bool} {i j : ι}

def Mutex (count : ℕ) (holds : ι → Bool) : Prop :=
  (count = 1 ∧ ∀ i, holds i = false) ∨
    (count = 0 ∧ ∃ i, holds i = true ∧ ∀ j, holds j = true → j = i)

theorem Mutex.exclusive (h : Mutex count holds) (hi : holds i = true) (hj : holds j = true) :
    i = j := by
  rcases h with ⟨_, hnone⟩ | ⟨_, k, _, honly⟩
  · rw [hnone i] at hi
    cases hi
  · rw [honly i hi, honly j hj]

theorem Mutex.count_eq_zero (h : Mutex count holds) (hi : holds i = true) : count = 0 := by
  rcases h with ⟨_, hnone⟩ | ⟨hzero, _⟩
  · rw [hnone i] at hi
    cases hi
  · exact hzero

theorem Mutex.keep (h : Mutex count holds) (hsame : ∀ j, holds' j = holds j) :
    Mutex count holds' := by
  obtain rfl : holds' = holds := funext hsame
  exact h

theorem Mutex.acquire (h : Mutex (count + 1) holds) (hi : holds' i = true)
    (hother : ∀ j, j ≠ i → holds' j = holds j) : Mutex count holds' := by
  rcases h with ⟨hone, hnone⟩ | ⟨hzero, _⟩
  · refine .inr ⟨Nat.succ.inj hone, i, hi, ?_⟩
    intro j hj
    by_contra hne
    rw [hother j hne, hnone j] at hj
    cases hj
  · cases hzero

theorem Mutex.release (h : Mutex count holds) (hi : holds i = true) (hi' : holds' i = false)
    (hother : ∀ j, j ≠ i → holds' j = holds j) : Mutex (count + 1) holds' := by
  refine .inl ⟨by rw [h.count_eq_zero hi], ?_⟩
  intro j
  by_cases hne : j = i
  · rw [hne, hi']
  · rw [hother j hne]
    by_contra hj
    exact hne (h.exclusive (by simpa using hj) hi)

end Omap4Hal.Lib

import Mathlib.Data.Fintype.EquivFin
import Omap4Hal.Lib.Loop

/- Loops that follow a link from place to place until a place stops them. The places are those of
   the iterated link (`loop_follow_iff`). Where there are finitely many of them, the loop is left if
   and only if it never comes back to a place (`follow_ends_iff`). -/
namespace Omap4Hal.Lib

variable {α : Type}

/-- One pass: the loop is left in a place that stops it. -/
def follow (stops : α → Prop) [DecidablePred stops] (link : α → α) (a : α) : Flow α :=
  if stops a then .stop a else .next (link a)

/-- No place before the `k`-th one stops the loop. -/
def Passes (stops : α → Prop) (link : α → α) (a : α) (k : Nat) : Prop :=
  ∀ j < k, ¬ stops (link^[j] a)

section Follow

variable {stops : α → Prop} {link : α → α} {a b : α}

theorem passes_succ {k : Nat} :
    Passes stops link a (k + 1) ↔ ¬ stops a ∧ Passes stops link (link a) k := by
  constructor
  · intro h
    exact ⟨h 0 (Nat.succ_pos k), fun j hj => h (j + 1) (Nat.succ_lt_succ hj)⟩
  · rintro ⟨ha, h⟩ j hj
    cases j with
    | zero => exact ha
    | succ j => exact h j (Nat.lt_of_succ_lt_succ hj)

/-- The place in which the loop is left is the first one that stops it. -/
theorem loop_follow_iff [DecidablePred stops] {n : Nat} :
    loop (follow stops link) n a = some b ↔
      ∃ k < n, Passes stops link a k ∧ link^[k] a = b ∧ stops b := by
  induction n generalizing a with
  | zero => simp [loop]
  | succ n ih =>
    by_cases ha : stops a
    · have hpass : follow stops link a = .stop a := if_pos ha
      rw [loop_stop hpass, Option.some.injEq]
      constructor
      · rintro rfl
        exact ⟨0, Nat.succ_pos n, fun j hj => absurd hj (Nat.not_lt_zero j), rfl, ha⟩
      · rintro ⟨k, -, hpass, hb, -⟩
        cases k with
        | zero => exact hb
        | succ k => exact absurd ha (hpass 0 (Nat.succ_pos k))
    · have hpass : follow stops link a = .next (link a) := if_neg ha
      rw [loop_next hpass, ih]
      constructor
      · rintro ⟨k, hk, hpass, hb, hstop⟩
        exact ⟨k + 1, Nat.succ_lt_succ hk, passes_succ.mpr ⟨ha, hpass⟩, hb, hstop⟩
      · rintro ⟨k, hk, hpass, hb, hstop⟩
        cases k with
        | zero =>
          obtain rfl : a = b := hb
          exact absurd hstop ha
        | succ k => exact ⟨k, Nat.lt_of_succ_lt_succ hk, (passes_succ.mp hpass).2, hb, hstop⟩

theorem iterate_back {i k m : Nat} (hik : i < k) (hback : link^[i] a = link^[k] a) (hm : k ≤ m) :
    link^[m] a = link^[m - (k - i)] a := by
  obtain ⟨d, rfl⟩ := Nat.exists_eq_add_of_le hm
  have hshort : k + d - (k - i) = d + i := by omega
  rw [hshort, Nat.add_comm k d, Function.iterate_add_apply, Function.iterate_add_apply, hback]

theorem follow_ends_iff [Finite α] :
    (∃ k, Passes stops link a k ∧ stops (link^[k] a)) ↔
      ∀ i k, i < k → Passes stops link a k → link^[i] a ≠ link^[k] a := by
  constructor
  · rintro ⟨m, hpass, hstop⟩ i k hik hk hback
    have hkm : k ≤ m := Nat.le_of_not_lt fun hlt => hk m hlt hstop
    rw [iterate_back hik hback hkm] at hstop
    exact hpass _ (by omega) hstop
  · intro hnew
    by_contra hend
    have hall : ∀ k, Passes stops link a k := by
      intro k
      induction k with
      | zero => exact fun j hj => absurd hj (Nat.not_lt_zero j)
      | succ k ih =>
        intro j hj hstop
        rcases Nat.lt_succ_iff_lt_or_eq.mp hj with hlt | rfl
        · exact ih j hlt hstop
        · exact hend ⟨j, ih, hstop⟩
    refine not_injective_infinite_finite (fun k => link^[k] a) fun i k heq => ?_
    rcases Nat.lt_trichotomy i k with hlt | rfl | hlt
    · exact absurd heq (hnew i k hlt (hall k))
    · rfl
    · exact absurd heq.symm (hnew k i hlt (hall i))

end Follow

end Omap4Hal.Lib

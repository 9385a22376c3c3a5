import Mathlib.Data.Nat.BitIndices

/- Counting the bits of a number by clearing the lowest of them until none is left. -/
namespace Omap4Hal.Lib

def clearLowest (value : Nat) : Nat := value &&& (value - 1)

theorem clearLowest_lt {value : Nat} (h : value ≠ 0) : clearLowest value < value := by
  have hle : clearLowest value ≤ value - 1 := Nat.and_le_right
  omega

def countBits (value : Nat) : Nat :=
  if h : value = 0 then 0 else countBits (clearLowest value) + 1
termination_by value
decreasing_by exact clearLowest_lt h

theorem clearLowest_odd (n : Nat) : clearLowest (2 * n + 1) = 2 * n := by
  have hhalf : (2 * n + 1) / 2 = n := by omega
  apply Nat.eq_of_testBit_eq
  intro i
  rw [clearLowest, Nat.testBit_and]
  cases i with
  | zero => simp [Nat.testBit_zero]
  | succ i => simp [Nat.testBit_succ, hhalf]

theorem clearLowest_even (n : Nat) : clearLowest (2 * n) = 2 * clearLowest n := by
  have hhalf : (2 * n - 1) / 2 = n - 1 := by omega
  apply Nat.eq_of_testBit_eq
  intro i
  rw [clearLowest, Nat.testBit_and]
  cases i with
  | zero => simp [Nat.testBit_zero]
  | succ i =>
    have htwo : 0 < 2 := by decide
    rw [Nat.testBit_succ, Nat.testBit_succ, Nat.testBit_succ, hhalf,
      Nat.mul_div_cancel_left _ htwo, Nat.mul_div_cancel_left _ htwo, clearLowest, Nat.testBit_and]

theorem length_bitIndices_clearLowest {value : Nat} (h : value ≠ 0) :
    (clearLowest value).bitIndices.length + 1 = value.bitIndices.length := by
  induction value using Nat.strongRecOn with
  | ind value ih =>
    obtain ⟨n, rfl | rfl⟩ : ∃ n, value = 2 * n ∨ value = 2 * n + 1 := ⟨value / 2, by omega⟩
    · have hn : n ≠ 0 := by omega
      rw [clearLowest_even, Nat.bitIndices_two_mul, Nat.bitIndices_two_mul, List.length_map,
        List.length_map]
      exact ih n (by omega) hn
    · rw [clearLowest_odd, Nat.bitIndices_two_mul_add_one, Nat.bitIndices_two_mul,
        List.length_cons]

theorem countBits_eq (value : Nat) : countBits value = value.bitIndices.length := by
  induction value using Nat.strongRecOn with
  | ind value ih =>
    rw [countBits]
    split
    next h =>
      subst h
      simp
    next h => rw [ih _ (clearLowest_lt h), length_bitIndices_clearLowest h]

/-- The bits below a bound, in order. -/
def bitsBelow (n value : Nat) : List Nat := (List.range n).filter fun i => value.testBit i

theorem mem_bitsBelow {n value i : Nat} :
    i ∈ bitsBelow n value ↔ i < n ∧ value.testBit i = true := by
  rw [bitsBelow, List.mem_filter, List.mem_range]

theorem nodup_bitsBelow (n value : Nat) : (bitsBelow n value).Nodup :=
  List.Nodup.filter _ List.nodup_range

theorem length_bitsBelow_le (n value : Nat) : (bitsBelow n value).length ≤ countBits value := by
  rw [countBits_eq]
  apply List.Subperm.length_le
  apply List.subperm_of_subset (nodup_bitsBelow n value)
  intro i hi
  exact Nat.mem_bitIndices.mpr (mem_bitsBelow.mp hi).2

end Omap4Hal.Lib

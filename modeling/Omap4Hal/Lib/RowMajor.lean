import Mathlib.Data.List.Nodup
import Mathlib.Data.List.Range

/- The places of a table in the order of its rows. -/
namespace Omap4Hal.Lib

theorem range_flatMap_range (m n : Nat) :
    ((List.range m).flatMap fun i => (List.range n).map fun j => n * i + j) =
      List.range (n * m) := by
  induction m with
  | zero => rfl
  | succ m ih =>
    rw [List.range_succ, List.flatMap_append, ih, Nat.mul_succ, List.range_add]
    simp

theorem place_lt {m n i j : Nat} (hi : i < m) (hj : j < n) : n * i + j < n * m :=
  calc n * i + j < n * i + n := Nat.add_lt_add_left hj _
    _ = n * (i + 1) := (Nat.mul_succ n i).symm
    _ ≤ n * m := Nat.mul_le_mul_left n hi

theorem exists_place {m n k : Nat} (h : k < n * m) : ∃ i < m, ∃ j < n, n * i + j = k := by
  have hpos : 0 < n := Nat.pos_of_mul_pos_right (Nat.lt_of_le_of_lt (Nat.zero_le k) h)
  exact ⟨k / n, Nat.div_lt_of_lt_mul h, k % n, Nat.mod_lt k hpos, Nat.div_add_mod k n⟩

/-- Each number below `n` occurs once. -/
theorem count_map_range (n : Nat) (x : Int) :
    ((List.range n).map Int.ofNat).count x = if 0 ≤ x ∧ x < n then 1 else 0 := by
  have hnodup : ((List.range n).map Int.ofNat).Nodup :=
    List.nodup_range.map fun _ _ h => Int.ofNat.inj h
  have hmem : x ∈ (List.range n).map Int.ofNat ↔ 0 ≤ x ∧ x < n := by
    rw [List.mem_map]
    constructor
    · rintro ⟨k, hk, rfl⟩
      rw [List.mem_range] at hk
      exact ⟨Int.natCast_nonneg k, Int.ofNat_lt.mpr hk⟩
    · rintro ⟨hpos, hlt⟩
      refine ⟨x.toNat, List.mem_range.mpr (by omega), ?_⟩
      exact Int.toNat_of_nonneg hpos
  by_cases h : 0 ≤ x ∧ x < n
  · rw [if_pos h]
    exact List.count_eq_one_of_mem hnodup (hmem.mpr h)
  · rw [if_neg h]
    exact List.count_eq_zero_of_not_mem fun hx => h (hmem.mp hx)

end Omap4Hal.Lib

import Mathlib.Algebra.BigOperators.Group.List.Basic
import Mathlib.Data.List.Range
import Omap4Hal.Lib.WordBits

/- A word that is taken apart by masks, which depend on what is left. The parts and what is left
   at the end have no bit in common and add up to the word (`split_disjoint`, `split_sum`). Where a
   mask is a window of `n` bits and nothing is above it, the part is the quotient and what is left
   is the remainder (`toNat_and_window`, `toNat_clear_window`). -/
namespace Omap4Hal.Lib

open BitVec (getLsbD_and getLsbD_not)

variable {w : Nat}

/-! ## Parts -/

def taken (mask : BitVec w → BitVec w) (v : BitVec w) : BitVec w := v &&& mask v

def rest (mask : BitVec w → BitVec w) (v : BitVec w) : BitVec w := v &&& ~~~mask v

/-- The first `n` parts, and what is left. -/
def split (mask : BitVec w → BitVec w) (v : BitVec w) (n : Nat) : List (BitVec w) :=
  (List.range n).map (fun k => taken mask ((rest mask)^[k] v)) ++ [(rest mask)^[n] v]

theorem taken_and_rest (mask : BitVec w → BitVec w) (v : BitVec w) :
    taken mask v &&& rest mask v = 0#w := by
  apply BitVec.eq_of_getLsbD_eq
  intro i hi
  rw [taken, rest, getLsbD_and, getLsbD_and, getLsbD_and, getLsbD_not]
  cases (mask v).getLsbD i <;> simp

theorem taken_add_rest (mask : BitVec w → BitVec w) (v : BitVec w) :
    (taken mask v).toNat + (rest mask v).toNat = v.toNat := by
  rw [← BitVec.toNat_add_of_and_eq_zero (taken_and_rest mask v),
    BitVec.add_eq_or_of_and_eq_zero _ _ (taken_and_rest mask v)]
  congr 1
  apply BitVec.eq_of_getLsbD_eq
  intro i hi
  rw [taken, rest, BitVec.getLsbD_or, getLsbD_and, getLsbD_and, getLsbD_not]
  cases (mask v).getLsbD i <;> simp [hi]

/-- What has no bit in common with a word has none in common with its bits. -/
theorem and_and_eq_zero {u v : BitVec w} (h : u &&& v = 0#w) (m : BitVec w) :
    u &&& (v &&& m) = 0#w := by
  rw [← BitVec.and_assoc, h, BitVec.zero_and]

theorem split_succ (mask : BitVec w → BitVec w) (v : BitVec w) (n : Nat) :
    split mask v (n + 1) = (List.range n).map (fun k => taken mask ((rest mask)^[k] v)) ++
      [taken mask ((rest mask)^[n] v), rest mask ((rest mask)^[n] v)] := by
  rw [split, List.range_succ, List.map_append, List.append_assoc,
    Function.iterate_succ_apply' (rest mask)]
  rfl

theorem split_disjoint (mask : BitVec w → BitVec w) (v : BitVec w) (n : Nat) :
    (split mask v n).Pairwise fun a b => a &&& b = 0#w := by
  induction n with
  | zero => exact List.pairwise_singleton _ _
  | succ n ih =>
    rw [split, List.pairwise_append] at ih
    obtain ⟨hparts, -, hlast⟩ := ih
    rw [split_succ, List.pairwise_append]
    refine ⟨hparts, ?_, ?_⟩
    · rw [List.pairwise_pair]
      exact taken_and_rest mask _
    · intro a ha b hb
      have hdisjoint := hlast a ha _ (List.mem_singleton_self _)
      rcases List.mem_pair.mp hb with rfl | rfl
      · exact and_and_eq_zero hdisjoint _
      · exact and_and_eq_zero hdisjoint _

theorem split_sum (mask : BitVec w → BitVec w) (v : BitVec w) (n : Nat) :
    ((split mask v n).map BitVec.toNat).sum = v.toNat := by
  induction n with
  | zero => exact Nat.add_zero _
  | succ n ih =>
    rw [split, List.map_append, List.sum_append] at ih
    rw [split_succ, List.map_append, List.sum_append, ← ih]
    congr 1
    have hsum := taken_add_rest mask ((rest mask)^[n] v)
    simpa using hsum

/-! ## Windows -/

def window (w n s : Nat) : BitVec w := (BitVec.allOnes n).setWidth w <<< s

theorem getLsbD_window {n s i : Nat} (hi : i < w) :
    (window w n s).getLsbD i = decide (s ≤ i ∧ i < s + n) := by
  rw [window, BitVec.getLsbD_shiftLeft, BitVec.getLsbD_setWidth, BitVec.getLsbD_allOnes]
  have hsub : i - s < w := by omega
  by_cases hs : i < s
  · simp [hs]
  · have hn : i - s < n ↔ i < s + n := by omega
    simp [hs, hi, hsub, hn, Nat.le_of_not_lt hs]

theorem toNat_clear_window {v : BitVec w} {n s : Nat} (hlt : v.toNat < 2 ^ (s + n)) :
    (v &&& ~~~window w n s).toNat = v.toNat % 2 ^ s := by
  apply Nat.eq_of_testBit_eq
  intro i
  rw [Nat.testBit_mod_two_pow]
  show (v &&& ~~~window w n s).getLsbD i = (decide (i < s) && v.getLsbD i)
  by_cases hi : i < w
  · rw [getLsbD_and, getLsbD_not, getLsbD_window hi]
    by_cases hs : i < s
    · simp [hs, hi, Nat.not_le_of_lt hs]
    · by_cases hn : i < s + n
      · simp [hs, hn, Nat.le_of_not_lt hs]
      · have hhigh : v.getLsbD i = false := Nat.testBit_lt_two_pow
          (Nat.lt_of_lt_of_le hlt (Nat.pow_le_pow_right (by decide) (Nat.le_of_not_lt hn)))
        simp [hs, hhigh]
  · have hge := Nat.le_of_not_lt hi
    rw [BitVec.getLsbD_of_ge _ _ hge, BitVec.getLsbD_of_ge v _ hge, Bool.and_false]

theorem toNat_and_window {v : BitVec w} {n s : Nat} (hlt : v.toNat < 2 ^ (s + n)) :
    (v &&& window w n s).toNat = v.toNat / 2 ^ s * 2 ^ s := by
  have hsum := taken_add_rest (fun _ => window w n s) v
  simp only [taken, rest] at hsum
  rw [toNat_clear_window hlt] at hsum
  have hdiv := Nat.div_add_mod' v.toNat (2 ^ s)
  omega

end Omap4Hal.Lib

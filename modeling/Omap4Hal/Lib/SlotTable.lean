import Mathlib.Data.Nat.Count
import Mathlib.Data.List.Range

/- A table of slots with a high-water mark. Slots are numbered; `occ i` says that
   slot `i` is in use, `total` is the mark below which every slot in use lies,
   and `alloc` the number of slots in use. New entries go to the first free slot
   below the mark, or to the mark itself, and the mark only moves up. `Tally`
   ties the three together; `Tally.insert` and `Tally.remove` are the two rules. -/
namespace Omap4Hal.Lib

/-- The first index below `n` that satisfies `p`. -/
def findBelow (p : Nat → Bool) (n : Nat) : Option Nat := (List.range n).find? p

theorem findBelow_eq_some {p : Nat → Bool} {n i : Nat} :
    findBelow p n = some i ↔ p i = true ∧ i < n ∧ ∀ j, j < i → p j = false := by
  simp only [findBelow, List.find?_range_eq_some, List.mem_range, Bool.not_eq_eq_eq_not,
    Bool.not_true]

theorem findBelow_eq_none {p : Nat → Bool} {n : Nat} :
    findBelow p n = none ↔ ∀ i, i < n → p i = false := by
  simp only [findBelow, List.find?_eq_none, List.mem_range, Bool.not_eq_true]

/-- The first free slot below the mark, or the mark. -/
def firstFree (occ : Nat → Bool) (total : Nat) : Nat :=
  (findBelow (fun i => !occ i) total).getD total

/-- Either a free slot below the mark is found, or all of them are in use. -/
theorem firstFree_cases (occ : Nat → Bool) (total : Nat) :
    (firstFree occ total < total ∧ occ (firstFree occ total) = false) ∨
    (firstFree occ total = total ∧ ∀ i, i < total → occ i = true) := by
  unfold firstFree
  cases h : findBelow (fun i => !occ i) total with
  | some i =>
    obtain ⟨hi, hlt, _⟩ := findBelow_eq_some.mp h
    exact Or.inl ⟨hlt, by simpa using hi⟩
  | none =>
    refine Or.inr ⟨rfl, ?_⟩
    intro i hi
    have := findBelow_eq_none.mp h i hi
    simpa using this

theorem count_congr_below {p q : Nat → Prop} [DecidablePred p] [DecidablePred q] {n : Nat}
    (h : ∀ i, i < n → (p i ↔ q i)) : Nat.count p n = Nat.count q n := by
  induction n with
  | zero => rfl
  | succ n ih =>
    have hn := h n (by omega)
    simp only [Nat.count_succ, ih (fun i hi => h i (by omega)), hn]

theorem count_set {p q : Nat → Prop} [DecidablePred p] [DecidablePred q] {k n : Nat} (hk : k < n)
    (hp : ¬ p k) (hq : q k) (h : ∀ i, i ≠ k → (q i ↔ p i)) :
    Nat.count q n = Nat.count p n + 1 := by
  induction n with
  | zero => omega
  | succ n ih =>
    simp only [Nat.count_succ]
    by_cases hn : k = n
    · have heq : Nat.count q n = Nat.count p n :=
        count_congr_below (fun i hi => h i (by omega))
      subst hn
      simp only [heq, hp, hq, if_true, if_false, Nat.add_zero]
    · rw [ih (by omega)]
      simp only [h n (fun he => hn he.symm)]
      omega

/-- `alloc` slots are in use, all of them below the mark `total`, which is within
the capacity. -/
structure Tally (occ : Nat → Bool) (cap total alloc : Nat) : Prop where
  count : alloc = Nat.count (fun i => occ i = true) cap
  below : ∀ i, occ i = true → i < total
  bound : total ≤ cap

variable {occ occ' : Nat → Bool} {cap total alloc k : Nat}

theorem Tally.congr (h : Tally occ cap total alloc) (heq : ∀ i, occ' i = occ i) :
    Tally occ' cap total alloc := by
  have : occ' = occ := funext heq
  rw [this]
  exact h

theorem Tally.firstFree_free (h : Tally occ cap total alloc) :
    occ (firstFree occ total) = false := by
  rcases firstFree_cases occ total with ⟨_, hfree⟩ | ⟨heq, _⟩
  · exact hfree
  · by_contra hne
    have := h.below _ (by simpa using hne)
    omega

theorem Tally.count_below (h : Tally occ cap total alloc) :
    alloc = Nat.count (fun i => occ i = true) total := by
  obtain ⟨m, hm⟩ := Nat.exists_eq_add_of_le h.bound
  have habove : Nat.count (fun i => occ (total + i) = true) m = Nat.count (fun _ => False) m := by
    apply count_congr_below
    intro i _
    refine iff_of_false (fun ho => ?_) id
    have := h.below _ ho
    omega
  rw [h.count, hm, Nat.count_add, habove, Nat.count_false, Nat.add_zero]

theorem Tally.alloc_le (h : Tally occ cap total alloc) : alloc ≤ total := by
  rw [h.count_below]
  exact Nat.count_le _

theorem Tally.count_full (h : Tally occ cap total alloc) (hfull : ∀ i, i < total → occ i = true) :
    alloc = total := by
  rw [h.count_below, count_congr_below (fun i hi => iff_of_true (hfull i hi) trivial)]
  exact Nat.count_true total

/-- An entry put in the first free slot, with the mark raised to the new count. -/
theorem Tally.insert (h : Tally occ cap total alloc) (hroom : total < cap)
    (hset : occ' (firstFree occ total) = true)
    (heq : ∀ i, i ≠ firstFree occ total → occ' i = occ i) :
    Tally occ' cap (max total (alloc + 1)) (alloc + 1) := by
  have hfree := h.firstFree_free
  have hk : firstFree occ total < max total (alloc + 1) := by
    rcases firstFree_cases occ total with ⟨hlt, _⟩ | ⟨hat, hfull⟩
    · omega
    · have := h.count_full hfull
      omega
  have hcap : max total (alloc + 1) ≤ cap := by
    have := h.alloc_le
    omega
  refine ⟨?_, ?_, hcap⟩
  · rw [h.count]
    symm
    apply count_set (by omega) (by simp [hfree]) hset
    intro i hi
    rw [heq i hi]
  · intro i hi
    by_cases hik : i = firstFree occ total
    · omega
    · have := h.below i (by rw [← heq i hik]; exact hi)
      omega

theorem Tally.remove (h : Tally occ cap total alloc) (hk : occ k = true) (hclr : occ' k = false)
    (heq : ∀ i, i ≠ k → occ' i = occ i) : 0 < alloc ∧ Tally occ' cap total (alloc - 1) := by
  have hcount : alloc = Nat.count (fun i => occ' i = true) cap + 1 := by
    rw [h.count]
    apply count_set (lt_of_lt_of_le (h.below k hk) h.bound) (by simp [hclr]) hk
    intro i hi
    rw [heq i hi]
  refine ⟨by omega, by omega, ?_, h.bound⟩
  intro i hi
  by_cases hik : i = k
  · rw [hik, hclr] at hi
    cases hi
  · exact h.below i (by rw [← heq i hik]; exact hi)

end Omap4Hal.Lib

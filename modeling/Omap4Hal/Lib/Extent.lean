import Mathlib.Data.List.Basic

/- Random access to a flat file, and the array of blocks such a file holds. An
   extent is a run of cells: reading one past the end gives fewer cells, and
   writing one past the end fills the gap with a blank cell, as a seek followed
   by a write does. A block array is a count and a function; `Holds` says that a
   file of whole blocks stands for it, and the rules say what writing one
   block, appending blank blocks and cutting the file are for the array. -/
namespace Omap4Hal.Lib

variable {α : Type}

/-- The `n` cells from `o` on, fewer at the end of the file. -/
def readAt (f : List α) (o n : Nat) : List α := (f.drop o).take n

/-- Overwrite the extent that starts at `o`, with blanks `z` up to it. -/
def writeAt (z : α) (f : List α) (o : Nat) (d : List α) : List α :=
  f.take o ++ List.replicate (o - f.length) z ++ d ++ f.drop (o + d.length)

theorem length_readAt (f : List α) (o n : Nat) : (readAt f o n).length = min n (f.length - o) := by
  simp [readAt]

variable {o n p : Nat}

theorem length_readAt_of_le {f : List α} (h : o + n ≤ f.length) :
    (readAt f o n).length = n := by
  rw [length_readAt]
  omega

theorem getElem?_readAt (f : List α) (o n k : Nat) :
    (readAt f o n)[k]? = if k < n then f[o + k]? else none := by
  rw [readAt, List.getElem?_take]
  split
  · rw [List.getElem?_drop]
  · rfl

theorem length_writeAt (z : α) (f : List α) (o : Nat) (d : List α) :
    (writeAt z f o d).length = max f.length (o + d.length) := by
  simp only [writeAt, List.length_append, List.length_take, List.length_replicate,
    List.length_drop]
  omega

/-- The cells of a file after a write: the old ones outside the extent, the new
ones in it, blanks between the old end and the extent. -/
theorem getElem?_writeAt (z : α) (f : List α) (o : Nat) (d : List α) (k : Nat) :
    (writeAt z f o d)[k]? =
      if k < o then (if k < f.length then f[k]? else some z)
      else if k < o + d.length then d[k - o]? else f[k]? := by
  have htake : (f.take o ++ List.replicate (o - f.length) z).length = o := by
    simp; omega
  have hall : (f.take o ++ List.replicate (o - f.length) z ++ d).length = o + d.length := by
    rw [List.length_append, htake]
  rw [writeAt]
  split
  next hk =>
    rw [List.getElem?_append_left (by omega), List.getElem?_append_left (by omega)]
    split
    next hf =>
      rw [List.getElem?_append_left (by simp; omega), List.getElem?_take, if_pos hk]
    next hf =>
      rw [List.getElem?_append_right (by simp; omega), List.getElem?_replicate, if_pos]
      simp; omega
  next hk =>
    split
    next hd =>
      rw [List.getElem?_append_left (by omega), List.getElem?_append_right (by omega), htake]
    next hd =>
      rw [List.getElem?_append_right (by omega), hall, List.getElem?_drop]
      congr 1
      omega

theorem readAt_writeAt_self (z : α) (f : List α) (o : Nat) (d : List α) :
    readAt (writeAt z f o d) o d.length = d := by
  apply List.ext_getElem?
  intro k
  rw [getElem?_readAt, getElem?_writeAt]
  by_cases hk : k < d.length
  · rw [if_pos hk, if_neg (by omega), if_pos (by omega), Nat.add_sub_cancel_left]
  · rw [if_neg hk, List.getElem?_eq_none (by omega)]

theorem readAt_writeAt_of_disjoint (z : α) {f d : List α}
    (h : (p + n ≤ o ∧ p + n ≤ f.length) ∨ o + d.length ≤ p) :
    readAt (writeAt z f o d) p n = readAt f p n := by
  apply List.ext_getElem?
  intro k
  rw [getElem?_readAt, getElem?_readAt, getElem?_writeAt]
  by_cases hk : k < n
  · simp only [hk, if_true]
    rcases h with h | h
    · rw [if_pos (by omega), if_pos (by omega)]
    · rw [if_neg (by omega), if_neg (by omega)]
  · simp only [hk, if_false]

theorem readAt_writeAt_gap (z : α) {f d : List α} (h₁ : f.length ≤ p) (h₂ : p + n ≤ o) :
    readAt (writeAt z f o d) p n = List.replicate n z := by
  apply List.ext_getElem?
  intro k
  rw [getElem?_readAt, getElem?_writeAt, List.getElem?_replicate]
  by_cases hk : k < n
  · rw [if_pos hk, if_pos (by omega), if_neg (by omega), if_pos hk]
  · rw [if_neg hk, if_neg hk]

theorem readAt_append_left {f g : List α} (h : p + n ≤ f.length) :
    readAt (f ++ g) p n = readAt f p n := by
  apply List.ext_getElem?
  intro k
  rw [getElem?_readAt, getElem?_readAt]
  by_cases hk : k < n
  · rw [if_pos hk, if_pos hk, List.getElem?_append_left (by omega)]
  · rw [if_neg hk, if_neg hk]

theorem readAt_append_replicate {f : List α} {z : α} {m : Nat} (h₁ : f.length ≤ p)
    (h₂ : p + n ≤ f.length + m) : readAt (f ++ List.replicate m z) p n = List.replicate n z := by
  apply List.ext_getElem?
  intro k
  rw [getElem?_readAt, List.getElem?_replicate]
  by_cases hk : k < n
  · rw [if_pos hk, if_pos hk, List.getElem?_append_right (by omega), List.getElem?_replicate,
      if_pos (by omega)]
  · rw [if_neg hk, if_neg hk]

theorem readAt_take {f : List α} {m : Nat} (h : p + n ≤ m) :
    readAt (f.take m) p n = readAt f p n := by
  apply List.ext_getElem?
  intro k
  rw [getElem?_readAt, getElem?_readAt]
  by_cases hk : k < n
  · rw [if_pos hk, if_pos hk, List.getElem?_take, if_pos (by omega)]
  · rw [if_neg hk, if_neg hk]

/-! ## Arrays of blocks -/

/-- An array of blocks: how many there are, and what each of them is. -/
structure BlockArray (α : Type) where
  count : Nat
  block : Nat → List α

namespace BlockArray

/-- The block at an index of the array. -/
def get (A : BlockArray α) (i : Nat) : Option (List α) :=
  if i < A.count then some (A.block i) else none

/-- Store a block. The array grows as far as it must, with blank blocks. -/
def put (blank : List α) (A : BlockArray α) (i : Nat) (d : List α) : BlockArray α where
  count := max A.count (i + 1)
  block := Function.update (fun j => if j < A.count then A.block j else blank) i d

/-- Give the array `n` blocks: cut it, or append copies of `fill`. -/
def resize (fill : List α) (A : BlockArray α) (n : Nat) : BlockArray α where
  count := n
  block := fun j => if j < A.count then A.block j else fill

def empty : BlockArray α := ⟨0, fun _ => []⟩

end BlockArray

/-- The file consists of the blocks of the array, of size `k` each. -/
structure Holds (k : Nat) (f : List α) (A : BlockArray α) : Prop where
  length : f.length = A.count * k
  block : ∀ i < A.count, readAt f (i * k) k = A.block i

variable {k : Nat} {f : List α} {A : BlockArray α}

theorem holds_nil (k : Nat) : Holds k ([] : List α) BlockArray.empty where
  length := by simp [BlockArray.empty]
  block := by
    intro i hi
    simp [BlockArray.empty] at hi

theorem holds_of_length (h : f.length = n * k) :
    Holds k f ⟨n, fun i => readAt f (i * k) k⟩ where
  length := h
  block := fun _ _ => rfl

/-- Block `i` ends before block `j` starts. -/
theorem block_end_le {i j : Nat} (k : Nat) (h : i < j) : i * k + k ≤ j * k := by
  calc i * k + k = (i + 1) * k := by rw [Nat.succ_mul]
    _ ≤ j * k := Nat.mul_le_mul_right k h

/-- Writing at the place of block `i` stores block `i`. -/
theorem Holds.put (z : α) (h : Holds k f A) {d : List α} (hd : d.length = k) (i : Nat) :
    Holds k (writeAt z f (i * k) d) (A.put (List.replicate k z) i d) where
  length := by
    rw [length_writeAt, h.length, hd]
    simp only [BlockArray.put]
    rw [← Nat.succ_mul, Nat.mul_max_mul_right]
  block := by
    intro j hj
    simp only [BlockArray.put]
    rcases Nat.lt_trichotomy j i with hji | hji | hji
    · -- before the block: an old one, or a blank in the gap
      rw [Function.update_of_ne (by omega)]
      have hend := block_end_le k hji
      split
      next hc =>
        have hlen := block_end_le k hc
        rw [readAt_writeAt_of_disjoint z (Or.inl ⟨hend, by rw [h.length]; exact hlen⟩)]
        exact h.block j hc
      next hc =>
        apply readAt_writeAt_gap z _ hend
        rw [h.length]
        exact Nat.mul_le_mul_right k (by omega)
    · subst hji
      rw [Function.update_self]
      have hself := readAt_writeAt_self z f (j * k) d
      rwa [hd] at hself
    · -- behind the block there are old ones only
      rw [Function.update_of_ne (by omega)]
      have hc : j < A.count := by
        simp only [BlockArray.put] at hj
        omega
      rw [if_pos hc, readAt_writeAt_of_disjoint z (Or.inr (by rw [hd]; exact block_end_le k hji))]
      exact h.block j hc

/-- Appending blanks up to `n` blocks resizes the array to `n`. -/
theorem Holds.enlarge (z : α) (h : Holds k f A) (hn : A.count ≤ n) :
    Holds k (f ++ List.replicate ((n - A.count) * k) z)
      (A.resize (List.replicate k z) n) where
  length := by
    rw [List.length_append, List.length_replicate, h.length, ← Nat.add_mul]
    simp only [BlockArray.resize]
    congr 1
    omega
  block := by
    intro j hj
    simp only [BlockArray.resize] at hj ⊢
    split
    next hc =>
      rw [readAt_append_left (by rw [h.length]; exact block_end_le k hc)]
      exact h.block j hc
    next hc =>
      apply readAt_append_replicate
      · rw [h.length]
        exact Nat.mul_le_mul_right k (by omega)
      · rw [h.length, ← Nat.add_mul, show A.count + (n - A.count) = n by omega]
        exact block_end_le k hj

/-- Cutting the file after `n` blocks resizes the array to `n`. -/
theorem Holds.truncate (fill : List α) (h : Holds k f A) (hn : n ≤ A.count) :
    Holds k (f.take (n * k)) (A.resize fill n) where
  length := by
    rw [List.length_take, h.length]
    exact Nat.min_eq_left (Nat.mul_le_mul_right k hn)
  block := by
    intro j hj
    simp only [BlockArray.resize] at hj ⊢
    have hc : j < A.count := by omega
    rw [if_pos hc, readAt_take (block_end_le k hj)]
    exact h.block j hc

theorem Holds.length_div (h : Holds k f A) (hk : 0 < k) : f.length / k = A.count := by
  rw [h.length, Nat.mul_div_cancel _ hk]

/-- The file has a whole block at the place of block `i` exactly when the array has it. -/
theorem Holds.length_readAt_iff (h : Holds k f A) (hk : 0 < k) (i : Nat) :
    (readAt f (i * k) k).length = k ↔ i < A.count := by
  rw [length_readAt, h.length]
  constructor
  · intro hlen
    by_contra hi
    have hle : A.count * k ≤ i * k := Nat.mul_le_mul_right k (by omega)
    omega
  · intro hi
    have hend := block_end_le k hi
    omega

end Omap4Hal.Lib

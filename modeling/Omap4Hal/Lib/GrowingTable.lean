import Mathlib.Data.List.Basic
import Mathlib.Order.Bounds.Basic

/- A table of slots that grows at its end. A slot holds a value or is empty, and what lies beyond
   the end counts as empty. `slotAt` says what a slot holds; the lemmas say what it holds after
   the table is changed. `TakesLowest` is said of slots that are taken one after the other, each
   the lowest that is empty. -/
namespace Omap4Hal.Lib

variable {α : Type} {t : List (Option α)} {i k : Nat} {x : α}

def slotAt (t : List (Option α)) (i : Nat) : Option α := t[i]?.join

@[simp] theorem slotAt_nil : slotAt ([] : List (Option α)) i = none := rfl

@[simp] theorem slotAt_cons_zero (y : Option α) : slotAt (y :: t) 0 = y := rfl

@[simp] theorem slotAt_cons_succ (y : Option α) : slotAt (y :: t) (i + 1) = slotAt t i := rfl

theorem slotAt_of_length_le (h : t.length ≤ i) : slotAt t i = none := by
  rw [slotAt, List.getElem?_eq_none h]
  rfl

theorem slotAt_eq_some_iff : slotAt t i = some x ↔ t[i]? = some (some x) := by
  rw [slotAt, Option.join_eq_some_iff]

theorem slotAt_set (hk : k < t.length) (y : Option α) :
    slotAt (t.set k y) i = if i = k then y else slotAt t i := by
  by_cases hi : i = k
  · rw [if_pos hi, slotAt, hi, List.getElem?_set_self hk]
    rfl
  · rw [if_neg hi, slotAt, List.getElem?_set_ne (Ne.symm hi), slotAt]

theorem slotAt_append_none (n : Nat) : slotAt (t ++ List.replicate n none) i = slotAt t i := by
  by_cases hi : i < t.length
  · rw [slotAt, List.getElem?_append_left hi, slotAt]
  · rw [slotAt_of_length_le (t := t) (by omega), slotAt, List.getElem?_append_right (by omega),
      List.getElem?_replicate]
    split <;> rfl

theorem slotAt_append_one (y : Option α) :
    slotAt (t ++ [y]) i = if i = t.length then y else slotAt t i := by
  by_cases hi : i < t.length
  · rw [if_neg (by omega), slotAt, List.getElem?_append_left hi, slotAt]
  · rw [slotAt_of_length_le (t := t) (by omega), slotAt, List.getElem?_append_right (by omega)]
    by_cases heq : i = t.length
    · rw [if_pos heq, heq, Nat.sub_self]
      rfl
    · rw [if_neg heq, List.getElem?_eq_none (by simp; omega)]
      rfl

/-! ## Putting a value at a place -/

/-- The table with `x` at `k`, grown as far as it has to be. -/
def placeAt (t : List (Option α)) (k : Nat) (x : α) : List (Option α) :=
  (t ++ List.replicate (k + 1 - t.length) none).set k (some x)

theorem slotAt_placeAt : slotAt (placeAt t k x) i = if i = k then some x else slotAt t i := by
  rw [placeAt, slotAt_set (by simp; omega), slotAt_append_none]

theorem length_le_placeAt : t.length ≤ (placeAt t k x).length := by
  simp [placeAt]

/-! ## The lowest empty slot -/

/-- Of the slots of a table that are given from number `i` on, the number of the first that is
empty, or of their end. -/
def firstEmpty : List (Option α) → Nat → Nat
  | [], i => i
  | none :: _, i => i
  | some _ :: l, i => firstEmpty l (i + 1)

theorem firstEmpty_spec (l : List (Option α)) (a : Nat) :
    a ≤ firstEmpty l a ∧ firstEmpty l a ≤ a + l.length ∧ slotAt l (firstEmpty l a - a) = none ∧
      ∀ i, i < firstEmpty l a - a → slotAt l i ≠ none := by
  induction l generalizing a with
  | nil => simp [firstEmpty]
  | cons y l ih =>
    cases y with
    | none => simp [firstEmpty]
    | some y =>
      obtain ⟨hle, hlen, hempty, hfull⟩ := ih (a + 1)
      rw [firstEmpty, List.length_cons]
      have hsub : firstEmpty l (a + 1) - a = firstEmpty l (a + 1) - (a + 1) + 1 := by omega
      refine ⟨by omega, by omega, ?_, ?_⟩
      · rw [hsub, slotAt_cons_succ]
        exact hempty
      · intro i hi
        cases i with
        | zero => simp
        | succ i =>
          rw [slotAt_cons_succ]
          exact hfull i (by omega)

theorem slotAt_drop (a : Nat) : slotAt (t.drop a) i = slotAt t (a + i) := by
  rw [slotAt, List.getElem?_drop, slotAt]

/-- A search that starts where all slots before are in use finds the lowest empty one. -/
theorem isLeast_firstEmpty {a : Nat} (ha : a ≤ t.length) (hfull : ∀ i, i < a → slotAt t i ≠ none) :
    IsLeast {i | slotAt t i = none} (firstEmpty (t.drop a) a) ∧
      firstEmpty (t.drop a) a ≤ t.length := by
  obtain ⟨hle, hlen, hempty, hbefore⟩ := firstEmpty_spec (t.drop a) a
  rw [List.length_drop] at hlen
  rw [slotAt_drop, Nat.add_sub_cancel' hle] at hempty
  refine ⟨⟨hempty, ?_⟩, by omega⟩
  intro i hi
  by_contra hlt
  by_cases hia : i < a
  · exact hfull i hia hi
  · have hnone := hbefore (i - a) (by omega)
    rw [slotAt_drop, Nat.add_sub_cancel' (by omega)] at hnone
    exact hnone hi

/-- The slots are taken in this order, each the lowest of those that are still free. -/
def TakesLowest (free : Set Nat) : List Nat → Prop
  | [] => True
  | i :: is => IsLeast free i ∧ TakesLowest (free \ {i}) is

end Omap4Hal.Lib

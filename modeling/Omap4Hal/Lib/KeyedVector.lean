import Mathlib.Algebra.GroupWithZero.Nat
import Mathlib.Data.List.Basic
import Mathlib.Order.Lattice

/- A vector of keys with values, in the order of the keys. Adding a key that is there
   replaces its value. -/
namespace Omap4Hal.Lib

/-- Keys of 32 bits, with a sign. -/
instance linearOrderInt32 : LinearOrder Int32 where
  le_refl := Int32.le_refl
  le_trans _ _ _ := Int32.le_trans
  le_antisymm _ _ := Int32.le_antisymm
  le_total := Int32.le_total
  lt_iff_le_not_ge a b := by
    rw [Int32.not_le, iff_and_self]
    exact Int32.le_of_lt
  toDecidableLE := inferInstance
  toDecidableLT := inferInstance
  toDecidableEq := inferInstance

variable {κ β : Type} [LinearOrder κ]

def insertKey (k : κ) (x : β) : List (κ × β) → List (κ × β)
  | [] => [(k, x)]
  | (j, y) :: l =>
    if k < j then (k, x) :: (j, y) :: l
    else if k = j then (k, x) :: l
    else (j, y) :: insertKey k x l

theorem mem_insertKey {k : κ} {x : β} {l : List (κ × β)} {p : κ × β}
    (h : p ∈ insertKey k x l) : p = (k, x) ∨ p ∈ l := by
  induction l with
  | nil => simpa [insertKey] using h
  | cons q l ih =>
    rw [insertKey] at h
    split at h
    · exact List.mem_cons.mp h
    · split at h
      · rcases List.mem_cons.mp h with hp | hp
        · exact .inl hp
        · exact .inr (List.mem_cons_of_mem _ hp)
      · rcases List.mem_cons.mp h with hp | hp
        · exact .inr (hp ▸ List.mem_cons_self)
        · rcases ih hp with hp | hp
          · exact .inl hp
          · exact .inr (List.mem_cons_of_mem _ hp)

theorem sorted_insertKey {k : κ} {x : β} {l : List (κ × β)}
    (h : l.Pairwise fun p q => p.1 < q.1) :
    (insertKey k x l).Pairwise fun p q => p.1 < q.1 := by
  induction l with
  | nil => exact List.pairwise_singleton _ _
  | cons q l ih =>
    obtain ⟨hq, hl⟩ := List.pairwise_cons.mp h
    rw [insertKey]
    split
    · next hlt =>
      refine List.pairwise_cons.mpr ⟨?_, h⟩
      intro p hp
      rcases List.mem_cons.mp hp with rfl | hp
      · exact hlt
      · exact lt_trans hlt (hq p hp)
    · next hnot =>
      split
      · next heq =>
        refine List.pairwise_cons.mpr ⟨?_, hl⟩
        intro p hp
        exact heq ▸ hq p hp
      · next hne =>
        refine List.pairwise_cons.mpr ⟨?_, ih hl⟩
        intro p hp
        rcases mem_insertKey hp with rfl | hp
        · exact lt_of_le_of_ne (not_lt.mp hnot) (Ne.symm hne)
        · exact hq p hp

structure KeyedVector (κ β : Type) [LinearOrder κ] where
  entries : List (κ × β) := []
  sorted : entries.Pairwise fun p q => p.1 < q.1 := by exact List.Pairwise.nil

namespace KeyedVector

abbrev empty : KeyedVector κ β := {}

/-- Also `replaceValueFor`. -/
def add (v : KeyedVector κ β) (k : κ) (x : β) : KeyedVector κ β :=
  ⟨insertKey k x v.entries, sorted_insertKey v.sorted⟩

/-- `valueFor`; `none` for a key that is not there. -/
def valueFor (v : KeyedVector κ β) (k : κ) : Option β :=
  (v.entries.find? fun p => p.1 = k).map Prod.snd

/-- `removeItem`; a key that is not there is no error. -/
def remove (v : KeyedVector κ β) (k : κ) : KeyedVector κ β :=
  ⟨v.entries.filter fun p => p.1 ≠ k, v.sorted.filter _⟩

/-- `keyAt`, from first to last. -/
def keys (v : KeyedVector κ β) : List κ := v.entries.map Prod.fst

theorem nodup_keys (v : KeyedVector κ β) : v.keys.Nodup := by
  rw [keys, List.Nodup, List.pairwise_map]
  exact v.sorted.imp fun h => ne_of_lt h

theorem find?_insertKey (k j : κ) (x : β) (l : List (κ × β)) :
    (insertKey k x l).find? (fun p => p.1 = j) =
      if j = k then some (k, x) else l.find? fun p => p.1 = j := by
  induction l with
  | nil => by_cases hj : j = k <;> simp [insertKey, hj, eq_comm]
  | cons q l ih =>
    rw [insertKey]
    split
    · by_cases hj : j = k
      · simp [hj]
      · simp [hj, Ne.symm hj]
    · split
      · next heq =>
        by_cases hj : j = k
        · simp [hj]
        · simp [hj, Ne.symm hj, ← heq]
      · next hne =>
        by_cases hq : q.1 = j
        · have hj : ¬ j = k := fun hjk => hne (hjk ▸ hq.symm)
          rw [List.find?_cons_of_pos (by simpa using hq), if_neg hj,
            List.find?_cons_of_pos (by simpa using hq)]
        · rw [List.find?_cons_of_neg (by simpa using hq), ih]
          split
          · rfl
          · rw [List.find?_cons_of_neg (by simpa using hq)]

theorem valueFor_add (v : KeyedVector κ β) (k j : κ) (x : β) :
    (v.add k x).valueFor j = if j = k then some x else v.valueFor j := by
  rw [valueFor, add, find?_insertKey]
  split <;> rfl

@[simp] theorem valueFor_add_self (v : KeyedVector κ β) (k : κ) (x : β) :
    (v.add k x).valueFor k = some x := by
  rw [valueFor_add, if_pos rfl]

variable {k j : κ} {v : KeyedVector κ β}

theorem valueFor_add_ne (v : KeyedVector κ β) (h : j ≠ k) (x : β) :
    (v.add k x).valueFor j = v.valueFor j := by
  rw [valueFor_add, if_neg h]

theorem mem_keys_remove :
    j ∈ (v.remove k).keys ↔ j ∈ v.keys ∧ j ≠ k := by
  simp only [keys, remove, List.mem_map, List.mem_filter, decide_eq_true_eq]
  constructor
  · rintro ⟨p, ⟨hp, hk⟩, rfl⟩
    exact ⟨⟨p, hp, rfl⟩, hk⟩
  · rintro ⟨⟨p, hp, rfl⟩, hk⟩
    exact ⟨p, ⟨hp, hk⟩, rfl⟩

theorem valueFor_remove_ne (v : KeyedVector κ β) (h : j ≠ k) :
    (v.remove k).valueFor j = v.valueFor j := by
  rw [valueFor, remove, List.find?_filter, valueFor]
  congr 2
  funext p
  by_cases hp : p.1 = j
  · simp [hp, h]
  · simp [hp]

theorem remove_of_notMem (h : k ∉ v.keys) : v.remove k = v := by
  obtain ⟨entries, sorted⟩ := v
  simp only [remove, mk.injEq]
  refine List.filter_eq_self.mpr fun p hp => decide_eq_true ?_
  rintro rfl
  exact h (List.mem_map_of_mem hp)

theorem mem_keys_iff : k ∈ v.keys ↔ ∃ x, v.valueFor k = some x := by
  rw [keys, valueFor, List.mem_map]
  constructor
  · intro h
    obtain ⟨p, hp, rfl⟩ := h
    cases hfind : v.entries.find? fun q => q.1 = p.1 with
    | none => simp at hfind; exact absurd rfl (hfind p.1 p.2 hp)
    | some q => exact ⟨q.2, rfl⟩
  · intro h
    obtain ⟨x, hx⟩ := h
    obtain ⟨p, hfind, rfl⟩ := Option.map_eq_some_iff.mp hx
    exact ⟨p, List.mem_of_find?_eq_some hfind, by simpa using List.find?_some hfind⟩

theorem valueFor_of_mem {p : κ × β} (h : p ∈ v.entries) :
    v.valueFor p.1 = some p.2 := by
  obtain ⟨entries, sorted⟩ := v
  rw [valueFor]
  induction entries with
  | nil => cases h
  | cons q l ih =>
    obtain ⟨hq, hl⟩ := List.pairwise_cons.mp sorted
    rcases List.mem_cons.mp h with rfl | h
    · rw [List.find?_cons_of_pos (by simp)]
      rfl
    · have hne : q.1 ≠ p.1 := ne_of_lt (hq p h)
      rw [List.find?_cons_of_neg (by simpa using hne)]
      exact ih hl h

theorem mem_keys_add {x : β} :
    j ∈ (v.add k x).keys ↔ j = k ∨ j ∈ v.keys := by
  rw [mem_keys_iff, mem_keys_iff, valueFor_add]
  by_cases hj : j = k
  · simp [hj]
  · simp [hj]

theorem keys_getElem?_iff {i : Nat} :
    v.keys[i]? = some k ↔ k ∈ v.keys ∧ v.keys.countP (· < k) = i := by
  have hsorted : v.keys.Pairwise (· < ·) := List.pairwise_map.mpr v.sorted
  generalize v.keys = l at hsorted
  induction l generalizing i with
  | nil => simp
  | cons a l ih =>
    obtain ⟨ha, hl⟩ := List.pairwise_cons.mp hsorted
    have hzero : (a :: l).countP (· < a) = 0 := by
      rw [List.countP_eq_zero]
      intro j hj
      rcases List.mem_cons.mp hj with rfl | hj
      · simp
      · simpa using le_of_lt (ha j hj)
    have hpast : ∀ j ∈ l, (a :: l).countP (· < j) = l.countP (· < j) + 1 :=
      fun j hj => List.countP_cons_of_pos (by simpa using ha j hj)
    cases i with
    | zero =>
      constructor
      · intro h
        obtain rfl : a = k := by simpa using h
        exact ⟨List.mem_cons_self, hzero⟩
      · rintro ⟨hk, hcount⟩
        rcases List.mem_cons.mp hk with rfl | hk
        · rfl
        · rw [hpast k hk] at hcount
          exact absurd hcount (Nat.succ_ne_zero _)
    | succ i =>
      constructor
      · intro h
        obtain ⟨hk, hcount⟩ := (ih hl).mp h
        exact ⟨List.mem_cons_of_mem _ hk, by rw [hpast k hk, hcount]⟩
      · rintro ⟨hk, hcount⟩
        rcases List.mem_cons.mp hk with rfl | hk
        · rw [hzero] at hcount
          exact absurd hcount.symm (Nat.succ_ne_zero _)
        · rw [hpast k hk] at hcount
          exact (ih hl).mpr ⟨hk, Nat.succ.inj hcount⟩

def addAll (v : KeyedVector κ β) (l : List (κ × β)) : KeyedVector κ β :=
  l.foldl (fun v p => v.add p.1 p.2) v

theorem valueFor_addAll_of_notMem {l : List (κ × β)} (h : k ∉ l.map Prod.fst) :
    (v.addAll l).valueFor k = v.valueFor k := by
  induction l generalizing v with
  | nil => rfl
  | cons p l ih =>
    obtain ⟨hp, hl⟩ := not_or.mp (mt List.mem_cons.mpr h)
    exact (ih hl).trans (valueFor_add_ne v hp p.2)

theorem valueFor_addAll {l : List (κ × β)} {x : β} (hl : (l.map Prod.fst).Nodup) (h : (k, x) ∈ l) :
    (v.addAll l).valueFor k = some x := by
  induction l generalizing v with
  | nil => exact absurd h List.not_mem_nil
  | cons p l ih =>
    obtain ⟨hp, hrest⟩ := List.nodup_cons.mp hl
    rcases List.mem_cons.mp h with rfl | h
    · exact (valueFor_addAll_of_notMem hp).trans (valueFor_add_self v k x)
    · exact ih hrest h

end KeyedVector

end Omap4Hal.Lib

import Mathlib.Data.List.Flatten
import Omap4Hal.Lib.CircularList

/- The list macros of `list_utils.h`. A list is its header and the infos in a circle with it. The
   macros that work in the other direction are the same ones with `next` and `last` swapped.

   A node can be moved to any place but its own: the comment says that moving it after or before
   itself works, but `DLIST_move__` then takes the node itself for a neighbour, which
   `DLIST_REMOVE` has taken out of the list. -/
namespace Omap4Hal.Tiler.DoubleLists

open Lib
open Function (update update_apply)

variable {α : Type}

theorem flatMap_split {base : α} {us vs : List α} (f : α → List α) (hus : ∀ y ∈ us, f y = [y])
    (hvs : ∀ y ∈ vs, f y = [y]) : (us ++ base :: vs).flatMap f = us ++ (f base ++ vs) := by
  have hself : ∀ zs : List α, (∀ y ∈ zs, f y = [y]) → zs.flatMap f = zs := by
    intro zs hzs
    induction zs with
    | nil => rfl
    | cons z zs ih =>
      rw [List.flatMap_cons, hzs z List.mem_cons_self,
        ih fun y hy => hzs y (List.mem_cons_of_mem _ hy)]
      rfl
  rw [List.flatMap_append, List.flatMap_cons, hself us hus, hself vs hvs]

theorem others {head base : α} {us vs : List α} (h : (head :: (us ++ base :: vs)).Nodup) :
    base ≠ head ∧ (∀ y ∈ us, y ≠ base) ∧ ∀ y ∈ vs, y ≠ base := by
  obtain ⟨hhead, hnodup⟩ := List.nodup_cons.mp h
  obtain ⟨hbase, -⟩ := List.nodup_cons.mp (List.nodup_middle.mp hnodup)
  refine ⟨?_, ?_, ?_⟩
  · rintro rfl
    exact hhead (by simp)
  · rintro y hy rfl
    exact hbase (List.mem_append_left _ hy)
  · rintro y hy rfl
    exact hbase (List.mem_append_right _ hy)

variable [DecidableEq α]

/-! ## The macros -/

def setNext (m : Links α) (p q : α) : Links α := { m with next := update m.next p q }

def setLast (m : Links α) (p q : α) : Links α := { m with last := update m.last p q }

/-- `DLIST_move__(base, info, next, last)`. The operands of the outer assignment may be evaluated in
either order; `info` is not `base.next`, so that it does not matter. -/
def move (m : Links α) (base info : α) : Links α :=
  let m₁ := setLast m info base
  let q := m₁.next base
  let m₂ := setNext m₁ info q
  let m₃ := setLast m₂ q info
  setNext m₃ base info

/-- `DLIST_MADD_AFTER` -/
def maddAfter (m : Links α) (base info : α) : Links α := move m base info

/-- `DLIST_MADD_BEFORE` -/
def maddBefore (m : Links α) (base info : α) : Links α := (move m.swap base info).swap

/-- `DLIST_REMOVE` -/
def remove (m : Links α) (info : α) : Links α :=
  let p := m.last info
  let q := m.next info
  setLast (setNext m p q) q p

/-- `DLIST_MOVE_AFTER` -/
def moveAfter (m : Links α) (base info : α) : Links α := maddAfter (remove m info) base info

/-- `DLIST_MOVE_BEFORE` -/
def moveBefore (m : Links α) (base info : α) : Links α := maddBefore (remove m info) base info

/-! ## The operations on sequences -/

/-- Behind the head, or behind a member. -/
def insertAfter (head base x : α) (xs : List α) : List α :=
  if base = head then x :: xs else xs.flatMap fun y => if y = base then [y, x] else [y]

/-- Before the head, which is at the end, or before a member. -/
def insertBefore (head base x : α) (xs : List α) : List α :=
  if base = head then xs ++ [x] else xs.flatMap fun y => if y = base then [x, y] else [y]

inductive Call (α : Type) where
  | maddBefore (base info : α)
  | maddAfter (base info : α)
  | remove (info : α)
  | moveBefore (base info : α)
  | moveAfter (base info : α)

def exec (m : Links α) : Call α → Links α
  | .maddBefore base info => maddBefore m base info
  | .maddAfter base info => maddAfter m base info
  | .remove info => remove m info
  | .moveBefore base info => moveBefore m base info
  | .moveAfter base info => moveAfter m base info

/-- A node that is moved relative to itself stays where it is. -/
def apply (head : α) (xs : List α) : Call α → List α
  | .maddBefore base info => insertBefore head base info xs
  | .maddAfter base info => insertAfter head base info xs
  | .remove info => xs.erase info
  | .moveBefore base info => if base = info then xs else insertBefore head base info (xs.erase info)
  | .moveAfter base info => if base = info then xs else insertAfter head base info (xs.erase info)

/-- A new node is fresh, another one is a member, and the base is in the list or its header. -/
def Legal (head : α) (xs : List α) : Call α → Prop
  | .maddBefore base info | .maddAfter base info => base ∈ head :: xs ∧ info ∉ head :: xs
  | .remove info => info ∈ xs
  | .moveBefore base info | .moveAfter base info => base ∈ head :: xs ∧ info ∈ xs

/-- The node is moved relative to itself. -/
def MovesToSelf : Call α → Prop
  | .moveBefore base info | .moveAfter base info => base = info
  | _ => False

/-! ## What the macros write -/

section Pointers
variable {m : Links α} {base x y : α}

theorem move_next : (move m base x).next y =
    if y = base then x else if y = x then m.next base else m.next y := by
  simp only [move, setNext, setLast, update_apply]

theorem move_last : (move m base x).last y =
    if y = m.next base then x else if y = x then base else m.last y := by
  simp only [move, setNext, setLast, update_apply]

theorem remove_next : (remove m x).next y = if y = m.last x then m.next x else m.next y := by
  simp only [remove, setNext, setLast, update_apply]

theorem remove_last : (remove m x).last y = if y = m.next x then m.last x else m.last y := by
  simp only [remove, setNext, setLast, update_apply]

theorem ite_comm_of_ne {β : Type} {a b : α} (h : a ≠ b) (s t u : β) :
    (if y = a then s else if y = b then t else u) =
      if y = b then t else if y = a then s else u := by
  by_cases hb : y = b
  · rw [if_pos hb, if_pos hb, if_neg (hb.trans_ne h.symm)]
  · rw [if_neg hb, if_neg hb]

end Pointers

/-! ## Circles -/

section Circles
variable {m : Links α} {head base x : α} {xs : List α}

theorem circular_move {us vs : List α} (h : Circular m head (us ++ vs))
    (hx : x ∉ head :: (us ++ vs)) (hbase : base = us.getLast?.getD head)
    (hmem : base ∈ head :: (us ++ vs)) (hnext : m.next base = vs.head?.getD head) :
    Circular (move m base x) head (us ++ x :: vs) := by
  have hxbase : base ≠ x := fun heq => hx (heq ▸ hmem)
  have hxnext : m.next base ≠ x := by
    intro heq
    rw [← heq, hnext] at hx
    cases vs with
    | nil => exact hx List.mem_cons_self
    | cons v vs => exact hx (by simp)
  apply h.insert hx
  · intro y
    rw [move_next, ite_comm_of_ne hxbase, hnext, hbase]
  · intro y
    rw [move_last, ite_comm_of_ne hxnext, hnext, hbase]

theorem circular_maddAfter (h : Circular m head xs) (hbase : base ∈ head :: xs)
    (hx : x ∉ head :: xs) : Circular (maddAfter m base x) head (insertAfter head base x xs) := by
  unfold insertAfter
  rcases List.mem_cons.mp hbase with rfl | hmem
  · rw [if_pos rfl]
    have hmoved : Circular (move m base x) base ([] ++ x :: xs) :=
      circular_move h hx rfl hbase h.path.ends.1
    exact hmoved
  · obtain ⟨us, vs, rfl⟩ := List.append_of_mem hmem
    obtain ⟨hhead, hus, hvs⟩ := others h.nodup
    rw [if_neg hhead, flatMap_split _ (fun y hy => if_neg (hus y hy))
      (fun y hy => if_neg (hvs y hy)), if_pos rfl]
    have hnext := h.neighbours.2
    rw [List.append_cons] at h hx hbase
    have hmoved := circular_move h hx (by simp) hbase hnext
    rwa [← List.append_cons] at hmoved

theorem insertAfter_reverse :
    insertAfter head base x xs.reverse = (insertBefore head base x xs).reverse := by
  unfold insertAfter insertBefore
  by_cases hbase : base = head
  · rw [if_pos hbase, if_pos hbase, List.reverse_append]
    rfl
  · rw [if_neg hbase, if_neg hbase, List.reverse_flatMap]
    apply congrArg (List.flatMap · xs.reverse)
    funext y
    by_cases hy : y = base <;> simp [hy]

theorem circular_maddBefore (h : Circular m head xs) (hbase : base ∈ head :: xs)
    (hx : x ∉ head :: xs) : Circular (maddBefore m base x) head (insertBefore head base x xs) := by
  have hbase' : base ∈ head :: xs.reverse := by simpa using hbase
  have hx' : x ∉ head :: xs.reverse := by simpa using hx
  have hback := circular_maddAfter h.swap hbase' hx'
  rw [insertAfter_reverse] at hback
  exact hback.swap_back

theorem circular_remove (h : Circular m head xs) (hx : x ∈ xs) :
    Circular (remove m x) head (xs.erase x) := by
  obtain ⟨us, vs, rfl⟩ := List.append_of_mem hx
  obtain ⟨-, hus, -⟩ := others h.nodup
  rw [List.erase_append_right _ fun hmem => hus x hmem rfl, List.erase_cons_head]
  exact h.remove (fun _ => remove_next) (fun _ => remove_last)

theorem not_circular_self (hx : x ∈ xs) : ¬ Circular (move m x x) head xs := by
  intro h
  obtain ⟨us, vs, rfl⟩ := List.append_of_mem hx
  obtain ⟨hhead, hus, -⟩ := others h.nodup
  have hself : (move m x x).last x = x := by
    rw [move_last]
    split <;> simp
  have hlast := hself.symm.trans h.neighbours.1
  cases hgetLast : us.getLast? with
  | none => exact hhead (by simpa [hgetLast] using hlast)
  | some y => exact hus y (List.mem_of_getLast? hgetLast) (by simpa [hgetLast] using hlast.symm)

theorem circular_moved (h : Circular m head xs) (hbase : base ∈ head :: xs) (hx : x ∈ xs)
    (hne : base ≠ x) : Circular (remove m x) head (xs.erase x) ∧ base ∈ head :: xs.erase x ∧
      x ∉ head :: xs.erase x := by
  obtain ⟨hhead, hnodup⟩ := List.nodup_cons.mp h.nodup
  refine ⟨circular_remove h hx, ?_, ?_⟩
  · rcases List.mem_cons.mp hbase with rfl | hmem
    · exact List.mem_cons_self
    · exact List.mem_cons_of_mem _ ((List.mem_erase_of_ne hne).mpr hmem)
  · rw [List.mem_cons]
    rintro (rfl | hmem)
    · exact hhead hx
    · exact hnodup.not_mem_erase hmem

theorem circular_exec_iff (h : Circular m head xs) {call : Call α} (hlegal : Legal head xs call) :
    Circular (exec m call) head (apply head xs call) ↔ ¬ MovesToSelf call := by
  cases call with
  | maddBefore base x => exact iff_of_true (circular_maddBefore h hlegal.1 hlegal.2) id
  | maddAfter base x => exact iff_of_true (circular_maddAfter h hlegal.1 hlegal.2) id
  | remove x => exact iff_of_true (circular_remove h hlegal) id
  | moveBefore base x =>
    obtain ⟨hbase, hx⟩ := hlegal
    by_cases hself : base = x
    · refine iff_of_false ?_ (not_not.mpr hself)
      subst hself
      rw [apply, if_pos rfl]
      intro hbad
      exact not_circular_self (by simpa using hx) hbad.swap
    · refine iff_of_true ?_ hself
      obtain ⟨hremoved, hbase', hx'⟩ := circular_moved h hbase hx hself
      rw [apply, if_neg hself]
      exact circular_maddBefore hremoved hbase' hx'
  | moveAfter base x =>
    obtain ⟨hbase, hx⟩ := hlegal
    by_cases hself : base = x
    · refine iff_of_false ?_ (not_not.mpr hself)
      subst hself
      rw [apply, if_pos rfl]
      exact not_circular_self hx
    · refine iff_of_true ?_ hself
      obtain ⟨hremoved, hbase', hx'⟩ := circular_moved h hbase hx hself
      rw [apply, if_neg hself]
      exact circular_maddAfter hremoved hbase' hx'

end Circles

end Omap4Hal.Tiler.DoubleLists

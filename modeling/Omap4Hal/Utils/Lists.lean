import Omap4Hal.Lib.Lockstep
import Omap4Hal.Tiler.DoubleLists

/- The lists of the utils (`List.c`), which the RCM and the processor manager keep their messages,
   recipients, jobs and mappings in. A list is the `elem` of its object and the elements in a circle
   with it. In every run of calls the pointers are those of the sequence that the calls should
   lead to, and reading them gives that sequence (`lists_follow`).

   Handles and elements are not NULL, but for the element of `List_next`. The gate of a list makes
   one call follow the other. -/
namespace Omap4Hal.Utils.Lists

open Lib
open Tiler.DoubleLists (setNext setLast move maddBefore maddAfter insertBefore insertAfter
  circular_maddBefore circular_maddAfter circular_remove)

variable {α : Type} [DecidableEq α]

/-! ## The functions -/

/-- The pointers of `List_construct` -/
def construct (m : Links α) (obj : α) : Links α := setNext (setLast m obj obj) obj obj

/-- `List_empty` -/
def empty (m : Links α) (obj : α) : Bool := m.next obj = obj

/-- `List_dequeue`, and `List_get`, which is this behind the gate -/
def dequeue (m : Links α) (obj : α) : Option α × Links α :=
  let elem := m.next obj
  if elem = obj then (none, m)
  else
    let m := setNext m obj (m.next elem)
    (some elem, setLast m (m.next elem) obj)

/-- `List_enqueue`, and `List_put` -/
def enqueue (m : Links α) (obj elem : α) : Links α :=
  let m := setNext m elem obj
  let m := setLast m elem (m.last obj)
  let m := setNext m (m.last obj) elem
  setLast m obj elem

/-- `List_enqueueHead`, and `List_putHead` -/
def enqueueHead (m : Links α) (obj elem : α) : Links α :=
  let m := setNext m elem (m.next obj)
  let m := setLast m elem obj
  let m := setLast m (m.next obj) elem
  setNext m obj elem

/-- `List_insert` -/
def insert (m : Links α) (newElem curElem : α) : Links α :=
  let m := setNext m newElem curElem
  let m := setLast m newElem (m.last curElem)
  let m := setNext m (m.last newElem) newElem
  setLast m curElem newElem

/-- `List_remove` -/
def remove (m : Links α) (elem : α) : Links α :=
  let m := setNext m (m.last elem) (m.next elem)
  setLast m (m.next elem) (m.last elem)

/-- `List_next` -/
def next (m : Links α) (obj : α) (elem : Option α) : Option α :=
  let retElem := m.next (elem.getD obj)
  if retElem = obj then none else some retElem

/-- `List_prev` -/
def prev (m : Links α) (obj elem : α) : Option α :=
  let retElem := m.last elem
  if retElem = obj then none else some retElem

/-! ## Calls -/

inductive Call (α : Type) where
  | put (elem : α)
  | putHead (elem : α)
  | insert (newElem curElem : α)
  | remove (elem : α)
  | get
  /-- `List_remove` of what `List_get` returns, as an `RcmClient` empties its lists. -/
  | getRemove

/-- What the call returns, and the pointers after it. -/
def exec (obj : α) (m : Links α) : Call α → Option α × Links α
  | .put elem => (none, enqueue m obj elem)
  | .putHead elem => (none, enqueueHead m obj elem)
  | .insert newElem curElem => (none, Lists.insert m newElem curElem)
  | .remove elem => (none, Lists.remove m elem)
  | .get => dequeue m obj
  | .getRemove =>
    match dequeue m obj with
    | (none, m) => (none, m)
    | (some elem, m) => (none, Lists.remove m elem)

/-- The same for a sequence. -/
def apply (xs : List α) : Call α → Option α × List α
  | .put elem => (none, xs ++ [elem])
  | .putHead elem => (none, elem :: xs)
  | .insert newElem curElem =>
    (none, xs.flatMap fun y => if y = curElem then [newElem, y] else [y])
  | .remove elem => (none, xs.erase elem)
  | .get => (xs.head?, xs.tail)
  | .getRemove => (none, xs.tail)

/-- A new element is in no list, another one is in this one. -/
def Legal (obj : α) (xs : List α) : Call α → Prop
  | .put elem | .putHead elem => elem ∉ obj :: xs
  | .insert newElem curElem => newElem ∉ obj :: xs ∧ curElem ∈ xs
  | .remove elem => elem ∈ xs
  | _ => True

/-- What the functions that only read return. -/
structure Reads (m : Links α) (obj : α) (xs : List α) : Prop where
  empty : empty m obj = xs.isEmpty
  first : next m obj none = xs.head?
  neighbours : ∀ us x vs, xs = us ++ x :: vs →
    next m obj (some x) = vs.head? ∧ prev m obj x = us.getLast?

/-! ## The pointers after a call -/

section Pointers
variable {m : Links α} {obj elem : α} {xs : List α}

theorem insert_eq (curElem : α) :
    Lists.insert m elem curElem = maddBefore m curElem elem := by
  simp [Lists.insert, maddBefore, move, setNext, setLast,
    Links.swap]

theorem enqueue_eq (h : obj ≠ elem) :
    enqueue m obj elem = maddBefore m obj elem := by
  simp [enqueue, maddBefore, move, setNext, setLast,
    Links.swap, h]

theorem enqueueHead_eq (h : obj ≠ elem) :
    enqueueHead m obj elem = maddAfter m obj elem :=
  congrArg Links.swap (enqueue_eq (m := m.swap) h)

theorem remove_eq : Lists.remove m elem = Tiler.DoubleLists.remove m elem := by
  simp [Lists.remove, Tiler.DoubleLists.remove, setNext, setLast, Function.update_apply]

theorem dequeue_nil (h : Circular m obj []) : dequeue m obj = (none, m) := by
  rw [dequeue, if_pos h.path.1]

theorem dequeue_cons (h : Circular m obj (elem :: xs)) :
    dequeue m obj = (some elem, Lists.remove m elem) := by
  obtain ⟨hnext, hlast, -⟩ := h.path
  have hne : elem ≠ obj := by
    rintro rfl
    exact (List.nodup_cons.mp h.nodup).1 List.mem_cons_self
  rw [dequeue, hnext, if_neg hne, Lists.remove, hlast]
  simp [setNext, hlast]

theorem remove_twice : Lists.remove (Lists.remove m elem) elem = Lists.remove m elem := by
  simp [Lists.remove, setNext, setLast, Function.update_apply]

theorem ends {o : Option α} (h : ∀ y ∈ o, y ≠ obj) :
    (if o.getD obj = obj then none else some (o.getD obj)) = o := by
  cases o with
  | none => exact if_pos rfl
  | some y => exact if_neg (h y rfl)

theorem reads (h : Circular m obj xs) : Reads m obj xs := by
  have hobj : ∀ y ∈ xs, y ≠ obj := fun y hy heq => (List.nodup_cons.mp h.nodup).1 (heq ▸ hy)
  have hfirst := h.path.ends.1
  refine ⟨?_, ?_, ?_⟩
  · cases xs with
    | nil => simp [empty, hfirst]
    | cons x xs => simpa [empty, hfirst] using hobj x List.mem_cons_self
  · rw [next, Option.getD_none, hfirst]
    exact ends fun y hy => hobj y (List.mem_of_head? hy)
  · rintro us x vs rfl
    obtain ⟨hlast, hnext⟩ := h.neighbours
    refine ⟨?_, ?_⟩
    · rw [next, Option.getD_some, hnext]
      exact ends fun y hy => hobj y (by simp [List.mem_of_head? hy])
    · rw [prev, hlast]
      exact ends fun y hy => hobj y (by simp [List.mem_of_getLast? hy])

theorem circular_exec (h : Circular m obj xs) {call : Call α} (hlegal : Legal obj xs call) :
    (exec obj m call).1 = (apply xs call).1 ∧
      Circular (exec obj m call).2 obj (apply xs call).2 := by
  have hself := List.mem_cons_self (a := obj) (l := xs)
  have hfresh : ∀ {x : α}, x ∉ obj :: xs → obj ≠ x := fun hx heq => hx (heq ▸ hself)
  have hremove : ∀ {x : α}, x ∈ xs → Circular (Lists.remove m x) obj (xs.erase x) := by
    intro x hx
    rw [remove_eq]
    exact circular_remove h hx
  cases call with
  | put elem =>
    have hput := circular_maddBefore h hself hlegal
    rw [insertBefore, if_pos rfl, ← enqueue_eq (hfresh hlegal)] at hput
    exact ⟨rfl, hput⟩
  | putHead elem =>
    have hput := circular_maddAfter h hself hlegal
    rw [insertAfter, if_pos rfl, ← enqueueHead_eq (hfresh hlegal)] at hput
    exact ⟨rfl, hput⟩
  | insert newElem curElem =>
    obtain ⟨hnew, hcur⟩ := hlegal
    have hput := circular_maddBefore h (List.mem_cons_of_mem _ hcur) hnew
    have hne : curElem ≠ obj := fun heq => (List.nodup_cons.mp h.nodup).1 (heq ▸ hcur)
    rw [insertBefore, if_neg hne, ← insert_eq] at hput
    exact ⟨rfl, hput⟩
  | remove elem => exact ⟨rfl, hremove hlegal⟩
  | get =>
    cases xs with
    | nil => exact ⟨congrArg Prod.fst (dequeue_nil h), congrArg Prod.snd (dequeue_nil h) ▸ h⟩
    | cons x xs =>
      have hrest := hremove List.mem_cons_self
      rw [List.erase_cons_head] at hrest
      simp only [exec, dequeue_cons h]
      exact ⟨rfl, hrest⟩
  | getRemove =>
    cases xs with
    | nil =>
      simp only [exec, dequeue_nil h]
      exact ⟨rfl, h⟩
    | cons x xs =>
      have hrest := hremove List.mem_cons_self
      rw [List.erase_cons_head] at hrest
      simp only [exec, dequeue_cons h, remove_twice]
      exact ⟨rfl, hrest⟩

end Pointers

/-- Over every run of legal calls on a list that has been constructed, the calls return what they
return for the sequence, and the pointers are, and are read as, those of the sequence. -/
theorem lists_follow {α : Type} [DecidableEq α] (m : Links α) (obj : α) (calls : List (Call α))
    (h : Guarded (fun xs c => some (apply xs c).2) (Legal obj) [] calls) :
    Lockstep (fun m xs => Circular m obj xs ∧ Reads m obj xs) (fun m c => some (exec obj m c))
      (fun xs c => some (apply xs c)) (construct m obj) [] calls := by
  have hrun : ∀ m xs, Circular m obj xs →
      Guarded (fun xs c => some (apply xs c).2) (Legal obj) xs calls →
      Lockstep (fun m xs => Circular m obj xs ∧ Reads m obj xs) (fun m c => some (exec obj m c))
        (fun xs c => some (apply xs c)) m xs calls := by
    clear h
    induction calls with
    | nil => exact fun m xs hm _ => ⟨hm, reads hm⟩
    | cons c calls ih =>
      intro m xs hm hG
      obtain ⟨hanswer, hstep⟩ := circular_exec hm hG.1
      exact ⟨⟨hm, reads hm⟩, hanswer, ih _ _ hstep (hG.2 _ rfl)⟩
  refine hrun _ [] ⟨⟨?_, ?_⟩, List.nodup_singleton obj⟩ h <;> simp [construct, setNext, setLast]

theorem lists_follow_three : Lockstep (fun m xs => Circular m 0 xs ∧ Reads m 0 xs)
    (fun m c => some (exec 0 m c)) (fun xs c => some (apply xs c)) (construct ⟨id, id⟩ 0) []
    [.put 1, .putHead 2, .insert 3 1, .get, .getRemove] := by
  apply lists_follow
  simp [Guarded, Legal, apply]

end Omap4Hal.Utils.Lists

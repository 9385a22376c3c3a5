import Mathlib.Data.List.Nodup

/- Singly linked lists in a memory. `Leads` says that the pointers of the cells in a list lead
   through it, to what stands behind it. A walk along the pointers is a recursion with fuel, which
   is out for a list that runs in a circle; the rules say what a walk finds in a list that is as
   long as its fuel. -/
namespace Omap4Hal.Lib

variable {α : Type}

def Leads (next : α → Option α) : List α → Option α → Prop
  | [], _ => True
  | x :: xs, e => next x = xs.head?.or e ∧ Leads next xs e

variable {next next' : α → Option α}

variable {as bs : List α}

theorem leads_append {e : Option α} :
    Leads next (as ++ bs) e ↔ Leads next as (bs.head?.or e) ∧ Leads next bs e := by
  induction as with
  | nil => simp [Leads]
  | cons a as ih =>
    rw [List.cons_append, Leads, Leads, ih, List.head?_append, Option.or_assoc]
    tauto

theorem Leads.congr {e : Option α} (hn : ∀ x ∈ as, next' x = next x) (h : Leads next as e) :
    Leads next' as e := by
  induction as with
  | nil => exact trivial
  | cons a as ih =>
    obtain ⟨hnext, hrest⟩ := h
    exact ⟨(hn a List.mem_cons_self).trans hnext,
      ih (fun x hx => hn x (List.mem_cons_of_mem _ hx)) hrest⟩

theorem Leads.to_front {x y : α} (hnd : (as ++ x :: y :: bs).Nodup)
    (hy : next' y = (as ++ [x]).head?) (hx : next' x = next y)
    (hn : ∀ z, z ≠ x → z ≠ y → next' z = next z) (h : Leads next (as ++ x :: y :: bs) none) :
    Leads next' (y :: as ++ x :: bs) none := by
  obtain ⟨has, hnx, hny, hbs⟩ := leads_append.mp h
  obtain ⟨hndA, hndB, hdisj⟩ := List.nodup_append.mp hnd
  obtain ⟨hxB, hndY⟩ := List.nodup_cons.mp hndB
  obtain ⟨hyB, -⟩ := List.nodup_cons.mp hndY
  have hA : ∀ z ∈ as, next' z = next z := fun z hz =>
    hn z (hdisj z hz x List.mem_cons_self)
      (hdisj z hz y (List.mem_cons_of_mem _ List.mem_cons_self))
  have hB : ∀ z ∈ bs, next' z = next z := by
    intro z hz
    refine hn z ?_ ?_
    · rintro rfl
      exact hxB (List.mem_cons_of_mem _ hz)
    · rintro rfl
      exact hyB hz
  have hhead : (as ++ x :: bs).head?.or none = (as ++ [x]).head? := by
    cases as <;> rfl
  refine ⟨hy.trans hhead.symm, ?_⟩
  exact leads_append.mpr ⟨has.congr hA, hx.trans hny, hbs.congr hB⟩

/-- The cell before `y` is the only one that points to it. -/
theorem Leads.find_pred [DecidableEq α] {e : Option α} {x y : α} (hnd : (as ++ x :: y :: bs).Nodup)
    (h : Leads next (as ++ x :: y :: bs) e) :
    (as ++ x :: y :: bs).find? (fun z => next z = some y) = some x := by
  induction as with
  | nil =>
    have hx : next x = some y := h.1
    rw [List.nil_append, List.find?_cons_of_pos (by simp [hx])]
  | cons a as ih =>
    obtain ⟨hnext, hrest⟩ := h
    obtain ⟨-, hnd⟩ := List.nodup_cons.mp hnd
    have hne : next a ≠ some y := by
      intro heq
      rw [hnext] at heq
      -- what follows `a` is `x` or a cell before it
      cases as with
      | nil =>
        cases heq
        exact (List.nodup_cons.mp hnd).1 List.mem_cons_self
      | cons c cs =>
        cases heq
        exact (List.nodup_cons.mp hnd).1 (by simp)
    rw [List.cons_append, List.find?_cons_of_neg (by simpa using hne)]
    exact ih hnd hrest

/-! ## Walks -/

/-- The first cell from `x` on that satisfies `p`. -/
def walkFind (next : α → Option α) (p : α → Bool) : Nat → α → Option (Option α)
  | 0, _ => none
  | fuel + 1, x =>
    if p x then some (some x)
    else match next x with
      | none => some none
      | some y => walkFind next p fuel y

/-- The last cell from `x` on. -/
def walkLast (next : α → Option α) : Nat → α → Option α
  | 0, _ => none
  | fuel + 1, x =>
    match next x with
    | none => some x
    | some y => walkLast next fuel y

theorem walkFind_eq {p : α → Bool} {fuel : Nat} {x : α} {xs : List α}
    (h : Leads next (x :: xs) none) (hfuel : xs.length < fuel) :
    walkFind next p fuel x = some ((x :: xs).find? p) := by
  induction xs generalizing x fuel with
  | nil =>
    obtain ⟨fuel, rfl⟩ := Nat.exists_eq_add_of_lt hfuel
    have hx : next x = none := h.1
    rw [walkFind, hx, List.find?_cons]
    cases p x <;> rfl
  | cons y ys ih =>
    obtain ⟨fuel, rfl⟩ := Nat.exists_eq_add_of_lt hfuel
    obtain ⟨hx, hrest⟩ := h
    have hx : next x = some y := hx
    rw [walkFind, hx, List.find?_cons]
    cases p x with
    | true => rfl
    | false => exact ih hrest (by simp; omega)

theorem walkLast_eq {fuel : Nat} {x : α} {xs : List α} (h : Leads next (x :: xs) none)
    (hfuel : xs.length < fuel) : walkLast next fuel x = (x :: xs).getLast? := by
  induction xs generalizing x fuel with
  | nil =>
    obtain ⟨fuel, rfl⟩ := Nat.exists_eq_add_of_lt hfuel
    have hx : next x = none := h.1
    rw [walkLast, hx]
    rfl
  | cons y ys ih =>
    obtain ⟨fuel, rfl⟩ := Nat.exists_eq_add_of_lt hfuel
    obtain ⟨hx, hrest⟩ := h
    have hx : next x = some y := hx
    rw [walkLast, hx, List.getLast?_cons_cons]
    exact ih hrest (by simp; omega)

end Omap4Hal.Lib

import Mathlib.Data.List.Nodup

/- Doubly linked lists in a memory. `Linked` says that the forward and the backward
   pointers of the cells in a list lead through it, from what stands before it to what
   stands behind it. The rules for putting a cell in and for taking one out ask only
   what the new pointers of the cells are: those of the neighbours are patched, and the
   others as before. -/
namespace Omap4Hal.Lib

open List (mem_append_left mem_append_right mem_cons_of_mem mem_cons_self nodup_append nodup_cons)

variable {α : Type}

/-- `next` and `prev` run through the list; `b` stands before it, `e` behind it. -/
def Linked (next prev : α → Option α) : Option α → List α → Option α → Prop
  | _, [], _ => True
  | b, x :: xs, e => prev x = b ∧ next x = xs.head?.or e ∧ Linked next prev (some x) xs e

variable {next prev next' prev' : α → Option α}

variable {b e : Option α} {as bs : List α}

theorem linked_nil : Linked next prev b [] e := trivial

theorem linked_append :
    Linked next prev b (as ++ bs) e ↔
      Linked next prev b as (bs.head?.or e) ∧ Linked next prev (as.getLast?.or b) bs e := by
  induction as generalizing b with
  | nil => simp [Linked]
  | cons a as ih =>
    have hlast : (a :: as).getLast?.or b = as.getLast?.or (some a) := by
      cases as with
      | nil => rfl
      | cons c cs => simp [List.getLast?_eq_some_getLast]
    rw [List.cons_append, Linked, Linked, ih, hlast, List.head?_append, Option.or_assoc]
    tauto

theorem Linked.neighbours {y : α} (h : Linked next prev none (as ++ y :: bs) none) :
    next y = bs.head? ∧ prev y = as.getLast? := by
  obtain ⟨-, hprev, hnext, -⟩ := linked_append.mp h
  simp only [Option.or_none] at hprev hnext
  exact ⟨hnext, hprev⟩

/-- Two lists from the same cell run together as long as the cells keep their pointers. -/
theorem linked_shared {b' : Option α} {cs : List α} {y : α}
    (h : Linked next prev b (as ++ y :: bs) e) (h' : Linked next' prev' b' cs none)
    (hhead : cs.head? = (as ++ y :: bs).head?) (hn : ∀ x ∈ as, next' x = next x) :
    ∃ ds, cs = as ++ y :: ds := by
  induction as generalizing b b' cs with
  | nil =>
    obtain ⟨ds, rfl⟩ := List.head?_eq_some_iff.mp hhead
    exact ⟨ds, rfl⟩
  | cons a as ih =>
    obtain ⟨cs, rfl⟩ := List.head?_eq_some_iff.mp hhead
    obtain ⟨-, hnext, hrest⟩ := h
    obtain ⟨-, hnext', hrest'⟩ := h'
    have hsome : (as ++ y :: bs).head?.or e = (as ++ y :: bs).head? := by
      cases as <;> rfl
    have hnext : next a = (as ++ y :: bs).head? := hnext.trans hsome
    rw [Option.or_none, hn a (mem_cons_self ..), hnext] at hnext'
    obtain ⟨ds, rfl⟩ := ih hrest hrest' hnext'.symm fun x hx => hn x (mem_cons_of_mem _ hx)
    exact ⟨ds, rfl⟩

theorem Linked.congr (hn : ∀ x ∈ as, next' x = next x) (hp : ∀ x ∈ as, prev' x = prev x)
    (h : Linked next prev b as e) :
    Linked next' prev' b as e := by
  induction as generalizing b with
  | nil => exact trivial
  | cons a as ih =>
    obtain ⟨hprev, hnext, hrest⟩ := h
    refine ⟨?_, ?_, ?_⟩
    · rw [hp a (mem_cons_self ..), hprev]
    · rw [hn a (mem_cons_self ..), hnext]
    · apply ih _ _ hrest
      · intro x hx
        exact hn x (mem_cons_of_mem _ hx)
      · intro x hx
        exact hp x (mem_cons_of_mem _ hx)

theorem Linked.change_end [DecidableEq α] {e' : Option α} (hnd : as.Nodup)
    (hn : ∀ x ∈ as, next' x = if as.getLast? = some x then e' else next x)
    (hp : ∀ x ∈ as, prev' x = prev x) (h : Linked next prev b as e) :
    Linked next' prev' b as e' := by
  induction as generalizing b with
  | nil => exact trivial
  | cons a as ih =>
    obtain ⟨hprev, hnext, hrest⟩ := h
    obtain ⟨ha, hnd⟩ := nodup_cons.mp hnd
    refine ⟨?_, ?_, ?_⟩
    · rw [hp a (mem_cons_self ..), hprev]
    · rw [hn a (mem_cons_self ..)]
      cases as with
      | nil => simp
      | cons c cs =>
        have hne : (a :: c :: cs).getLast? ≠ some a := by
          intro hlast
          rw [List.getLast?_cons_cons] at hlast
          exact ha (List.mem_of_getLast? hlast)
        rw [if_neg hne, hnext]
        rfl
    · apply ih hnd
      · intro x hx
        rw [hn x (mem_cons_of_mem _ hx)]
        cases as with
        | nil => cases hx
        | cons c cs => rw [List.getLast?_cons_cons]
      · intro x hx
        exact hp x (mem_cons_of_mem _ hx)
      · exact hrest

theorem Linked.change_begin [DecidableEq α] {b' : Option α} (hnd : as.Nodup)
    (hn : ∀ x ∈ as, next' x = next x)
    (hp : ∀ x ∈ as, prev' x = if as.head? = some x then b' else prev x)
    (h : Linked next prev b as e) : Linked next' prev' b' as e := by
  cases as with
  | nil => exact trivial
  | cons a as =>
    obtain ⟨-, hnext, hrest⟩ := h
    obtain ⟨ha, hnd⟩ := nodup_cons.mp hnd
    refine ⟨?_, ?_, ?_⟩
    · rw [hp a (mem_cons_self ..), List.head?_cons, if_pos rfl]
    · rw [hn a (mem_cons_self ..), hnext]
    · have hsame : ∀ x ∈ as, prev' x = prev x := by
        intro x hx
        rw [hp x (mem_cons_of_mem _ hx), List.head?_cons, if_neg]
        intro hax
        exact ha (Option.some.inj hax ▸ hx)
      apply Linked.change_end hnd (fun x hx => ?_) hsame hrest
      rw [hn x (mem_cons_of_mem _ hx)]
      split
      next hlast =>
        -- the last cell keeps the end it had
        obtain ⟨cs, rfl⟩ : ∃ cs, as = cs ++ [x] := List.getLast?_eq_some_iff.mp hlast
        obtain ⟨-, -, hlast, -⟩ := linked_append.mp hrest
        rw [hlast]
        rfl
      next => rfl

/-! ## Putting a cell in and taking it out -/

/-- The last cell before a place is not behind it, and the first one behind it is not
before it. -/
theorem nodup_sides {y : α} (hnd : (as ++ y :: bs).Nodup) :
    (∀ x ∈ as, bs.head? ≠ some x) ∧ ∀ x ∈ bs, as.getLast? ≠ some x := by
  obtain ⟨-, -, hdisj⟩ := nodup_append.mp hnd
  refine ⟨?_, ?_⟩
  · intro x hx hhead
    exact hdisj x hx x (mem_cons_of_mem _ (List.mem_of_head? hhead)) rfl
  · intro x hx hlast
    exact hdisj x (List.mem_of_getLast? hlast) x (mem_cons_of_mem _ hx) rfl

section Patch

variable [DecidableEq α] {as bs : List α} {y : α}

theorem Linked.insert (has : Linked next prev none as e) (hbs : Linked next prev b bs none)
    (hnd : (as ++ y :: bs).Nodup)
    (hny : next' y = bs.head?) (hpy : prev' y = as.getLast?)
    (hn : ∀ x ∈ as ++ bs, next' x = if as.getLast? = some x then some y else next x)
    (hp : ∀ x ∈ as ++ bs, prev' x = if bs.head? = some x then some y else prev x) :
    Linked next' prev' none (as ++ y :: bs) none := by
  obtain ⟨hleft, hright⟩ := nodup_sides hnd
  obtain ⟨hndA, hndB, -⟩ := nodup_append.mp hnd
  rw [linked_append]
  refine ⟨?_, ?_, ?_, ?_⟩
  · apply Linked.change_end hndA _ _ has
    · intro x hx
      exact hn x (mem_append_left _ hx)
    · intro x hx
      rw [hp x (mem_append_left _ hx), if_neg (hleft x hx)]
  · rw [hpy, Option.or_none]
  · rw [hny, Option.or_none]
  · apply Linked.change_begin (nodup_cons.mp hndB).2 _ _ hbs
    · intro x hx
      rw [hn x (mem_append_right _ hx), if_neg (hright x hx)]
    · intro x hx
      exact hp x (mem_append_right _ hx)

theorem Linked.remove (h : Linked next prev none (as ++ y :: bs) none)
    (hnd : (as ++ y :: bs).Nodup)
    (hn : ∀ x ∈ as ++ bs, next' x = if as.getLast? = some x then bs.head? else next x)
    (hp : ∀ x ∈ as ++ bs, prev' x = if bs.head? = some x then as.getLast? else prev x) :
    Linked next' prev' none (as ++ bs) none := by
  obtain ⟨has, -, -, hbs⟩ := linked_append.mp h
  obtain ⟨hleft, hright⟩ := nodup_sides hnd
  obtain ⟨hndA, hndB, -⟩ := nodup_append.mp hnd
  rw [linked_append]
  refine ⟨?_, ?_⟩
  · apply Linked.change_end hndA _ _ has
    · intro x hx
      rw [Option.or_none]
      exact hn x (mem_append_left _ hx)
    · intro x hx
      rw [hp x (mem_append_left _ hx), if_neg (hleft x hx)]
  · apply Linked.change_begin (nodup_cons.mp hndB).2 _ _ hbs
    · intro x hx
      rw [hn x (mem_append_right _ hx), if_neg (hright x hx)]
    · intro x hx
      rw [Option.or_none]
      exact hp x (mem_append_right _ hx)

end Patch

end Omap4Hal.Lib

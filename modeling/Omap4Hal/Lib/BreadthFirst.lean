import Mathlib.Algebra.GroupWithZero.Nat
import Omap4Hal.Lib.DepthFirst

/- The breadth-first order of a graph. A vertex that is taken from the queue and has not been seen
   is entered, and its successors join the queue. In a finite graph each vertex is entered once, so
   there is a bound on the rounds (`breadthFirst_closed`), and what is entered is what can be
   reached (`mem_bfsOrder_iff`). -/
namespace Omap4Hal.Lib

open List (mem_append mem_cons mem_cons_self mem_singleton not_mem_nil)

variable {α : Type} [DecidableEq α] (next : α → List α)

/-- The vertices in the order in which they are entered, after a number of rounds. -/
def breadthFirst : Nat → List α → List α → List α
  | 0, _, seen => seen
  | _ + 1, [], seen => seen
  | n + 1, x :: queue, seen =>
    if x ∈ seen then breadthFirst n queue seen
    else breadthFirst n (queue ++ next x) (seen ++ [x])

/-- What the vertices that have not been seen can still add to the queue. -/
def unseen (vs seen : List α) : Nat :=
  ((vs.filter fun v => v ∉ seen).map fun v => (next v).length).sum

/-- The breadth-first order from `x`, in a graph with the vertices `vs`. -/
def bfsOrder (vs : List α) (x : α) : List α := breadthFirst next (unseen next vs [] + 1) [x] []

variable {next}

theorem breadthFirst_keeps (next : α → List α) (n : Nat) (queue seen : List α) :
    seen <+: breadthFirst next n queue seen := by
  induction n generalizing queue seen with
  | zero => exact List.prefix_rfl
  | succ n ih =>
    cases queue with
    | nil => exact List.prefix_rfl
    | cons x queue =>
      rw [breadthFirst]
      split
      · exact ih queue seen
      · exact (List.prefix_append seen [x]).trans (ih _ _)

variable {seen : List α}

theorem breadthFirst_sound {n : Nat} {queue : List α} {y : α}
    (hy : y ∈ breadthFirst next n queue seen) : y ∈ seen ∨ ∃ x ∈ queue, Reaches next x y := by
  induction n generalizing queue seen with
  | zero => exact .inl hy
  | succ n ih =>
    cases queue with
    | nil => exact .inl hy
    | cons x queue =>
      rw [breadthFirst] at hy
      split at hy
      · rcases ih hy with hseen | ⟨z, hz, hreach⟩
        · exact .inl hseen
        · exact .inr ⟨z, List.mem_cons_of_mem x hz, hreach⟩
      · rcases ih hy with hseen | ⟨z, hz, hreach⟩
        · rcases mem_append.mp hseen with hseen | hx
          · exact .inl hseen
          · obtain rfl := mem_singleton.mp hx
            exact .inr ⟨y, mem_cons_self, .refl⟩
        · rcases mem_append.mp hz with hz | hz
          · exact .inr ⟨z, List.mem_cons_of_mem x hz, hreach⟩
          · exact .inr ⟨x, mem_cons_self, .head hz hreach⟩

theorem unseen_cons (v : α) (vs seen : List α) : unseen next (v :: vs) seen =
    (if v ∈ seen then 0 else (next v).length) + unseen next vs seen := by
  rw [unseen, unseen]
  split
  next hv => rw [List.filter_cons_of_neg (by simpa using hv), Nat.zero_add]
  next hv => rw [List.filter_cons_of_pos (by simpa using hv), List.map_cons, List.sum_cons]

theorem unseen_antitone (next : α → List α) (vs : List α) {seen' : List α} (h : seen ⊆ seen') :
    unseen next vs seen' ≤ unseen next vs seen := by
  induction vs with
  | nil => exact Nat.le_refl _
  | cons v vs ih =>
    rw [unseen_cons, unseen_cons]
    by_cases hv : v ∈ seen
    · rw [if_pos hv, if_pos (h hv)]
      omega
    · rw [if_neg hv]
      split
      · omega
      · omega

/-- A vertex that is entered adds its successors to the queue, and nothing later. -/
theorem unseen_enter (next : α → List α) {vs : List α} {x : α} (hx : x ∈ vs) (hnew : x ∉ seen) :
    unseen next vs (seen ++ [x]) + (next x).length ≤ unseen next vs seen := by
  induction vs with
  | nil => exact absurd hx not_mem_nil
  | cons v vs ih =>
    rw [unseen_cons, unseen_cons]
    by_cases hv : v = x
    · subst hv
      have hrest := unseen_antitone next vs (List.subset_append_left seen [v])
      rw [if_pos (by simp), if_neg hnew]
      omega
    · have hrest := ih ((mem_cons.mp hx).resolve_left fun h => hv h.symm)
      have hsame : v ∈ seen ++ [x] ↔ v ∈ seen := by simp [hv]
      rw [if_congr hsame rfl rfl]
      omega

section Finite
variable {vs : List α} (hclosed : ∀ v ∈ vs, ∀ w ∈ next v, w ∈ vs)
include hclosed

/-- With enough rounds the queue is empty in the end, and every successor has been entered. -/
theorem breadthFirst_closed (n : Nat) (queue seen : List α) (hqueue : ∀ x ∈ queue, x ∈ vs)
    (hn : queue.length + unseen next vs seen ≤ n)
    (hinv : ∀ y ∈ seen, ∀ z ∈ next y, z ∈ seen ∨ z ∈ queue) :
    (∀ x ∈ queue, x ∈ breadthFirst next n queue seen) ∧
      ∀ y ∈ breadthFirst next n queue seen, ∀ z ∈ next y, z ∈ breadthFirst next n queue seen := by
  induction n generalizing queue seen with
  | zero =>
    have hempty : queue = [] := List.eq_nil_of_length_eq_zero (by omega)
    subst hempty
    exact ⟨nofun, fun y hy z hz => (hinv y hy z hz).resolve_right not_mem_nil⟩
  | succ n ih =>
    cases queue with
    | nil => exact ⟨nofun, fun y hy z hz => (hinv y hy z hz).resolve_right not_mem_nil⟩
    | cons x queue =>
      obtain ⟨hx, hqueue⟩ := List.forall_mem_cons.mp hqueue
      rw [List.length_cons] at hn
      rw [breadthFirst]
      split
      next hseen =>
        have hinv' : ∀ y ∈ seen, ∀ z ∈ next y, z ∈ seen ∨ z ∈ queue := by
          intro y hy z hz
          rcases hinv y hy z hz with h | h
          · exact .inl h
          · rcases mem_cons.mp h with rfl | h
            · exact .inl hseen
            · exact .inr h
        obtain ⟨hentered, hall⟩ := ih queue seen hqueue (by omega) hinv'
        refine ⟨?_, hall⟩
        intro y hy
        rcases mem_cons.mp hy with rfl | hy
        · exact (breadthFirst_keeps next n queue seen).subset hseen
        · exact hentered y hy
      next hnew =>
        have hless := unseen_enter next hx hnew
        have hqueue' : ∀ y ∈ queue ++ next x, y ∈ vs := by
          intro y hy
          rcases mem_append.mp hy with hy | hy
          · exact hqueue y hy
          · exact hclosed x hx y hy
        have hinv' : ∀ y ∈ seen ++ [x], ∀ z ∈ next y, z ∈ seen ++ [x] ∨ z ∈ queue ++ next x := by
          intro y hy z hz
          rcases mem_append.mp hy with hy | hy
          · rcases hinv y hy z hz with h | h
            · exact .inl (List.mem_append_left _ h)
            · rcases mem_cons.mp h with rfl | h
              · exact .inl (by simp)
              · exact .inr (List.mem_append_left _ h)
          · obtain rfl := mem_singleton.mp hy
            exact .inr (List.mem_append_right _ hz)
        have hn' : (queue ++ next x).length + unseen next vs (seen ++ [x]) ≤ n := by
          rw [List.length_append]
          omega
        obtain ⟨hentered, hall⟩ := ih _ _ hqueue' hn' hinv'
        refine ⟨?_, hall⟩
        intro y hy
        rcases mem_cons.mp hy with rfl | hy
        · exact (breadthFirst_keeps next n _ _).subset (by simp)
        · exact hentered y (List.mem_append_left _ hy)

theorem mem_bfsOrder_iff {x y : α} (hx : x ∈ vs) :
    y ∈ bfsOrder next vs x ↔ Reaches next x y := by
  constructor
  · intro hy
    rcases breadthFirst_sound hy with hnone | ⟨z, hz, hreach⟩
    · exact absurd hnone not_mem_nil
    · rwa [mem_singleton.mp hz] at hreach
  · intro hreach
    obtain ⟨hentered, hall⟩ := breadthFirst_closed hclosed (unseen next vs [] + 1) [x] []
      (fun z hz => mem_singleton.mp hz ▸ hx) (by rw [List.length_singleton]; omega) nofun
    induction hreach with
    | refl => exact hentered x mem_cons_self
    | tail _ hz ih => exact hall _ ih _ hz

end Finite

theorem bfsOrder_start (next : α → List α) (vs : List α) (x : α) :
    ∃ l, bfsOrder next vs x = x :: l := by
  have hstep : bfsOrder next vs x = breadthFirst next (unseen next vs []) (next x) [x] := by
    rw [bfsOrder, breadthFirst, if_neg not_mem_nil, List.nil_append, List.nil_append]
  obtain ⟨l, hl⟩ := breadthFirst_keeps next (unseen next vs []) (next x) [x]
  exact ⟨l, hstep.trans hl.symm⟩

end Omap4Hal.Lib

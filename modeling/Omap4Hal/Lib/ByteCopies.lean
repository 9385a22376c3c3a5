import Mathlib.Data.Int.Interval
import Omap4Hal.Lib.RowMajor

/- Bytes that are copied one by one: a list of destinations with their sources, in the order in
   which they are written. The loops of such code move pointers on (`rounds`). -/
namespace Omap4Hal.Lib

open List (filterMap_map map_map mem_cons mem_map range range_succ)

variable {δ σ α β γ : Type}

/-- The memory behind the copies. -/
def perform [DecidableEq δ] (src : σ → α) : (δ → α) → List (δ × σ) → δ → α
  | dst, [] => dst
  | dst, c :: cs => perform src (Function.update dst c.1 (src c.2)) cs

def memcpy (dst src : Int) (n : Nat) : List (Int × Int) :=
  (range n).map fun i : Nat => (dst + i, src + i)

/-- A loop that does `body` and moves its pointers on. -/
def rounds (step : γ → γ) (body : γ → List β) : Nat → γ → List β
  | 0, _ => []
  | n + 1, p => body p ++ rounds step body n (step p)

/-- A loop that takes `size` from `n` for as long as there is enough: what it does, what is left,
and its pointers at the end. -/
def takeBlocks (size : Nat) (step : γ → γ) (body : γ → List β) (n : Nat) (p : γ) :
    List β × Nat × γ :=
  if 0 < size ∧ size ≤ n then
    let r := takeBlocks size step body (n - size) (step p)
    (body p ++ r.1, r.2)
  else ([], n, p)
termination_by n
decreasing_by omega

/-- One access to memory; a byte is stored as the place that it was loaded from. -/
inductive Access (δ σ : Type) where
  | load (s : σ)
  | store (d : δ) (s : σ)

def loads (log : List (Access δ σ)) : List σ :=
  log.filterMap fun
    | .load s => some s
    | .store _ _ => none

def stores (log : List (Access δ σ)) : List (δ × σ) :=
  log.filterMap fun
    | .load _ => none
    | .store d s => some (d, s)

/-! ## What is copied -/

section Perform

variable [DecidableEq δ] {src : σ → α} {dst : δ → α} {cs : List (δ × σ)}

theorem perform_of_not_mem {d : δ} (h : d ∉ cs.map Prod.fst) : perform src dst cs d = dst d := by
  induction cs generalizing dst with
  | nil => rfl
  | cons c cs ih =>
    obtain ⟨hd, hrest⟩ := not_or.mp (mt mem_cons.mpr h)
    rw [perform, ih hrest, Function.update_of_ne hd]

theorem perform_of_mem (hnodup : (cs.map Prod.fst).Nodup) {d : δ} {s : σ} (h : (d, s) ∈ cs) :
    perform src dst cs d = src s := by
  induction cs generalizing dst with
  | nil => cases h
  | cons c cs ih =>
    obtain ⟨hfresh, hrest⟩ := List.nodup_cons.mp hnodup
    rcases mem_cons.mp h with rfl | hmem
    · rw [perform, perform_of_not_mem hfresh, Function.update_self]
    · exact ih hrest hmem

end Perform

/-! ## Accesses -/

section Access

variable (xs ys : List (Access δ σ)) (l : List β) (f : β → List (Access δ σ)) (s : β → σ)
  (d : β → δ)

@[simp] theorem loads_append : loads (xs ++ ys) = loads xs ++ loads ys := List.filterMap_append

@[simp] theorem stores_append : stores (xs ++ ys) = stores xs ++ stores ys := List.filterMap_append

theorem loads_flatMap : loads (l.flatMap f) = l.flatMap fun b => loads (f b) :=
  List.filterMap_flatMap

theorem stores_flatMap : stores (l.flatMap f) = l.flatMap fun b => stores (f b) :=
  List.filterMap_flatMap

theorem loads_map_load : loads (l.map fun b => (.load (s b) : Access δ σ)) = l.map s := by
  rw [loads, filterMap_map]
  exact congrFun List.filterMap_eq_map' l

theorem stores_map_load : stores (l.map fun b => (.load (s b) : Access δ σ)) = [] := by
  rw [stores, filterMap_map]
  exact List.filterMap_eq_nil_iff.mpr fun _ _ => rfl

theorem loads_map_store : loads (l.map fun b => (.store (d b) (s b) : Access δ σ)) = [] := by
  rw [loads, filterMap_map]
  exact List.filterMap_eq_nil_iff.mpr fun _ _ => rfl

theorem stores_map_store :
    stores (l.map fun b => (.store (d b) (s b) : Access δ σ)) = l.map fun b => (d b, s b) := by
  rw [stores, filterMap_map]
  exact congrFun List.filterMap_eq_map' l

end Access

/-! ## Loops -/

theorem rounds_eq {step : γ → γ} {body : γ → List β} {p : γ} (pointer : Nat → γ)
    (hp : pointer 0 = p) (hstep : ∀ i, step (pointer i) = pointer (i + 1)) (n : Nat) :
    rounds step body n p = (range n).flatMap fun i => body (pointer i) := by
  subst hp
  suffices hfrom : ∀ k, rounds step body n (pointer k) =
      (range n).flatMap fun i => body (pointer (k + i)) by
    rw [hfrom 0]
    simp only [Nat.zero_add]
  induction n with
  | zero => exact fun _ => rfl
  | succ n ih =>
    intro k
    rw [rounds, hstep, ih (k + 1), List.range_succ_eq_map, List.flatMap_cons, List.flatMap_map]
    simp only [Nat.add_zero, Nat.succ_eq_add_one, Nat.add_assoc, Nat.add_comm 1]

theorem takeBlocks_eq {size : Nat} (hsize : 0 < size) (step : γ → γ) (body : γ → List β) (n : Nat)
    (p : γ) : takeBlocks size step body n p =
      (rounds step body (n / size) p, n % size, step^[n / size] p) := by
  induction n using Nat.strong_induction_on generalizing p with
  | _ n ih =>
    rw [takeBlocks]
    by_cases hn : size ≤ n
    · rw [if_pos ⟨hsize, hn⟩, ih (n - size) (Nat.sub_lt_of_pos_le hsize hn),
        Nat.div_eq_sub_div hsize hn, ← Nat.mod_eq_sub_mod hn]
      rfl
    · rw [if_neg fun h => hn h.2, Nat.div_eq_of_lt (Nat.lt_of_not_le hn),
        Nat.mod_eq_of_lt (Nat.lt_of_not_le hn)]
      rfl

theorem rounds_memcpy (srcStride dstStride w n : Nat) (src dst : Int) :
    rounds (fun p : Int × Int => (p.1 + srcStride, p.2 + dstStride))
        (fun p => memcpy p.2 p.1 w) n (src, dst) =
      (range n).flatMap fun y => (range w).map fun x =>
        (dst + (dstStride * y + x : Nat), src + (srcStride * y + x : Nat)) := by
  rw [rounds_eq fun i : Nat => (src + srcStride * i, dst + dstStride * i)]
  · simp only [memcpy, Nat.cast_add, Nat.cast_mul, Int.add_assoc]
  · simp
  · intro i
    simp only [Nat.cast_add, Nat.cast_one, Int.mul_add, Int.mul_one, Int.add_assoc]

theorem rows_eq (base : Int) (m n : Nat) :
    ((range m).flatMap fun i => (range n).map fun j => base + (n * i + j : Nat)) =
      (range (n * m)).map fun k => base + (k : Nat) := by
  rw [← range_flatMap_range, List.map_flatMap]
  simp only [map_map]
  rfl

theorem nodup_rows {n stride : Nat} (h : n ≤ stride) (base : Int) (m : Nat) :
    ((range m).flatMap fun i =>
      (range n).map fun j => base + (stride * i + j : Nat)).Nodup := by
  rw [List.nodup_flatMap]
  constructor
  · intro i _
    refine List.nodup_range.map ?_
    intro j k hjk
    simp only at hjk
    omega
  · refine List.nodup_range.imp_of_mem ?_
    intro i k _ _ hne x hi hk
    obtain ⟨j, hj, rfl⟩ := mem_map.mp hi
    obtain ⟨j', hj', heq⟩ := mem_map.mp hk
    rw [List.mem_range] at hj hj'
    have hsame : stride * k + j' = stride * i + j := by omega
    rcases Nat.lt_or_gt_of_ne hne with hlt | hlt
    · have hle := Nat.mul_le_mul_left stride (Nat.succ_le_of_lt hlt)
      rw [Nat.mul_succ] at hle
      omega
    · have hle := Nat.mul_le_mul_left stride (Nat.succ_le_of_lt hlt)
      rw [Nat.mul_succ] at hle
      omega

theorem pairs_eq (base : Int) (n : Nat) :
    ((range n).flatMap fun i => [base + (2 * i : Nat), base + (2 * i + 1 : Nat)]) =
      (range (2 * n)).map fun k => base + (k : Nat) := by
  induction n with
  | zero => rfl
  | succ n ih =>
    rw [range_succ, List.flatMap_append, ih, Nat.mul_succ, range_succ, range_succ]
    simp

theorem map_range_append (base : Int) (m n : Nat) :
    ((range m).map fun k => base + (k : Nat)) ++
        ((range n).map fun k => base + m + (k : Nat)) =
      (range (m + n)).map fun k => base + (k : Nat) := by
  rw [List.range_add, List.map_append, map_map]
  congr 2
  funext k
  simp only [Function.comp_apply]
  omega

theorem planes_perm (u v : Nat → Nat → β) (m n : Nat) :
    ((range m).flatMap fun j => (range n).flatMap fun i => [u j i, v j i]).Perm
      (((range m).flatMap fun j => (range n).map (u j)) ++
        (range m).flatMap fun j => (range n).map (v j)) := by
  refine .trans (.flatMap_left _ fun j _ => ?_) (List.flatMap_append_perm _ _ _).symm
  rw [List.map_eq_flatMap, List.map_eq_flatMap]
  exact (List.flatMap_append_perm (range n) (fun i => [u j i]) fun i => [v j i]).symm

/-- Numbers of an interval without a repetition are not more than it has. -/
theorem length_le_of_nodup {l : List Int} (h : l.Nodup) {a : Int} {n : Nat}
    (hl : ∀ x ∈ l, a ≤ x ∧ x < a + n) : l.length ≤ n := by
  have hsub : l.toFinset ⊆ Finset.Ico a (a + n) := by
    intro x hx
    exact Finset.mem_Ico.mpr (hl x (List.mem_toFinset.mp hx))
  have hcard := Finset.card_le_card hsub
  rw [List.toFinset_card_of_nodup h, Int.card_Ico] at hcard
  omega

end Omap4Hal.Lib

import Mathlib.Data.List.Infix
import Mathlib.Data.List.Perm.Subperm

/- Walking a graph depth first. What has been seen is a list, in the order in which it was come
   upon, and is not entered again. The walk from a vertex is bounded by a number of levels; in a
   finite graph as many as there are vertices are enough (`visit_returns`), and the walk then adds
   what can be reached, each vertex once (`visit_all_reachable`). Cycles do no harm. -/
namespace Omap4Hal.Lib

variable {α : Type} (next : α → List α)

def Reaches (x y : α) : Prop := Relation.ReflTransGen (fun a b => b ∈ next a) x y

def ReachesCycle (x : α) : Prop :=
  ∃ y, Reaches next x y ∧ Relation.TransGen (fun a b => b ∈ next a) y y

variable {next}

/-- What a walk from the vertices `xs` adds. -/
structure Added (next : α → List α) (xs seen seen' : List α) : Prop where
  kept : seen <+: seen'
  nodup : seen.Nodup → seen'.Nodup
  entered : ∀ x ∈ xs, x ∈ seen'
  added : ∀ y ∈ seen', y ∈ seen ∨
    (∃ x ∈ xs, Reaches next x y) ∧ ∀ z ∈ next y, z ∈ seen'

theorem Added.nil (seen : List α) : Added next [] seen seen := by
  refine ⟨List.prefix_rfl, id, ?_, fun y hy => .inl hy⟩
  intro x hx
  cases hx

variable {x : α} {xs seen seen' : List α}

theorem Added.trans {mid : List α} (h : Added next [x] seen mid) (h' : Added next xs mid seen') :
    Added next (x :: xs) seen seen' := by
  have hsub := h'.kept.subset
  refine ⟨h.kept.trans h'.kept, fun hnd => h'.nodup (h.nodup hnd), ?_, ?_⟩
  · intro y hy
    rcases List.mem_cons.mp hy with rfl | hy
    · exact hsub (h.entered y (by simp))
    · exact h'.entered y hy
  · intro y hy
    rcases h'.added y hy with hmid | ⟨⟨z, hz, hreach⟩, hclosed⟩
    · rcases h.added y hmid with hseen | ⟨⟨z, hz, hreach⟩, hclosed⟩
      · exact .inl hseen
      · obtain rfl := List.mem_singleton.mp hz
        exact .inr ⟨⟨z, by simp, hreach⟩, fun w hw => hsub (hclosed w hw)⟩
    · exact .inr ⟨⟨z, List.mem_cons_of_mem _ hz, hreach⟩, hclosed⟩

theorem Added.skip (hx : x ∈ seen) (h : Added next xs seen seen') :
    Added next (x :: xs) seen seen' := by
  refine ⟨h.kept, h.nodup, ?_, ?_⟩
  · intro y hy
    rcases List.mem_cons.mp hy with rfl | hy
    · exact h.kept.subset hx
    · exact h.entered y hy
  · intro y hy
    rcases h.added y hy with hseen | ⟨⟨z, hz, hreach⟩, hclosed⟩
    · exact .inl hseen
    · exact .inr ⟨⟨z, List.mem_cons_of_mem _ hz, hreach⟩, hclosed⟩

theorem Added.enter (hx : x ∉ seen) (h : Added next (next x) (seen ++ [x]) seen') :
    Added next [x] seen seen' := by
  have hmem : x ∈ seen' := h.kept.subset (by simp)
  refine ⟨(List.prefix_append _ _).trans h.kept, ?_, ?_, ?_⟩
  · intro hnd
    apply h.nodup
    rw [List.nodup_append]
    refine ⟨hnd, by simp, ?_⟩
    intro y hy z hz heq
    obtain rfl := List.mem_singleton.mp hz
    exact hx (heq ▸ hy)
  · intro y hy
    obtain rfl := List.mem_singleton.mp hy
    exact hmem
  · intro y hy
    rcases h.added y hy with hseen | ⟨⟨z, hz, hreach⟩, hclosed⟩
    · rcases List.mem_append.mp hseen with hseen | hseen
      · exact .inl hseen
      · obtain rfl := List.mem_singleton.mp hseen
        exact .inr ⟨⟨y, hseen, .refl⟩, h.entered⟩
    · exact .inr ⟨⟨x, by simp, .head hz hreach⟩, hclosed⟩

variable [DecidableEq α]

/-- Vertices are walked from in turn, those that have been seen apart. -/
def visitAll (visit : List α → α → Option (List α)) : List α → List α → Option (List α)
  | [], seen => some seen
  | y :: ys, seen =>
    if y ∈ seen then visitAll visit ys seen else (visit seen y).bind (visitAll visit ys)

def visit (next : α → List α) : Nat → List α → α → Option (List α)
  | 0, _, _ => none
  | k + 1, seen, x => visitAll (visit next k) (next x) (seen ++ [x])

theorem visitAll_added {visit : List α → α → Option (List α)}
    (hvisit : ∀ seen x seen', x ∉ seen → visit seen x = some seen' → Added next [x] seen seen')
    (h : visitAll visit xs seen = some seen') :
    Added next xs seen seen' := by
  induction xs generalizing seen with
  | nil =>
    obtain rfl := Option.some.inj h
    exact .nil seen
  | cons x xs ih =>
    rw [visitAll] at h
    split at h
    · next hx => exact .skip hx (ih h)
    · next hx =>
      obtain ⟨mid, hmid, hrest⟩ := Option.bind_eq_some_iff.mp h
      exact (hvisit seen x mid hx hmid).trans (ih hrest)

theorem visit_added {k : Nat} (hx : x ∉ seen) (h : visit next k seen x = some seen') :
    Added next [x] seen seen' := by
  induction k generalizing seen seen' x with
  | zero => cases h
  | succ k ih => exact .enter hx (visitAll_added (fun _ _ _ hy hv => ih hy hv) h)

theorem visit_all_reachable {k : Nat} (h : visit next k [] x = some seen) :
    seen.Nodup ∧ ∀ y, y ∈ seen ↔ Reaches next x y := by
  have hadded := visit_added (List.not_mem_nil) h
  refine ⟨hadded.nodup List.nodup_nil, ?_⟩
  intro y
  constructor
  · intro hy
    rcases hadded.added y hy with hnil | ⟨⟨z, hz, hreach⟩, -⟩
    · cases hnil
    · obtain rfl := List.mem_singleton.mp hz
      exact hreach
  · intro hreach
    induction hreach with
    | refl => exact hadded.entered x (by simp)
    | tail hab hbc ih =>
      rcases hadded.added _ ih with hnil | ⟨-, hclosed⟩
      · cases hnil
      · exact hclosed _ hbc

section Finite

variable {all : List α} (hclosed : ∀ x ∈ all, ∀ y ∈ next x, y ∈ all)
include hclosed

theorem visit_returns {k : Nat} {x : α} {seen : List α} (hx : x ∈ all) (hnot : x ∉ seen)
    (hseen : seen ⊆ all) (hnd : seen.Nodup) (hk : all.length ≤ seen.length + k) :
    ∃ seen', visit next k seen x = some seen' ∧ seen' ⊆ all := by
  induction k generalizing x seen with
  | zero =>
    -- everything has been seen
    have hcons : (x :: seen).Nodup := List.nodup_cons.mpr ⟨hnot, hnd⟩
    have hlen := (hcons.subperm (List.cons_subset.mpr ⟨hx, hseen⟩)).length_le
    simp only [List.length_cons] at hlen
    omega
  | succ k ih =>
    have hnext := hclosed x hx
    have hnd' : (seen ++ [x]).Nodup := by
      rw [List.nodup_append]
      refine ⟨hnd, by simp, ?_⟩
      intro y hy z hz heq
      obtain rfl := List.mem_singleton.mp hz
      exact hnot (heq ▸ hy)
    have hseen' : seen ++ [x] ⊆ all :=
      List.append_subset.mpr ⟨hseen, List.cons_subset.mpr ⟨hx, List.nil_subset _⟩⟩
    have hlen : all.length ≤ (seen ++ [x]).length + k := by
      rw [List.length_append, List.length_singleton]
      omega
    rw [visit]
    generalize next x = xs at hnext
    generalize seen ++ [x] = mid at hnd' hseen' hlen
    clear hnot hx
    induction xs generalizing mid with
    | nil => exact ⟨mid, rfl, hseen'⟩
    | cons y ys ihs =>
      have hys : ∀ z ∈ ys, z ∈ all := fun z hz => hnext z (List.mem_cons_of_mem _ hz)
      rw [visitAll]
      split
      · exact ihs hys mid hnd' hseen' hlen
      · next hy =>
        obtain ⟨t, ht, hsub⟩ := ih (hnext y List.mem_cons_self) hy hseen' hnd' hlen
        have hadded := visit_added hy ht
        obtain ⟨u, hu, husub⟩ := ihs hys t (hadded.nodup hnd') hsub
          (Nat.le_trans hlen (Nat.add_le_add_right hadded.kept.length_le k))
        exact ⟨u, by rw [ht, Option.bind_some, hu], husub⟩

end Finite

end Omap4Hal.Lib

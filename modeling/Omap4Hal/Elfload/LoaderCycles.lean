import Mathlib.Algebra.GroupWithZero.Nat
import Mathlib.Order.Lattice
import Omap4Hal.Elfload.LoaderWalk

/- Libraries whose `DT_NEEDED` entries may form cycles. A module is in the queue from the moment it
   is registered, so a dependent that is being loaded is found there and is not loaded again, and
   `check_circular_dependency` never gets to see its name. The load of a module of a finite library
   is a walk over what can be reached from it and always succeeds, with or without a cycle:
   `cycles_rejected_iff`. -/
namespace Omap4Hal.Elfload.Dload

open Lib

/-- Dynamic modules with different names that need each other, and nothing else. -/
structure Library where
  modules : List String
  needs : String → List String
  distinct : modules.Nodup
  closed : ∀ x ∈ modules, ∀ y ∈ needs x, y ∈ modules

/-- The files are valid, and every allocation succeeds. -/
def Library.file (l : Library) (x : String) : Attempt :=
  { soname := x, needed := (l.needs x).map fun y => { name := y } }

def Library.disk (l : Library) : Disk := fun _ x => if x ∈ l.modules then some (l.file x) else none

theorem Library.file_sound (l : Library) (x : String) : (l.file x).Sound := by
  refine ⟨rfl, rfl, rfl, rfl, rfl, rfl, ?_⟩
  refine (if_pos rfl).mpr ⟨rfl, rfl, rfl, rfl, ?_, ?_⟩
  · intro h
    cases h
  · intro n hn
    obtain ⟨y, -, rfl⟩ := List.mem_map.mp hn
    rfl

/-! ## The walk over a library -/

section Walk

variable {l : Library}

theorem walkNeeded_visits {k : Nat}
    (hwalk : ∀ {x seen seen' loading} (o : Nat), x ∈ l.modules → x ∉ seen → loading ⊆ seen →
      visit l.needs k seen x = some seen' →
      ∃ o', walk l.disk k ⟨o, seen⟩ loading (l.file x) = some ⟨o', seen'⟩)
    {ys seen seen' loading : List String} (o : Nat) (hys : ∀ y ∈ ys, y ∈ l.modules)
    (hloading : loading ⊆ seen) (h : visitAll (visit l.needs k) ys seen = some seen') :
    ∃ o', walkNeeded (walk l.disk k) l.disk loading (ys.map fun y => { name := y }) ⟨o, seen⟩ =
      some ⟨o', seen'⟩ := by
  induction ys generalizing seen o with
  | nil =>
    cases h
    exact ⟨o, rfl⟩
  | cons y ys ih =>
    have hrest : ∀ z ∈ ys, z ∈ l.modules := fun z hz => hys z (List.mem_cons_of_mem _ hz)
    rw [visitAll] at h
    rw [List.map_cons, walkNeeded]
    split at h
    · next hy =>
      rw [if_pos hy]
      exact ih o hrest hloading h
    · next hy =>
      have hmem := hys y List.mem_cons_self
      obtain ⟨mid, hmid, hlast⟩ := Option.bind_eq_some_iff.mp h
      obtain ⟨o₁, ho₁⟩ := hwalk (o + 1) hmem hy hloading hmid
      have hkept := (visit_added hy hmid).kept.subset
      obtain ⟨o₂, ho₂⟩ := ih o₁ hrest (fun z hz => hkept (hloading hz)) hlast
      refine ⟨o₂, ?_⟩
      rw [if_neg hy]
      simp only [Library.disk, if_pos hmem]
      rw [ho₁, Option.bind_some]
      exact ho₂

/-- In a library nothing fails: the walk is a visit. What is being loaded is in the queue. -/
theorem walk_visits {k : Nat} {x : String} {seen seen' loading : List String} (o : Nat)
    (hx : x ∈ l.modules) (hseen : x ∉ seen) (hloading : loading ⊆ seen)
    (h : visit l.needs k seen x = some seen') :
    ∃ o', walk l.disk k ⟨o, seen⟩ loading (l.file x) = some ⟨o', seen'⟩ := by
  induction k generalizing x seen seen' loading o with
  | zero => cases h
  | succ k ih =>
    have hname : (l.file x).name = x := rfl
    have hout : x ∉ loading := fun hmem => hseen (hloading hmem)
    have hsub : loading ++ [x] ⊆ seen ++ [x] :=
      List.append_subset.mpr ⟨List.Subset.trans hloading (List.subset_append_left _ _),
        List.subset_append_right _ _⟩
    obtain ⟨o', ho'⟩ := walkNeeded_visits (fun {_ _ _ _} o hy hny hl hv => ih o hy hny hl hv) o
      (l.closed x hx) hsub h
    refine ⟨o', ?_⟩
    rw [walk, if_neg (not_not_intro (l.file_sound x)), hname, if_neg hout]
    exact ho'

end Walk

/-! ## Loads from a library -/

/-- The queue has the modules that can be reached, each of them once, and no other module has been
registered. -/
structure LoadedOnce (l : Library) (x : String) (s : Loader) : Prop where
  once : s.names.Nodup
  reachable : ∀ y, y ∈ s.names ↔ Reaches l.needs x y
  registered : s.fileHandle = 1 + s.names.length

theorem library_load {l : Library} (hfew : l.modules.length < 2 ^ 32) {x : String}
    (hx : x ∈ l.modules) {k : Nat} (hk : l.modules.length ≤ k) :
    ∃ s', dloadLoad l.disk k (dloadCreate true) (l.file x) = some (1, s') ∧ LoadedOnce l x s' := by
  obtain ⟨names, hvisit, hsub⟩ := visit_returns l.closed hx List.not_mem_nil (List.nil_subset _)
    List.nodup_nil (by simpa using hk)
  obtain ⟨hnd, hreach⟩ := visit_all_reachable hvisit
  obtain ⟨o, hwalk⟩ := walk_visits 0 hx List.not_mem_nil (List.Subset.refl _) hvisit
  have hlen := (hnd.subperm hsub).length_le
  obtain ⟨s', hload, -, -, hadv, -⟩ := load_follows l.disk k (dloadCreate true) [] (fun _ => 0)
    (l.file x) ⟨o, names⟩ create_counted create_waiting (fun _ _ => rfl) hwalk (by
      show 1 + names.length ≤ 2 ^ 32 + 0
      omega)
  refine ⟨s', hload, ?_, ?_, ?_⟩
  · rw [hadv.names]
    exact hnd
  · rw [hadv.names]
    exact hreach
  · rw [hadv.names]
    exact hadv.counter

/-- A load of the module ends, succeeds exactly if no cycle can be reached, and has then loaded
what can be reached. -/
def RejectsCycles (l : Library) (x : String) : Prop :=
  ∀ k, l.modules.length ≤ k → ∃ h s',
    dloadLoad l.disk k (dloadCreate true) (l.file x) = some (h, s') ∧
      (h ≠ 0 ↔ ¬ ReachesCycle l.needs x) ∧ (h ≠ 0 → LoadedOnce l x s')

theorem cycles_rejected_iff (l : Library) (hfew : l.modules.length < 2 ^ 32) (x : String)
    (hx : x ∈ l.modules) : RejectsCycles l x ↔ ¬ ReachesCycle l.needs x := by
  constructor
  · intro h
    obtain ⟨s', hload, -⟩ := library_load hfew hx (Nat.le_refl _)
    obtain ⟨handle, t, ht, hiff, -⟩ := h _ (Nat.le_refl _)
    rw [hload] at ht
    cases Option.some.inj ht
    exact hiff.mp Nat.one_ne_zero
  · intro h k hk
    obtain ⟨s', hload, honce⟩ := library_load hfew hx hk
    exact ⟨1, s', hload, ⟨fun _ => h, fun _ => Nat.one_ne_zero⟩, fun _ => honce⟩

/-- `p` needs `a` and `b`, and `a` needs `b`. -/
def shared : Library where
  modules := ["p", "a", "b"]
  needs := fun x => if x = "p" then ["a", "b"] else if x = "a" then ["b"] else []
  distinct := by decide
  closed := by decide

theorem cycles_rejected_shared :
    (shared.modules.length < 2 ^ 32 ∧ "p" ∈ shared.modules ∧ ¬ ReachesCycle shared.needs "p") ∧
      RejectsCycles shared "p" := by
  have hno : ¬ ReachesCycle shared.needs "p" := by
    rintro ⟨y, -, hcycle⟩
    let rank : String → Nat := fun x => if x = "p" then 2 else if x = "a" then 1 else 0
    have hdown : ∀ u v, v ∈ shared.needs u → rank v < rank u := by
      intro u v hv
      unfold shared at hv
      simp only at hv
      split at hv
      · next hu =>
        simp only [List.mem_cons, List.not_mem_nil, or_false] at hv
        rcases hv with rfl | rfl <;> simp [rank, hu]
      · next hp =>
        split at hv
        · next ha =>
          obtain rfl := List.mem_singleton.mp hv
          simp [rank, ha]
        · cases hv
    have hless : Relation.TransGen (· > ·) (rank y) (rank y) := hcycle.lift rank hdown
    rw [Relation.transGen_eq_self] at hless
    exact Nat.lt_irrefl _ hless
  have hfew : shared.modules.length < 2 ^ 32 := by decide
  have hmem : "p" ∈ shared.modules := by decide
  exact ⟨⟨hfew, hmem, hno⟩, (cycles_rejected_iff shared hfew "p" hmem).mpr hno⟩

/-- Two modules that need each other. -/
def ring : Library where
  modules := ["a", "b"]
  needs := fun x => if x = "a" then ["b"] else ["a"]
  distinct := by decide
  closed := by decide

/-- The load of one of them succeeds. -/
theorem cycle_not_rejected :
    ReachesCycle ring.needs "a" ∧
      (∃ s', dloadLoad ring.disk 2 (dloadCreate true) (ring.file "a") = some (1, s') ∧
        s'.names = ["a", "b"]) ∧ ¬ RejectsCycles ring "a" := by
  have hcycle : ReachesCycle ring.needs "a" :=
    ⟨"a", .refl, .tail (b := "b") (.single (by decide)) (by decide)⟩
  have hload : ∃ s', dloadLoad ring.disk 2 (dloadCreate true) (ring.file "a") = some (1, s') ∧
      s'.names = ["a", "b"] := ⟨_, rfl, rfl⟩
  refine ⟨hcycle, hload, ?_⟩
  intro h
  obtain ⟨s', hload, -⟩ := hload
  obtain ⟨handle, t, ht, hiff, -⟩ := h 2 (by decide)
  rw [hload] at ht
  cases Option.some.inj ht
  exact hiff.mp Nat.one_ne_zero hcycle

end Omap4Hal.Elfload.Dload

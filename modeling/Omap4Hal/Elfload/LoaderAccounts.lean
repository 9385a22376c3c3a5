import Omap4Hal.Elfload.LoaderWalk
import Omap4Hal.Lib.Run

/- Runs of loads and unloads. `modules_accounted`: as long as no load fails after its module has
   been registered, but for want of target memory, the queue has the modules that were loaded and
   not freed, and every use count is the number of loads of the client and of listings by modules in
   the queue.

   An unload that takes a use count to zero unloads the dependents of the module before it frees it.
   Meanwhile the module is `dying`: still in the queue, with its listings no longer counted. What
   its dependents have yet to be released from is in `extra`. -/
namespace Omap4Hal.Elfload.Dload

open Lib
open Function (update update_self update_of_ne)
open Loader
open List (append_nil append_of_mem count_cons_self count_pos_iff filter_append mem_cons
  mem_cons_self mem_flatMap nodup_cons nodup_middle)
open Option (bind_eq_bind bind_some map_some some_ne_none)

/-! ## Unloading -/

/-- The modules in the queue that are not dying. -/
def Loader.active (s : Loader) (dying : List Nat) : List Nat :=
  s.loadedObjects.items.filter fun i => decide (i ∉ dying)

structure Releasing (s : Loader) (dying : List Nat) (extra : Nat → Nat) : Prop where
  queue : s.loadedObjects.Intact
  nodup : s.loadedObjects.items.Nodup
  held : ∀ i ∈ s.loadedObjects.items, s.loaded i = some (s.module i)
  handle : ∀ i ∈ s.loadedObjects.items, (s.module i).fileHandle = i
  lists : ∀ i ∈ s.loadedObjects.items, (s.module i).dependencies.held = true
  resolved : ∀ i ∈ s.active dying, ∀ h ∈ s.deps i, h ∈ s.active dying
  counted : ∀ i ∈ s.active dying,
    (s.module i).useCount = ((extra i + ((s.active dying).flatMap s.deps).count i : Nat) : Int)
  used : ∀ i ∈ s.active dying, 0 < extra i + ((s.active dying).flatMap s.deps).count i

/-- What unloading leaves: some modules that were not dying are gone, but for those that `extra`
still has a use for. -/
structure Released (s s' : Loader) (dying : List Nat) (extra : Nat → Nat) : Prop where
  sub : s'.loadedObjects.items ⊆ s.loadedObjects.items
  stays : ∀ i ∈ dying, i ∈ s.loadedObjects.items → i ∈ s'.loadedObjects.items
  kept : ∀ i ∈ s.active dying, 0 < extra i → i ∈ s'.loadedObjects.items
  gone : ∀ i, s'.loaded i ≠ none → s.loaded i ≠ none ∧
    (i ∈ s.loadedObjects.items → i ∈ s'.loadedObjects.items)
  rest : s'.dyn = s.dyn ∧ s'.fileHandle = s.fileHandle ∧ s'.opened = s.opened ∧
    s'.done = s.done ∧ s'.dependencyStack = s.dependencyStack ∧
    s'.moduleDependencyList = s.moduleDependencyList

theorem mem_active {s : Loader} {dying : List Nat} {i : Nat} :
    i ∈ s.active dying ↔ i ∈ s.loadedObjects.items ∧ i ∉ dying := by
  rw [active, List.mem_filter, decide_eq_true_eq]

theorem Released.refl (s : Loader) (dying : List Nat) (extra : Nat → Nat) :
    Released s s dying extra :=
  ⟨List.Subset.refl _, fun _ _ hi => hi, fun _ hi _ => (mem_active.mp hi).1,
    fun _ hi => ⟨hi, id⟩, rfl, rfl, rfl, rfl, rfl, rfl⟩

theorem Released.trans {s t s' : Loader} {dying : List Nat} {extra extra' : Nat → Nat}
    (h : Released s t dying extra) (h' : Released t s' dying extra')
    (hle : ∀ i, extra' i ≤ extra i) : Released s s' dying extra' := by
  obtain ⟨hdyn, hcounter, hopened, hdone, hstack, hlist⟩ := h.rest
  obtain ⟨hdyn', hcounter', hopened', hdone', hstack', hlist'⟩ := h'.rest
  refine ⟨List.Subset.trans h'.sub h.sub, fun i hi hs => h'.stays i hi (h.stays i hi hs), ?_, ?_,
    hdyn'.trans hdyn, hcounter'.trans hcounter, hopened'.trans hopened, hdone'.trans hdone,
    hstack'.trans hstack, hlist'.trans hlist⟩
  · intro i hi hpos
    have hle := hle i
    have hit := h.kept i hi (by omega)
    exact h'.kept i (mem_active.mpr ⟨hit, (mem_active.mp hi).2⟩) hpos
  · intro i hi
    obtain ⟨ht, hkept'⟩ := h'.gone i hi
    obtain ⟨hs, hkept⟩ := h.gone i ht
    exact ⟨hs, fun hmem => hkept' (hkept hmem)⟩

theorem unloadFrom_skip {unload : Loader → Nat → Option (Bool × Loader)} {s : Loader} {handle : Nat}
    {is : List Nat} (rest : List Nat)
    (hother : ∀ i ∈ is, s.loaded i = some (s.module i) ∧ (s.module i).fileHandle ≠ handle) :
    unloadFrom unload handle (is ++ rest) s = unloadFrom unload handle rest s := by
  induction is with
  | nil => rfl
  | cons i is ih =>
    obtain ⟨hheld, hne⟩ := hother i mem_cons_self
    rw [List.cons_append, unloadFrom, hheld]
    simp only [bind_eq_bind, bind_some, if_neg hne]
    exact ih fun j hj => hother j (List.mem_cons_of_mem _ hj)

section Steps

variable {s : Loader} {dying : List Nat} {extra : Nat → Nat} {i : Nat}

theorem deps_setCount (n : Int) :
    (s.setLoaded i { s.module i with useCount := n }).deps = s.deps := by
  funext j
  by_cases hji : j = i
  · rw [hji, deps, module_setLoaded_self, deps]
  · rw [deps, module_setLoaded_of_ne hji, deps]

theorem Releasing.setCount (h : Releasing s dying extra) (n : Int) :
    ∀ j ∈ s.loadedObjects.items,
      (s.setLoaded i { s.module i with useCount := n }).loaded j =
        some ((s.setLoaded i { s.module i with useCount := n }).module j) ∧
      ((s.setLoaded i { s.module i with useCount := n }).module j).fileHandle = j ∧
      ((s.setLoaded i { s.module i with useCount := n }).module j).dependencies.held = true := by
  intro j hj
  refine ⟨setLoaded_held (h.held j hj), ?_, ?_⟩
  · by_cases hji : j = i
    · rw [hji, module_setLoaded_self, ← hji]
      exact h.handle j hj
    · rw [module_setLoaded_of_ne hji]
      exact h.handle j hj
  · by_cases hji : j = i
    · rw [hji, module_setLoaded_self, ← hji]
      exact h.lists j hj
    · rw [module_setLoaded_of_ne hji]
      exact h.lists j hj

theorem Releasing.decrement (h : Releasing s dying extra) (hi : i ∈ s.active dying)
    (hextra : 0 < extra i) (hmore : 1 < extra i + ((s.active dying).flatMap s.deps).count i) :
    Releasing (s.setLoaded i { s.module i with useCount := (s.module i).useCount - 1 }) dying
      (update extra i (extra i - 1)) := by
  have hset := h.setCount (i := i) ((s.module i).useCount - 1)
  have hcounts : ∀ j ∈ s.active dying,
      ((s.setLoaded i { s.module i with
          useCount := (s.module i).useCount - 1 }).module j).useCount =
        ((update extra i (extra i - 1) j +
          ((s.active dying).flatMap s.deps).count j : Nat) : Int) ∧
      0 < update extra i (extra i - 1) j + ((s.active dying).flatMap s.deps).count j := by
    intro j hj
    have hcount := h.counted j hj
    have hused := h.used j hj
    by_cases hji : j = i
    · subst hji
      rw [module_setLoaded_self, update_self]
      simp only [hcount]
      omega
    · rw [module_setLoaded_of_ne hji, update_of_ne hji]
      exact ⟨hcount, hused⟩
  refine ⟨h.queue, h.nodup, fun j hj => (hset j hj).1, fun j hj => (hset j hj).2.1,
    fun j hj => (hset j hj).2.2, ?_, ?_, ?_⟩
  · rw [deps_setCount]
    exact h.resolved
  · rw [deps_setCount]
    exact fun j hj => (hcounts j hj).1
  · rw [deps_setCount]
    exact fun j hj => (hcounts j hj).2

theorem active_cons (hnd : s.loadedObjects.items.Nodup) (hi : i ∈ s.active dying) :
    ∃ xs ys, s.active dying = xs ++ i :: ys ∧ s.active (i :: dying) = xs ++ ys := by
  obtain ⟨xs, ys, hsplit⟩ := append_of_mem hi
  refine ⟨xs, ys, hsplit, ?_⟩
  have hact : s.active (i :: dying) = (s.active dying).filter fun j => decide (j ≠ i) := by
    rw [active, active, List.filter_filter]
    apply List.filter_congr
    intro j _
    simp only [mem_cons, not_or, Bool.decide_and, ne_eq]
  have hnda : (s.active dying).Nodup := hnd.filter _
  rw [hsplit] at hnda
  have hout := (nodup_cons.mp (nodup_middle.mp hnda)).1
  simp only [List.mem_append, not_or] at hout
  have hkeep : ∀ zs : List Nat, i ∉ zs → zs.filter (fun j => decide (j ≠ i)) = zs := by
    intro zs hzs
    rw [List.filter_eq_self]
    intro z hz
    exact decide_eq_true fun heq => hzs (heq ▸ hz)
  rw [hact, hsplit, filter_append, List.filter_cons, hkeep xs hout.1, hkeep ys hout.2]
  simp

theorem count_active_cons (hnd : s.loadedObjects.items.Nodup) (hi : i ∈ s.active dying) (x : Nat) :
    ((s.active dying).flatMap s.deps).count x =
      ((s.active (i :: dying)).flatMap s.deps).count x + (s.deps i).count x := by
  obtain ⟨xs, ys, hsplit, hcons⟩ := active_cons hnd hi
  rw [hsplit, hcons, List.flatMap_append, List.flatMap_append, List.flatMap_cons]
  simp only [List.count_append]
  omega

theorem Releasing.dies (h : Releasing s dying extra) (hi : i ∈ s.active dying)
    (hextra : 0 < extra i) (hlast : extra i + ((s.active dying).flatMap s.deps).count i = 1) :
    Releasing (s.setLoaded i { s.module i with useCount := (s.module i).useCount - 1 }) (i :: dying)
      (fun x => update extra i 0 x + (s.deps i).count x) := by
  have hset := h.setCount (i := i) ((s.module i).useCount - 1)
  have hunlisted : i ∉ (s.active dying).flatMap s.deps := by
    rw [← List.count_eq_zero]
    omega
  have hactive : (s.setLoaded i { s.module i with
      useCount := (s.module i).useCount - 1 }).active (i :: dying) = s.active (i :: dying) := rfl
  have hsub : ∀ j ∈ s.active (i :: dying), j ∈ s.active dying ∧ j ≠ i := by
    intro j hj
    obtain ⟨hmem, hout⟩ := mem_active.mp hj
    simp only [mem_cons, not_or] at hout
    exact ⟨mem_active.mpr ⟨hmem, hout.2⟩, hout.1⟩
  have hcount : ∀ j ∈ s.active (i :: dying),
      (update extra i 0 j + (s.deps i).count j) +
        ((s.active (i :: dying)).flatMap s.deps).count j =
      extra j + ((s.active dying).flatMap s.deps).count j := by
    intro j hj
    rw [update_of_ne (hsub j hj).2, count_active_cons h.nodup hi j]
    omega
  refine ⟨h.queue, h.nodup, fun j hj => (hset j hj).1, fun j hj => (hset j hj).2.1,
    fun j hj => (hset j hj).2.2, ?_, ?_, ?_⟩
  · intro j hj x hx
    rw [deps_setCount] at hx
    rw [hactive] at hj ⊢
    obtain ⟨hmem, hout⟩ := mem_active.mp (h.resolved j (hsub j hj).1 x hx)
    refine mem_active.mpr ⟨hmem, ?_⟩
    simp only [mem_cons, not_or]
    refine ⟨?_, hout⟩
    rintro rfl
    exact hunlisted (mem_flatMap.mpr ⟨j, (hsub j hj).1, hx⟩)
  · intro j hj
    rw [hactive] at hj ⊢
    rw [deps_setCount, hcount j hj, module_setLoaded_of_ne (hsub j hj).2]
    exact h.counted j (hsub j hj).1
  · intro j hj
    rw [hactive] at hj ⊢
    rw [deps_setCount, hcount j hj]
    exact h.used j (hsub j hj).1

theorem Releasing.frees (h : Releasing s (i :: dying) extra) (hi : i ∈ s.loadedObjects.items)
    (hout : i ∉ dying) :
    ∃ s', removeLoadedModule s i = some s' ∧ Releasing s' dying extra ∧
      (∀ j, j ∈ s'.loadedObjects.items ↔ j ∈ s.loadedObjects.items ∧ j ≠ i) ∧
      (∀ j, j ≠ i → s'.loaded j = s.loaded j) ∧ s'.loaded i = none ∧
      (s'.dyn = s.dyn ∧ s'.fileHandle = s.fileHandle ∧ s'.opened = s.opened ∧
        s'.done = s.done ∧ s'.dependencyStack = s.dependencyStack ∧
        s'.moduleDependencyList = s.moduleDependencyList) := by
  obtain ⟨xs, ys, hitems⟩ := append_of_mem hi
  have hnd := h.nodup
  rw [hitems] at hnd
  obtain ⟨hfree, hnd⟩ := nodup_cons.mp (nodup_middle.mp hnd)
  have hfree : i ∉ xs ∧ i ∉ ys := by simpa using hfree
  obtain ⟨hintact, hremoved⟩ := h.queue.remove hitems hfree.1
  have hheld : s.loaded i ≠ none := by
    rw [h.held i hi]
    exact some_ne_none _
  let s' : Loader := { s with loadedObjects := s.loadedObjects.remove i }.deleteLoaded i
  have hmem : ∀ j, j ∈ s'.loadedObjects.items ↔ j ∈ s.loadedObjects.items ∧ j ≠ i := by
    intro j
    show j ∈ (s.loadedObjects.remove i).items ↔ _
    rw [hremoved, hitems]
    simp only [List.mem_append, mem_cons]
    constructor
    · intro hj
      refine ⟨hj.imp id .inr, ?_⟩
      rintro rfl
      exact hj.elim hfree.1 hfree.2
    · rintro ⟨hj, hne⟩
      tauto
  have hloaded : ∀ j, j ≠ i → s'.loaded j = s.loaded j := by
    intro j hj
    simp [s', deleteLoaded, update_of_ne hj]
  have hmodule : ∀ j, j ≠ i → s'.module j = s.module j := by
    intro j hj
    rw [Loader.module, Loader.module, hloaded j hj]
  have hactive : s'.active dying = s.active (i :: dying) := by
    show ((s.loadedObjects.remove i).items).filter _ = (s.loadedObjects.items).filter _
    rw [hremoved, hitems, filter_append, filter_append, List.filter_cons]
    have hsame : ∀ zs : List Nat, i ∉ zs → zs.filter (fun j => decide (j ∉ dying)) =
        zs.filter (fun j => decide (j ∉ i :: dying)) := by
      intro zs hzs
      apply List.filter_congr
      intro z hz
      have hne : z ≠ i := fun heq => hzs (heq ▸ hz)
      simp [hne]
    rw [hsame xs hfree.1, hsame ys hfree.2]
    simp
  have hnotme : ∀ j ∈ s.active (i :: dying), j ≠ i := by
    intro j hj heq
    exact (mem_active.mp hj).2 (heq ▸ mem_cons_self)
  have hdeps : ∀ j ∈ s.active (i :: dying), s'.deps j = s.deps j := by
    intro j hj
    rw [deps, deps, hmodule j (hnotme j hj)]
  have hflat : (s.active (i :: dying)).flatMap s'.deps = (s.active (i :: dying)).flatMap s.deps :=
    List.flatMap_congr hdeps
  refine ⟨s', if_pos ⟨hi, hheld⟩, ⟨hintact, ?_, ?_, ?_, ?_, ?_, ?_, ?_⟩, hmem, hloaded, ?_,
    rfl, rfl, rfl, rfl, rfl, rfl⟩
  · show (s.loadedObjects.remove i).items.Nodup
    rw [hremoved]
    exact hnd
  · intro j hj
    obtain ⟨hj, hne⟩ := (hmem j).mp hj
    rw [hloaded j hne, hmodule j hne]
    exact h.held j hj
  · intro j hj
    obtain ⟨hj, hne⟩ := (hmem j).mp hj
    rw [hmodule j hne]
    exact h.handle j hj
  · intro j hj
    obtain ⟨hj, hne⟩ := (hmem j).mp hj
    rw [hmodule j hne]
    exact h.lists j hj
  · rw [hactive]
    intro j hj
    rw [hdeps j hj]
    exact h.resolved j hj
  · rw [hactive, hflat]
    intro j hj
    rw [hmodule j (hnotme j hj)]
    exact h.counted j hj
  · rw [hactive, hflat]
    exact h.used
  · simp [s', deleteLoaded]

end Steps

/-- Every use is taken back, and the module freed with the last one. -/
def Unloads (unload : Loader → Nat → Option (Bool × Loader)) (n : Nat) : Prop :=
  ∀ (s : Loader) (dying : List Nat) (extra : Nat → Nat) (i : Nat), Releasing s dying extra →
    i ∈ s.active dying → 0 < extra i → (s.active dying).length ≤ n →
    ∃ ok s', unload s i = some (ok, s') ∧
      Releasing s' dying (update extra i (extra i - 1)) ∧
      Released s s' dying (update extra i (extra i - 1))

theorem Released.active_le {s s' : Loader} {dying : List Nat} {extra : Nat → Nat}
    (h : Released s s' dying extra) (hnd : s'.loadedObjects.items.Nodup) :
    (s'.active dying).length ≤ (s.active dying).length := by
  apply (List.Nodup.subperm (hnd.filter _) _).length_le
  intro i hi
  obtain ⟨hmem, hout⟩ := mem_active.mp hi
  exact mem_active.mpr ⟨h.sub hmem, hout⟩

theorem unloadDependents_spec {unload : Loader → Nat → Option (Bool × Loader)} {n : Nat}
    (hunload : Unloads unload n) {hs : List Nat} {s : Loader} {dying : List Nat}
    {extra : Nat → Nat} (h : Releasing s dying extra) (hmem : ∀ x ∈ hs, x ∈ s.active dying)
    (hextra : ∀ x, hs.count x ≤ extra x) (hn : (s.active dying).length ≤ n) :
    ∃ s', unloadDependents unload hs s = some s' ∧
      Releasing s' dying (fun x => extra x - hs.count x) ∧
      Released s s' dying (fun x => extra x - hs.count x) := by
  induction hs generalizing s extra with
  | nil =>
    exact ⟨s, rfl, h, .refl s dying extra⟩
  | cons y ys ih =>
    have hy : 0 < extra y := by
      have hle := hextra y
      rw [count_cons_self] at hle
      omega
    obtain ⟨ok, t, ht, hrel, hreld⟩ := hunload s dying extra y h (hmem y mem_cons_self) hy hn
    have hrest : ∀ x, ys.count x ≤ update extra y (extra y - 1) x := by
      intro x
      have hle := hextra x
      by_cases hxy : x = y
      · rw [hxy, count_cons_self] at hle
        rw [hxy, update_self]
        omega
      · rw [List.count_cons_of_ne (Ne.symm hxy)] at hle
        rw [update_of_ne hxy]
        exact hle
    have hmemt : ∀ x ∈ ys, x ∈ t.active dying := by
      intro x hx
      have hxs := hmem x (List.mem_cons_of_mem _ hx)
      have hpos := count_pos_iff.mpr hx
      have hle := hrest x
      exact mem_active.mpr ⟨hreld.kept x hxs (by omega), (mem_active.mp hxs).2⟩
    have hnt := Nat.le_trans (hreld.active_le hrel.nodup) hn
    obtain ⟨s', hs', hrel', hreld'⟩ := ih hrel hmemt hrest hnt
    have heq : (fun x => update extra y (extra y - 1) x - ys.count x) =
        fun x => extra x - (y :: ys).count x := by
      funext x
      by_cases hxy : x = y
      · rw [hxy, update_self, count_cons_self]
        omega
      · rw [update_of_ne hxy, List.count_cons_of_ne (Ne.symm hxy)]
    rw [heq] at hrel' hreld'
    refine ⟨s', ?_, hrel', hreld.trans hreld' ?_⟩
    · rw [unloadDependents, ht]
      exact hs'
    · intro x
      rw [← congrFun heq x]
      exact Nat.sub_le _ _

/-- One level of `DLOAD_unload`. -/
theorem unloadFrom_spec {unload : Loader → Nat → Option (Bool × Loader)} {n : Nat}
    (hunload : Unloads unload n) {s : Loader} {dying : List Nat} {extra : Nat → Nat} {i : Nat}
    (h : Releasing s dying extra) (hi : i ∈ s.active dying) (hextra : 0 < extra i)
    (hn : (s.active dying).length ≤ n + 1) :
    ∃ ok s', unloadFrom unload i s.loadedObjects.items s = some (ok, s') ∧
      Releasing s' dying (update extra i (extra i - 1)) ∧
      Released s s' dying (update extra i (extra i - 1)) := by
  obtain ⟨hmem, hout⟩ := mem_active.mp hi
  obtain ⟨xs, ys, hsplit⟩ := append_of_mem hmem
  have hnd := h.nodup
  rw [hsplit] at hnd
  obtain ⟨hxs, hys⟩ : i ∉ xs ∧ i ∉ ys := by
    simpa using (nodup_cons.mp (nodup_middle.mp hnd)).1
  have hcount := h.counted i hi
  have hused := h.used i hi
  have hstart : unloadFrom unload i s.loadedObjects.items s =
      unloadFrom unload i (i :: ys) s := by
    rw [hsplit]
    refine unloadFrom_skip (i :: ys) ?_
    intro j hj
    have hjmem : j ∈ s.loadedObjects.items := by simp [hsplit, hj]
    refine ⟨h.held j hjmem, ?_⟩
    rw [h.handle j hjmem]
    exact fun heq => hxs (heq ▸ hj)
  rw [hstart, unloadFrom, h.held i hmem]
  simp only [bind_eq_bind, bind_some, if_pos (h.handle i hmem)]
  have hframe : ∀ n : Int, Released s (s.setLoaded i { s.module i with useCount := n }) dying
      (update extra i (extra i - 1)) := by
    intro n
    refine ⟨List.Subset.refl _, fun _ _ hj => hj, fun j hj _ => (mem_active.mp hj).1, ?_,
      rfl, rfl, rfl, rfl, rfl, rfl⟩
    intro j hj
    refine ⟨?_, id⟩
    by_cases hji : j = i
    · rw [hji, h.held i hmem]
      exact some_ne_none _
    · simpa [setLoaded, update_of_ne hji] using hj
  by_cases hlast : extra i + ((s.active dying).flatMap s.deps).count i = 1
  · -- the last use: the dependents are released, then the module is freed
    have hzero : (s.module i).useCount - 1 = 0 := by omega
    rw [if_pos hzero, if_neg (by simp [h.lists i hmem])]
    have hdies := h.dies hi hextra hlast
    have hnew : ∀ x ∈ s.deps i, x ∈ s.active (i :: dying) := by
      intro x hx
      obtain ⟨hxmem, hxout⟩ := mem_active.mp (h.resolved i hi x hx)
      refine mem_active.mpr ⟨hxmem, ?_⟩
      simp only [mem_cons, not_or]
      refine ⟨?_, hxout⟩
      rintro rfl
      have hpos : 0 < ((s.active dying).flatMap s.deps).count x :=
        count_pos_iff.mpr (mem_flatMap.mpr ⟨x, hi, hx⟩)
      omega
    have hlen : (s.active (i :: dying)).length ≤ n := by
      obtain ⟨as, bs, hact, hcons⟩ := active_cons h.nodup hi
      rw [hact] at hn
      rw [hcons]
      simp only [List.length_append, List.length_cons] at hn ⊢
      omega
    obtain ⟨t, ht, hrel, hreld⟩ := unloadDependents_spec hunload hdies hnew
      (fun x => Nat.le_add_left _ _) hlen
    have hback : (fun x => update extra i 0 x + (s.deps i).count x - (s.deps i).count x) =
        update extra i 0 := by
      funext x
      exact Nat.add_sub_cancel _ _
    rw [hback] at hrel hreld
    have hit : i ∈ t.loadedObjects.items := hreld.stays i mem_cons_self hmem
    obtain ⟨s', hs', hrel', hitems, hloaded, hfreed, hdyn, hcounter, hopened, hdone, hstack,
      hlist⟩ := hrel.frees hit hout
    have hone : extra i - 1 = 0 := by omega
    rw [hone]
    refine ⟨true, s', ?_, hrel', ?_⟩
    · have ht : unloadDependents unload (s.module i).dependencies.elems
          (s.setLoaded i { s.module i with useCount := (s.module i).useCount - 1 }) = some t := ht
      rw [ht, bind_some, hs', bind_some]
    obtain ⟨hdyn', hcounter', hopened', hdone', hstack', hlist'⟩ := hreld.rest
    refine ⟨?_, ?_, ?_, ?_, hdyn.trans hdyn', hcounter.trans hcounter', hopened.trans hopened',
      hdone.trans hdone', hstack.trans hstack', hlist.trans hlist'⟩
    · intro j hj
      exact hreld.sub ((hitems j).mp hj).1
    · intro j hj hjs
      refine (hitems j).mpr ⟨hreld.stays j (List.mem_cons_of_mem _ hj) hjs, ?_⟩
      rintro rfl
      exact hout hj
    · intro j hj hpos
      have hji : j ≠ i := by
        rintro rfl
        rw [update_self] at hpos
        exact Nat.lt_irrefl _ hpos
      obtain ⟨hjmem, hjout⟩ := mem_active.mp hj
      refine (hitems j).mpr ⟨hreld.kept j (mem_active.mpr ⟨hjmem, ?_⟩) hpos, hji⟩
      simp only [mem_cons, not_or]
      exact ⟨hji, hjout⟩
    · intro j hj
      have hji : j ≠ i := by
        rintro rfl
        exact hj hfreed
      rw [hloaded j hji] at hj
      obtain ⟨hjs, hkept⟩ := hreld.gone j hj
      refine ⟨?_, fun hjmem => (hitems j).mpr ⟨hkept hjmem, hji⟩⟩
      simpa [setLoaded, update_of_ne hji] using hjs
  · have hmore : (s.module i).useCount - 1 ≠ 0 := by omega
    rw [if_neg hmore]
    refine ⟨false, _, ?_, h.decrement hi hextra (by omega), hframe _⟩
    rw [← append_nil ys]
    refine unloadFrom_skip [] ?_
    intro j hj
    have hji : j ≠ i := fun heq => hys (heq ▸ hj)
    have hjmem : j ∈ s.loadedObjects.items := by simp [hsplit, hj]
    refine ⟨setLoaded_held (h.held j hjmem), ?_⟩
    rw [module_setLoaded_of_ne hji, h.handle j hjmem]
    exact hji

theorem unload_spec (n : Nat) : Unloads (dloadUnload n) n := by
  induction n with
  | zero =>
    intro s dying extra i _ hi _ hn
    have hpos := List.length_pos_of_mem hi
    omega
  | succ n ih =>
    intro s dying extra i h hi hextra hn
    exact unloadFrom_spec ih h hi hextra hn

/-! ## Runs -/

/-- The loads of the client that are outstanding, and the listings by modules in the queue. -/
def Client.uses (c : Client) (handle : Nat) : Nat :=
  c.holds.count handle + c.loader.listings handle

/-- The queue has the modules that were loaded and not freed, each once; a use count is the number
of uses, and a module is freed when there is none. -/
structure Accounted (c : Client) : Prop where
  exact : ∀ i, i ∈ c.loader.loadedObjects.items ↔ i ∈ c.loader.done ∧ c.loader.loaded i ≠ none
  once : c.loader.loadedObjects.items.Nodup
  counts : ∀ i ∈ c.loader.loadedObjects.items, ∃ m, c.loader.loaded i = some m ∧
    m.useCount = (c.uses m.fileHandle : Int) ∧ 0 < m.useCount
  freed : ∀ i ∈ c.loader.done, c.loader.loaded i = none ↔ c.uses (i % 2 ^ 32) = 0

structure Settled (c : Client) : Prop where
  counted : Counted c.loader fun i => c.holds.count i
  waiting : Waiting c.loader []
  holds : ∀ i ∈ c.holds, i ∈ c.loader.loadedObjects.items

theorem Settled.accounted {c : Client} (h : Settled c) : Accounted c := by
  have hmem : ∀ i ∈ c.loader.loadedObjects.items, i ∈ c.loader.done ∧ c.loader.loaded i ≠ none := by
    intro i hi
    rcases h.waiting.finished i hi with hdone | hloading
    · refine ⟨hdone, ?_⟩
      rw [h.counted.held i hi]
      exact some_ne_none _
    · cases hloading
  refine ⟨?_, h.counted.nodup, ?_, ?_⟩
  · intro i
    refine ⟨hmem i, ?_⟩
    rintro ⟨hdone, hloaded⟩
    exact (h.waiting.done i hdone).2.2 hloaded
  · intro i hi
    have hcount := h.counted.counted i hi
    have hused := h.counted.used i hi
    refine ⟨c.loader.module i, h.counted.held i hi, ?_, by omega⟩
    rw [h.counted.handle i hi]
    exact hcount
  · intro i hi
    obtain ⟨-, hsmall, hlive⟩ := h.waiting.done i hi
    rw [Nat.mod_eq_of_lt hsmall]
    constructor
    · -- what is held or listed is in the queue
      intro hfreed
      have hout : i ∉ c.loader.loadedObjects.items := fun hmem' => (hmem i hmem').2 hfreed
      have hheld : c.holds.count i = 0 :=
        List.count_eq_zero_of_not_mem fun hheld => hout (h.holds i hheld)
      have hlisted : c.loader.listings i = 0 := by
        apply List.count_eq_zero_of_not_mem
        intro hlist
        obtain ⟨j, hj, hij⟩ := mem_flatMap.mp hlist
        exact hout (h.counted.resolved j hj i hij)
      rw [Client.uses, hheld, hlisted]
    · intro hunused
      by_contra hloaded
      have hused : 0 < c.uses i := h.counted.used i (hlive hloaded)
      omega

/-- A load of the client has found nothing wrong, or has failed before the module was registered or
for want of target memory; what the client unloads it has loaded, or there is no such module. -/
def Clean (c : Client) : ClientCall → Prop
  | .load a disk depth => accepts c.loader a = some false ∨
      (a.relocatable = true ∧ a.segments = false ∧ a.loadedModule = true ∧ a.queueNode = true) ∨
      ∃ w, walk disk (depth + 1) ⟨c.loader.opened, c.loader.names⟩ [] a = some w ∧
        c.loader.fileHandle + w.names.length ≤ 2 ^ 32 + c.loader.names.length
  | .unload handle => handle ∈ c.holds ∨ ∀ i ∈ c.loader.loadedObjects.items, i % 2 ^ 32 ≠ handle

section Calls

variable {c : Client}

theorem Settled.accepts_ne_none (h : Settled c) (a : Attempt) : accepts c.loader a ≠ none := by
  have hcheck : checkCircularDependency c.loader a.soname = some true := by
    rw [checkCircularDependency, h.waiting.list, if_neg (by simp)]
    rfl
  unfold accepts
  rw [hcheck]
  split
  · exact some_ne_none _
  split
  · exact some_ne_none _
  split
  · exact some_ne_none _
  · exact some_ne_none _

theorem Settled.abandon (h : Settled c) {a : Attempt} (hnode : a.queueNode = true) :
    Settled ⟨(c.loader.register a).abandon c.loader.fileHandle, c.holds⟩ := by
  have hbelow : ∀ i ∈ c.loader.loadedObjects.items, i ≠ c.loader.fileHandle := fun i hi =>
    Nat.ne_of_lt (h.counted.below i hi).2.1
  have hout : c.loader.fileHandle ∉ c.loader.loadedObjects.items := fun hmem => hbelow _ hmem rfl
  have hloaded : ∀ i, i ≠ c.loader.fileHandle →
      ((c.loader.register a).abandon c.loader.fileHandle).loaded i = c.loader.loaded i := by
    intro i hi
    simp [Loader.abandon, Loader.register, detach, deleteLoaded,
      update_of_ne hi]
  have hqueue : ((c.loader.register a).abandon c.loader.fileHandle).loadedObjects =
      c.loader.loadedObjects := by
    show (c.loader.loadedObjects.enqueue c.loader.fileHandle a.queueNode).remove _ = _
    rw [hnode]
    obtain ⟨hintact, hitems⟩ := h.counted.queue.enqueue c.loader.fileHandle
    obtain ⟨hintact', hitems'⟩ := hintact.remove hitems hout
    rw [append_nil] at hitems'
    exact Queue.Intact.ext hintact' h.counted.queue hitems'
  have hstack : c.loader.dependencyStack.items = [] :=
    List.getLast?_eq_none_iff.mp h.waiting.bottom
  refine ⟨h.counted.congr (fun i hi => hloaded i (hbelow i hi)) hqueue (Nat.le_succ _), ?_, ?_⟩
  · refine ⟨h.waiting.held, h.waiting.list, h.waiting.stack, h.waiting.nodup, ?_, ?_,
      h.waiting.bottom, ?_, ?_, Nat.succ_pos _⟩
    · intro i hi
      have hi : i ∈ c.loader.dependencyStack.items := hi
      rw [hstack] at hi
      cases hi
    · intro i hi
      cases hi
    · intro i hi
      obtain ⟨hlt, hsmall, hlive⟩ := h.waiting.done i hi
      refine ⟨Nat.lt_succ_of_lt hlt, hsmall, ?_⟩
      rw [hloaded i (Nat.ne_of_lt hlt), hqueue]
      exact hlive
    · rw [hqueue]
      exact h.waiting.finished
  · rw [hqueue]
    exact h.holds

theorem Settled.load (h : Settled c) {a : Attempt} {disk : Disk} {depth : Nat}
    (hclean : Clean c (.load a disk depth)) :
    ∃ c', clientStep c (.load a disk depth) = some c' ∧ Settled c' := by
  have hrefused : ∀ {a}, accepts c.loader a = some false →
      ∃ c', clientStep c (.load a disk depth) = some c' ∧ Settled c' := by
    intro a haccepts
    refine ⟨c, ?_, h⟩
    simp only [clientStep, dloadLoad, haccepts, map_some, if_true]
  rcases hclean with haccepts | ⟨hreloc, hseg, hmodule, hnode⟩ | ⟨w, hwalk, hfew⟩
  · exact hrefused haccepts
  · cases haccepts : accepts c.loader a with
    | none => exact absurd haccepts (h.accepts_ne_none a)
    | some accepted =>
      cases accepted with
      | false => exact hrefused haccepts
      | true =>
        refine ⟨_, ?_, h.abandon hnode⟩
        simp only [clientStep, dloadLoad, haccepts, hmodule, hreloc, hseg, Bool.true_eq_false,
          if_false, if_true, map_some]
  · have hnone : ∀ i, c.loader.fileHandle ≤ i → c.holds.count i = 0 := by
      intro i hi
      apply List.count_eq_zero_of_not_mem
      intro hmem
      have hlt := (h.counted.below i (h.holds i hmem)).2.1
      omega
    obtain ⟨s', hload, hc, hw, hadv, hnew⟩ := load_follows disk (depth + 1) c.loader [] _ a w
      h.counted h.waiting hnone hwalk hfew
    have hpos := h.waiting.started
    refine ⟨⟨s', c.loader.fileHandle :: c.holds⟩, ?_, ?_, hw, ?_⟩
    · simp only [clientStep, hload, map_some, if_neg (Nat.ne_of_gt hpos)]
    · have hcount : (fun i => (c.loader.fileHandle :: c.holds).count i) =
          update (fun i => c.holds.count i) c.loader.fileHandle 1 := by
        funext i
        by_cases hi : i = c.loader.fileHandle
        · rw [hi, update_self, count_cons_self, hnone _ (Nat.le_refl _)]
        · rw [update_of_ne hi, List.count_cons_of_ne (Ne.symm hi)]
      rw [← hcount] at hc
      exact hc
    · intro i hi
      rcases mem_cons.mp hi with rfl | hi
      · exact hnew
      · exact (hadv.kept i (h.holds i hi)).1

theorem active_nil (s : Loader) : s.active [] = s.loadedObjects.items := by
  simp [active]

theorem Counted.releasing {s : Loader} {extra : Nat → Nat} (h : Counted s extra) :
    Releasing s [] extra := by
  refine ⟨h.queue, h.nodup, h.held, h.handle, h.lists, ?_, ?_, ?_⟩
  · rw [active_nil]
    exact h.resolved
  · rw [active_nil]
    exact h.counted
  · rw [active_nil]
    exact h.used

theorem Settled.unload (h : Settled c) {handle : Nat} (hclean : Clean c (.unload handle)) :
    ∃ c', clientStep c (.unload handle) = some c' ∧ Settled c' := by
  rcases hclean with hheld | hother
  · have hmem := h.holds handle hheld
    have hpos := count_pos_iff.mpr hheld
    have hact : ∀ i, i ∈ c.loader.loadedObjects.items → i ∈ c.loader.active [] := by
      intro i hi
      rw [active_nil]
      exact hi
    obtain ⟨ok, s', hunload, hrel, hreld⟩ := unload_spec (c.loader.loadedObjects.items.length + 1)
      c.loader [] _ handle h.counted.releasing (hact _ hmem) hpos (by rw [active_nil]; omega)
    obtain ⟨hdyn, hcounter, -, hdone, hstack, hlist⟩ := hreld.rest
    have hcount : update (fun i => c.holds.count i) handle (c.holds.count handle - 1) =
        fun i => (c.holds.erase handle).count i := by
      funext i
      by_cases hi : i = handle
      · rw [hi, update_self, List.count_erase_self]
      · rw [update_of_ne hi, List.count_erase_of_ne hi]
    rw [hcount] at hrel hreld
    have hempty : c.loader.dependencyStack.items = [] :=
      List.getLast?_eq_none_iff.mp h.waiting.bottom
    refine ⟨⟨s', c.holds.erase handle⟩, ?_, ?_, ?_, ?_⟩
    · simp only [clientStep, hunload, map_some]
    · refine ⟨hrel.queue, hrel.nodup, ?_, hrel.held, hrel.handle, hrel.lists, ?_, ?_, ?_⟩
      · intro i hi
        rw [hcounter]
        exact h.counted.below i (hreld.sub hi)
      · have hresolved := hrel.resolved
        rw [active_nil] at hresolved
        exact hresolved
      · have hcounted := hrel.counted
        rw [active_nil] at hcounted
        exact hcounted
      · have hused := hrel.used
        rw [active_nil] at hused
        exact hused
    · refine ⟨?_, ?_, ?_, ?_, ?_, ?_, ?_, ?_, ?_, ?_⟩
      · rw [hlist]
        exact h.waiting.held
      · rw [hlist]
        exact h.waiting.list
      · rw [hstack]
        exact h.waiting.stack
      · rw [hstack]
        exact h.waiting.nodup
      · intro i hi
        rw [hstack, hempty] at hi
        cases hi
      · intro i hi
        cases hi
      · rw [hstack]
        exact h.waiting.bottom
      · intro i hi
        rw [hdone] at hi
        obtain ⟨hlt, hsmall, hlive⟩ := h.waiting.done i hi
        rw [hcounter]
        refine ⟨hlt, hsmall, ?_⟩
        intro hloaded
        obtain ⟨hbefore, hkept⟩ := hreld.gone i hloaded
        exact hkept (hlive hbefore)
      · intro i hi
        rw [hdone]
        exact h.waiting.finished i (hreld.sub hi)
      · rw [hcounter]
        exact h.waiting.started
    · intro i hi
      exact hreld.kept i (hact i (h.holds i (List.mem_of_mem_erase hi))) (count_pos_iff.mpr hi)
  · refine ⟨c, ?_, h⟩
    have hskip : dloadUnload (c.loader.loadedObjects.items.length + 1) c.loader handle =
        some (false, c.loader) := by
      rw [dloadUnload, ← append_nil c.loader.loadedObjects.items]
      refine unloadFrom_skip [] ?_
      intro i hi
      refine ⟨h.counted.held i hi, ?_⟩
      rw [h.counted.handle i hi]
      have hne := hother i hi
      rwa [Nat.mod_eq_of_lt (h.counted.below i hi).2.2] at hne
    have hnot : handle ∉ c.holds := by
      intro hmem
      have hi := h.holds handle hmem
      exact hother handle hi (Nat.mod_eq_of_lt (h.counted.below handle hi).2.2)
    simp only [clientStep, hskip, map_some, List.erase_of_not_mem hnot]

end Calls

theorem start_settled : Settled ⟨dloadCreate true, []⟩ :=
  ⟨create_counted, create_waiting, fun i hi => by cases hi⟩

/-- In a run of such calls the modules are accounted for all along. -/
theorem modules_accounted (calls : List ClientCall)
    (hcalls : Guarded clientStep Clean ⟨dloadCreate true, []⟩ calls) :
    Always clientStep Accounted ⟨dloadCreate true, []⟩ calls := by
  refine Guarded.always (fun c h => Settled.accounted h) ?_ hcalls start_settled
  intro c call h hclean
  cases call with
  | load a disk depth => exact h.load hclean
  | unload handle => exact h.unload hclean

/-- A library, a program that needs it and another one, and the unloading of both. -/
theorem modules_accounted_shared :
    Guarded clientStep Clean ⟨dloadCreate true, []⟩
      [.load { soname := "a" } (fun _ _ => none) 0,
        .load { soname := "p", needed := [⟨"a", true⟩, ⟨"b", true⟩] }
          (fun _ x => if x = "b" then some { soname := "b" } else none) 1, .unload 2, .unload 1] ∧
    Always clientStep Accounted ⟨dloadCreate true, []⟩
      [.load { soname := "a" } (fun _ _ => none) 0,
        .load { soname := "p", needed := [⟨"a", true⟩, ⟨"b", true⟩] }
          (fun _ x => if x = "b" then some { soname := "b" } else none) 1, .unload 2,
        .unload 1] := by
  have hcalls : Guarded clientStep Clean ⟨dloadCreate true, []⟩
      [.load { soname := "a" } (fun _ _ => none) 0,
        .load { soname := "p", needed := [⟨"a", true⟩, ⟨"b", true⟩] }
          (fun _ x => if x = "b" then some { soname := "b" } else none) 1, .unload 2,
        .unload 1] := by
    refine Guarded.cons (.inr (.inr ⟨⟨0, ["a"]⟩, by decide, by decide⟩)) rfl
      (Guarded.cons (.inr (.inr ⟨⟨1, ["a", "p", "b"]⟩, by decide, by decide⟩)) rfl
        (Guarded.cons (.inl ?_) rfl (Guarded.cons (.inl ?_) rfl trivial)))
    · exact mem_cons_self
    · exact mem_cons_self
  exact ⟨hcalls, modules_accounted _ hcalls⟩

/-- A program that needs the library and a file that is missing: its load fails, and the library is
counted twice, with one load of the client and no module that lists it. -/
theorem modules_not_accounted :
    (∃ c, run clientStep ⟨dloadCreate true, []⟩
        [.load { soname := "a" } (fun _ _ => none) 0,
          .load { soname := "p", needed := [⟨"a", true⟩, ⟨"b", true⟩] } (fun _ _ => none) 0] =
        some c ∧ c.loader.loadedObjects.items = [1] ∧ c.holds = [1] ∧ c.uses 1 = 1 ∧
      ∃ m, c.loader.loaded 1 = some m ∧ m.useCount = 2 ∧ m.fileHandle = 1) ∧
    ¬ Always clientStep Accounted ⟨dloadCreate true, []⟩
      [.load { soname := "a" } (fun _ _ => none) 0,
        .load { soname := "p", needed := [⟨"a", true⟩, ⟨"b", true⟩] } (fun _ _ => none) 0] := by
  have hrun : ∃ c, run clientStep ⟨dloadCreate true, []⟩
      [.load { soname := "a" } (fun _ _ => none) 0,
        .load { soname := "p", needed := [⟨"a", true⟩, ⟨"b", true⟩] } (fun _ _ => none) 0] =
      some c ∧ c.loader.loadedObjects.items = [1] ∧ c.holds = [1] ∧ c.uses 1 = 1 ∧
        ∃ m, c.loader.loaded 1 = some m ∧ m.useCount = 2 ∧ m.fileHandle = 1 :=
    ⟨_, rfl, rfl, rfl, rfl, _, rfl, rfl, rfl⟩
  refine ⟨hrun, ?_⟩
  intro h
  obtain ⟨c, hc, hitems, -, huses, m, hm, hcount, hhandle⟩ := hrun
  obtain ⟨c', hc', hacc⟩ := h.last
  cases hc.symm.trans hc'
  obtain ⟨m', hm', hcount', -⟩ := hacc.counts 1 (by simp [hitems])
  cases hm.symm.trans hm'
  rw [hhandle, huses, hcount] at hcount'
  cases hcount'

end Omap4Hal.Elfload.Dload

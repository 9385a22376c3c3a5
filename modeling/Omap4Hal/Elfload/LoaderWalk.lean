import Mathlib.Data.List.Nodup
import Omap4Hal.Elfload.Loader
import Omap4Hal.Lib.DepthFirst

/- Loads in which nothing fails. `walk` is such a load in terms of names: which modules come to be
   loaded, in which order. `load_follows` says that `DLOAD_load` does what the walk does, with the
   queue, the stack, the list of names and the use counts in order all along. -/
namespace Omap4Hal.Elfload.Dload

open Lib
open Function (update update_self update_of_ne)
open List (flatMap_congr length_append length_singleton map_congr_left map_cons mem_append
  mem_append_left mem_cons mem_cons_of_mem mem_cons_self mem_singleton nodup_cons nodup_nil)
open Option (bind bind_eq_bind bind_some map_some some_ne_none)
open Loader

/-! ## The walk over the names -/

/-- A file that fails nowhere. -/
def Attempt.Sound (a : Attempt) : Prop :=
  a.dynModule = true ∧ a.headers = true ∧ a.valid = true ∧ a.loadedModule = true ∧
    a.dependencies = true ∧ a.queueNode = true ∧
    if a.relocatable then
      a.information = true ∧ a.segments = true ∧ a.listSpace = true ∧ a.stackNode = true ∧
        (a.dsbt = true → a.registered = true) ∧ ∀ n ∈ a.needed, n.space = true
    else a.emptyName = true ∧ a.staticSegment = true

instance (a : Attempt) : Decidable a.Sound :=
  inferInstanceAs (Decidable (_ ∧ _ ∧ _ ∧ _ ∧ _ ∧ _ ∧ ite _ _ _))

/-- How many dependents have been opened, and the names in the queue. -/
structure Walk where
  opened : Nat
  names : List String
  deriving DecidableEq

section

variable (walk : Walk → List String → Attempt → Option Walk) (disk : Disk) (loading : List String)

def walkNeeded : List Needed → Walk → Option Walk
  | [], w => some w
  | n :: rest, w =>
    if n.name ∈ w.names then walkNeeded rest w
    else
      match disk w.opened n.name with
      | none => none
      | some a => (walk ⟨w.opened + 1, w.names⟩ loading a).bind (walkNeeded rest)

end

/-- The names after a load, if nothing fails. `loading`: the names of the modules being loaded. -/
def walk (disk : Disk) : Nat → Walk → List String → Attempt → Option Walk
  | 0, _, _, _ => none
  | k + 1, w, loading, a =>
    if ¬ a.Sound then none
    else if a.relocatable = false then some ⟨w.opened, w.names ++ [a.name]⟩
    else if a.name ∈ loading then none
    else
      walkNeeded (walk disk k) disk (loading ++ [a.name]) a.needed
        ⟨w.opened, w.names ++ [a.name]⟩

variable {w : Walk} {s s' : Loader} {extra : Nat → Nat} {loading : List Nat}

theorem walkNeeded_grows {step : Walk → List String → Attempt → Option Walk} {disk : Disk}
    {loading : List String} (hstep : ∀ w a w', step w loading a = some w' → w.names <+: w'.names)
    {needed : List Needed} {w' : Walk} (h : walkNeeded step disk loading needed w = some w') :
    w.names <+: w'.names := by
  induction needed generalizing w with
  | nil =>
    cases h
    exact List.prefix_rfl
  | cons n rest ih =>
    rw [walkNeeded] at h
    split at h
    · exact ih h
    · split at h
      · cases h
      · obtain ⟨v, hv, hrest⟩ := Option.bind_eq_some_iff.mp h
        exact (hstep _ _ _ hv).trans (ih hrest)

theorem walk_grows {disk : Disk} {k : Nat} {w' : Walk} {loading : List String} {a : Attempt}
    (h : walk disk k w loading a = some w') : w.names ++ [a.name] <+: w'.names := by
  induction k generalizing w w' loading a with
  | zero => cases h
  | succ k ih =>
    rw [walk] at h
    split at h
    · cases h
    split at h
    · cases h
      exact List.prefix_rfl
    split at h
    · cases h
    · exact walkNeeded_grows
        (fun v b v' hv => (List.prefix_append _ _).trans (ih hv)) h

/-! ## The loader in order -/

/-- What is at a module's address. -/
def Loader.module (s : Loader) (i : Nat) : LoadedModule := (s.loaded i).getD ⟨"", 0, 0, {}⟩

def Loader.deps (s : Loader) (i : Nat) : List Nat := (s.module i).dependencies.elems

def Loader.names (s : Loader) : List String :=
  s.loadedObjects.items.map fun i => (s.module i).name

/-- How often a handle is listed as a dependency by a module in the queue. -/
def Loader.listings (s : Loader) (handle : Nat) : Nat :=
  (s.loadedObjects.items.flatMap s.deps).count handle

/-- The queue and the modules in it. A use count is the number of listings and `extra`. -/
structure Counted (s : Loader) (extra : Nat → Nat) : Prop where
  queue : s.loadedObjects.Intact
  nodup : s.loadedObjects.items.Nodup
  below : ∀ i ∈ s.loadedObjects.items, 0 < i ∧ i < s.fileHandle ∧ i < 2 ^ 32
  held : ∀ i ∈ s.loadedObjects.items, s.loaded i = some (s.module i)
  handle : ∀ i ∈ s.loadedObjects.items, (s.module i).fileHandle = i
  lists : ∀ i ∈ s.loadedObjects.items, (s.module i).dependencies.held = true
  resolved : ∀ i ∈ s.loadedObjects.items, ∀ h ∈ s.deps i, h ∈ s.loadedObjects.items
  counted : ∀ i ∈ s.loadedObjects.items,
    (s.module i).useCount = ((extra i + s.listings i : Nat) : Int)
  used : ∀ i ∈ s.loadedObjects.items, 0 < extra i + s.listings i

/-- The modules that are being loaded, and those that wait for their relocation. -/
structure Waiting (s : Loader) (loading : List Nat) : Prop where
  held : s.moduleDependencyList.held = true
  list : s.moduleDependencyList.elems = loading
  stack : s.dependencyStack.Intact
  nodup : s.dependencyStack.items.Nodup
  stacked : ∀ i ∈ s.dependencyStack.items,
    i ∈ s.loadedObjects.items ∧ s.dyn i = some (s.module i).name
  waits : ∀ i ∈ loading, i ∈ s.dependencyStack.items
  bottom : s.dependencyStack.items.getLast? = loading.head?
  done : ∀ i ∈ s.done, i < s.fileHandle ∧ i < 2 ^ 32 ∧
    (s.loaded i ≠ none → i ∈ s.loadedObjects.items)
  finished : ∀ i ∈ s.loadedObjects.items, i ∈ s.done ∨ i ∈ loading
  started : 0 < s.fileHandle

section Modules

variable {s : Loader} {i j : Nat} {m : LoadedModule}

@[simp] theorem module_setLoaded_self : (s.setLoaded i m).module i = m := by
  simp [Loader.module, Loader.setLoaded]

theorem module_setLoaded_of_ne (h : j ≠ i) : (s.setLoaded i m).module j = s.module j := by
  simp [Loader.module, Loader.setLoaded, update_of_ne h]

theorem setLoaded_held {i j : Nat} (hj : s.loaded j = some (s.module j)) :
    (s.setLoaded i m).loaded j = some ((s.setLoaded i m).module j) := by
  by_cases hji : j = i
  · rw [hji, module_setLoaded_self]
    simp [Loader.setLoaded]
  · rw [module_setLoaded_of_ne hji, ← hj]
    simp [Loader.setLoaded, update_of_ne hji]

theorem names_setLoaded (h : m.name = (s.module i).name) : (s.setLoaded i m).names = s.names := by
  refine map_congr_left ?_
  intro j _
  by_cases hji : j = i
  · rw [hji, module_setLoaded_self, h]
  · rw [module_setLoaded_of_ne hji]

theorem Waiting.setLoaded {loading : List Nat} (hs : Waiting s loading)
    (hi : i ∈ s.loadedObjects.items) (h : m.name = (s.module i).name) :
    Waiting (s.setLoaded i m) loading := by
  refine ⟨hs.held, hs.list, hs.stack, hs.nodup, ?_, hs.waits, hs.bottom, ?_, hs.finished,
    hs.started⟩
  · intro j hj
    obtain ⟨hmem, hdyn⟩ := hs.stacked j hj
    refine ⟨hmem, ?_⟩
    show s.dyn j = _
    rw [hdyn]
    by_cases hji : j = i
    · rw [hji, module_setLoaded_self, h]
    · rw [module_setLoaded_of_ne hji]
  · intro j hj
    obtain ⟨hlt, hsmall, hmem⟩ := hs.done j hj
    refine ⟨hlt, hsmall, ?_⟩
    intro hheld
    by_cases hji : j = i
    · exact hji ▸ hi
    · apply hmem
      simpa [Loader.setLoaded, update_of_ne hji] using hheld

end Modules

/-! ## Counting -/

section Counting

variable {s : Loader} {extra : Nat → Nat} {i j : Nat}

theorem Counted.bump (h : Counted s extra) (hj : j ∈ s.loadedObjects.items) :
    Counted (s.setLoaded j { s.module j with useCount := (s.module j).useCount + 1 })
      (update extra j (extra j + 1)) := by
  have hmodule : ∀ x, ((s.setLoaded j { s.module j with
      useCount := (s.module j).useCount + 1 }).module x).fileHandle = (s.module x).fileHandle ∧
      ((s.setLoaded j { s.module j with
        useCount := (s.module j).useCount + 1 }).module x).dependencies =
          (s.module x).dependencies := by
    intro x
    by_cases hx : x = j
    · rw [hx, module_setLoaded_self]
      exact ⟨rfl, rfl⟩
    · rw [module_setLoaded_of_ne hx]
      exact ⟨rfl, rfl⟩
  have hdeps : (s.setLoaded j { s.module j with
      useCount := (s.module j).useCount + 1 }).deps = s.deps := by
    funext x
    rw [Loader.deps, Loader.deps, (hmodule x).2]
  refine ⟨h.queue, h.nodup, h.below, fun x hx => setLoaded_held (h.held x hx), ?_, ?_, ?_, ?_, ?_⟩
  · intro x hx
    rw [(hmodule x).1]
    exact h.handle x hx
  · intro x hx
    rw [(hmodule x).2]
    exact h.lists x hx
  · intro x hx
    rw [hdeps]
    exact h.resolved x hx
  · intro x hx
    have hcount := h.counted x hx
    rw [Loader.listings, hdeps]
    by_cases hxj : x = j
    · subst hxj
      rw [module_setLoaded_self, update_self]
      show (s.module x).useCount + 1 = ((extra x + 1 + s.listings x : Nat) : Int)
      rw [hcount]
      omega
    · rw [module_setLoaded_of_ne hxj, update_of_ne hxj]
      exact hcount
  · intro x hx
    have hused := h.used x hx
    rw [Loader.listings, hdeps]
    show 0 < _ + s.listings x
    by_cases hxj : x = j
    · rw [hxj, update_self]
      omega
    · rw [update_of_ne hxj]
      exact hused

theorem Counted.list (h : Counted s extra) (hi : i ∈ s.loadedObjects.items)
    (hj : j ∈ s.loadedObjects.items) (hextra : 0 < extra j) :
    ∃ deps, s.listDependency i j true =
        some (s.setLoaded i { s.module i with dependencies := deps }) ∧
      Counted (s.setLoaded i { s.module i with dependencies := deps })
        (update extra j (extra j - 1)) := by
  obtain ⟨deps, hdeps, hheld, helems⟩ := ArrayList.append_held (h.lists i hi) j
  refine ⟨deps, ?_, ?_⟩
  · simp only [listDependency, h.held i hi, hdeps, bind_eq_bind, bind_some]
  have hself : (s.setLoaded i { s.module i with dependencies := deps }).deps i =
      s.deps i ++ [j] := by
    rw [Loader.deps, module_setLoaded_self]
    exact helems
  have hother : ∀ x, x ≠ i →
      (s.setLoaded i { s.module i with dependencies := deps }).deps x = s.deps x := by
    intro x hx
    rw [Loader.deps, module_setLoaded_of_ne hx, Loader.deps]
  have hlisted : ∀ x, (s.setLoaded i { s.module i with dependencies := deps }).listings x =
      s.listings x + if j = x then 1 else 0 := by
    intro x
    obtain ⟨xs, ys, hsplit⟩ := List.append_of_mem hi
    have hnd := h.nodup
    rw [hsplit] at hnd
    have hout := (nodup_cons.mp (List.nodup_middle.mp hnd)).1
    simp only [mem_append, not_or] at hout
    have hflat : ∀ zs : List Nat, i ∉ zs →
        zs.flatMap (s.setLoaded i { s.module i with dependencies := deps }).deps =
          zs.flatMap s.deps := by
      intro zs hzs
      apply flatMap_congr
      intro z hz
      exact hother z fun heq => hzs (heq ▸ hz)
    show (s.loadedObjects.items.flatMap _).count x = (s.loadedObjects.items.flatMap _).count x + _
    rw [hsplit, List.flatMap_append, List.flatMap_append, List.flatMap_cons, List.flatMap_cons,
      hflat xs hout.1, hflat ys hout.2, hself]
    simp only [List.count_append, List.count_singleton]
    by_cases hjx : j = x
    · subst hjx
      simp
      omega
    · simp [hjx]
  refine ⟨h.queue, h.nodup, h.below, fun x hx => setLoaded_held (h.held x hx), ?_, ?_, ?_, ?_, ?_⟩
  · intro x hx
    by_cases hxi : x = i
    · rw [hxi, module_setLoaded_self]
      exact h.handle i hi
    · rw [module_setLoaded_of_ne hxi]
      exact h.handle x hx
  · intro x hx
    by_cases hxi : x = i
    · rw [hxi, module_setLoaded_self]
      exact hheld
    · rw [module_setLoaded_of_ne hxi]
      exact h.lists x hx
  · intro x hx y hy
    by_cases hxi : x = i
    · rw [hxi, hself] at hy
      rcases mem_append.mp hy with hy | hy
      · exact h.resolved i hi y hy
      · exact mem_singleton.mp hy ▸ hj
    · rw [hother x hxi] at hy
      exact h.resolved x hx y hy
  · intro x hx
    have hcount := h.counted x hx
    have huse : ((s.setLoaded i { s.module i with dependencies := deps }).module x).useCount =
        (s.module x).useCount := by
      by_cases hxi : x = i
      · rw [hxi, module_setLoaded_self]
      · rw [module_setLoaded_of_ne hxi]
    rw [huse, hlisted, hcount]
    by_cases hxj : x = j
    · subst hxj
      rw [update_self, if_pos rfl]
      omega
    · rw [update_of_ne hxj, if_neg fun heq => hxj heq.symm]
      rfl
  · intro x hx
    have hused := h.used x hx
    rw [hlisted]
    by_cases hxj : x = j
    · rw [hxj, update_self, if_pos rfl]
      omega
    · rw [update_of_ne hxj]
      omega

end Counting

/-! ## Registering -/

section Register

variable {s : Loader} {extra : Nat → Nat} {a : Attempt}

theorem module_register_self : (s.register a).module s.fileHandle =
    ⟨a.name, s.fileHandle % 2 ^ 32, 1, { held := a.dependencies }⟩ := by
  simp [Loader.module, Loader.register]

theorem module_register_of_ne {i : Nat} (hi : i ≠ s.fileHandle) :
    (s.register a).module i = s.module i := by
  simp [Loader.module, Loader.register, update_of_ne hi]

theorem Counted.register (h : Counted s extra) (hstart : 0 < s.fileHandle)
    (hfew : s.fileHandle < 2 ^ 32) (ha : a.Sound) :
    Counted (s.register a) (update extra s.fileHandle 1) ∧
      (s.register a).loadedObjects.items = s.loadedObjects.items ++ [s.fileHandle] ∧
      (s.register a).names = s.names ++ [a.name] := by
  obtain ⟨-, -, -, -, hdeps, hnode, -⟩ := ha
  have hitems : (s.register a).loadedObjects.items = s.loadedObjects.items ++ [s.fileHandle] := by
    have hqueue := (h.queue.enqueue s.fileHandle).2
    rw [← hnode] at hqueue
    exact hqueue
  have hne : ∀ i ∈ s.loadedObjects.items, i ≠ s.fileHandle := fun i hi =>
    Nat.ne_of_lt (h.below i hi).2.1
  have hold : ∀ i ∈ s.loadedObjects.items, (s.register a).module i = s.module i := fun i hi =>
    module_register_of_ne (hne i hi)
  have hnodeps : (s.register a).deps s.fileHandle = [] := by
    rw [Loader.deps, module_register_self]
  have hlisted : ∀ x, (s.register a).listings x = s.listings x := by
    intro x
    have hflat : s.loadedObjects.items.flatMap (s.register a).deps =
        s.loadedObjects.items.flatMap s.deps := by
      apply flatMap_congr
      intro i hi
      rw [Loader.deps, Loader.deps, hold i hi]
    rw [Loader.listings, Loader.listings, hitems, List.flatMap_append, hflat]
    simp [hnodeps]
  have hunlisted : s.listings s.fileHandle = 0 := by
    apply List.count_eq_zero_of_not_mem
    intro hmem
    obtain ⟨i, hi, hlist⟩ := List.mem_flatMap.mp hmem
    exact hne _ (h.resolved i hi _ hlist) rfl
  have hcases : ∀ i ∈ (s.register a).loadedObjects.items,
      i ∈ s.loadedObjects.items ∨ i = s.fileHandle := by
    intro i hi
    rw [hitems] at hi
    simpa using hi
  refine ⟨⟨?_, ?_, ?_, ?_, ?_, ?_, ?_, ?_, ?_⟩, hitems, ?_⟩
  · have hqueue := (h.queue.enqueue s.fileHandle).1
    rw [← hnode] at hqueue
    exact hqueue
  · rw [hitems, List.nodup_append]
    refine ⟨h.nodup, by simp, ?_⟩
    intro i hi j hj
    rw [mem_singleton.mp hj]
    exact hne i hi
  · intro i hi
    show 0 < i ∧ i < s.fileHandle + 1 ∧ i < 2 ^ 32
    rcases hcases i hi with hi | rfl
    · have hb := h.below i hi
      omega
    · omega
  · intro i hi
    rcases hcases i hi with hi | rfl
    · rw [hold i hi, ← h.held i hi]
      simp [Loader.register, update_of_ne (hne i hi)]
    · rw [module_register_self]
      simp [Loader.register]
  · intro i hi
    rcases hcases i hi with hi | rfl
    · rw [hold i hi]
      exact h.handle i hi
    · rw [module_register_self]
      exact Nat.mod_eq_of_lt hfew
  · intro i hi
    rcases hcases i hi with hi | rfl
    · rw [hold i hi]
      exact h.lists i hi
    · rw [module_register_self]
      exact hdeps
  · intro i hi x hx
    rw [hitems]
    rcases hcases i hi with hi | rfl
    · rw [Loader.deps, hold i hi] at hx
      exact mem_append_left _ (h.resolved i hi x hx)
    · rw [hnodeps] at hx
      cases hx
  · intro i hi
    rw [hlisted]
    rcases hcases i hi with hi | rfl
    · rw [hold i hi, update_of_ne (hne i hi)]
      exact h.counted i hi
    · rw [module_register_self, update_self, hunlisted]
      rfl
  · intro i hi
    rw [hlisted]
    rcases hcases i hi with hi | rfl
    · rw [update_of_ne (hne i hi)]
      exact h.used i hi
    · rw [update_self]
      omega
  · rw [Loader.names, hitems, List.map_append, List.map_singleton, module_register_self]
    congr 1
    apply map_congr_left
    intro i hi
    rw [hold i hi]

theorem namesDiffer_spec {s : Loader} {name : String} {is : List Nat}
    (hdyn : ∀ i ∈ is, s.dyn i = some (s.module i).name)
    (hname : name ∉ is.map fun i => (s.module i).name) : namesDiffer s name is = some true := by
  induction is with
  | nil => rfl
  | cons i is ih =>
    simp only [map_cons, mem_cons, not_or] at hname
    rw [namesDiffer, hdyn i mem_cons_self]
    simp only [if_neg hname.1]
    exact ih (fun j hj => hdyn j (mem_cons_of_mem _ hj)) hname.2

theorem accepts_sound {loading : List Nat} (hw : Waiting s loading) (ha : a.Sound)
    (hname : a.relocatable = true → a.name ∉ loading.map fun i => (s.module i).name) :
    accepts s a = some true := by
  obtain ⟨hdyn, hheaders, hvalid, -, -, -, hrest⟩ := ha
  unfold accepts
  simp only [hdyn, hheaders, hvalid, Bool.and_self, Bool.true_eq_false, if_false, Bool.and_true]
  cases hreloc : a.relocatable with
  | false =>
    rw [hreloc] at hrest
    simp only [if_true]
    exact congrArg some hrest.1
  | true =>
    rw [hreloc] at hrest
    simp only [Bool.true_eq_false, if_false, hrest.1]
    have hcheck : checkCircularDependency s a.soname = some true := by
      have hsoname : a.name = a.soname := by rw [Attempt.name, if_pos hreloc]
      have hfree := hname hreloc
      rw [hsoname] at hfree
      rw [checkCircularDependency, if_neg (by simp [hw.held]), hw.list]
      exact namesDiffer_spec (fun i hi => (hw.stacked i (hw.waits i hi)).2) hfree
    rw [hcheck]

end Register

theorem findNamed_spec (name : String) {is : List Nat}
    (hheld : ∀ i ∈ is, s.loaded i = some (s.module i)) :
    (name ∈ is.map (fun i => (s.module i).name) ∧ ∃ j ∈ is, findNamed s name is = some (some j)) ∨
      (name ∉ is.map (fun i => (s.module i).name) ∧ findNamed s name is = some none) := by
  induction is with
  | nil => exact .inr ⟨by simp, rfl⟩
  | cons i is ih =>
    rw [findNamed, hheld i mem_cons_self]
    simp only
    split
    · next heq => exact .inl ⟨by simp [heq], i, by simp, rfl⟩
    · next hne =>
      rcases ih (fun j hj => hheld j (mem_cons_of_mem _ hj)) with ⟨hmem, j, hj, hfound⟩ |
        ⟨hmem, hnone⟩
      · exact .inl ⟨by simp only [map_cons, mem_cons]; exact .inr hmem,
          j, mem_cons_of_mem _ hj, hfound⟩
      · refine .inr ⟨?_, hnone⟩
        simp only [map_cons, mem_cons, not_or]
        exact ⟨fun heq => hne heq.symm, hmem⟩

theorem relocateAll_spec (hstack : s.dependencyStack.Intact) (hnd : s.dependencyStack.items.Nodup)
    (hheld : ∀ i ∈ s.dependencyStack.items, s.dyn i ≠ none ∧ s.loaded i ≠ none) :
    ∃ dyn stack, relocateAll s.dependencyStack.size.toNat s =
        some { s with dyn := dyn, dependencyStack := stack } ∧
      stack.Intact ∧ stack.items = [] := by
  rw [hstack.size, Int.toNat_natCast]
  generalize hitems : s.dependencyStack.items = items at hnd hheld
  induction items generalizing s with
  | nil => exact ⟨s.dyn, s.dependencyStack, rfl, hstack, hitems⟩
  | cons i is ih =>
    obtain ⟨stack, hpop, hintact, hrest⟩ := hstack.pop hitems
    obtain ⟨hdyn, hloaded⟩ := hheld i mem_cons_self
    obtain ⟨name, hname⟩ := Option.ne_none_iff_exists'.mp hdyn
    obtain ⟨m, hm⟩ := Option.ne_none_iff_exists'.mp hloaded
    obtain ⟨hout, hnd⟩ := nodup_cons.mp hnd
    obtain ⟨dyn, stack', hall, hintact', hempty⟩ :=
      ih (s := { s with dependencyStack := stack }.detach i) hintact hrest hnd (by
        intro j hj
        have hji : j ≠ i := fun heq => hout (heq ▸ hj)
        obtain ⟨hdynj, hloadedj⟩ := hheld j (mem_cons_of_mem _ hj)
        exact ⟨by simpa [detach, update_of_ne hji] using hdynj, hloadedj⟩)
    refine ⟨dyn, stack', ?_, hintact', hempty⟩
    simp only [List.length_cons, relocateAll, hpop, hname, hm, bind_eq_bind,
      bind_some]
    rw [hall]
    rfl

/-! ## The loader follows the walk -/

theorem Counted.congr (h : Counted s extra)
    (hloaded : ∀ i ∈ s.loadedObjects.items, s'.loaded i = s.loaded i)
    (hqueue : s'.loadedObjects = s.loadedObjects) (hcounter : s.fileHandle ≤ s'.fileHandle) :
    Counted s' extra := by
  have hmodule : ∀ i ∈ s.loadedObjects.items, s'.module i = s.module i := by
    intro i hi
    rw [Loader.module, Loader.module, hloaded i hi]
  have hdeps : ∀ i ∈ s.loadedObjects.items, s'.deps i = s.deps i := by
    intro i hi
    rw [Loader.deps, Loader.deps, hmodule i hi]
  have hlistings : ∀ x, s'.listings x = s.listings x := by
    intro x
    rw [Loader.listings, Loader.listings, hqueue, flatMap_congr hdeps]
  refine ⟨?_, ?_, ?_, ?_, ?_, ?_, ?_, ?_, ?_⟩
  · rw [hqueue]
    exact h.queue
  · rw [hqueue]
    exact h.nodup
  · intro i hi
    rw [hqueue] at hi
    have hb := h.below i hi
    omega
  all_goals
    intro i hi
    rw [hqueue] at hi
  · rw [hloaded i hi, hmodule i hi]
    exact h.held i hi
  · rw [hmodule i hi]
    exact h.handle i hi
  · rw [hmodule i hi]
    exact h.lists i hi
  · rw [hqueue, hdeps i hi]
    exact h.resolved i hi
  · rw [hmodule i hi, hlistings]
    exact h.counted i hi
  · rw [hlistings]
    exact h.used i hi

theorem names_congr (hloaded : s'.loaded = s.loaded) (hqueue : s'.loadedObjects = s.loadedObjects) :
    s'.names = s.names := by
  rw [Loader.names, Loader.names, hqueue]
  apply map_congr_left
  intro i _
  rw [Loader.module, Loader.module, hloaded]

/-- What has come of a load: the names are those of the walk. -/
structure Advanced (s s' : Loader) (w : Walk) : Prop where
  opened : s'.opened = w.opened
  names : s'.names = w.names
  counter : s'.fileHandle + s.names.length = s.fileHandle + w.names.length
  kept : ∀ i ∈ s.loadedObjects.items,
    i ∈ s'.loadedObjects.items ∧ (s'.module i).name = (s.module i).name

theorem Advanced.trans {t : Loader} {v : Walk} (h : Advanced s t v) (h' : Advanced t s' w) :
    Advanced s s' w := by
  refine ⟨h'.opened, h'.names, ?_, ?_⟩
  · have hst := h.counter
    have hts := h'.counter
    rw [h.names] at hts
    omega
  · intro i hi
    obtain ⟨hmem, hname⟩ := h.kept i hi
    obtain ⟨hmem', hname'⟩ := h'.kept i hmem
    exact ⟨hmem', hname'.trans hname⟩

/-- The names of the modules being loaded. -/
def Loader.namesOf (s : Loader) (is : List Nat) : List String := is.map fun i => (s.module i).name

theorem Advanced.namesOf (h : Advanced s s' w) {is : List Nat}
    (his : ∀ i ∈ is, i ∈ s.loadedObjects.items) : s'.namesOf is = s.namesOf is := by
  apply map_congr_left
  intro i hi
  exact (h.kept i (his i hi)).2

/-- A load does what a walk does: its module is counted once, and everything else is in order. -/
def Follows (load : Loader → Attempt → Option (Nat × Loader))
    (walk : Walk → List String → Attempt → Option Walk) : Prop :=
  ∀ (s : Loader) (loading : List Nat) (extra : Nat → Nat) (a : Attempt) (w : Walk),
    Counted s extra → Waiting s loading → (∀ i, s.fileHandle ≤ i → extra i = 0) →
    walk ⟨s.opened, s.names⟩ (s.namesOf loading) a = some w →
    s.fileHandle + w.names.length ≤ 2 ^ 32 + s.names.length →
    ∃ s', load s a = some (s.fileHandle, s') ∧
      Counted s' (update extra s.fileHandle 1) ∧ Waiting s' loading ∧ Advanced s s' w ∧
      s.fileHandle ∈ s'.loadedObjects.items

theorem list_advanced {p j : Nat} (hc : Counted s extra) (hw : Waiting s loading) (hp : p ∈ loading)
    (hj : j ∈ s.loadedObjects.items) (hextra : 0 < extra j) :
    ∃ s', s.listDependency p j true = some s' ∧
      Counted s' (update extra j (extra j - 1)) ∧ Waiting s' loading ∧
      Advanced s s' ⟨s.opened, s.names⟩ := by
  have hpmem := (hw.stacked p (hw.waits p hp)).1
  obtain ⟨deps, hlist, hc'⟩ := hc.list hpmem hj hextra
  refine ⟨_, hlist, hc', hw.setLoaded hpmem rfl, rfl, names_setLoaded rfl, rfl, ?_⟩
  intro i hi
  refine ⟨hi, ?_⟩
  by_cases hip : i = p
  · rw [hip, module_setLoaded_self]
  · rw [module_setLoaded_of_ne hip]

section Dependents

variable {load : Loader → Attempt → Option (Nat × Loader)} {disk : Disk}
  {walk : Walk → List String → Attempt → Option Walk} (hload : Follows load walk)
  (hgrows : ∀ w loading a w', walk w loading a = some w' → w.names <+: w'.names)
include hload hgrows

theorem dependencies_follow {needed : List Needed} {s : Loader} {loading : List Nat}
    {extra : Nat → Nat} {p : Nat} {w : Walk} (hc : Counted s extra) (hw : Waiting s loading)
    (hp : p ∈ loading) (hspace : ∀ n ∈ needed, n.space = true)
    (hextra : ∀ i, s.fileHandle ≤ i → extra i = 0)
    (hwalk : walkNeeded walk disk (s.namesOf loading) needed ⟨s.opened, s.names⟩ = some w)
    (hfew : s.fileHandle + w.names.length ≤ 2 ^ 32 + s.names.length) :
    ∃ s', dloadAndAllocateDependencies load disk p needed s = some (true, s') ∧
      Counted s' extra ∧ Waiting s' loading ∧ Advanced s s' w := by
  induction needed generalizing s with
  | nil =>
    cases hwalk
    exact ⟨s, rfl, hc, hw, rfl, rfl, rfl, fun i hi => ⟨hi, rfl⟩⟩
  | cons n rest ih =>
    have hloading : ∀ i ∈ loading, i ∈ s.loadedObjects.items := fun i hi =>
      (hw.stacked i (hw.waits i hi)).1
    have hrestspace : ∀ m ∈ rest, m.space = true := fun m hm => hspace m (mem_cons_of_mem _ hm)
    rw [dloadAndAllocateDependencies, hspace n mem_cons_self]
    rw [walkNeeded] at hwalk
    rcases findNamed_spec n.name hc.held with ⟨hmem, j, hj, hfound⟩ | ⟨hmem, hfound⟩
    · -- the dependent is in the queue: it is counted and listed
      have hmem : n.name ∈ s.names := hmem
      rw [if_pos hmem] at hwalk
      have hbumped := hc.bump hj
      have hwbumped : Waiting (s.setLoaded j { s.module j with
          useCount := (s.module j).useCount + 1 }) loading := hw.setLoaded hj rfl
      obtain ⟨t, hlist, hct, hwt, hadv⟩ := list_advanced hbumped hwbumped hp hj
        (by rw [update_self]; exact Nat.succ_pos _)
      rw [update_self, Nat.add_sub_cancel, Function.update_idem,
        Function.update_eq_self] at hct
      have hadv : Advanced s t ⟨s.opened, s.names⟩ := by
        refine ⟨hadv.opened, ?_, ?_, ?_⟩
        · rw [hadv.names]
          exact names_setLoaded rfl
        · have hcounter := hadv.counter
          simp only at hcounter ⊢
          rw [Nat.add_right_cancel hcounter]
          rfl
        · intro i hi
          obtain ⟨hti, hname⟩ := hadv.kept i hi
          refine ⟨hti, hname.trans ?_⟩
          by_cases hij : i = j
          · rw [hij, module_setLoaded_self]
          · rw [module_setLoaded_of_ne hij]
      have hcounter : t.fileHandle = s.fileHandle := Nat.add_right_cancel hadv.counter
      obtain ⟨s', hdeps, hc', hw', hadv'⟩ := ih hct hwt hrestspace
        (by rw [hcounter]; exact hextra)
        (by rw [hadv.namesOf hloading, hadv.opened, hadv.names]; exact hwalk)
        (by rw [hcounter, hadv.names]; exact hfew)
      refine ⟨s', ?_, hc', hw', hadv.trans hadv'⟩
      have hlist :=
        (congrArg (fun h => listDependency _ p h true) (hc.handle j hj)).trans hlist
      simp only [hfound, hc.held j hj, bind_eq_bind, bind_some]
      rw [hlist, bind_some]
      exact hdeps
    · -- the dependent is loaded and listed
      have hmem : n.name ∉ s.names := hmem
      rw [if_neg hmem] at hwalk
      cases hdisk : disk s.opened n.name with
      | none =>
        simp only [hdisk] at hwalk
        cases hwalk
      | some a =>
        simp only [hdisk] at hwalk
        obtain ⟨v, hv, hrest⟩ := Option.bind_eq_some_iff.mp hwalk
        have hle := (walkNeeded_grows (fun _ _ _ h => hgrows _ _ _ _ h) hrest).length_le
        have hlev := (hgrows _ _ _ _ hv).length_le
        have hcs : Counted { s with opened := s.opened + 1 } extra :=
          hc.congr (fun _ _ => rfl) rfl (Nat.le_refl _)
        have hws : Waiting { s with opened := s.opened + 1 } loading :=
          ⟨hw.held, hw.list, hw.stack, hw.nodup, hw.stacked, hw.waits, hw.bottom, hw.done,
            hw.finished, hw.started⟩
        obtain ⟨t, hloaded, hct, hwt, hadv, hjt⟩ := hload { s with opened := s.opened + 1 } loading
          extra a v hcs hws hextra hv (by
            show s.fileHandle + v.names.length ≤ 2 ^ 32 + s.names.length
            omega)
        have hadv : Advanced s t v := ⟨hadv.opened, hadv.names, hadv.counter, hadv.kept⟩
        obtain ⟨u, hlist, hcu, hwu, hadvu⟩ := list_advanced hct hwt hp hjt
          (by rw [update_self]; exact Nat.one_pos)
        have hzero : extra s.fileHandle = 0 := hextra _ (Nat.le_refl _)
        rw [update_self, Nat.sub_self, Function.update_idem, ← hzero,
          Function.update_eq_self] at hcu
        have hadvu : Advanced s u v := by
          have htrans := hadv.trans hadvu
          rw [hadv.opened, hadv.names] at htrans
          exact htrans
        have hcounter := hadvu.counter
        obtain ⟨s', hdeps, hc', hw', hadv'⟩ := ih hcu hwu hrestspace
          (fun i hi => hextra i (by simp only at hlev; omega))
          (by rw [hadvu.namesOf hloading, hadvu.opened, hadvu.names]; exact hrest)
          (by rw [hadvu.names]; omega)
        refine ⟨s', ?_, hc', hw', hadvu.trans hadv'⟩
        simp only [hfound, bind_eq_bind, bind_some, dlifLoadDependent, hdisk]
        rw [hloaded, bind_some]
        simp only
        rw [hlist, bind_some, if_neg (Nat.ne_of_gt hw.started)]
        exact hdeps

end Dependents

theorem finish_eq {i : Nat} (hpos : 0 < i) (hlt : i < 2 ^ 32) (s : Loader) :
    s.finish i = (i, { s with done := s.done ++ [i] }) := by
  rw [finish, Nat.mod_eq_of_lt hlt, if_neg (Nat.ne_of_gt hpos)]

theorem Waiting.push {a : Attempt} {list : ArrayList} (hw : Waiting s loading)
    (hitems : (s.register a).loadedObjects.items = s.loadedObjects.items ++ [s.fileHandle])
    (hbelow : ∀ i ∈ s.loadedObjects.items, i ≠ s.fileHandle) (hheld : list.held = true)
    (helems : list.elems = loading ++ [s.fileHandle]) :
    Waiting { s.register a with
      moduleDependencyList := list
      dependencyStack := s.dependencyStack.push s.fileHandle true }
        (loading ++ [s.fileHandle]) := by
  obtain ⟨hintact, hpushed⟩ := hw.stack.push s.fileHandle
  have hout : s.fileHandle ∉ s.dependencyStack.items := fun hmem =>
    hbelow _ (hw.stacked _ hmem).1 rfl
  refine ⟨hheld, helems, hintact, ?_, ?_, ?_, ?_, ?_, ?_, Nat.succ_pos _⟩
  · rw [hpushed]
    exact nodup_cons.mpr ⟨hout, hw.nodup⟩
  · intro i hi
    rw [hpushed] at hi
    show i ∈ (s.register a).loadedObjects.items ∧ (s.register a).dyn i =
      some ((s.register a).module i).name
    rw [hitems]
    rcases mem_cons.mp hi with rfl | hi
    · rw [module_register_self]
      exact ⟨by simp, by simp [Loader.register]⟩
    · obtain ⟨hmem, hdyn⟩ := hw.stacked i hi
      rw [module_register_of_ne (hbelow i hmem), ← hdyn]
      exact ⟨mem_append_left _ hmem,
        by simp [Loader.register, update_of_ne (hbelow i hmem)]⟩
  · intro i hi
    rw [hpushed]
    rcases mem_append.mp hi with hi | hi
    · exact mem_cons_of_mem _ (hw.waits i hi)
    · rw [mem_singleton.mp hi]
      exact mem_cons_self
  · rw [hpushed, List.getLast?_cons, hw.bottom]
    cases loading <;> rfl
  · intro i hi
    obtain ⟨hlt, hsmall, hmem⟩ := hw.done i hi
    refine ⟨Nat.lt_succ_of_lt hlt, hsmall, ?_⟩
    intro hloaded
    show i ∈ (s.register a).loadedObjects.items
    rw [hitems]
    apply mem_append_left
    apply hmem
    simpa [Loader.register, update_of_ne (Nat.ne_of_lt hlt)] using hloaded
  · intro i hi
    have hi : i ∈ (s.register a).loadedObjects.items := hi
    rw [hitems] at hi
    rcases mem_append.mp hi with hi | hi
    · rcases hw.finished i hi with hdone | hloading
      · exact .inl hdone
      · exact .inr (mem_append_left _ hloading)
    · exact .inr (List.mem_append_right _ hi)

theorem Waiting.static {a : Attempt} (hw : Waiting s loading) (hsmall : s.fileHandle < 2 ^ 32)
    (hitems : (s.register a).loadedObjects.items = s.loadedObjects.items ++ [s.fileHandle])
    (hbelow : ∀ i ∈ s.loadedObjects.items, i ≠ s.fileHandle) :
    Waiting { (s.register a).detach s.fileHandle with done := s.done ++ [s.fileHandle] }
      loading := by
  refine ⟨hw.held, hw.list, hw.stack, hw.nodup, ?_, hw.waits, hw.bottom, ?_, ?_, Nat.succ_pos _⟩
  · intro i hi
    obtain ⟨hmem, hdyn⟩ := hw.stacked i hi
    have hne := hbelow i hmem
    show i ∈ (s.register a).loadedObjects.items ∧ ((s.register a).detach s.fileHandle).dyn i =
      some ((s.register a).module i).name
    rw [hitems, module_register_of_ne hne, ← hdyn]
    exact ⟨mem_append_left _ hmem,
      by simp [Loader.register, detach, update_of_ne hne]⟩
  · intro i hi
    show i < s.fileHandle + 1 ∧ i < 2 ^ 32 ∧ (_ → i ∈ (s.register a).loadedObjects.items)
    rw [hitems]
    rcases mem_append.mp hi with hi | hi
    · obtain ⟨hlt, hsmall, hmem⟩ := hw.done i hi
      refine ⟨Nat.lt_succ_of_lt hlt, hsmall, ?_⟩
      intro hloaded
      apply mem_append_left
      apply hmem
      simpa [Loader.register, detach, update_of_ne (Nat.ne_of_lt hlt)] using hloaded
    · rw [mem_singleton.mp hi]
      exact ⟨Nat.lt_succ_self _, hsmall, fun _ => by simp⟩
  · intro i hi
    have hi : i ∈ (s.register a).loadedObjects.items := hi
    rw [hitems] at hi
    rcases mem_append.mp hi with hi | hi
    · rcases hw.finished i hi with hdone | hloading
      · exact .inl (mem_append_left _ hdone)
      · exact .inr hloading
    · exact .inl (List.mem_append_right _ hi)

theorem relocate_spec {t : Loader} {i : Nat} (hc : Counted t extra)
    (hw : Waiting t (loading ++ [i])) (hout : i ∉ loading) :
    ∃ s', relocateDependencyGraphModules
        { t with moduleDependencyList := t.moduleDependencyList.dropLast } i = some (i, s') ∧
      Counted s' extra ∧ Waiting s' loading ∧ s'.loaded = t.loaded ∧
      s'.loadedObjects = t.loadedObjects ∧ s'.fileHandle = t.fileHandle ∧ s'.opened = t.opened := by
  have hmem := (hw.stacked i (hw.waits i (by simp))).1
  obtain ⟨hpos, -, hlt⟩ := hc.below i hmem
  have hlist : t.moduleDependencyList.dropLast.elems = loading := by
    rw [ArrayList.dropLast, hw.list]
    simp
  have hdone : ∀ j ∈ t.done ++ [i], j < t.fileHandle ∧ j < 2 ^ 32 ∧
      (t.loaded j ≠ none → j ∈ t.loadedObjects.items) := by
    intro j hj
    rcases mem_append.mp hj with hj | hj
    · exact hw.done j hj
    · rw [mem_singleton.mp hj]
      exact ⟨(hc.below i hmem).2.1, hlt, fun _ => hmem⟩
  have hfinished : ∀ j ∈ t.loadedObjects.items, j ∈ t.done ++ [i] ∨ j ∈ loading := by
    intro j hj
    rcases hw.finished j hj with hdone | hloading
    · exact .inl (mem_append_left _ hdone)
    · rcases mem_append.mp hloading with hloading | hloading
      · exact .inr hloading
      · exact .inl (List.mem_append_right _ hloading)
  have hbottom : t.dependencyStack.bottom = (loading ++ [i]).head?.map some := by
    rw [hw.stack.bottom, hw.bottom]
  cases hloading : loading with
  | cons b bs =>
    subst hloading
    have hbi : b ≠ i := fun heq => hout (heq ▸ mem_cons_self)
    refine ⟨{ t with
      moduleDependencyList := t.moduleDependencyList.dropLast
      done := t.done ++ [i] }, ?_, hc.congr (fun _ _ => rfl) rfl (Nat.le_refl _), ?_,
      rfl, rfl, rfl, rfl⟩
    · simp only [relocateDependencyGraphModules, hbottom, List.cons_append, List.head?_cons,
        map_some, if_pos hbi, finish_eq hpos hlt]
    · refine ⟨hw.held, hlist, hw.stack, hw.nodup, hw.stacked, ?_, ?_, hdone, hfinished, hw.started⟩
      · intro j hj
        exact hw.waits j (mem_append_left _ hj)
      · exact hw.bottom
  | nil =>
    subst hloading
    obtain ⟨dyn, stack, hall, hintact, hempty⟩ := relocateAll_spec
      (s := { t with moduleDependencyList := t.moduleDependencyList.dropLast }) hw.stack hw.nodup
      (by
        intro j hj
        obtain ⟨hjmem, hjdyn⟩ := hw.stacked j hj
        refine ⟨?_, ?_⟩
        · rw [hjdyn]
          exact some_ne_none _
        · rw [hc.held j hjmem]
          exact some_ne_none _)
    refine ⟨{ t with
      moduleDependencyList := t.moduleDependencyList.dropLast
      dyn := dyn
      dependencyStack := stack
      done := t.done ++ [i] }, ?_, hc.congr (fun _ _ => rfl) rfl (Nat.le_refl _), ?_,
      rfl, rfl, rfl, rfl⟩
    · have hnot : ¬ i ≠ i := not_not_intro rfl
      simp only [relocateDependencyGraphModules, hbottom, List.nil_append, List.head?_cons,
        map_some, if_neg hnot]
      rw [hall]
      simp only [map_some, finish_eq hpos hlt]
    · refine ⟨hw.held, hlist, hintact, ?_, ?_, ?_, ?_, hdone, hfinished, hw.started⟩
      · rw [hempty]
        exact nodup_nil
      · intro j hj
        rw [hempty] at hj
        cases hj
      · intro j hj
        cases hj
      · rw [hempty]
        rfl

theorem load_follows (disk : Disk) (k : Nat) : Follows (dloadLoad disk k) (walk disk k) := by
  induction k with
  | zero =>
    intro s loading extra a w _ _ _ hwalk
    cases hwalk
  | succ k ih =>
    intro s loading extra a w hc hw hextra hwalk hfew
    have hlen := (walk_grows hwalk).length_le
    rw [length_append, length_singleton] at hlen
    simp only at hlen
    have hsmall : s.fileHandle < 2 ^ 32 := by omega
    have hbelow : ∀ i ∈ s.loadedObjects.items, i ≠ s.fileHandle := fun i hi =>
      Nat.ne_of_lt (hc.below i hi).2.1
    have hloading : ∀ i ∈ loading, i ∈ s.loadedObjects.items := fun i hi =>
      (hw.stacked i (hw.waits i hi)).1
    rw [walk] at hwalk
    split at hwalk
    · cases hwalk
    next hsound =>
    have hsound := not_not.mp hsound
    obtain ⟨hcreg, hitems, hnames⟩ := hc.register hw.started hsmall hsound
    have hkept : ∀ i ∈ s.loadedObjects.items, i ∈ (s.register a).loadedObjects.items ∧
        ((s.register a).module i).name = (s.module i).name := by
      intro i hi
      rw [hitems, module_register_of_ne (hbelow i hi)]
      exact ⟨mem_append_left _ hi, rfl⟩
    have hnew : s.fileHandle ∈ (s.register a).loadedObjects.items := by simp [hitems]
    have hfine := hsound
    obtain ⟨-, -, -, hmodule, -, -, hrest⟩ := hfine
    split at hwalk
    · next hstatic =>
      cases hwalk
      have haccepts := accepts_sound hw hsound (by simp [hstatic])
      rw [hstatic] at hrest
      refine ⟨{ (s.register a).detach s.fileHandle with done := s.done ++ [s.fileHandle] }, ?_,
        hcreg.congr (fun _ _ => rfl) rfl (Nat.le_refl _), hw.static hsmall hitems hbelow,
        ⟨rfl, ?_, ?_, hkept⟩, hnew⟩
      · simp only [dloadLoad, haccepts, hmodule, hstatic, Bool.true_eq_false, if_false, if_true,
          dloadStaticExecutable, hrest.2, finish_eq hw.started hsmall]
        rfl
      · exact (names_congr rfl rfl).trans hnames
      · show s.fileHandle + 1 + s.names.length = s.fileHandle + (s.names ++ [a.name]).length
        rw [length_append, length_singleton]
        omega
    split at hwalk
    · cases hwalk
    next hdynamic hname =>
    have hreloc : a.relocatable = true := by simpa using hdynamic
    have haccepts := accepts_sound hw hsound fun _ => hname
    rw [hreloc] at hrest
    obtain ⟨-, hseg, hspace, hnode, hdsbt, hneeded⟩ := hrest
    obtain ⟨list, happend, hheld, helems⟩ := ArrayList.append_held hw.held s.fileHandle
    rw [hw.list] at helems
    have hpushed := hw.push hitems hbelow hheld helems
    have hcpushed : Counted { s.register a with
        moduleDependencyList := list
        dependencyStack := s.dependencyStack.push s.fileHandle true }
          (update extra s.fileHandle 1) := hcreg.congr (fun _ _ => rfl) rfl (Nat.le_refl _)
    have hnamesof : (s.register a).namesOf (loading ++ [s.fileHandle]) =
        s.namesOf loading ++ [a.name] := by
      rw [Loader.namesOf, List.map_append, List.map_singleton, module_register_self]
      congr 1
      apply map_congr_left
      intro i hi
      exact (hkept i (hloading i hi)).2
    obtain ⟨t, hdeps, hct, hwt, hadv⟩ := dependencies_follow ih
      (fun _ _ _ _ h => (List.prefix_append _ _).trans (walk_grows h)) hcpushed hpushed
      (p := s.fileHandle) (by simp) hneeded
      (by
        intro i hi
        have hi : s.fileHandle + 1 ≤ i := hi
        rw [update_of_ne (by omega)]
        exact hextra i (by omega))
      (by
        show walkNeeded _ _ ((s.register a).namesOf _) _ ⟨s.opened, (s.register a).names⟩ = some w
        rw [hnamesof, hnames]
        exact hwalk)
      (by
        show s.fileHandle + 1 + w.names.length ≤ 2 ^ 32 + (s.register a).names.length
        rw [hnames, length_append, length_singleton]
        omega)
    obtain ⟨s', hreloc', hc', hw', hloaded, hqueue, hcounter, hopened⟩ := relocate_spec hct hwt
      fun hmem => hbelow _ (hloading _ hmem) rfl
    have htcounter : t.fileHandle + (s.names.length + 1) = s.fileHandle + 1 + w.names.length := by
      have hc := hadv.counter
      have hc : t.fileHandle + (s.register a).names.length = s.fileHandle + 1 + w.names.length := hc
      rwa [hnames, length_append, length_singleton] at hc
    refine ⟨s', ?_, hc', hw', ⟨hopened.trans hadv.opened, ?_, ?_, ?_⟩, ?_⟩
    · have hreg : (a.dsbt && !a.registered) = false := by
        cases hd : a.dsbt with
        | false => rfl
        | true => simp [hdsbt hd]
      simp only [dloadLoad, haccepts, hmodule, hreloc, hseg, Bool.true_eq_false, if_false,
        dloadDependents, hspace, hnode, hreg, Bool.false_eq_true]
      have happend' : (s.register a).moduleDependencyList.append s.fileHandle true = some list :=
        happend
      rw [happend', bind_eq_bind, bind_some]
      exact (congrArg (bind · _) hdeps).trans (by simpa using hreloc')
    · rw [names_congr hloaded hqueue]
      exact hadv.names
    · rw [hcounter]
      omega
    · intro i hi
      obtain ⟨hreg, hname⟩ := hkept i hi
      obtain ⟨hti, htname⟩ := hadv.kept i hreg
      rw [hqueue, Loader.module, hloaded]
      exact ⟨hti, htname.trans hname⟩
    · rw [hqueue]
      exact (hadv.kept _ hnew).1

theorem create_counted : Counted (dloadCreate true) fun _ => 0 := by
  refine ⟨⟨rfl, rfl⟩, nodup_nil, ?_, ?_, ?_, ?_, ?_, ?_, ?_⟩
  all_goals
    intro i hi
    cases hi

theorem create_waiting : Waiting (dloadCreate true) [] := by
  refine ⟨rfl, rfl, ⟨rfl, rfl⟩, nodup_nil, ?_, ?_, rfl, ?_, ?_, Nat.one_pos⟩
  all_goals
    intro i hi
    cases hi

end Omap4Hal.Elfload.Dload

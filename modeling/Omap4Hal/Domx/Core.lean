import Omap4Hal.Lib.Run
import Omap4Hal.Lib.SlotTable

/- The table of components of the OMX core (`OMX_Core.c`). A component takes a slot of two arrays,
   one with the libraries and one with the handles. `OMX_GetHandle` fills the first when the
   library is loaded and leaves it as it is on every exit from there on, so that a call that fails
   later takes the slot with it. `core_sound_iff` says that nothing else goes wrong. -/
namespace Omap4Hal.Domx.Core

open Lib
open Function (update update_self update_of_ne)

/-! ## The core -/

abbrev Addr := Nat

def maxComp : Nat := 50

def maxNameSize : Nat := 128

/-- The two arrays and what `OMX_Init` has counted, with the blocks of handles, how often each
library was loaded and unloaded, and the handles that clients have. -/
structure World where
  pModules : Nat → Option Addr := fun _ => none
  pComponents : Nat → Option Addr := fun _ => none
  count : Nat := 1
  heap : Addr → Bool := fun _ => false
  loads : Addr → Nat := fun _ => 0
  unloads : Addr → Nat := fun _ => 0
  live : List Addr := []

/-- Where `OMX_GetHandle` returns, with what the component has returned. -/
inductive Exit
  | badParameter
  | notInitialized
  | nameTooLong
  | noSlot
  | secureState
  | notLoaded
  | noSymbol
  | noMemory
  | initFailed (eError : Nat)
  | callbacksFailed (h : Addr) (eError : Nat)
  | done (h : Addr)
  deriving DecidableEq

/-- The arguments; a string or a pointer may be NULL. -/
structure Args where
  pHandle : Bool
  cComponentName : Option String
  pCallBacks : Bool

/-- What the driver, the loader, the allocator and the component do. `mode` is the byte that is
read from the driver (or is there when nothing can be read), an error is one that is not 0. -/
structure Outcome where
  mode : Nat
  dlopen : Option Addr
  dlsym : Bool
  malloc : Option Addr
  componentInit : Nat
  setCallbacks : Nat

/-- A block that is not in use. -/
def malloc (heap : Addr → Bool) (found : Option Addr) : Option Addr :=
  found.filter fun p => !heap p

/-! ## `OMX_GetHandle` -/

def firstSlot (w : World) : Option Nat := findBelow (fun i => (w.pModules i).isNone) maxComp

/-- The component is set up in slot `i`, whose library is `lib`. -/
def setUp (w : World) (i : Nat) (lib h : Addr) (o : Outcome) : Exit × World :=
  let w := { w with
    heap := update w.heap h true
    pComponents := update w.pComponents i (some h) }
  if o.componentInit ≠ 0 then
    -- the library is closed, but stays in its slot
    (.initFailed o.componentInit, { w with
      heap := update w.heap h false
      pComponents := update w.pComponents i none
      unloads := update w.unloads lib (w.unloads lib + 1) })
  else if o.setCallbacks ≠ 0 then (.callbacksFailed h o.setCallbacks, w)
  else (.done h, { w with live := h :: w.live })

def load (w : World) (i : Nat) (o : Outcome) : Exit × World :=
  match o.dlopen with
  | none => (.notLoaded, { w with pModules := update w.pModules i none })
  | some lib =>
    let w := { w with
      pModules := update w.pModules i (some lib)
      loads := update w.loads lib (w.loads lib + 1) }
    if o.dlsym = false then (.noSymbol, w)
    else match malloc w.heap o.malloc with
      | none => (.noMemory, w)
      | some h => setUp w i lib h o

/-- With `CHECK_SECURE_STATE`: a component that is not a secure one is refused in secure mode. -/
def nonSecure (name : String) (o : Outcome) : Bool :=
  o.mode = 1 && !decide ("secure".toList <:+: name.toList)

def getHandle (w : World) (args : Args) (o : Outcome) : Exit × World :=
  match args.cComponentName with
  | none => (.badParameter, w)
  | some name =>
    if args.pHandle = false ∨ args.pCallBacks = false then (.badParameter, w)
    else if w.count = 0 then (.notInitialized, w)
    else if ¬ name.utf8ByteSize < maxNameSize then (.nameTooLong, w)
    else match firstSlot w with
      | none => (.noSlot, w)
      | some i => if nonSecure name o then (.secureState, w) else load w i o

/-! ## `OMX_FreeHandle` -/

/-- An error of `ComponentDeInit` is only traced. -/
def freeHandle (w : World) (hComponent : Option Addr) : World :=
  match hComponent with
  | none => w
  | some h =>
    if w.count = 0 then w
    else match findBelow (fun i => w.pComponents i = some h) maxComp with
      | none => w
      | some i =>
        { w with
          unloads := match w.pModules i with
            | none => w.unloads
            | some lib => update w.unloads lib (w.unloads lib + 1)
          pModules := update w.pModules i none
          heap := update w.heap h false
          pComponents := update w.pComponents i none
          live := w.live.erase h }

/-! ## Runs -/

inductive Call where
  | getHandle (args : Args) (o : Outcome)
  | freeHandle (hComponent : Option Addr)

def step (w : World) : Call → Option World
  | .getHandle args o => some (Core.getHandle w args o).2
  | .freeHandle h => some (Core.freeHandle w h)

/-- The number of slots whose pointer is such. -/
def slotCount (t : Nat → Option Addr) (p : Option Addr → Bool) : Nat :=
  Nat.count (fun i => p (t i) = true) maxComp

/-- A slot has a library exactly if it has a handle that a client has, and a library is loaded
once more than it is unloaded for each slot that has it. -/
structure Sound (w : World) : Prop where
  slots : ∀ i, i < maxComp →
    (w.pModules i ≠ none ↔ ∃ h ∈ w.live, w.pComponents i = some h)
  libraries : ∀ lib,
    w.loads lib = w.unloads lib + slotCount w.pModules (· = some lib)
  handles : ∀ h, w.heap h = true ↔ h ∈ w.live

/-- A call that fails leaves everything as it was: the table, the handles and the libraries that
are loaded. -/
structure Untouched (w w' : World) : Prop where
  pModules : w'.pModules = w.pModules
  pComponents : w'.pComponents = w.pComponents
  heap : w'.heap = w.heap
  libraries : ∀ lib, w'.loads lib + w.unloads lib = w.loads lib + w'.unloads lib

/-- What should hold after a call in state `w`. -/
def Keeps (w : World) : Call → Prop
  | .getHandle args o =>
    Sound (getHandle w args o).2 ∧
      ((∀ h, (getHandle w args o).1 ≠ .done h) → Untouched w (getHandle w args o).2) ∧
      ((getHandle w args o).1 = .noSlot → w.live.length = maxComp)
  | .freeHandle h => Sound (freeHandle w h)

/-- The checks that come before the library is loaded. -/
def Accepts (w : World) (args : Args) (o : Outcome) : Prop :=
  (∃ name, args.cComponentName = some name ∧ name.utf8ByteSize < maxNameSize ∧
    nonSecure name o = false) ∧
    args.pHandle = true ∧ args.pCallBacks = true ∧ w.count ≠ 0 ∧ ∃ i, firstSlot w = some i

/-- A library that could be loaded gives a component that can be set up. -/
def Completes (w : World) : Call → Prop
  | .getHandle args o => Accepts w args o → o.dlopen ≠ none →
    o.dlsym = true ∧ malloc w.heap o.malloc ≠ none ∧ o.componentInit = 0 ∧ o.setCallbacks = 0
  | .freeHandle _ => True

/-! ## The invariant -/

/-- What a run keeps in addition: no handle is in two slots, and all that clients have are in
one. -/
structure Inv (w : World) : Prop where
  sound : Sound w
  once : ∀ i j h, i < maxComp → j < maxComp → w.pComponents i = some h →
    w.pComponents j = some h → i = j
  owned : ∀ i h, i < maxComp → w.pComponents i = some h → h ∈ w.live
  placed : ∀ h ∈ w.live, ∃ i, i < maxComp ∧ w.pComponents i = some h
  nodup : w.live.Nodup
  tally : w.live.length = slotCount w.pModules Option.isSome

theorem Inv.init (count : Nat) : Inv { count := count } where
  sound := by
    constructor
    · simp
    · intro lib
      simp [slotCount]
    · simp
  once := by simp
  owned := by simp
  placed := by simp
  nodup := List.nodup_nil
  tally := by simp [slotCount]

variable {w : World}

variable {i : Nat} {h lib : Addr} {o : Outcome} {t : Nat → Option Addr} {p : Option Addr → Bool}

theorem firstSlot_eq_some (h : firstSlot w = some i) :
    w.pModules i = none ∧ i < maxComp := by
  obtain ⟨hnone, hlt, -⟩ := findBelow_eq_some.mp h
  exact ⟨Option.isNone_iff_eq_none.mp hnone, hlt⟩

theorem firstSlot_eq_none (h : firstSlot w = none) (hi : i < maxComp) :
    w.pModules i ≠ none := by
  have hsome := findBelow_eq_none.mp h i hi
  intro hnone
  rw [hnone] at hsome
  cases hsome

theorem malloc_eq_some {heap : Addr → Bool} {found : Option Addr}
    (hm : malloc heap found = some h) :
    heap h = false := by
  have hfree := (Option.filter_eq_some_iff.mp hm).2
  simpa using hfree

theorem getHandle_accepted {args : Args} (h : Accepts w args o) :
    ∃ i, firstSlot w = some i ∧ getHandle w args o = load w i o := by
  obtain ⟨⟨name, hname, hsize, hsecure⟩, hp, hc, hcount, i, hi⟩ := h
  refine ⟨i, hi, ?_⟩
  simp [getHandle, hname, hp, hc, hcount, hsize, hi, hsecure]

theorem getHandle_refused {args : Args} (h : ¬ Accepts w args o) :
    (getHandle w args o).2 = w ∧ (∀ h, (getHandle w args o).1 ≠ .done h) ∧
      ((getHandle w args o).1 = .noSlot → firstSlot w = none) := by
  rw [getHandle]
  split
  · simp
  · next name hname =>
    split
    · simp
    · next hnull =>
      split
      · simp
      · next hcount =>
        split
        · simp
        · next hsize =>
          split
          · next hslot => simp [hslot]
          · next i hslot =>
            split
            · simp
            · next hsecure =>
              refine absurd ?_ h
              refine ⟨⟨name, hname, not_not.mp hsize, Bool.of_not_eq_true hsecure⟩, ?_, ?_,
                hcount, i, hslot⟩
              · exact Bool.of_not_eq_false fun hp => hnull (.inl hp)
              · exact Bool.of_not_eq_false fun hc => hnull (.inr hc)

theorem load_pModules (h : o.dlopen = some lib) :
    (load w i o).2.pModules i = some lib := by
  rw [load, h]
  dsimp only
  split
  · exact update_self i _ _
  · split
    · exact update_self i _ _
    · rw [setUp]
      split
      · exact update_self i _ _
      · split <;> exact update_self i _ _

theorem load_done (hlib : o.dlopen = some lib) (hdone : (load w i o).1 = .done h) :
    o.dlsym = true ∧ malloc w.heap o.malloc ≠ none ∧ o.componentInit = 0 ∧
      o.setCallbacks = 0 := by
  rw [load, hlib] at hdone
  dsimp only at hdone
  split at hdone
  · cases hdone
  · next hsym =>
    split at hdone
    · cases hdone
    · next hmem =>
      rw [setUp] at hdone
      split at hdone
      · cases hdone
      · next hinit =>
        split at hdone
        · cases hdone
        · next hset =>
          exact ⟨Bool.of_not_eq_false hsym, by simp [hmem], not_not.mp hinit, not_not.mp hset⟩

theorem load_notLoaded (hi : w.pModules i = none) (h : o.dlopen = none) :
    load w i o = (.notLoaded, w) := by
  rw [load, h]
  dsimp only
  rw [Function.update_eq_self_iff.mpr hi.symm]

/-- The state after a component has been set up. -/
def added (w : World) (i : Nat) (lib h : Addr) : World :=
  { w with
    pModules := update w.pModules i (some lib)
    loads := update w.loads lib (w.loads lib + 1)
    heap := update w.heap h true
    pComponents := update w.pComponents i (some h)
    live := h :: w.live }

theorem load_complete (hlib : o.dlopen = some lib) (hsym : o.dlsym = true)
    (hmem : malloc w.heap o.malloc = some h) (hinit : o.componentInit = 0)
    (hset : o.setCallbacks = 0) : load w i o = (.done h, added w i lib h) := by
  simp [load, setUp, hlib, hsym, hmem, hinit, hset, added]

theorem slotCount_update {x : Option Addr} (hi : i < maxComp) (hold : p (t i) = false)
    (hnew : p x = true) :
    slotCount (update t i x) p = slotCount t p + 1 := by
  apply count_set hi (by simp [hold]) (by rwa [update_self])
  intro j hj
  rw [update_of_ne hj]

theorem slotCount_update_same {x : Option Addr} (h : p (t i) = p x) :
    slotCount (update t i x) p = slotCount t p := by
  apply count_congr_below
  intro j _
  by_cases hj : j = i
  · rw [hj, update_self, h]
  · rw [update_of_ne hj]

theorem slotCount_clear {x : Addr} (hi : i < maxComp) (hx : t i = some x) (hold : p (some x) = true)
    (hnew : p none = false) :
    slotCount t p = slotCount (update t i none) p + 1 := by
  have hback : update (update t i none) i (some x) = t := by
    rw [Function.update_idem, Function.update_eq_self_iff, hx]
  have hcount := slotCount_update (t := update t i none) (x := some x) hi
    (by rw [update_self]; exact hnew) hold
  rwa [hback] at hcount

theorem Inv.added (hw : Inv w) (lib : Addr) (hi : i < maxComp) (hfree : w.pModules i = none)
    (hnew : w.heap h = false) : Inv (added w i lib h) := by
  have hnot : h ∉ w.live := by
    intro hmem
    rw [(hw.sound.handles h).mpr hmem] at hnew
    cases hnew
  have hempty : ∀ g, w.pComponents i ≠ some g := by
    intro g hg
    exact (hw.sound.slots i hi).mpr ⟨g, hw.owned i g hi hg, hg⟩ hfree
  have hother : ∀ j, j < maxComp → w.pComponents j ≠ some h := fun j hj hg =>
    hnot (hw.owned j h hj hg)
  constructor
  case sound =>
    constructor
    · intro j hj
      by_cases hji : j = i
      · simp [Core.added, hji]
      · simp only [Core.added, update_of_ne hji, List.mem_cons]
        rw [hw.sound.slots j hj]
        constructor
        · rintro ⟨g, hg, hslot⟩
          exact ⟨g, .inr hg, hslot⟩
        · rintro ⟨g, rfl | hg, hslot⟩
          · exact absurd hslot (hother j hj)
          · exact ⟨g, hg, hslot⟩
    · intro l
      have hold := hw.sound.libraries l
      by_cases hl : l = lib
      · simp only [Core.added]
        rw [slotCount_update hi (by simp [hfree]) (by simp [hl]), hl, update_self, ← hl]
        omega
      · simp only [Core.added]
        rw [slotCount_update_same (by simp [hfree, Ne.symm hl]), update_of_ne hl]
        exact hold
    · intro g
      by_cases hg : g = h
      · simp [Core.added, hg]
      · simp [Core.added, hg, hw.sound.handles g]
  case once =>
    intro j k g hj hk hjg hkg
    simp only [Core.added] at hjg hkg
    by_cases hji : j = i <;> by_cases hki : k = i
    · rw [hji, hki]
    · rw [hji, update_self] at hjg
      rw [update_of_ne hki, ← hjg] at hkg
      exact absurd hkg (hother k hk)
    · rw [hki, update_self] at hkg
      rw [update_of_ne hji, ← hkg] at hjg
      exact absurd hjg (hother j hj)
    · rw [update_of_ne hji] at hjg
      rw [update_of_ne hki] at hkg
      exact hw.once j k g hj hk hjg hkg
  case owned =>
    intro j g hj hg
    simp only [Core.added] at hg ⊢
    by_cases hji : j = i
    · rw [hji, update_self] at hg
      exact List.mem_cons.mpr (.inl (Option.some.inj hg).symm)
    · rw [update_of_ne hji] at hg
      exact List.mem_cons_of_mem _ (hw.owned j g hj hg)
  case placed =>
    intro g hg
    simp only [Core.added] at hg ⊢
    rcases List.mem_cons.mp hg with rfl | hg
    · exact ⟨i, hi, update_self i _ _⟩
    · obtain ⟨j, hj, hjg⟩ := hw.placed g hg
      have hji : j ≠ i := fun heq => hempty g (heq ▸ hjg)
      exact ⟨j, hj, by rw [update_of_ne hji, hjg]⟩
  case nodup => exact List.nodup_cons.mpr ⟨hnot, hw.nodup⟩
  case tally =>
    simp only [Core.added, List.length_cons]
    rw [slotCount_update hi (by simp [hfree]) rfl, hw.tally]

/-- The state after a handle has been freed. -/
def removed (w : World) (i : Nat) (lib h : Addr) : World :=
  { w with
    unloads := update w.unloads lib (w.unloads lib + 1)
    pModules := update w.pModules i none
    heap := update w.heap h false
    pComponents := update w.pComponents i none
    live := w.live.erase h }

theorem Inv.removed (hw : Inv w) (hi : i < maxComp) (hlib : w.pModules i = some lib)
    (hslot : w.pComponents i = some h) :
    Inv (removed w i lib h) := by
  have hmem : ∀ g, g ∈ w.live.erase h ↔ g ≠ h ∧ g ∈ w.live := fun g =>
    hw.nodup.mem_erase_iff
  have hne : ∀ j g, j < maxComp → j ≠ i → w.pComponents j = some g → g ≠ h := by
    rintro j g hj hji hjg rfl
    exact hji (hw.once j i g hj hi hjg hslot)
  constructor
  case sound =>
    constructor
    · intro j hj
      by_cases hji : j = i
      · simp [Core.removed, hji]
      · simp only [Core.removed, update_of_ne hji]
        rw [hw.sound.slots j hj]
        constructor
        · rintro ⟨g, hg, hjg⟩
          exact ⟨g, (hmem g).mpr ⟨hne j g hj hji hjg, hg⟩, hjg⟩
        · rintro ⟨g, hg, hjg⟩
          exact ⟨g, ((hmem g).mp hg).2, hjg⟩
    · intro l
      have hold := hw.sound.libraries l
      by_cases hl : l = lib
      · have hcount := slotCount_clear (p := (· = some l)) hi hlib (by simp [hl]) (by simp)
        simp only [Core.removed]
        rw [hl, update_self, ← hl]
        omega
      · simp only [Core.removed]
        rw [slotCount_update_same (by simp [hlib, Ne.symm hl]), update_of_ne hl]
        exact hold
    · intro g
      simp only [Core.removed]
      rw [hmem]
      by_cases hg : g = h
      · simp [hg]
      · simp [hg, hw.sound.handles g]
  case once =>
    intro j k g hj hk hjg hkg
    simp only [Core.removed] at hjg hkg
    by_cases hji : j = i
    · rw [hji, update_self] at hjg
      cases hjg
    · by_cases hki : k = i
      · rw [hki, update_self] at hkg
        cases hkg
      · rw [update_of_ne hji] at hjg
        rw [update_of_ne hki] at hkg
        exact hw.once j k g hj hk hjg hkg
  case owned =>
    intro j g hj hjg
    simp only [Core.removed] at hjg ⊢
    by_cases hji : j = i
    · rw [hji, update_self] at hjg
      cases hjg
    · rw [update_of_ne hji] at hjg
      exact (hmem g).mpr ⟨hne j g hj hji hjg, hw.owned j g hj hjg⟩
  case placed =>
    intro g hg
    obtain ⟨hgh, hg⟩ := (hmem g).mp hg
    obtain ⟨j, hj, hjg⟩ := hw.placed g hg
    have hji : j ≠ i := by
      rintro rfl
      exact hgh (Option.some.inj (hjg.symm.trans hslot))
    exact ⟨j, hj, by simp only [Core.removed]; rw [update_of_ne hji, hjg]⟩
  case nodup => exact hw.nodup.erase h
  case tally =>
    have hcount := slotCount_clear (p := Option.isSome) hi hlib rfl rfl
    have htally := hw.tally
    simp only [Core.removed]
    rw [List.length_erase_of_mem (hw.owned i h hi hslot)]
    omega

/-! ## The table is sound exactly as long as no call fails late -/

theorem freeHandle_cases (w : World) (h : Option Addr) :
    freeHandle w h = w ∨ ∃ g i, h = some g ∧ i < maxComp ∧ w.pComponents i = some g ∧
      ∀ lib, w.pModules i = some lib → freeHandle w h = removed w i lib g := by
  unfold freeHandle
  split
  · exact .inl rfl
  · next g =>
    split
    · exact .inl rfl
    · split
      · exact .inl rfl
      · next i hi =>
        obtain ⟨hslot, hlt, -⟩ := findBelow_eq_some.mp hi
        refine .inr ⟨g, i, rfl, hlt, of_decide_eq_true hslot, ?_⟩
        intro lib hlib
        rw [hlib, removed]

theorem Inv.freeHandle (hw : Inv w) (h : Option Addr) : Inv (freeHandle w h) := by
  rcases freeHandle_cases w h with heq | ⟨g, i, -, hi, hslot, hremoved⟩
  · rwa [heq]
  · have hmod := (hw.sound.slots i hi).mpr ⟨g, hw.owned i g hi hslot, hslot⟩
    obtain ⟨lib, hlib⟩ := Option.ne_none_iff_exists'.mp hmod
    rw [hremoved lib hlib]
    exact hw.removed hi hlib hslot

theorem Inv.full (hw : Inv w) (h : firstSlot w = none) : w.live.length = maxComp := by
  have hall : slotCount w.pModules Option.isSome = Nat.count (fun _ => True) maxComp := by
    apply count_congr_below
    intro i hi
    exact iff_of_true (Option.isSome_iff_ne_none.mpr (firstSlot_eq_none h hi)) trivial
  rw [hw.tally, hall, Nat.count_true]

theorem Untouched.refl (w : World) : Untouched w w := ⟨rfl, rfl, rfl, fun _ => rfl⟩

theorem Inv.getHandle (hw : Inv w) {args : Args} (hc : Completes w (.getHandle args o)) :
    Inv (getHandle w args o).2 ∧ Keeps w (.getHandle args o) := by
  by_cases hacc : Accepts w args o
  · obtain ⟨i, hi, heq⟩ := getHandle_accepted hacc
    obtain ⟨hfree, hlt⟩ := firstSlot_eq_some hi
    rw [Keeps, heq]
    cases hlib : o.dlopen with
    | none =>
      rw [load_notLoaded hfree hlib]
      exact ⟨hw, hw.sound, fun _ => .refl w, by simp⟩
    | some lib =>
      obtain ⟨hsym, hmem, hinit, hset⟩ := hc hacc (by simp [hlib])
      obtain ⟨h, hh⟩ := Option.ne_none_iff_exists'.mp hmem
      rw [load_complete hlib hsym hh hinit hset]
      have hinv := hw.added lib hlt hfree (malloc_eq_some hh)
      exact ⟨hinv, hinv.sound, fun hfail => absurd rfl (hfail h), by simp⟩
  · obtain ⟨heq, hfail, hslot⟩ := getHandle_refused hacc
    rw [Keeps, heq]
    exact ⟨hw, hw.sound, fun _ => .refl w, fun hno => hw.full (hslot hno)⟩

/-- A call that fails after its library was loaded has changed the table. -/
theorem completes_of_keeps {c : Call} (h : Keeps w c) : Completes w c := by
  cases c with
  | freeHandle h => trivial
  | getHandle args o =>
    intro hacc hopen
    obtain ⟨lib, hlib⟩ := Option.ne_none_iff_exists'.mp hopen
    obtain ⟨i, hi, heq⟩ := getHandle_accepted hacc
    obtain ⟨-, hfailed, -⟩ := h
    rw [heq] at hfailed
    have hmod := load_pModules (w := w) (i := i) hlib
    by_contra hnot
    have hfail : ∀ h, (load w i o).1 ≠ .done h := fun h hdone => hnot (load_done hlib hdone)
    rw [(hfailed hfail).pModules, (firstSlot_eq_some hi).1] at hmod
    cases hmod

theorem Inv.step {c : Call} (hw : Inv w) (hc : Completes w c) :
    Keeps w c ∧ ∀ w', step w c = some w' → Inv w' := by
  cases c with
  | getHandle args o =>
    obtain ⟨hinv, hkeeps⟩ := hw.getHandle hc
    exact ⟨hkeeps, fun w' hw' => Option.some.inj hw' ▸ hinv⟩
  | freeHandle h =>
    have hinv := hw.freeHandle h
    exact ⟨hinv.sound, fun w' hw' => Option.some.inj hw' ▸ hinv⟩

/-- Every call of a run is as it should be if and only if every component whose library could be
loaded can be set up. -/
theorem core_sound_iff (count : Nat) (calls : List Call) :
    Guarded step Keeps { count := count } calls ↔
      Guarded step Completes { count := count } calls := by
  refine guarded_congr (J := Inv) ?_ ?_ (Inv.init count)
  · exact fun w c hw => ⟨completes_of_keeps, fun hc => (hw.step hc).1⟩
  · exact fun w c w' hw hc hstep => (hw.step hc).2 w' hstep

/-- A library without `OMX_ComponentInit`. -/
def noComponent : Call :=
  .getHandle ⟨true, some "OMX.TI.DUCATI1.VIDEO.DECODER", true⟩
    { mode := 0, dlopen := some 0x1000, dlsym := false, malloc := none, componentInit := 0
      setCallbacks := 0 }

/-- Its slot is taken for good, and it is not unloaded. -/
theorem core_not_sound :
    (∃ w, run step {} [noComponent] = some w ∧ w.pModules 0 = some 0x1000 ∧
      w.pComponents 0 = none ∧ w.live = [] ∧ w.loads 0x1000 = 1 ∧ w.unloads 0x1000 = 0) ∧
    ¬ Guarded step Keeps {} [noComponent] := by
  refine ⟨⟨_, rfl, by decide, by decide, by decide, by decide, by decide⟩, ?_⟩
  rintro ⟨⟨hsound, -⟩, -⟩
  obtain ⟨h, hmem, -⟩ := (hsound.slots 0 (by decide)).mp (by decide)
  exact absurd hmem List.not_mem_nil

end Omap4Hal.Domx.Core

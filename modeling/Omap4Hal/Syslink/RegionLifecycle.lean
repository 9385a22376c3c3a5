import Omap4Hal.Lib.WordBits
import Omap4Hal.Syslink.SharedRegion

/- The life cycle of the region table (`SharedRegion_setup` and `SharedRegion_destroy`), with the
   memory it takes: the array of regions, the array `bCreatedInKnlSpace` and the lock. These are
   pointers here, and what they point to is the heap; an access to a block that is not allocated
   does not return. `setup_refines` ties this to the table of `SharedRegion`.

   `SharedRegion_destroy` sets the pointers to NULL that it has freed, except
   `bCreatedInKnlSpace`. `lifecycle_sound_iff` says what follows: the module is sound exactly as
   long as no life cycle comes to its end that had this array. -/
namespace Omap4Hal.Syslink
namespace Lifecycle

open Lib
open Function (update update_self update_of_ne)

/-! ## The module and the heap -/

structure ModuleObject where
  setupRefCount : UInt32 := 0
  localLock : UInt32 := 0
  regions : UInt32 := 0
  bCreatedInKnlSpace : UInt32 := 0
  numOffsetBits : UInt32 := 0
  offsetMask : UInt32 := 0
  cfg : Config := ⟨0, 0, false⟩
  deriving DecidableEq

/-- The module, what is in the array of regions, and the blocks that are allocated. `setups` and
`destroys` count the setups that succeeded and the destroys. -/
structure World where
  obj : ModuleObject := {}
  table : List Region := []
  live : UInt32 → Bool := fun _ => false
  setups : Nat := 0
  destroys : Nat := 0

/-- An address that is neither NULL nor in use, or NULL. -/
def malloc (live : UInt32 → Bool) (found : Option UInt32) : UInt32 :=
  (found.filter fun p => p != 0 && !live p).getD 0

/-- The blocks with a new one, if there is one. -/
def take (live : UInt32 → Bool) (p : UInt32) : UInt32 → Bool :=
  if p = 0 then live else update live p true

def World.free (w : World) (p : UInt32) : Option World :=
  if w.live p then some { w with live := update w.live p false } else none

def World.setCount (w : World) (n : UInt32) : World :=
  { w with obj := { w.obj with setupRefCount := n } }

/-- What the calls that `SharedRegion_setup` makes return, and the table as the driver leaves
it. -/
structure Outcome where
  drvOpen : Bool
  getConfig : Config
  regionsAlloc : Option UInt32
  createdAlloc : Option UInt32
  self : UInt16
  ioctl : Bool
  filled : Nat → Region → Region
  gateCreate : Option UInt32

/-! ## Destroy -/

/-- `Memory_free` of `bCreatedInKnlSpace`; the pointer stays. -/
def freeCreated (w : World) : Option World :=
  if w.obj.bCreatedInKnlSpace ≠ 0 then w.free w.obj.bCreatedInKnlSpace else some w

def freeRegions (w : World) : Option World :=
  if w.obj.regions ≠ 0 then
    (w.free w.obj.regions).map fun w => { w with obj := { w.obj with regions := 0 }, table := [] }
  else some w

/-- The gate is left and deleted. -/
def freeLock (w : World) : Option World :=
  if w.obj.localLock ≠ 0 then
    (w.free w.obj.localLock).map fun w => { w with obj := { w.obj with localLock := 0 } }
  else some w

def clearFields (w : World) : World :=
  { w with obj := { w.obj with cfg := ⟨0, 0, false⟩, numOffsetBits := 0, offsetMask := 0 } }

/-- The part of `SharedRegion_destroy` for the last call; it enters the gate first. -/
def lastDestroy (w : World) : Option World :=
  if w.obj.localLock ≠ 0 ∧ w.live w.obj.localLock = false then none
  else (freeCreated w).bind fun w => (freeRegions w).bind fun w => freeLock (clearFields w)

def destroy (w : World) : Option World :=
  let w := w.setCount (w.obj.setupRefCount - 1)
  if w.obj.setupRefCount = 0 then lastDestroy w else some w

/-! ## Setup -/

/-- Everything from the first allocation on. -/
def allocate (w : World) (ptCfg : Config) (o : Outcome) : Int × World :=
  let regions := malloc w.live o.regionsAlloc
  let live := take w.live regions
  let obj := { w.obj with cfg := ptCfg, regions := regions }
  if regions = 0 then (sharedRegionEMemory, { w with obj := obj, live := live })
  else
    let created := malloc live o.createdAlloc
    let live := take live created
    let obj := { obj with bCreatedInKnlSpace := created }
    if created = 0 then (sharedRegionEMemory, { w with obj := obj, live := live })
    else
      let table := (List.range ptCfg.numEntries.toNat).map fun i =>
        o.filled i (ptCfg.defaultRegion o.self i)
      if o.ioctl = false then
        (sharedRegionEOsFailure, { w with obj := obj, table := table, live := live })
      else
        let bits := getNumOffsetBits { cfg := ptCfg }
        let lock := malloc live o.gateCreate
        let obj := { obj with
          numOffsetBits := bits
          offsetMask := (1 <<< bits) - 1
          localLock := lock }
        let w := { w with obj := obj, table := table, live := take live lock }
        if lock = 0 then (sharedRegionEMemory, w) else (sharedRegionSSuccess, w)

def firstSetup (w : World) (cfg : Option Config) (o : Outcome) : Int × World :=
  if o.drvOpen = false then (sharedRegionEOsFailure, w)
  else if (cfg.getD o.getConfig).numEntries = 0 then (sharedRegionEInvalidArg, w)
  else allocate w (cfg.getD o.getConfig) o

def setup (w : World) (cfg : Option Config) (o : Outcome) : Option (Int × World) :=
  let w := w.setCount (w.obj.setupRefCount + 1)
  if w.obj.setupRefCount > 1 then some (sharedRegionSAlreadySetup, w)
  else
    let r := firstSetup w cfg o
    if r.1 < 0 then (destroy r.2).map fun w => (r.1, w) else some r

/-! ## Runs -/

inductive Call where
  | setup (cfg : Option Config) (o : Outcome)
  | destroy

def step (w : World) : Call → Option World
  | .setup cfg o => (setup w cfg o).map fun r =>
      if r.1 < 0 then r.2 else { r.2 with setups := r.2.setups + 1 }
  | .destroy => (destroy w).map fun w => { w with destroys := w.destroys + 1 }

def World.Allocated (w : World) (p : UInt32) : Prop := p ≠ 0 ∧ w.live p = true

/-- The module is set up or as it was at first, and no block is lost. -/
structure Sound (w : World) : Prop where
  count : w.obj.setupRefCount.toNat = w.setups - w.destroys
  regions : w.Allocated w.obj.regions ↔ 0 < w.obj.setupRefCount
  created : w.Allocated w.obj.bCreatedInKnlSpace ↔ 0 < w.obj.setupRefCount
  lock : w.Allocated w.obj.localLock ↔ 0 < w.obj.setupRefCount
  owned : ∀ p, w.live p = true →
    p = w.obj.regions ∨ p = w.obj.bCreatedInKnlSpace ∨ p = w.obj.localLock
  initial : w.obj.setupRefCount = 0 → w.obj = {}

/-- A destroy comes after a setup that succeeded. -/
def Orderly (w : World) : Call → Prop
  | .setup _ _ => True
  | .destroy => w.destroys < w.setups

/-- The driver gives the module something to allocate. -/
def Outcome.Starts (o : Outcome) (cfg : Option Config) : Prop :=
  o.drvOpen = true ∧ (cfg.getD o.getConfig).numEntries ≠ 0

/-- The two arrays are allocated. -/
def GetsArrays (live : UInt32 → Bool) (o : Outcome) : Prop :=
  malloc live o.regionsAlloc ≠ 0 ∧
    malloc (take live (malloc live o.regionsAlloc)) o.createdAlloc ≠ 0

/-- The lock is created, after the arrays. -/
def GetsLock (live : UInt32 → Bool) (o : Outcome) : Prop :=
  let live := take live (malloc live o.regionsAlloc)
  malloc (take live (malloc live o.createdAlloc)) o.gateCreate ≠ 0

/-- A first setup that gets its arrays succeeds, the count does not overflow, and the last
destroy is not called. -/
def Lasting (w : World) : Call → Prop
  | .setup cfg o =>
    if w.obj.setupRefCount = 0 then
      o.Starts cfg → GetsArrays w.live o → o.ioctl = true ∧ GetsLock w.live o
    else w.obj.setupRefCount + 1 = 0 → ¬ o.Starts cfg
  | .destroy => w.obj.setupRefCount ≠ 1

/-! ## What the calls do -/

theorem malloc_free {live : UInt32 → Bool} {found : Option UInt32} (h : malloc live found ≠ 0) :
    live (malloc live found) = false := by
  unfold malloc at h ⊢
  cases hfound : found.filter fun p => p != 0 && !live p with
  | none =>
    rw [hfound] at h
    exact absurd rfl h
  | some p =>
    have hp := (Option.filter_eq_some_iff.mp hfound).2
    simp only [Bool.and_eq_true, Bool.not_eq_eq_eq_not, Bool.not_true] at hp
    exact hp.2

theorem take_eq (live : UInt32 → Bool) {p : UInt32} (h : p ≠ 0) :
    take live p = update live p true :=
  if_neg h

/-- The module with the blocks `p`, `q` and `l`. -/
def holding (w : World) (cfg : Config) (table : List Region) (bits : UInt32) (p q l : UInt32) :
    World :=
  { w with
    obj := ⟨w.obj.setupRefCount, l, p, q, bits, (1 <<< bits) - 1, cfg⟩
    table := table
    live := update (update (update w.live p true) q true) l true }

/-- How far the allocation gets: the arrays and the lock are new blocks. -/
inductive Allocation (w : World) (cfg : Config) (o : Outcome) : Int × World → Prop where
  | noRegions (hno : ¬ GetsArrays w.live o) :
      Allocation w cfg o (sharedRegionEMemory,
        { w with obj := { w.obj with cfg := cfg, regions := 0 } })
  | noCreated (p : UInt32) (hno : ¬ GetsArrays w.live o) (hp : p ≠ 0) (hfree : w.live p = false) :
      Allocation w cfg o (sharedRegionEMemory,
        { w with
          obj := { w.obj with cfg := cfg, regions := p, bCreatedInKnlSpace := 0 }
          live := update w.live p true })
  | noDriver (p q : UInt32) (table : List Region) (hgets : GetsArrays w.live o)
      (hno : o.ioctl = false)
      (hp : p ≠ 0) (hq : q ≠ 0) (hfreep : w.live p = false) (hfreeq : w.live q = false)
      (hpq : p ≠ q) :
      Allocation w cfg o (sharedRegionEOsFailure,
        { w with
          obj := { w.obj with cfg := cfg, regions := p, bCreatedInKnlSpace := q }
          table := table
          live := update (update w.live p true) q true })
  | noLock (p q bits : UInt32) (table : List Region) (hgets : GetsArrays w.live o)
      (hno : ¬ GetsLock w.live o) (hp : p ≠ 0) (hq : q ≠ 0) :
      Allocation w cfg o (sharedRegionEMemory,
        { w with
          obj := ⟨w.obj.setupRefCount, 0, p, q, bits, (1 <<< bits) - 1, cfg⟩
          table := table
          live := update (update w.live p true) q true })
  | done (p q l bits : UInt32) (table : List Region) (hgets : GetsArrays w.live o)
      (hioctl : o.ioctl = true) (hlock : GetsLock w.live o) (hp : p ≠ 0) (hq : q ≠ 0) (hl : l ≠ 0)
      (hfreep : w.live p = false) (hfreeq : w.live q = false) (hfreel : w.live l = false)
      (hpq : p ≠ q) (hpl : p ≠ l) (hql : q ≠ l) :
      Allocation w cfg o (sharedRegionSSuccess, holding w cfg table bits p q l)

theorem fresh_of_taken {live : UInt32 → Bool} {p q : UInt32}
    (h : update live p true q = false) : p ≠ q ∧ live q = false := by
  by_cases hpq : q = p
  · rw [hpq, update_self] at h
    cases h
  · rw [update_of_ne hpq] at h
    exact ⟨Ne.symm hpq, h⟩

theorem allocate_cases (w : World) (cfg : Config) (o : Outcome) :
    Allocation w cfg o (allocate w cfg o) := by
  unfold allocate
  dsimp only
  by_cases hp : malloc w.live o.regionsAlloc = 0
  · rw [if_pos hp, hp]
    exact .noRegions fun h => h.1 hp
  have hfreep := malloc_free hp
  have htake := take_eq w.live hp
  rw [if_neg hp]
  by_cases hq : malloc (take w.live (malloc w.live o.regionsAlloc)) o.createdAlloc = 0
  · rw [if_pos hq, hq, htake]
    exact .noCreated _ (fun h => h.2 hq) hp hfreep
  have hgets : GetsArrays w.live o := ⟨hp, hq⟩
  have hlockIff : GetsLock w.live o ↔ malloc (take (take w.live (malloc w.live o.regionsAlloc))
      (malloc (take w.live (malloc w.live o.regionsAlloc)) o.createdAlloc)) o.gateCreate ≠ 0 :=
    Iff.rfl
  rw [if_neg hq]
  rw [htake] at hq hlockIff ⊢
  obtain ⟨hpq, hfreeq⟩ := fresh_of_taken (malloc_free hq)
  generalize malloc w.live o.regionsAlloc = p at *
  have htake' := take_eq (update w.live p true) hq
  rw [htake'] at hlockIff ⊢
  generalize malloc (update w.live p true) o.createdAlloc = q at *
  by_cases hioctl : o.ioctl = false
  · rw [if_pos hioctl]
    exact .noDriver p q _ hgets hioctl hp hq hfreep hfreeq hpq
  rw [if_neg hioctl]
  by_cases hl : malloc (update (update w.live p true) q true) o.gateCreate = 0
  · rw [if_pos hl, hl]
    exact .noLock p q _ _ hgets (fun h => hlockIff.mp h hl) hp hq
  · rw [if_neg hl]
    obtain ⟨hql, hfreel⟩ := fresh_of_taken (malloc_free hl)
    obtain ⟨hpl, hfreel⟩ := fresh_of_taken hfreel
    rw [take_eq _ hl]
    exact .done p q _ _ _ hgets (by simpa using hioctl) (hlockIff.mpr hl) hp hq hl hfreep hfreeq
      hfreel hpq hpl hql

variable {w w' : World} {cfg : Option Config} {o : Outcome}

theorem free_obj {p : UInt32} (h : w.free p = some w') : w'.obj = w.obj := by
  unfold World.free at h
  split at h
  · exact Option.some.inj h ▸ rfl
  · cases h

theorem lastDestroy_obj (h : lastDestroy w = some w') :
    w'.obj = { setupRefCount := w.obj.setupRefCount
               bCreatedInKnlSpace := w.obj.bCreatedInKnlSpace } := by
  unfold lastDestroy at h
  split at h
  · cases h
  obtain ⟨w₁, h₁, h⟩ := Option.bind_eq_some_iff.mp h
  obtain ⟨w₂, h₂, h₃⟩ := Option.bind_eq_some_iff.mp h
  have hobj₁ : w₁.obj = w.obj := by
    unfold freeCreated at h₁
    split at h₁
    · exact free_obj h₁
    · exact Option.some.inj h₁ ▸ rfl
  have hobj₂ : w₂.obj = { w.obj with regions := 0 } := by
    unfold freeRegions at h₂
    split at h₂
    · obtain ⟨w₃, hw₃, rfl⟩ := Option.map_eq_some_iff.mp h₂
      show { w₃.obj with regions := 0 } = _
      rw [free_obj hw₃, hobj₁]
    · next hnull =>
      have hnull : w₁.obj.regions = 0 := by simpa using hnull
      rw [← Option.some.inj h₂, ← hobj₁, ← hnull]
  unfold freeLock at h₃
  split at h₃
  · obtain ⟨w₄, hw₄, rfl⟩ := Option.map_eq_some_iff.mp h₃
    show { w₄.obj with localLock := 0 } = _
    rw [free_obj hw₄]
    simp only [clearFields, hobj₂]
  · next hnull =>
    have hnull : w.obj.localLock = 0 := by simpa [clearFields, hobj₂] using hnull
    rw [← Option.some.inj h₃]
    simp only [clearFields, hobj₂, hnull]

theorem lastDestroy_nothing (hlock : w.obj.localLock = 0) (hregions : w.obj.regions = 0)
    (hcreated : w.obj.bCreatedInKnlSpace = 0) : lastDestroy w = some (clearFields w) := by
  simp [lastDestroy, freeCreated, freeRegions, freeLock, clearFields, hlock, hregions, hcreated]

theorem lastDestroy_regions (hlock : w.obj.localLock = 0) (hregions : w.obj.regions ≠ 0)
    (hlive : w.live w.obj.regions = true) (hcreated : w.obj.bCreatedInKnlSpace = 0) :
    lastDestroy w = some (clearFields
      { w with
        obj := { w.obj with regions := 0 }
        table := []
        live := update w.live w.obj.regions false }) := by
  simp [lastDestroy, freeCreated, freeRegions, freeLock, clearFields, World.free, hlock, hregions,
    hcreated, hlive]

/-! ## The invariant -/

structure LifeInv (w : World) : Prop where
  sound : Sound w
  null : w.live 0 = false
  apart : w.obj.setupRefCount ≠ 0 → w.obj.regions ≠ w.obj.bCreatedInKnlSpace ∧
    w.obj.regions ≠ w.obj.localLock ∧ w.obj.bCreatedInKnlSpace ≠ w.obj.localLock
  destroys_le : w.destroys ≤ w.setups

theorem lifeInv_initial (hobj : w.obj = {}) (hlive : ∀ p, w.live p = false)
    (hcount : w.setups = w.destroys) : LifeInv w := by
  have hnone : ∀ p, ¬ w.Allocated p := by
    intro p hp
    have hlive := hlive p
    rw [hp.2] at hlive
    cases hlive
  refine ⟨⟨?_, ?_, ?_, ?_, ?_, fun _ => hobj⟩, hlive 0, ?_, Nat.le_of_eq hcount.symm⟩
  · rw [hobj, hcount, Nat.sub_self]
    rfl
  · exact ⟨fun h => absurd h (hnone _), fun h => by rw [hobj] at h; exact absurd h (by decide)⟩
  · exact ⟨fun h => absurd h (hnone _), fun h => by rw [hobj] at h; exact absurd h (by decide)⟩
  · exact ⟨fun h => absurd h (hnone _), fun h => by rw [hobj] at h; exact absurd h (by decide)⟩
  · intro p hp
    rw [hlive p] at hp
    cases hp
  · intro h
    rw [hobj] at h
    exact absurd rfl h

theorem LifeInv.at_rest (h : LifeInv w) (hzero : w.obj.setupRefCount = 0) :
    w.obj = {} ∧ (∀ p, w.live p = false) ∧ w.setups = w.destroys := by
  have hobj := h.sound.initial hzero
  refine ⟨hobj, ?_, ?_⟩
  · intro p
    by_contra hp
    have hp' : w.live p = true := by simpa using hp
    have hnull : p = 0 := by
      have howned := h.sound.owned p hp'
      rw [hobj] at howned
      rcases howned with howned | howned | howned <;> exact howned
    rw [hnull, h.null] at hp'
    cases hp'
  · have hcount := h.sound.count
    have hle := h.destroys_le
    rw [hzero] at hcount
    have hz : (0 : UInt32).toNat = 0 := rfl
    omega

theorem LifeInv.recount (h : LifeInv w) {n : UInt32} {setups destroys : Nat}
    (hpos : w.obj.setupRefCount ≠ 0) (hn : n ≠ 0) (hcount : n.toNat = setups - destroys)
    (hle : destroys ≤ setups) :
    LifeInv { w.setCount n with setups := setups, destroys := destroys } := by
  have hpos' : 0 < w.obj.setupRefCount := UInt32.pos_iff_ne_zero.mpr hpos
  have hn' : 0 < n := UInt32.pos_iff_ne_zero.mpr hn
  exact ⟨⟨hcount, ⟨fun _ => hn', fun _ => h.sound.regions.mpr hpos'⟩,
    ⟨fun _ => hn', fun _ => h.sound.created.mpr hpos'⟩,
    ⟨fun _ => hn', fun _ => h.sound.lock.mpr hpos'⟩, h.sound.owned, fun h0 => absurd h0 hn⟩,
    h.null, fun _ => h.apart hpos, hle⟩

/-! ## Every call -/

theorem success_not_neg : ¬ sharedRegionSSuccess < 0 := by decide

theorem setup_again (hpos : w.obj.setupRefCount ≠ 0) (hwrap : w.obj.setupRefCount + 1 ≠ 0)
    (cfg : Option Config) (o : Outcome) :
    step w (.setup cfg o) =
      some { w.setCount (w.obj.setupRefCount + 1) with setups := w.setups + 1 } := by
  have hmany : (w.setCount (w.obj.setupRefCount + 1)).obj.setupRefCount > 1 :=
    one_lt_inc hpos hwrap
  have hok : ¬ sharedRegionSAlreadySetup < 0 := by decide
  simp only [step, setup, if_pos hmany, Option.map_some, hok, if_false]
  rfl

theorem setup_first {n : UInt32} (hn : w.obj.setupRefCount + 1 = n) (hfirst : ¬ n > 1)
    {r : Int × World} (hr : firstSetup (w.setCount n) cfg o = r) : step w (.setup cfg o) =
      if r.1 < 0 then destroy r.2 else some { r.2 with setups := r.2.setups + 1 } := by
  have hfirst' : ¬ (w.setCount n).obj.setupRefCount > 1 := hfirst
  simp only [step, setup, hn, if_neg hfirst', hr]
  split
  · next hneg => simp [hneg, Option.map_map, Function.comp_def]
  · next hneg => simp [hneg]

theorem destroy_last (h : w.obj.setupRefCount = 1) :
    destroy w = lastDestroy (w.setCount 0) := by
  have hzero : w.obj.setupRefCount - 1 = 0 := by
    rw [h]
    rfl
  unfold destroy
  rw [hzero]
  exact if_pos rfl

theorem destroy_not_last (h : w.obj.setupRefCount - 1 ≠ 0) :
    destroy w = some (w.setCount (w.obj.setupRefCount - 1)) :=
  if_neg h

theorem firstSetup_refused (h : ¬ o.Starts cfg) :
    ∃ status, status < 0 ∧ firstSetup w cfg o = (status, w) := by
  unfold firstSetup
  by_cases hopen : o.drvOpen = false
  · exact ⟨sharedRegionEOsFailure, by decide, if_pos hopen⟩
  · have hentries : (cfg.getD o.getConfig).numEntries = 0 := by
      by_contra hne
      exact h ⟨by simpa using hopen, hne⟩
    exact ⟨sharedRegionEInvalidArg, by decide, by rw [if_neg hopen, if_pos hentries]⟩

theorem firstSetup_starts (h : o.Starts cfg) :
    firstSetup w cfg o = allocate w (cfg.getD o.getConfig) o := by
  unfold firstSetup
  rw [if_neg (by simp [h.1]), if_neg h.2]

theorem setup_inv (h : LifeInv w) (hzero : w.obj.setupRefCount = 0)
    (hlast : Lasting w (.setup cfg o)) :
    ∃ w', step w (.setup cfg o) = some w' ∧ LifeInv w' := by
  obtain ⟨hobj, hlive, hcount⟩ := h.at_rest hzero
  obtain ⟨obj, table, live, setups, destroys⟩ := w
  simp only at hobj hlive hcount
  subst hobj
  have hone : ({} : ModuleObject).setupRefCount + 1 = 1 := rfl
  have hfirst : ¬ (1 : UInt32) > 1 := by decide
  simp only [Lasting, if_true] at hlast
  by_cases hstarts : o.Starts cfg
  swap
  · obtain ⟨status, hneg, heq⟩ := firstSetup_refused hstarts
    rw [setup_first hone hfirst heq, if_pos hneg, destroy_last rfl, lastDestroy_nothing rfl rfl rfl]
    exact ⟨_, rfl, lifeInv_initial rfl hlive hcount⟩
  rw [setup_first hone hfirst (firstSetup_starts hstarts)]
  have hcases := allocate_cases (World.setCount ⟨{}, table, live, setups, destroys⟩ 1)
    (cfg.getD o.getConfig) o
  generalize allocate _ (cfg.getD o.getConfig) o = r at hcases ⊢
  cases hcases with
  | noRegions hno =>
    rw [if_pos memory_neg, destroy_last rfl, lastDestroy_nothing rfl rfl rfl]
    exact ⟨_, rfl, lifeInv_initial rfl hlive hcount⟩
  | noCreated p hno hp hfree =>
    rw [if_pos memory_neg, destroy_last rfl,
      lastDestroy_regions rfl hp (update_self ..) rfl]
    refine ⟨_, rfl, lifeInv_initial rfl ?_ hcount⟩
    intro q
    show update (update live p true) p false q = false
    rw [Function.update_idem, ← hfree]
    show update live p (live p) q = _
    rw [Function.update_eq_self, hlive q, hfree]
  | noDriver p q table hgets hno hp hq hfreep hfreeq hpq =>
    rw [(hlast hstarts hgets).1] at hno
    cases hno
  | noLock p q bits table hgets hno hp hq => exact absurd (hlast hstarts hgets).2 hno
  | done p q l bits table' hgets hioctl hlock hp hq hl hfreep hfreeq hfreel hpq hpl hql =>
    rw [if_neg success_not_neg]
    have hmem : ∀ x, update (update (update live p true) q true) l true x
        = true ↔ x = p ∨ x = q ∨ x = l := by
      intro x
      by_cases hxl : x = l
      · simp [hxl]
      by_cases hxq : x = q
      · simp [hxq, hql]
      by_cases hxp : x = p
      · simp [hxp, hpq, hpl]
      · simp [update_of_ne, hxl, hxq, hxp, hlive x]
    have hpos : (0 : UInt32) < 1 := by decide
    refine ⟨_, rfl, ⟨?_, ?_, ?_, ?_, ?_, ?_⟩, ?_, ?_, ?_⟩
    · show (1 : Nat) = setups + 1 - destroys
      omega
    · exact ⟨fun _ => hpos, fun _ => ⟨hp, (hmem p).mpr (.inl rfl)⟩⟩
    · exact ⟨fun _ => hpos, fun _ => ⟨hq, (hmem q).mpr (.inr (.inl rfl))⟩⟩
    · exact ⟨fun _ => hpos, fun _ => ⟨hl, (hmem l).mpr (.inr (.inr rfl))⟩⟩
    · intro x hx
      exact (hmem x).mp hx
    · intro h0
      cases h0
    · rw [Bool.eq_false_iff]
      intro h0
      rcases (hmem 0).mp h0 with h0 | h0 | h0
      · exact hp h0.symm
      · exact hq h0.symm
      · exact hl h0.symm
    · intro _
      exact ⟨hpq, hpl, hql⟩
    · show destroys ≤ setups + 1
      omega

theorem step_inv {c : Call} (h : LifeInv w) (hord : Orderly w c) (hlast : Lasting w c) :
    ∃ w', step w c = some w' ∧ LifeInv w' := by
  have hcount := h.sound.count
  have hle := h.destroys_le
  cases c with
  | setup cfg o =>
    by_cases hzero : w.obj.setupRefCount = 0
    · exact setup_inv h hzero hlast
    rw [Lasting, if_neg hzero] at hlast
    by_cases hwrap : w.obj.setupRefCount + 1 = 0
    · -- the count goes to 0 and back
      obtain ⟨status, hneg, heq⟩ := firstSetup_refused (w := w.setCount 0) (hlast hwrap)
      have hback : (w.setCount 0).obj.setupRefCount - 1 = w.obj.setupRefCount :=
        dec_of_inc_eq_zero hwrap
      rw [setup_first hwrap (by decide) heq, if_pos hneg, destroy_not_last (by rwa [hback]), hback]
      exact ⟨_, rfl, h.recount hzero hzero hcount hle⟩
    · rw [setup_again hzero hwrap]
      refine ⟨_, rfl, h.recount hzero hwrap ?_ (Nat.le_succ_of_le hle)⟩
      rw [toNat_inc hwrap, hcount]
      show w.setups - w.destroys + 1 = w.setups + 1 - w.destroys
      omega
  | destroy =>
    have hlt : w.destroys < w.setups := hord
    have hne : w.obj.setupRefCount ≠ 0 := by
      intro h0
      rw [h0] at hcount
      have hz : (0 : UInt32).toNat = 0 := rfl
      omega
    have hmore : w.obj.setupRefCount - 1 ≠ 0 := fun h0 => hlast (eq_one_of_dec h0 hne)
    refine ⟨_, by rw [step, destroy_not_last hmore]; rfl, h.recount hne hmore ?_ hlt⟩
    rw [toNat_dec hne, hcount]
    show w.setups - w.destroys - 1 = w.setups - (w.destroys + 1)
    omega

theorem lastDestroy_not_sound {s d : Nat} (hcreated : w.obj.bCreatedInKnlSpace ≠ 0)
    (hzero : w.obj.setupRefCount = 0) (h : lastDestroy w = some w') :
    ¬ Sound { w' with setups := s, destroys := d } := by
  intro hsound
  have hobj := lastDestroy_obj h
  have hinit : w'.obj = {} := hsound.initial (by
    show w'.obj.setupRefCount = 0
    rw [hobj, hzero])
  rw [hinit] at hobj
  exact hcreated (congrArg ModuleObject.bCreatedInKnlSpace hobj).symm

theorem destroy_not_sound (h : LifeInv w) (hone : w.obj.setupRefCount = 1)
    (hstep : step w .destroy = some w') : ¬ Sound w' := by
  have hcreated : w.Allocated w.obj.bCreatedInKnlSpace := by
    rw [h.sound.created, hone]
    decide
  rw [step, destroy_last hone] at hstep
  obtain ⟨w₁, hw₁, rfl⟩ := Option.map_eq_some_iff.mp hstep
  exact lastDestroy_not_sound (w := w.setCount 0) hcreated.1 rfl hw₁

theorem setup_failed_not_sound (hzero : w.obj.setupRefCount = 0)
    (hfail : ¬ Lasting w (.setup cfg o)) (hstep : step w (.setup cfg o) = some w') :
    ¬ Sound w' := by
  rw [Lasting, if_pos hzero] at hfail
  have hone : w.obj.setupRefCount + 1 = 1 := by
    rw [hzero]
    rfl
  have hstarts : o.Starts cfg := by
    by_contra hno
    exact hfail fun hs => absurd hs hno
  have hgets : GetsArrays w.live o := by
    by_contra hno
    exact hfail fun _ hg => absurd hg hno
  rw [setup_first hone (by decide) (firstSetup_starts hstarts)] at hstep
  have hcases := allocate_cases (w.setCount 1) (cfg.getD o.getConfig) o
  generalize allocate _ (cfg.getD o.getConfig) o = r at hcases hstep
  cases hcases with
  | noRegions hno => exact absurd hgets hno
  | noCreated p hno hp hfree => exact absurd hgets hno
  | noDriver p q table _ hno hp hq hfreep hfreeq hpq =>
    rw [if_pos osFailure_neg, destroy_last rfl] at hstep
    exact lastDestroy_not_sound hq rfl hstep
  | noLock p q bits table _ hno hp hq =>
    rw [if_pos memory_neg, destroy_last rfl] at hstep
    exact lastDestroy_not_sound hq rfl hstep
  | done p q l bits table _ hioctl hlock hp hq hl hfreep hfreeq hfreel hpq hpl hql =>
    exact absurd (fun _ _ => ⟨hioctl, hlock⟩) hfail

/-- With the count wrapped, a module that is in use is set up again: its blocks are lost, or the
count is. -/
theorem setup_wrapped_not_sound (h : LifeInv w) (hzero : w.obj.setupRefCount ≠ 0)
    (hwrap : w.obj.setupRefCount + 1 = 0) (hstarts : o.Starts cfg)
    (hstep : step w (.setup cfg o) = some w') : ¬ Sound w' := by
  have hpos : 0 < w.obj.setupRefCount := UInt32.pos_iff_ne_zero.mpr hzero
  have hmax : (0 : UInt32) - 1 ≠ 0 := by decide
  have hmaxpos : (0 : UInt32) < 0 - 1 := by decide
  rw [setup_first hwrap (by decide) (firstSetup_starts hstarts)] at hstep
  have hcases := allocate_cases (w.setCount 0) (cfg.getD o.getConfig) o
  generalize allocate _ (cfg.getD o.getConfig) o = r at hcases hstep
  intro hsound
  cases hcases with
  | noRegions hno =>
    rw [if_pos memory_neg, destroy_not_last hmax] at hstep
    cases hstep
    exact (hsound.regions.mpr hmaxpos).1 rfl
  | noCreated p hno hp hfree =>
    rw [if_pos memory_neg, destroy_not_last hmax] at hstep
    cases hstep
    exact (hsound.created.mpr hmaxpos).1 rfl
  | noDriver p q table _ hno hp hq hfreep hfreeq hpq =>
    rw [if_pos osFailure_neg, destroy_not_last hmax] at hstep
    cases hstep
    have hold := h.sound.regions.mpr hpos
    have hne : ∀ x, w.live x = false → w.obj.regions ≠ x := by
      intro x hx heq
      rw [← heq, hold.2] at hx
      cases hx
    have hlive : update (update w.live p true) q true w.obj.regions = true := by
      rw [update_of_ne (hne q hfreeq), update_of_ne (hne p hfreep)]
      exact hold.2
    rcases hsound.owned w.obj.regions hlive with heq | heq | heq
    · exact hne p hfreep heq
    · exact hne q hfreeq heq
    · exact (h.apart hzero).2.1 heq
  | noLock p q bits table _ hno hp hq =>
    rw [if_pos memory_neg, destroy_not_last hmax] at hstep
    cases hstep
    exact (hsound.lock.mpr hmaxpos).1 rfl
  | done p q l bits table _ hioctl hlock hp hq hl hfreep hfreeq hfreel hpq hpl hql =>
    rw [if_neg success_not_neg] at hstep
    cases hstep
    exact hp (congrArg ModuleObject.regions (hsound.initial rfl))

theorem step_not_sound {c : Call} (h : LifeInv w) (hfail : ¬ Lasting w c)
    (hstep : step w c = some w') : ¬ Sound w' := by
  cases c with
  | destroy =>
    have hone : w.obj.setupRefCount = 1 := by simpa [Lasting] using hfail
    exact destroy_not_sound h hone hstep
  | setup cfg o =>
    by_cases hzero : w.obj.setupRefCount = 0
    · exact setup_failed_not_sound hzero hfail hstep
    · rw [Lasting, if_neg hzero] at hfail
      obtain ⟨hwrap, hstarts⟩ : w.obj.setupRefCount + 1 = 0 ∧ o.Starts cfg := by
        simpa using hfail
      exact setup_wrapped_not_sound h hzero hwrap hstarts hstep

/-- Over every run in which a destroy comes after a setup: all calls return and the module is
sound after each of them, exactly if no life cycle ends that had both arrays. -/
theorem lifecycle_sound_iff (calls : List Call) (hord : Guarded step Orderly {} calls) :
    Always step Sound {} calls ↔ Guarded step Lasting {} calls := by
  apply always_iff_guarded_under (J := LifeInv) (H := Orderly)
  · intro w h
    exact h.sound
  · intro w c h hord hlast
    exact step_inv h hord hlast
  · intro w c w' h _ hfail hstep
    exact step_not_sound h hfail hstep
  · exact lifeInv_initial rfl (fun _ => rfl) rfl
  · exact hord

/-- A setup in which every call succeeds, with blocks at 16, 32 and 48. -/
def setupOk : Call :=
  .setup (some ⟨128, 2, true⟩)
    ⟨true, ⟨128, 2, true⟩, some 16, some 32, 0, true, fun _ r => r, some 48⟩

/-- A setup for which the driver does not open. -/
def setupRefused : Call :=
  .setup none ⟨false, ⟨128, 2, true⟩, none, none, 0, false, fun _ r => r, none⟩

/-- Two clients, one of which leaves. -/
theorem lifecycle_sound_twoClients :
    Guarded step Orderly {} [setupOk, setupOk, .destroy] ∧
      (Always step Sound {} [setupOk, setupOk, .destroy] ↔
        Guarded step Lasting {} [setupOk, setupOk, .destroy]) := by
  have hord : Guarded step Orderly {} [setupOk, setupOk, .destroy] := by
    refine Guarded.cons trivial rfl (Guarded.cons trivial rfl (Guarded.cons ?_ rfl trivial))
    show 0 < 2
    decide
  exact ⟨hord, lifecycle_sound_iff _ hord⟩

/-- After one life cycle the module is not in its first state, and the next setup, whose driver
does not open, frees `bCreatedInKnlSpace` a second time. -/
theorem lifecycle_not_sound :
    (Guarded step Orderly {} [setupOk, .destroy, setupRefused] ∧
      run step {} [setupOk, .destroy, setupRefused] = none) ∧
    ∃ w, run step {} [setupOk, .destroy] = some w ∧ w.obj.setupRefCount = 0 ∧
      w.obj.bCreatedInKnlSpace = 32 ∧ ¬ Sound w := by
  refine ⟨⟨?_, rfl⟩, _, rfl, rfl, rfl, ?_⟩
  · refine Guarded.cons trivial rfl (Guarded.cons ?_ rfl ⟨trivial, ?_⟩)
    · show 0 < 1
      decide
    · intro w hw
      cases hw
  · intro h
    exact absurd (congrArg ModuleObject.bCreatedInKnlSpace (h.initial rfl)) (by decide)

/-! ## The table -/

/-- The module as `SharedRegion` has it: no table where the pointer is NULL. -/
def World.toModule (w : World) : Module where
  setupRefCount := w.obj.setupRefCount.toNat
  regions := if w.obj.regions = 0 then [] else w.table
  numOffsetBits := w.obj.numOffsetBits
  offsetMask := w.obj.offsetMask
  cfg := w.obj.cfg

/-- Which of the calls succeed. -/
def Outcome.succeeding (o : Outcome) (live : UInt32 → Bool) : SetupOutcome :=
  let taken := take live (malloc live o.regionsAlloc)
  { drvOpen := o.drvOpen
    getConfig := o.getConfig
    regionsAlloc := malloc live o.regionsAlloc != 0
    createdAlloc := malloc taken o.createdAlloc != 0
    self := o.self
    ioctl := o.ioctl
    filled := o.filled
    gateCreate := malloc (take taken (malloc taken o.createdAlloc)) o.gateCreate != 0 }

theorem lastDestroy_toModule (h : lastDestroy w = some w') :
    w'.toModule = { setupRefCount := w.obj.setupRefCount.toNat } := by
  simp only [World.toModule, lastDestroy_obj h, if_true]

/-- A destroy of a module that is set up does to the table what `SharedRegion` says. -/
theorem destroy_refines (hpos : w.obj.setupRefCount ≠ 0) (h : destroy w = some w') :
    w'.toModule = Syslink.destroy w.toModule := by
  have hdec := toNat_dec hpos
  simp only [destroy] at h
  unfold Syslink.destroy
  dsimp only
  split at h
  · next hlast =>
    have hzero : w.obj.setupRefCount - 1 = 0 := hlast
    rw [lastDestroy_toModule h]
    show _ = if w.obj.setupRefCount.toNat - 1 = 0 then _ else _
    rw [if_pos (by rw [← hdec, hzero]; rfl), hzero]
    show _ = ({ setupRefCount := w.obj.setupRefCount.toNat - 1 } : Module)
    rw [← hdec, hzero]
    rfl
  · next hlast =>
    have hmore : w.obj.setupRefCount.toNat - 1 ≠ 0 := by
      rw [← hdec]
      exact fun h0 => hlast (UInt32.toNat_inj.mp h0)
    show _ = if w.obj.setupRefCount.toNat - 1 = 0 then _ else _
    rw [if_neg hmore, ← Option.some.inj h]
    simp only [World.toModule, World.setCount, hdec]
    rfl

theorem firstSetup_refines (w : World) (cfg : Option Config) (o : Outcome) :
    (firstSetup w cfg o).1 = (Syslink.firstSetup w.toModule cfg (o.succeeding w.live)).1 ∧
      (¬ (firstSetup w cfg o).1 < 0 → (firstSetup w cfg o).2.toModule =
        (Syslink.firstSetup w.toModule cfg (o.succeeding w.live)).2) := by
  unfold firstSetup Syslink.firstSetup allocate Outcome.succeeding
  dsimp only
  by_cases hopen : o.drvOpen = false
  · simp [hopen, osFailure_neg]
  by_cases hentries : (cfg.getD o.getConfig).numEntries = 0
  · simp [hopen, hentries, sharedRegionEInvalidArg]
  by_cases hp : malloc w.live o.regionsAlloc = 0
  · simp [hopen, hentries, hp, memory_neg]
  by_cases hq : malloc (take w.live (malloc w.live o.regionsAlloc)) o.createdAlloc = 0
  · simp [hopen, hentries, hp, hq, memory_neg]
  by_cases hioctl : o.ioctl = false
  · simp [hopen, hentries, hp, hq, hioctl, osFailure_neg]
  by_cases hl : malloc (take (take w.live (malloc w.live o.regionsAlloc))
      (malloc (take w.live (malloc w.live o.regionsAlloc)) o.createdAlloc)) o.gateCreate = 0
  · simp [hopen, hentries, hp, hq, hioctl, hl, memory_neg]
  · simp [hopen, hentries, hp, hq, hioctl, hl, World.toModule, getNumOffsetBits]

theorem firstSetup_count (w : World) (cfg : Option Config) (o : Outcome) :
    (firstSetup w cfg o).2.obj.setupRefCount = w.obj.setupRefCount := by
  by_cases hstarts : o.Starts cfg
  · rw [firstSetup_starts hstarts]
    have hcases := allocate_cases w (cfg.getD o.getConfig) o
    generalize allocate w (cfg.getD o.getConfig) o = r at hcases ⊢
    cases hcases <;> rfl
  · obtain ⟨status, _, heq⟩ := firstSetup_refused (w := w) hstarts
    rw [heq]

theorem setup_toModule (hwrap : w.obj.setupRefCount + 1 ≠ 0) (cfg : Option Config)
    (o : SetupOutcome) : Syslink.setup w.toModule cfg o =
      if w.obj.setupRefCount.toNat + 1 > 1 then
        (sharedRegionSAlreadySetup, (w.setCount (w.obj.setupRefCount + 1)).toModule)
      else
        let r := Syslink.firstSetup (w.setCount (w.obj.setupRefCount + 1)).toModule cfg o
        if r.1 < 0 then (r.1, Syslink.destroy r.2) else r := by
  have hm : (w.setCount (w.obj.setupRefCount + 1)).toModule =
      ⟨w.toModule.setupRefCount + 1, w.toModule.regions, w.toModule.numOffsetBits,
        w.toModule.offsetMask, w.toModule.cfg⟩ := by
    simp only [World.toModule, World.setCount, toNat_inc hwrap]
    rfl
  rw [hm]
  rfl

theorem setup_refines {status : Int} (hwrap : w.obj.setupRefCount + 1 ≠ 0)
    (h : setup w cfg o = some (status, w')) :
    Syslink.setup w.toModule cfg (o.succeeding w.live) = (status, w'.toModule) := by
  have hinc := toNat_inc hwrap
  rw [setup_toModule hwrap]
  by_cases hzero : w.obj.setupRefCount = 0
  · have hone : w.obj.setupRefCount + 1 = 1 := by
      rw [hzero]
      rfl
    obtain ⟨hstatus, hmodule⟩ := firstSetup_refines (w.setCount 1) cfg o
    have hcount : (firstSetup (w.setCount 1) cfg o).2.obj.setupRefCount = 1 :=
      firstSetup_count (w.setCount 1) cfg o
    have hfirst : ¬ (w.setCount 1).obj.setupRefCount > 1 := by
      show ¬ (1 : UInt32) > 1
      decide
    rw [if_neg (by rw [← hinc, hone]; decide), hone]
    simp only [setup, hone, if_neg hfirst] at h
    dsimp only
    rw [show w.live = (w.setCount 1).live from rfl, ← hstatus]
    by_cases hneg : (firstSetup (w.setCount 1) cfg o).1 < 0
    · rw [if_pos hneg] at h ⊢
      obtain ⟨w₁, hw₁, heq⟩ := Option.map_eq_some_iff.mp h
      cases heq
      rw [destroy_last hcount] at hw₁
      rw [lastDestroy_toModule hw₁]
      obtain ⟨hsame, _⟩ := firstSetup_ready (w.setCount 1).toModule cfg
        (o.succeeding (w.setCount 1).live)
      unfold Syslink.destroy
      simp only [hsame]
      rfl
    · rw [if_neg hneg] at h ⊢
      have hr : firstSetup (w.setCount 1) cfg o = (status, w') := Option.some.inj h
      rw [hr] at hstatus hmodule hneg
      exact Prod.ext hstatus.symm (hmodule hneg).symm
  · have hmany : (w.setCount (w.obj.setupRefCount + 1)).obj.setupRefCount > 1 :=
      one_lt_inc hzero hwrap
    simp only [setup, if_pos hmany, Option.some.injEq, Prod.mk.injEq] at h
    obtain ⟨rfl, rfl⟩ := h
    rw [if_pos]
    rw [← hinc]
    exact hmany

def tableStep (w : World) (m : Module) : Call → Module
  | .setup cfg o => (Syslink.setup m cfg (o.succeeding w.live)).2
  | .destroy => Syslink.destroy m

/-- Before and after each call the module has the table `m` that the calls so far lead to, and
each setup that returns has the status that it should have. -/
def Follows : World → Module → List Call → Prop
  | w, m, [] => w.toModule = m
  | w, m, c :: calls => w.toModule = m ∧
    (∀ cfg o r, c = .setup cfg o → setup w cfg o = some r →
      (Syslink.setup m cfg (o.succeeding w.live)).1 = r.1) ∧
    ∀ w', step w c = some w' → Follows w' (tableStep w m c) calls

/-- The count stays in its range. -/
def Counted (w : World) : Call → Prop
  | .setup _ _ => w.obj.setupRefCount + 1 ≠ 0
  | .destroy => w.obj.setupRefCount ≠ 0

theorem step_refines {c : Call} (hcount : Counted w c) (h : step w c = some w') :
    w'.toModule = tableStep w w.toModule c := by
  cases c with
  | setup cfg o =>
    obtain ⟨r, hr, rfl⟩ := Option.map_eq_some_iff.mp h
    rw [tableStep, setup_refines hcount hr]
    split <;> rfl
  | destroy =>
    obtain ⟨w₁, hw₁, rfl⟩ := Option.map_eq_some_iff.mp h
    exact (destroy_refines hcount hw₁ :)

/-- Over every run of setups and destroys, whichever of them fail, the module with its blocks on
the heap has the table that the calls should lead to. -/
theorem lifecycle_refines (calls : List Call) (h : Guarded step Counted {} calls) :
    Follows {} {} calls := by
  have hrun : ∀ w, Guarded step Counted w calls → Follows w w.toModule calls := by
    clear h
    induction calls with
    | nil => exact fun _ _ => rfl
    | cons c calls ih =>
      intro w hG
      refine ⟨rfl, ?_, ?_⟩
      · rintro cfg o r rfl hr
        rw [setup_refines hG.1 hr]
      · intro w' hw'
        rw [← step_refines hG.1 hw']
        exact ih w' (hG.2 w' hw')
  exact hrun {} h

theorem lifecycle_refines_two : Follows {} {} [setupRefused, setupOk, .destroy] := by
  apply lifecycle_refines
  refine Guarded.cons ?_ rfl (Guarded.cons ?_ rfl (Guarded.cons ?_ rfl trivial)) <;>
  · intro h
    cases h

end Lifecycle
end Omap4Hal.Syslink

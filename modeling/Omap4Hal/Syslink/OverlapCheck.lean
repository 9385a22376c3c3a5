import Mathlib.Order.CompletePartialOrder
import Mathlib.Order.Interval.Set.Disjoint
import Mathlib.Order.Lattice.Nat
import Omap4Hal.Syslink.SharedRegion

/- The overlap check of the region table (`SharedRegion_checkOverlap`), and the table as
   `SharedRegion_setEntry` and `SharedRegion_clearEntry` change it.

   The check forms one sum for each valid region, as a 32-bit word: the end of the region
   where it starts at or below the range, the end of the range otherwise. A sum that
   reaches 2^32 is zero or little more, and the region is passed over. An empty range
   inside another one is reported though it has no byte in common with it.

   `SharedRegion_setEntry` does not call the check. It stores what the driver accepts. -/
namespace Omap4Hal.Syslink
open Lib

def sharedRegionEFail : Int := -1

/-! ## The check -/

/-- The body of the loop: the region is valid and the range is reported. -/
def Entry.rejects (e : Entry) (base len : UInt32) : Bool :=
  e.isValid &&
    if e.base ≤ base then base < e.base + e.len
    else e.base < base + len

/-- That the module is not set up is only logged. -/
def checkOverlap (m : Module) (base len : UInt32) : Int :=
  if m.setupRefCount = 0 then sharedRegionSSuccess
  else if (m.regions.take m.cfg.numEntries.toNat).any fun r => r.entry.rejects base len then
    sharedRegionEFail
  else sharedRegionSSuccess

/-! ## Ranges -/

/-- The addresses of a range. -/
def addresses (base len : UInt32) : Set Nat := Set.Ico base.toNat (base.toNat + len.toNat)

/-- A valid region that has an address in common with the range. -/
def Entry.Overlaps (e : Entry) (base len : UInt32) : Prop :=
  e.isValid = true ∧ ¬ Disjoint (addresses base len) (addresses e.base e.len)

/-- The sum that the check forms is past the address space. -/
def Entry.Wraps (e : Entry) (base len : UInt32) : Prop :=
  if e.base ≤ base then 2 ^ 32 ≤ e.base.toNat + e.len.toNat
  else 2 ^ 32 ≤ base.toNat + len.toNat

/-- Of the range and a valid region one is empty and lies inside the other. -/
def Entry.EmptyInside (e : Entry) (base len : UInt32) : Prop :=
  e.isValid = true ∧
    ((len = 0 ∧ base.toNat ∈ addresses e.base e.len) ∨
      (e.len = 0 ∧ base < e.base ∧ e.base.toNat ∈ addresses base len))

variable {base len : UInt32} {m : Module}

theorem overlaps_iff {e : Entry} :
    e.Overlaps base len ↔ e.isValid = true ∧ len ≠ 0 ∧ e.len ≠ 0 ∧
      base.toNat < e.base.toNat + e.len.toNat ∧ e.base.toNat < base.toNat + len.toNat := by
  have hlen : len ≠ 0 ↔ len.toNat ≠ 0 := not_congr UInt32.toNat_inj.symm
  have helen : e.len ≠ 0 ↔ e.len.toNat ≠ 0 := not_congr UInt32.toNat_inj.symm
  rw [Entry.Overlaps, addresses, addresses, Set.Ico_disjoint_Ico, hlen, helen]
  apply and_congr_right
  intro _
  omega

/-- What the loop reports: an overlap, or an empty range inside the other, with the sum
inside the address space. -/
theorem rejects_iff {e : Entry} (hfit : base.toNat + len.toNat ≤ 2 ^ 32) :
    e.rejects base len = true ↔
      ¬ e.Wraps base len ∧ (e.Overlaps base len ∨ e.EmptyInside base len) := by
  have hlen : len = 0 ↔ len.toNat = 0 := UInt32.toNat_inj.symm
  have helen : e.len = 0 ↔ e.len.toNat = 0 := UInt32.toNat_inj.symm
  have hbase := base.toNat_lt
  have hebase := e.base.toNat_lt
  have hel := e.len.toNat_lt
  simp only [overlaps_iff, Entry.rejects, Entry.EmptyInside, Entry.Wraps, ne_eq, hlen, helen,
    addresses, Set.mem_Ico, Bool.and_eq_true, UInt32.lt_iff_toNat_lt]
  by_cases hvalid : e.isValid = true
  swap
  · simp [hvalid]
  simp only [hvalid, true_and]
  by_cases hle : e.base ≤ base
  · have hle' := UInt32.le_iff_toNat_le.mp hle
    simp only [hle, if_true, decide_eq_true_eq, UInt32.toNat_add]
    omega
  · have hlt : base.toNat < e.base.toNat := by
      rw [UInt32.le_iff_toNat_le] at hle
      omega
    simp only [hle, if_false, decide_eq_true_eq, UInt32.toNat_add]
    omega

/-! ## The answer of the check -/

/-- The range has no address in common with a valid region. -/
def Free (m : Module) (base len : UInt32) : Prop :=
  ∀ r ∈ m.regions, r.entry.isValid = true →
    Disjoint (addresses base len) (addresses r.entry.base r.entry.len)

/-- An overlap is found with its sum inside the address space; or an overlap is passed
over exactly where an empty range is reported in its place. -/
def SumsSuffice (m : Module) (base len : UInt32) : Prop :=
  (∃ r ∈ m.regions, r.entry.Overlaps base len ∧ ¬ r.entry.Wraps base len) ∨
    ((∃ r ∈ m.regions, r.entry.Overlaps base len ∧ r.entry.Wraps base len) ↔
      ∃ r ∈ m.regions, r.entry.EmptyInside base len ∧ ¬ r.entry.Wraps base len)

theorem not_free_iff :
    ¬ Free m base len ↔ ∃ r ∈ m.regions, r.entry.Overlaps base len := by
  simp only [Free, Entry.Overlaps, not_forall, exists_prop]

theorem checkOverlap_success (hnone : m.setupRefCount = 0 → m.regions = [])
    (hready : m.setupRefCount ≠ 0 → Ready m) :
    checkOverlap m base len = sharedRegionSSuccess ↔
      ¬ ∃ r ∈ m.regions, r.entry.rejects base len = true := by
  rw [checkOverlap]
  split
  next hz => simp [hnone hz]
  next hz =>
    have htable : m.regions.take m.cfg.numEntries.toNat = m.regions := by
      rw [← (hready hz).length, List.take_length]
    rw [htable, ← List.any_eq_true]
    split
    next hany => simp [hany, sharedRegionEFail, sharedRegionSSuccess]
    next hany => simp [hany]

theorem checkOverlap_exact (hnone : m.setupRefCount = 0 → m.regions = [])
    (hready : m.setupRefCount ≠ 0 → Ready m) (hfit : base.toNat + len.toNat ≤ 2 ^ 32) :
    (checkOverlap m base len = sharedRegionSSuccess ↔ Free m base len) ↔
      SumsSuffice m base len := by
  have hrejects : (∃ r ∈ m.regions, r.entry.rejects base len = true) ↔
      (∃ r ∈ m.regions, r.entry.Overlaps base len ∧ ¬ r.entry.Wraps base len) ∨
        ∃ r ∈ m.regions, r.entry.EmptyInside base len ∧ ¬ r.entry.Wraps base len := by
    rw [← exists_or]
    apply exists_congr
    intro r
    rw [rejects_iff hfit, ← and_or_left, ← or_and_right]
    exact and_congr_right' and_comm
  have hoverlap : (∃ r ∈ m.regions, r.entry.Overlaps base len) ↔
      (∃ r ∈ m.regions, r.entry.Overlaps base len ∧ ¬ r.entry.Wraps base len) ∨
        ∃ r ∈ m.regions, r.entry.Overlaps base len ∧ r.entry.Wraps base len := by
    rw [← exists_or]
    apply exists_congr
    intro r
    rw [← and_or_left, ← and_or_left]
    exact and_congr_right' (and_iff_left (em' _)).symm
  have hfree : Free m base len ↔ ¬ ∃ r ∈ m.regions, r.entry.Overlaps base len := by
    rw [← not_free_iff, not_not]
  rw [checkOverlap_success hnone hready, hfree, not_iff_not, hrejects, hoverlap, SumsSuffice]
  by_cases hseen : ∃ r ∈ m.regions, r.entry.Overlaps base len ∧ ¬ r.entry.Wraps base len
  · simp only [hseen, true_or]
  · simp only [hseen, false_or]
    exact iff_comm

/-! ## The table -/

/-- No two valid regions have an address in common. -/
def Apart (m : Module) : Prop :=
  ∀ (i j : Nat) (ri rj : Region), i ≠ j → m.regions[i]? = some ri → m.regions[j]? = some rj →
    ri.entry.isValid = true → rj.entry.isValid = true →
      Disjoint (addresses ri.entry.base ri.entry.len) (addresses rj.entry.base rj.entry.len)

/-- The entry is invalid or has no address in common with the valid regions of other ids. -/
def Entry.FitsAt (e : Entry) (m : Module) (id : UInt16) : Prop :=
  e.isValid = true → ∀ (i : Nat) (r : Region), i ≠ id.toNat → m.regions[i]? = some r →
    r.entry.isValid = true →
      Disjoint (addresses e.base e.len) (addresses r.entry.base r.entry.len)

/-- The driver accepts an entry only where it fits. -/
def EntryFits (m : Module) : Call → Prop
  | .setEntry id (some entry) status => 0 ≤ status → id < m.cfg.numEntries → entry.FitsAt m id
  | _ => True

/-- The calls that change entries. -/
def Call.OnEntries : Call → Prop
  | .setup _ _ => False
  | _ => True

theorem setEntry_none (m : Module) (id : UInt16) (status : Int) :
    (setEntry m id none status).2 = m := by
  rw [setEntry]
  split
  next => rfl
  next => rfl

theorem setEntry_some (m : Module) (id : UInt16) (e : Entry) (status : Int) :
    (setEntry m id (some e) status).2 =
      if m.setupRefCount ≠ 0 ∧ id < m.cfg.numEntries ∧ 0 ≤ status then
        { m with regions := m.regions.modify id.toNat fun r => { r with entry := e } }
      else m := by
  rw [setEntry]
  by_cases hcount : m.setupRefCount = 0
  · simp [hcount]
  by_cases hid : id < m.cfg.numEntries
  · by_cases hstatus : 0 ≤ status
    · simp [hcount, hid, hstatus, UInt16.not_le.mpr hid]
    · simp [hcount, hid, hstatus, UInt16.not_le.mpr hid]
  · simp [hcount, hid, UInt16.not_lt.mp hid]

theorem clearEntry_cases (m : Module) (id : UInt16) (status : Int) :
    (clearEntry m id status).2 = m ∨
      ∃ r : Region, r.entry.isValid = false ∧ m.setupRefCount ≠ 0 ∧
        (clearEntry m id status).2 = m.setRegion id r := by
  rw [clearEntry]
  split
  next => exact Or.inl rfl
  next hcount =>
    split
    next => exact Or.inl rfl
    next =>
      split
      next => exact Or.inl rfl
      next =>
        split
        next => exact Or.inl rfl
        next => exact Or.inr ⟨_, rfl, hcount, rfl⟩

theorem setup_none {cfg : Option Config} {o : SetupOutcome}
    (hcount : (setup m cfg o).2.setupRefCount = 0) : (setup m cfg o).2.regions = [] := by
  obtain ⟨hsame, -⟩ := firstSetup_ready { m with setupRefCount := m.setupRefCount + 1 } cfg o
  simp only [setup] at hcount ⊢
  split at hcount
  next => cases hcount
  next hone =>
    rw [if_neg hone]
    split at hcount
    next hneg =>
      rw [destroy_setupRefCount] at hcount
      simp only [if_pos hneg, destroy, hcount, if_true]
    next =>
      rw [hsame] at hcount
      cases hcount

theorem step_none {m' : Module} {c : Call} (h : m.setupRefCount = 0 → m.regions = [])
    (hstep : step m c = some m') : m'.setupRefCount = 0 → m'.regions = [] := by
  cases c with
  | setup cfg o =>
    cases hstep
    exact setup_none
  | setEntry id entry status =>
    cases hstep
    cases entry with
    | none => rwa [setEntry_none]
    | some e =>
      rw [setEntry_some]
      split
      next hdone => exact fun hz => absurd hz hdone.1
      next => exact h
  | clearEntry id status =>
    cases hstep
    rcases clearEntry_cases m id status with heq | ⟨r, -, hcount, heq⟩
    · rwa [heq]
    · rw [heq]
      exact fun hz => absurd hz hcount

theorem reachable_none {calls : List Call} (h : run step {} calls = some m) :
    m.setupRefCount = 0 → m.regions = [] :=
  run_induct (I := fun m => m.setupRefCount = 0 → m.regions = [])
    (fun _ _ _ hs hstep => step_none hs hstep) (fun _ => rfl) h

theorem Apart.setRegion (h : Apart m) (id : UInt16) {r : Region} (hr : r.entry.isValid = false) :
    Apart (m.setRegion id r) := by
  have hold : ∀ (i : Nat) (q : Region), (m.regions.set id.toNat r)[i]? = some q →
      q.entry.isValid = true → m.regions[i]? = some q := by
    intro i q hq hvalid
    rw [List.getElem?_set] at hq
    split at hq
    next =>
      split at hq
      next =>
        rw [← Option.some.inj hq, hr] at hvalid
        cases hvalid
      next => cases hq
    next => exact hq
  intro i j ri rj hij hi hj hvi hvj
  exact h i j ri rj hij (hold i ri hi hvi) (hold j rj hj hvj) hvi hvj

theorem Apart.modify_iff (h : Apart m) {id : UInt16} {e : Entry} (hid : id.toNat < m.regions.length)
    :
    Apart { m with regions := m.regions.modify id.toNat fun r => { r with entry := e } } ↔
      e.FitsAt m id := by
  have hother : ∀ i : Nat, i ≠ id.toNat →
      (m.regions.modify id.toNat fun r => { r with entry := e })[i]? = m.regions[i]? := by
    intro i hi
    exact List.getElem?_modify_ne _ _ hi.symm
  have hself : (m.regions.modify id.toNat fun r => { r with entry := e })[id.toNat]? =
      some { m.regions[id.toNat] with entry := e } := by
    rw [List.getElem?_modify_eq, List.getElem?_eq_getElem hid]
    rfl
  constructor
  · intro hapart hvalid i r hi hr hvr
    exact hapart id.toNat i _ r hi.symm hself ((hother i hi).trans hr) hvalid hvr
  · intro hfits i j ri rj hij hi hj hvi hvj
    by_cases hii : i = id.toNat
    · have hji : j ≠ id.toNat := fun hji => hij (hii.trans hji.symm)
      simp only [hii, hself, Option.some.injEq] at hi
      simp only [hother j hji] at hj
      subst hi
      exact hfits hvi j rj hji hj hvj
    · by_cases hji : j = id.toNat
      · simp only [hji, hself, Option.some.injEq] at hj
        simp only [hother i hii] at hi
        subst hj
        exact (hfits hvj i ri hii hi hvi).symm
      · simp only [hother i hii] at hi
        simp only [hother j hji] at hj
        exact h i j ri rj hij hi hj hvi hvj

theorem step_apart_iff {c : Call} (hnone : m.setupRefCount = 0 → m.regions = [])
    (hready : m.setupRefCount ≠ 0 → Ready m) (h : Apart m) (hc : c.OnEntries) :
    (∃ m', step m c = some m' ∧ Apart m') ↔ EntryFits m c := by
  cases c with
  | setup cfg o => exact hc.elim
  | setEntry id entry status =>
    cases entry with
    | none => exact iff_of_true ⟨_, rfl, by rwa [setEntry_none]⟩ trivial
    | some e =>
      have hstep : (∃ m', step m (.setEntry id (some e) status) = some m' ∧ Apart m') ↔
          Apart (setEntry m id (some e) status).2 := by simp [step]
      rw [hstep, setEntry_some, EntryFits]
      split
      next hdone =>
        have hlen := (hready hdone.1).length
        have hid := UInt16.lt_iff_toNat_lt.mp hdone.2.1
        rw [h.modify_iff (hlen ▸ hid)]
        exact ⟨fun hfits _ _ => hfits, fun hfits => hfits hdone.2.2 hdone.2.1⟩
      next hdone =>
        refine iff_of_true h ?_
        intro hstatus hid hvalid i r _ hr
        have hz : m.setupRefCount = 0 := by
          by_contra hz
          exact hdone ⟨hz, hid, hstatus⟩
        rw [hnone hz] at hr
        cases hr
  | clearEntry id status =>
    refine iff_of_true ⟨_, rfl, ?_⟩ trivial
    rcases clearEntry_cases m id status with heq | ⟨r, hr, -, heq⟩
    · rwa [heq]
    · rw [heq]
      exact h.setRegion id hr

/-- For every table that calls of setup, `SharedRegion_setEntry` and
`SharedRegion_clearEntry` lead to. The check reports success exactly for the ranges that
have no address in common with a valid region, if and only if its sums suffice for that.
The valid regions stay apart along any calls of `SharedRegion_setEntry` and
`SharedRegion_clearEntry`, if and only if every entry that the driver accepts fits. -/
theorem overlapCheck_exact_iff (before : List Call) (m : Module)
    (hrun : run step {} before = some m) :
    (∀ base len : UInt32, base.toNat + len.toNat ≤ 2 ^ 32 →
      ((checkOverlap m base len = sharedRegionSSuccess ↔ Free m base len) ↔
        SumsSuffice m base len)) ∧
    (Apart m → ∀ calls : List Call, (∀ c ∈ calls, c.OnEntries) →
      (Always step Apart m calls ↔ Guarded step EntryFits m calls)) := by
  have hnone := reachable_none hrun
  have hready := reachable_ready hrun
  refine ⟨fun base len hfit => checkOverlap_exact hnone hready hfit, ?_⟩
  intro hapart calls hcalls
  apply always_iff_guarded_under
    (J := fun m => (m.setupRefCount = 0 → m.regions = []) ∧
      (m.setupRefCount ≠ 0 → Ready m) ∧ Apart m) (H := fun _ c => c.OnEntries)
  · intro m hm
    exact hm.2.2
  · intro m c hm hc hfits
    obtain ⟨m', hstep, h'⟩ := (step_apart_iff hm.1 hm.2.1 hm.2.2 hc).mpr hfits
    exact ⟨m', hstep, step_none hm.1 hstep, step_ready hm.2.1 hstep, h'⟩
  · intro m c m' hm hc hfits hstep h'
    exact hfits ((step_apart_iff hm.1 hm.2.1 hm.2.2 hc).mp ⟨m', hstep, h'⟩)
  · exact ⟨hnone, hready, hapart⟩
  · exact guarded_of_forall m hcalls

/-- The table of `twoRegions`, the range behind its first region, and the second region
cleared. -/
theorem overlapCheck_two_regions :
    run step {} twoRegions = some twoRegionsModule ∧
      (checkOverlap twoRegionsModule 0x10100000 0x1000 = sharedRegionSSuccess ↔
        Free twoRegionsModule 0x10100000 0x1000) ∧
      Always step Apart twoRegionsModule [.clearEntry 1 0] := by
  have hrun : run step {} twoRegions = some twoRegionsModule := rfl
  obtain ⟨hcheck, htable⟩ := overlapCheck_exact_iff twoRegions twoRegionsModule hrun
  have hsums : SumsSuffice twoRegionsModule 0x10100000 0x1000 := by
    right
    simp [overlaps_iff, Entry.EmptyInside, twoRegionsModule, regionAt]
  have hapart : Apart twoRegionsModule := by
    intro i j ri rj hij hi hj _ _
    match i, j with
    | 0, 1 =>
      cases hi
      cases hj
      simp [addresses, regionAt]
    | 1, 0 =>
      cases hi
      cases hj
      simp [addresses, regionAt]
    | 0, 0 => exact absurd rfl hij
    | 1, 1 => exact absurd rfl hij
    | i + 2, _ => cases hi
    | _, j + 2 => cases hj
  refine ⟨hrun, (hcheck _ _ (by decide)).mpr hsums, (htable hapart _ ?_).mpr ?_⟩
  · simp [Call.OnEntries]
  · exact ⟨trivial, fun _ _ => trivial⟩

/-- A region that ends at 2^32. The check finds nothing in a range inside it, and with
the driver accepting that range, two valid regions have its addresses. -/
theorem overlapCheck_at_end :
    ∃ m, run step {} [setupTwo, .setEntry 0 (some (regionAt 0xF0000000 0x10000000)) 0] = some m ∧
      checkOverlap m 0xF0001000 0x1000 = sharedRegionSSuccess ∧ ¬ Free m 0xF0001000 0x1000 ∧
      (setEntry m 1 (some (regionAt 0xF0001000 0x1000)) 0).1 = sharedRegionSSuccess ∧
      ¬ Apart (setEntry m 1 (some (regionAt 0xF0001000 0x1000)) 0).2 := by
  have hmeet : ¬ Disjoint (addresses 0xF0001000 0x1000) (addresses 0xF0000000 0x10000000) := by
    simp [addresses]
  refine ⟨_, rfl, by decide, ?_, rfl, ?_⟩
  · intro hfree
    exact hmeet (hfree ⟨regionAt 0xF0000000 0x10000000, 0⟩ (by decide) rfl)
  · intro hapart
    exact hmeet (hapart 1 0 ⟨regionAt 0xF0001000 0x1000, 0⟩ ⟨regionAt 0xF0000000 0x10000000, 0⟩
      (by decide) rfl rfl rfl rfl)

end Omap4Hal.Syslink

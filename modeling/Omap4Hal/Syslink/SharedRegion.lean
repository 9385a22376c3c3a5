import Mathlib.Data.Nat.Bitwise
import Omap4Hal.Lib.Run

/- The region table of SysLink (`SharedRegion.c`): `SharedRegion_setup`, `_destroy`,
   `_setEntry`, `_clearEntry`, `_getId`, `_getPtr`, `_getSRPtr`, `_reserveMemory` and
   `_clearReservedMemory`.

   Addresses and lengths are 32-bit words, NULL is 0. What the kernel driver answers is
   an input of each call; `CMD_SHAREDREGION_SETUP` may also fill the table. A shared
   region pointer has the id of the region in its upper bits and the offset below them,
   and `numEntries` says how many bits the id takes. So an offset has a range, which a
   region may exceed, and the very last byte of the very last id has the invalid pointer.

   The count of setups is a number without a bound. -/
namespace Omap4Hal.Syslink
open Lib

/-! ## The module state -/

def sharedRegionSSuccess : Int := 0
def sharedRegionSAlreadySetup : Int := 1
def sharedRegionEInvalidArg : Int := -2
def sharedRegionEMemory : Int := -3
def sharedRegionEInvalidState : Int := -7
def sharedRegionEOsFailure : Int := -8

def invalidRegionId : UInt16 := 0xFFFF
def defaultOwnerId : UInt16 := 0xFFFF
def invalidSRPtr : UInt32 := 0xFFFFFFFF

structure Entry where
  base : UInt32
  len : UInt32
  ownerProcId : UInt16
  isValid : Bool
  cacheEnable : Bool
  cacheLineSize : UInt32
  createHeap : Bool
  name : Option String
  deriving DecidableEq, Repr

/-- `SharedRegion_Region`, without the heap of the region. -/
structure Region where
  entry : Entry
  reservedSize : UInt32
  deriving DecidableEq, Repr

/-- `SharedRegion_Config` -/
structure Config where
  cacheLineSize : UInt32
  numEntries : UInt16
  translate : Bool
  deriving DecidableEq, Repr

/-- `SharedRegion_ModuleObject`. The table is empty where there is none. -/
structure Module where
  setupRefCount : Nat := 0
  regions : List Region := []
  numOffsetBits : UInt32 := 0
  offsetMask : UInt32 := 0
  cfg : Config := ⟨0, 0, false⟩

/-! ## Setup -/

/-- The loop that counts the bits of a number of at most `k` bits. -/
def countBits : Nat → Nat → Nat
  | 0, _ => 0
  | k + 1, n => if n = 0 then 0 else countBits k (n >>> 1) + 1

def getNumOffsetBits (m : Module) : UInt32 :=
  let numEntries := m.cfg.numEntries.toNat
  let indexBits :=
    if numEntries = 0 then 0
    else if numEntries = 1 then 1
    else countBits 32 (numEntries - 1)
  32 - UInt32.ofNat indexBits

/-- What the calls that `SharedRegion_setup` makes return, and the table as the driver
leaves it. -/
structure SetupOutcome where
  drvOpen : Bool
  getConfig : Config
  regionsAlloc : Bool
  createdAlloc : Bool
  self : UInt16
  ioctl : Bool
  filled : Nat → Region → Region
  gateCreate : Bool

/-- The entry before the driver has filled it. -/
def Config.defaultRegion (cfg : Config) (self : UInt16) (i : Nat) : Region where
  entry := {
    base := 0
    len := 0
    ownerProcId := if i = 0 then self else 0
    isValid := false
    cacheEnable := true
    cacheLineSize := cfg.cacheLineSize
    createHeap := i = 0
    name := none }
  reservedSize := 0

/-- `SharedRegion_destroy`. -/
def destroy (m : Module) : Module :=
  let m := { m with setupRefCount := m.setupRefCount - 1 }
  if m.setupRefCount = 0 then
    { m with regions := [], cfg := ⟨0, 0, false⟩, numOffsetBits := 0, offsetMask := 0 }
  else m

/-- The part of `SharedRegion_setup` for the first call in the process. -/
def firstSetup (m : Module) (cfg : Option Config) (o : SetupOutcome) : Int × Module :=
  if o.drvOpen = false then (sharedRegionEOsFailure, m)
  else
    let ptCfg := cfg.getD o.getConfig
    if ptCfg.numEntries = 0 then (sharedRegionEInvalidArg, m)
    else
      let m := { m with cfg := ptCfg }
      if o.regionsAlloc = false then (sharedRegionEMemory, m)
      else
        let table := (List.range ptCfg.numEntries.toNat).map fun i =>
          o.filled i (ptCfg.defaultRegion o.self i)
        let m := { m with regions := table }
        if o.createdAlloc = false then (sharedRegionEMemory, m)
        else if o.ioctl = false then (sharedRegionEOsFailure, m)
        else
          let numOffsetBits := getNumOffsetBits m
          let m := { m with
            numOffsetBits := numOffsetBits
            offsetMask := (1 <<< numOffsetBits) - 1 }
          if o.gateCreate = false then (sharedRegionEMemory, m)
          else (sharedRegionSSuccess, m)

def setup (m : Module) (cfg : Option Config) (o : SetupOutcome) : Int × Module :=
  let m := { m with setupRefCount := m.setupRefCount + 1 }
  if m.setupRefCount > 1 then (sharedRegionSAlreadySetup, m)
  else
    let (status, m) := firstSetup m cfg o
    if status < 0 then (status, destroy m) else (status, m)

/-! ## Entries -/

def Module.setRegion (m : Module) (id : UInt16) (r : Region) : Module :=
  { m with regions := m.regions.set id.toNat r }

/-- `status` is what the driver returns. -/
def setEntry (m : Module) (id : UInt16) (entry : Option Entry) (status : Int) : Int × Module :=
  if m.setupRefCount = 0 then (sharedRegionEInvalidState, m)
  else
    match entry with
    | none => (sharedRegionEInvalidArg, m)
    | some entry =>
      if id ≥ m.cfg.numEntries then (sharedRegionEInvalidArg, m)
      else if status ≥ 0 then
        (status, { m with regions := m.regions.modify id.toNat fun r => { r with entry := entry } })
      else (status, m)

def clearEntry (m : Module) (id : UInt16) (status : Int) : Int × Module :=
  if m.setupRefCount = 0 then (sharedRegionEInvalidState, m)
  else if id ≥ m.cfg.numEntries then (sharedRegionEInvalidArg, m)
  else if id = 0 then (sharedRegionEInvalidArg, m)
  else if status < 0 then (status, m)
  else
    (status, m.setRegion id {
      entry := {
        base := 0
        len := 0
        ownerProcId := defaultOwnerId
        isValid := false
        cacheEnable := true
        cacheLineSize := m.cfg.cacheLineSize
        createHeap := false
        name := none }
      reservedSize := 0 })

/-! ## Translation -/

/-- The address is in the region. -/
def Entry.contains (e : Entry) (addr : UInt32) : Bool := e.base ≤ addr && addr < e.base + e.len

def getId (m : Module) (addr : UInt32) : UInt16 :=
  if m.setupRefCount = 0 then invalidRegionId
  else if addr ≠ 0 then
    match m.regions.findIdx? fun r => r.entry.isValid && r.entry.contains addr with
    | some i => UInt16.ofNat i
    | none => invalidRegionId
  else invalidRegionId

def getPtr (m : Module) (srPtr : UInt32) : UInt32 :=
  if m.setupRefCount = 0 then 0
  else if srPtr ≠ invalidSRPtr then
    if m.cfg.translate = false then srPtr
    else
      let regionId := (srPtr >>> m.numOffsetBits).toUInt16
      if regionId ≥ m.cfg.numEntries then 0
      else
        match m.regions[regionId.toNat]? with
        | some region => (srPtr &&& m.offsetMask) + region.entry.base
        | none => 0
  else 0

def getSRPtr (m : Module) (addr : UInt32) (id : UInt16) : UInt32 :=
  if m.setupRefCount = 0 then invalidSRPtr
  else if addr ≠ 0 then
    if id = invalidRegionId then invalidSRPtr
    else if id ≥ m.cfg.numEntries then invalidSRPtr
    else if m.cfg.translate = false then addr
    else
      match m.regions[id.toNat]? with
      | some region =>
        if region.entry.contains addr then
          (id.toUInt32 <<< m.numOffsetBits) ||| (addr - region.entry.base)
        else invalidSRPtr
      | none => invalidSRPtr
  else invalidSRPtr

/-! ## Reserved memory -/

def roundUp (a b : UInt32) : UInt32 := (a + (b - 1)) &&& ~~~(b - 1)

/-- `Memory_getMaxDefaultTypeAlign` -/
def maxDefaultTypeAlign : UInt32 := 4

/-- `SharedRegion_getCacheLineSize`, for the region of an id in the table. -/
def Region.minAlign (r : Region) : UInt32 :=
  if r.entry.cacheLineSize > maxDefaultTypeAlign then r.entry.cacheLineSize
  else maxDefaultTypeAlign

/-- The pointer is set before the size is checked. What the driver returns, `status`, is
not looked at. -/
def reserveMemory (m : Module) (id : UInt16) (size : UInt32) (_status : Int) : UInt32 × Module :=
  if m.setupRefCount = 0 then (0, m)
  else if id ≥ m.cfg.numEntries then (0, m)
  else
    match m.regions[id.toNat]? with
    | none => (0, m)
    | some region =>
      if region.entry.isValid = false then (0, m)
      else
        let curSize := region.reservedSize
        let retPtr := region.entry.base + curSize
        let newSize := roundUp size region.minAlign
        if region.entry.len < curSize + newSize then (retPtr, m)
        else (retPtr, m.setRegion id { region with reservedSize := curSize + newSize })

/-- The table is left as it is. -/
def clearReservedMemory (m : Module) (_status : Int) : Module := m

/-! ## Tables that calls lead to -/

/-- The calls that set up and change the table. -/
inductive Call where
  | setup (cfg : Option Config) (o : SetupOutcome)
  | setEntry (id : UInt16) (entry : Option Entry) (status : Int)
  | clearEntry (id : UInt16) (status : Int)

def step (m : Module) : Call → Option Module
  | .setup cfg o => some (setup m cfg o).2
  | .setEntry id entry status => some (setEntry m id entry status).2
  | .clearEntry id status => some (clearEntry m id status).2

/-- A table with the number of offset bits that belongs to it. -/
structure Ready (m : Module) : Prop where
  length : m.regions.length = m.cfg.numEntries.toNat
  bits : m.numOffsetBits = getNumOffsetBits m
  mask : m.offsetMask = (1 <<< m.numOffsetBits) - 1

theorem osFailure_neg : sharedRegionEOsFailure < 0 := by decide

theorem invalidArg_neg : sharedRegionEInvalidArg < 0 := by decide

theorem memory_neg : sharedRegionEMemory < 0 := by decide

theorem firstSetup_ready (m : Module) (cfg : Option Config) (o : SetupOutcome) :
    (firstSetup m cfg o).2.setupRefCount = m.setupRefCount ∧
      ((firstSetup m cfg o).1 < 0 ∨ Ready (firstSetup m cfg o).2) := by
  simp only [firstSetup]
  split
  next => exact ⟨rfl, Or.inl osFailure_neg⟩
  next =>
    split
    next => exact ⟨rfl, Or.inl invalidArg_neg⟩
    next =>
      split
      next => exact ⟨rfl, Or.inl memory_neg⟩
      next =>
        split
        next => exact ⟨rfl, Or.inl memory_neg⟩
        next =>
          split
          next => exact ⟨rfl, Or.inl osFailure_neg⟩
          next =>
            split
            next => exact ⟨rfl, Or.inl memory_neg⟩
            next => exact ⟨rfl, Or.inr ⟨by simp, rfl, rfl⟩⟩

theorem destroy_setupRefCount (m : Module) :
    (destroy m).setupRefCount = m.setupRefCount - 1 := by
  simp only [destroy]
  split <;> rfl

variable {m : Module} {id : UInt16} {bits offset : UInt32}

theorem setup_ready {cfg : Option Config} {o : SetupOutcome} (h : m.setupRefCount ≠ 0 → Ready m)
    (hcount : (setup m cfg o).2.setupRefCount ≠ 0) :
    Ready (setup m cfg o).2 := by
  simp only [setup] at hcount ⊢
  obtain ⟨hsame, hready⟩ := firstSetup_ready { m with setupRefCount := m.setupRefCount + 1 } cfg o
  by_cases hfirst : m.setupRefCount + 1 > 1
  · simp only [if_pos hfirst]
    have hold := h (by omega)
    exact ⟨hold.length, hold.bits, hold.mask⟩
  · simp only [if_neg hfirst] at hcount ⊢
    split at hcount
    next hneg =>
      rw [destroy_setupRefCount, hsame] at hcount
      simp only at hcount
      omega
    next hpos =>
      rw [if_neg hpos]
      exact hready.resolve_left hpos

theorem step_ready {m' : Module} {c : Call} (h : m.setupRefCount ≠ 0 → Ready m)
    (hstep : step m c = some m') : m'.setupRefCount ≠ 0 → Ready m' := by
  intro hcount
  cases c with
  | setup cfg o =>
    cases hstep
    exact setup_ready h hcount
  | setEntry id entry status =>
    cases hstep
    rw [setEntry.eq_def] at hcount ⊢
    split
    next hz =>
      rw [if_pos hz] at hcount
      exact h hcount
    next hz =>
      have hready := h hz
      cases entry with
      | none => exact hready
      | some entry =>
        simp only
        split
        next => exact hready
        next =>
          split
          next => exact ⟨by simp [hready.length], hready.bits, hready.mask⟩
          next => exact hready
  | clearEntry id status =>
    cases hstep
    rw [clearEntry] at hcount ⊢
    split
    next hz =>
      rw [if_pos hz] at hcount
      exact h hcount
    next hz =>
      have hready := h hz
      split
      next => exact hready
      next =>
        split
        next => exact hready
        next =>
          split
          next => exact hready
          next => exact ⟨by simp [Module.setRegion, hready.length], hready.bits, hready.mask⟩

theorem reachable_ready {calls : List Call} (h : run step {} calls = some m) :
    m.setupRefCount ≠ 0 → Ready m :=
  run_induct (I := fun m => m.setupRefCount ≠ 0 → Ready m)
    (fun _ _ _ hs hstep => step_ready hs hstep) (fun hne => absurd rfl hne) h

/-! ## Bits -/

theorem countBits_lt {k n : Nat} (h : n < 2 ^ k) : n < 2 ^ countBits k n := by
  induction k generalizing n with
  | zero => exact h
  | succ k ih =>
    rw [countBits]
    split
    next hn =>
      rw [hn]
      decide
    next =>
      rw [Nat.shiftRight_eq_div_pow, pow_one, pow_succ]
      have hhalf := ih (show n / 2 < 2 ^ k by rw [pow_succ] at h; omega)
      omega

theorem countBits_le {k n j : Nat} (h : n < 2 ^ j) : countBits k n ≤ j := by
  induction k generalizing n j with
  | zero => exact Nat.zero_le j
  | succ k ih =>
    rw [countBits]
    split
    next => exact Nat.zero_le j
    next hn =>
      obtain ⟨j, rfl⟩ : ∃ i, j = i + 1 := by
        cases j with
        | zero => exact absurd (Nat.lt_one_iff.mp h) hn
        | succ i => exact ⟨i, rfl⟩
      rw [Nat.shiftRight_eq_div_pow, pow_one]
      have hhalf := ih (show n / 2 < 2 ^ j by rw [pow_succ] at h; omega)
      omega

theorem Ready.numOffsetBits (h : Ready m) (hpos : m.cfg.numEntries ≠ 0) :
    16 ≤ m.numOffsetBits.toNat ∧ m.numOffsetBits.toNat < 32 ∧
      m.cfg.numEntries.toNat ≤ 2 ^ (32 - m.numOffsetBits.toNat) := by
  have hlt : m.cfg.numEntries.toNat < 2 ^ 16 := m.cfg.numEntries.toNat_lt
  have hne : m.cfg.numEntries.toNat ≠ 0 := fun hz => hpos (UInt16.toNat_inj.mp hz)
  -- the number of index bits
  obtain ⟨b, hb, hb1, hb16, hcount⟩ : ∃ b, getNumOffsetBits m = 32 - UInt32.ofNat b ∧ 1 ≤ b ∧
      b ≤ 16 ∧ m.cfg.numEntries.toNat ≤ 2 ^ b := by
    rw [getNumOffsetBits]
    simp only [if_neg hne]
    split
    next hone => exact ⟨1, rfl, by decide, by decide, by omega⟩
    next hone =>
      refine ⟨_, rfl, ?_, countBits_le (by omega), ?_⟩
      · rw [countBits, if_neg (by omega)]
        exact Nat.le_add_left 1 _
      · have hbits := @countBits_lt 32 (m.cfg.numEntries.toNat - 1) (by omega)
        omega
  have hbits : m.numOffsetBits.toNat = 32 - b := by
    rw [h.bits, hb, UInt32.toNat_sub, UInt32.toNat_ofNat']
    have h32 : (32 : UInt32).toNat = 32 := rfl
    rw [h32]
    omega
  rw [hbits]
  refine ⟨by omega, by omega, ?_⟩
  rwa [show 32 - (32 - b) = b by omega]

theorem srPtr_toNat (hbits : bits.toNat < 32) (hid : id.toNat < 2 ^ (32 - bits.toNat))
    (hoff : offset.toNat < 2 ^ bits.toNat) :
    ((id.toUInt32 <<< bits) ||| offset).toNat = id.toNat * 2 ^ bits.toNat + offset.toNat := by
  have hlt : id.toNat * 2 ^ bits.toNat < 2 ^ 32 := by
    calc id.toNat * 2 ^ bits.toNat < 2 ^ (32 - bits.toNat) * 2 ^ bits.toNat :=
          Nat.mul_lt_mul_of_pos_right hid (Nat.two_pow_pos _)
      _ = 2 ^ 32 := by rw [← pow_add, Nat.sub_add_cancel (Nat.le_of_lt hbits)]
  rw [UInt32.toNat_or, UInt32.toNat_shiftLeft, UInt16.toNat_toUInt32, Nat.mod_eq_of_lt hbits,
    Nat.shiftLeft_eq, Nat.mod_eq_of_lt hlt, ← Nat.shiftLeft_eq,
    ← Nat.shiftLeft_add_eq_or_of_lt hoff, Nat.shiftLeft_eq]

theorem srPtr_id (hbits : bits.toNat < 32) (hid : id.toNat < 2 ^ (32 - bits.toNat))
    (hoff : offset.toNat < 2 ^ bits.toNat) :
    (((id.toUInt32 <<< bits) ||| offset) >>> bits).toUInt16 = id := by
  apply UInt16.toNat_inj.mp
  have hid16 : id.toNat < 2 ^ 16 := id.toNat_lt
  rw [UInt32.toNat_toUInt16, UInt32.toNat_shiftRight, srPtr_toNat hbits hid hoff,
    Nat.mod_eq_of_lt hbits, Nat.shiftRight_eq_div_pow, Nat.mul_comm,
    Nat.mul_add_div (Nat.two_pow_pos _), Nat.div_eq_of_lt hoff, Nat.add_zero,
    Nat.mod_eq_of_lt hid16]

theorem srPtr_offset (hbits : bits.toNat < 32) (hid : id.toNat < 2 ^ (32 - bits.toNat))
    (hoff : offset.toNat < 2 ^ bits.toNat) :
    ((id.toUInt32 <<< bits) ||| offset) &&& ((1 <<< bits) - 1) = offset := by
  have hmask : ((1 <<< bits) - 1 : UInt32).toNat = 2 ^ bits.toNat - 1 := by
    have hlt : 2 ^ bits.toNat < 2 ^ 32 := Nat.pow_lt_pow_right (by decide) hbits
    have hpos := Nat.two_pow_pos bits.toNat
    have h1 : (1 : UInt32).toNat = 1 := rfl
    rw [UInt32.toNat_sub, UInt32.toNat_shiftLeft, h1, Nat.mod_eq_of_lt hbits, Nat.shiftLeft_eq,
      Nat.one_mul, Nat.mod_eq_of_lt hlt]
    omega
  apply UInt32.toNat_inj.mp
  rw [UInt32.toNat_and, hmask, Nat.and_two_pow_sub_one_eq_mod, srPtr_toNat hbits hid hoff,
    Nat.mul_add_mod', Nat.mod_eq_of_lt hoff]

/-! ## Round trips -/

theorem getId_eq {addr : UInt32} (hready : m.setupRefCount ≠ 0 → Ready m) (h : getId m addr = id)
    (hid : id ≠ invalidRegionId) :
    m.setupRefCount ≠ 0 ∧ addr ≠ 0 ∧ id < m.cfg.numEntries ∧
      ∃ r, m.regions[id.toNat]? = some r ∧ r.entry.contains addr = true := by
  rw [getId] at h
  split at h
  next => exact absurd h.symm hid
  next hcount =>
    split at h
    next haddr =>
      split at h
      next i hi =>
        obtain ⟨hlt, hfound, -⟩ := List.findIdx?_eq_some_iff_getElem.mp hi
        rw [Bool.and_eq_true] at hfound
        have hlen := (hready hcount).length
        have hentries := m.cfg.numEntries.toNat_lt
        have hidn : id.toNat = i := by
          rw [← h, UInt16.toNat_ofNat']
          omega
        refine ⟨hcount, haddr, ?_, m.regions[i], ?_, hfound.2⟩
        · rw [UInt16.lt_iff_toNat_lt, hidn]
          omega
        · rw [hidn]
          exact List.getElem?_eq_getElem hlt
      next => exact absurd h.symm hid
    next => exact absurd h.symm hid

/-- The offset of an address in the region of the id. -/
def offsetIn (m : Module) (addr : UInt32) (id : UInt16) : Nat :=
  match m.regions[id.toNat]? with
  | some r => (addr - r.entry.base).toNat
  | none => 0

/-- The offset fits the bits for it, and is not the last one of the last id. -/
def Mappable (m : Module) (addr : UInt32) (id : UInt16) : Prop :=
  offsetIn m addr id < 2 ^ m.numOffsetBits.toNat ∧
    ¬ (id.toNat = 2 ^ (32 - m.numOffsetBits.toNat) - 1 ∧
      offsetIn m addr id = 2 ^ m.numOffsetBits.toNat - 1)

section RoundTrip

variable {m : Module} (hready : m.setupRefCount ≠ 0 → Ready m) (htr : m.cfg.translate = true)
  {addr : UInt32} {id : UInt16} (hget : getId m addr = id) (hid : id ≠ invalidRegionId)
include hready htr hget hid

theorem getSRPtr_eq : ∃ r, m.regions[id.toNat]? = some r ∧ id < m.cfg.numEntries ∧
      m.setupRefCount ≠ 0 ∧ m.numOffsetBits.toNat < 32 ∧
      id.toNat < 2 ^ (32 - m.numOffsetBits.toNat) ∧
      (addr - r.entry.base).toNat = offsetIn m addr id ∧
      getSRPtr m addr id = (id.toUInt32 <<< m.numOffsetBits) ||| (addr - r.entry.base) := by
  obtain ⟨hcount, haddr, hlt, r, hr, hin⟩ := getId_eq hready hget hid
  have hpos : m.cfg.numEntries ≠ 0 := by
    intro hz
    rw [hz] at hlt
    exact absurd hlt (by rw [UInt16.lt_iff_toNat_lt]; exact Nat.not_lt_zero _)
  obtain ⟨-, hbits, hentries⟩ := (hready hcount).numOffsetBits hpos
  have hidlt : id.toNat < 2 ^ (32 - m.numOffsetBits.toNat) := by
    rw [UInt16.lt_iff_toNat_lt] at hlt
    omega
  refine ⟨r, hr, hlt, hcount, hbits, hidlt, by rw [offsetIn, hr], ?_⟩
  have hge : ¬ id ≥ m.cfg.numEntries := by
    rw [ge_iff_le, UInt16.le_iff_toNat_le, Nat.not_le, ← UInt16.lt_iff_toNat_lt]
    exact hlt
  rw [getSRPtr, if_neg hcount, if_pos haddr, if_neg hid, if_neg hge, if_neg (by simp [htr])]
  simp only [hr, hin, if_true]

theorem getSRPtr_toNat (hoff : offsetIn m addr id < 2 ^ m.numOffsetBits.toNat) :
    (getSRPtr m addr id).toNat = id.toNat * 2 ^ m.numOffsetBits.toNat + offsetIn m addr id := by
  obtain ⟨r, -, -, -, hbits, hidlt, heq, hsr⟩ := getSRPtr_eq hready htr hget hid
  rw [hsr, srPtr_toNat hbits hidlt (heq ▸ hoff), heq]

theorem getSRPtr_invalid_iff (hoff : offsetIn m addr id < 2 ^ m.numOffsetBits.toNat) :
    getSRPtr m addr id = invalidSRPtr ↔ id.toNat = 2 ^ (32 - m.numOffsetBits.toNat) - 1 ∧
      offsetIn m addr id = 2 ^ m.numOffsetBits.toNat - 1 := by
  obtain ⟨r, -, -, -, hbits, hidlt, -, -⟩ := getSRPtr_eq hready htr hget hid
  have hmul : 2 ^ (32 - m.numOffsetBits.toNat) * 2 ^ m.numOffsetBits.toNat = 2 ^ 32 := by
    rw [← pow_add, Nat.sub_add_cancel (Nat.le_of_lt hbits)]
  have hpos := Nat.two_pow_pos (32 - m.numOffsetBits.toNat)
  have hinv : invalidSRPtr.toNat = 2 ^ 32 - 1 := rfl
  rw [← UInt32.toNat_inj, getSRPtr_toNat hready htr hget hid hoff, hinv, ← hmul]
  generalize 2 ^ (32 - m.numOffsetBits.toNat) = a at *
  generalize 2 ^ m.numOffsetBits.toNat = b at *
  obtain ⟨a, rfl⟩ : ∃ c, a = c + 1 := ⟨a - 1, by omega⟩
  rw [Nat.add_mul]
  constructor
  · intro heq
    have hida : id.toNat = a := by
      by_contra hne
      have hmono : (id.toNat + 1) * b ≤ a * b := Nat.mul_le_mul_right b (by omega)
      rw [Nat.add_mul] at hmono
      omega
    rw [hida] at heq ⊢
    omega
  · intro heq
    rw [heq.1, heq.2]
    simp only [Nat.add_sub_cancel]
    omega

theorem getPtr_getSRPtr (hmap : Mappable m addr id) : getPtr m (getSRPtr m addr id) = addr := by
  obtain ⟨hoff, hlast⟩ := hmap
  have hvalid : getSRPtr m addr id ≠ invalidSRPtr := fun heq =>
    hlast ((getSRPtr_invalid_iff hready htr hget hid hoff).mp heq)
  obtain ⟨r, hr, hlt, hcount, hbits, hidlt, heq, hsr⟩ := getSRPtr_eq hready htr hget hid
  rw [← heq] at hoff
  have hregion : (getSRPtr m addr id >>> m.numOffsetBits).toUInt16 = id := by
    rw [hsr]
    exact srPtr_id hbits hidlt hoff
  have hoffset : getSRPtr m addr id &&& m.offsetMask = addr - r.entry.base := by
    rw [hsr, (hready hcount).mask]
    exact srPtr_offset hbits hidlt hoff
  have hge : ¬ id ≥ m.cfg.numEntries := by
    rw [ge_iff_le, UInt16.le_iff_toNat_le, Nat.not_le, ← UInt16.lt_iff_toNat_lt]
    exact hlt
  rw [getPtr, if_neg hcount, if_pos hvalid, if_neg (by simp [htr])]
  simp only [hregion, if_neg hge, hr, hoffset]
  exact UInt32.sub_add_cancel addr r.entry.base

end RoundTrip

/-- For every table that calls of setup, `SharedRegion_setEntry` and
`SharedRegion_clearEntry` lead to, with translation: an address that is found in a region
comes back from its shared region pointer, if its offset fits the bits for it and is not
the last one of the last id; the pointers of such addresses in different regions differ
and are valid; and the pointer of the last byte of the last id is the invalid one, which
leads to NULL. -/
theorem srPtr_round_trip (calls : List Call) (m : Module) (hrun : run step {} calls = some m)
    (htr : m.cfg.translate = true) :
    (∀ addr id, getId m addr = id → id ≠ invalidRegionId → Mappable m addr id →
      getPtr m (getSRPtr m addr id) = addr ∧ getSRPtr m addr id ≠ invalidSRPtr) ∧
    (∀ addr addr' id id', getId m addr = id → getId m addr' = id' → id ≠ invalidRegionId →
      id' ≠ invalidRegionId → id ≠ id' → Mappable m addr id → Mappable m addr' id' →
      getSRPtr m addr id ≠ getSRPtr m addr' id') ∧
    (∀ addr id, getId m addr = id → id ≠ invalidRegionId →
      id.toNat = 2 ^ (32 - m.numOffsetBits.toNat) - 1 →
      offsetIn m addr id = 2 ^ m.numOffsetBits.toNat - 1 →
      getSRPtr m addr id = invalidSRPtr ∧ getPtr m (getSRPtr m addr id) = 0) := by
  have hready := reachable_ready hrun
  refine ⟨?_, ?_, ?_⟩
  · intro addr id hget hid hmap
    refine ⟨getPtr_getSRPtr hready htr hget hid hmap, ?_⟩
    intro heq
    exact hmap.2 ((getSRPtr_invalid_iff hready htr hget hid hmap.1).mp heq)
  · intro addr addr' id id' hget hget' hid hid' hne hmap hmap' heq
    -- equal pointers have equal upper bits
    obtain ⟨r, -, -, -, hbits, hidlt, hoff, hsr⟩ := getSRPtr_eq hready htr hget hid
    obtain ⟨r', -, -, -, -, hidlt', hoff', hsr'⟩ := getSRPtr_eq hready htr hget' hid'
    apply hne
    rw [← srPtr_id hbits hidlt (hoff ▸ hmap.1), ← hsr, heq, hsr',
      srPtr_id hbits hidlt' (hoff' ▸ hmap'.1)]
  · intro addr id hget hid hlast hbyte
    have hoff : offsetIn m addr id < 2 ^ m.numOffsetBits.toNat := by
      rw [hbyte]
      exact Nat.sub_one_lt (Nat.two_pow_pos _).ne'
    have hinv := (getSRPtr_invalid_iff hready htr hget hid hoff).mpr ⟨hlast, hbyte⟩
    refine ⟨hinv, ?_⟩
    rw [hinv, getPtr]
    simp

/-- A setup for two regions where every call succeeds and the driver fills in nothing. -/
def setupTwo : Call :=
  .setup (some ⟨128, 2, true⟩) ⟨true, ⟨128, 2, true⟩, true, true, 0, true, fun _ r => r, true⟩

/-- A region with its base and length. -/
def regionAt (base len : UInt32) : Entry := ⟨base, len, 0, true, true, 128, false, none⟩

/-- Two regions of a megabyte, at `0x10000000` and at `0x20000000`. -/
def twoRegions : List Call :=
  [setupTwo, .setEntry 0 (some (regionAt 0x10000000 0x100000)) 0,
    .setEntry 1 (some (regionAt 0x20000000 0x100000)) 0]

/-- The table they lead to. -/
def twoRegionsModule : Module where
  setupRefCount := 1
  regions := [⟨regionAt 0x10000000 0x100000, 0⟩, ⟨regionAt 0x20000000 0x100000, 0⟩]
  numOffsetBits := 31
  offsetMask := 0x7FFFFFFF
  cfg := ⟨128, 2, true⟩

theorem srPtr_round_trip_two_regions : run step {} twoRegions = some twoRegionsModule ∧
    getPtr twoRegionsModule (getSRPtr twoRegionsModule 0x10000080 0) = 0x10000080 ∧
    getPtr twoRegionsModule (getSRPtr twoRegionsModule 0x20000080 1) = 0x20000080 ∧
    getSRPtr twoRegionsModule 0x10000080 0 ≠ getSRPtr twoRegionsModule 0x20000080 1 := by
  have hrun : run step {} twoRegions = some twoRegionsModule := rfl
  obtain ⟨htrip, hdiffer, -⟩ := srPtr_round_trip twoRegions twoRegionsModule hrun rfl
  have hfirst : Mappable twoRegionsModule 0x10000080 0 := ⟨by decide, by decide⟩
  have hsecond : Mappable twoRegionsModule 0x20000080 1 := ⟨by decide, by decide⟩
  refine ⟨hrun, ?_, ?_, ?_⟩
  · exact (htrip 0x10000080 0 (by decide) (by decide) hfirst).1
  · exact (htrip 0x20000080 1 (by decide) (by decide) hsecond).1
  · exact hdiffer _ _ _ _ (by decide) (by decide) (by decide) (by decide) (by decide) hfirst hsecond

/-- An address at offset `0x80000000` of a region, with 31 bits for the offset, comes back
as NULL; and so does the last byte of a region of `0x80000000` bytes with the last id. -/
theorem srPtr_not_mapped :
    (∃ m, run step {} [setupTwo, .setEntry 0 (some (regionAt 0x1000 0x80001000)) 0] = some m ∧
      m.cfg.translate = true ∧ getId m 0x80001000 = 0 ∧
      getPtr m (getSRPtr m 0x80001000 0) ≠ 0x80001000) ∧
    ∃ m, run step {} [setupTwo, .setEntry 1 (some (regionAt 0x10000000 0x80000000)) 0] = some m ∧
      m.cfg.translate = true ∧ getId m 0x8FFFFFFF = 1 ∧ getSRPtr m 0x8FFFFFFF 1 = invalidSRPtr := by
  exact ⟨⟨_, rfl, rfl, by decide, by decide⟩, _, rfl, rfl, by decide, by decide⟩

end Omap4Hal.Syslink

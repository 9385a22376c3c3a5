import Omap4Hal.Syslink.SharedRegion

/- Sequences of reservations in one region. `SharedRegion_reserveMemory` hands out the
   region from its base on and counts in `reservedSize` what it has handed out. A log
   keeps what each call returned.

   The returned pointer is set before the size is checked and is not cleared again, so a
   request that is refused gets the place of the next one. Sizes that wrap around in 32
   bits are not refused, and an error of the driver is not looked at. `ReserveOk` is
   exactly the condition under which none of this matters. -/
namespace Omap4Hal.Syslink
open Lib

/-! ## Rounding -/

theorem and_add_and_not (x m : UInt32) : (x &&& ~~~m) + (x &&& m) = x := by
  apply UInt32.toBitVec_inj.mp
  simp only [UInt32.toBitVec_add, UInt32.toBitVec_and, UInt32.toBitVec_not]
  rw [BitVec.add_eq_or_of_and_eq_zero]
  · ext i hi
    simp
    cases x.toBitVec[i] <;> cases m.toBitVec[i] <;> rfl
  · ext i hi
    simp
    cases x.toBitVec[i] <;> cases m.toBitVec[i] <;> simp

variable {size : UInt32} {m : Module} {id : UInt16} {r : Region} {s : Reserving}

theorem le_roundUp {align : UInt32} (h : size.toNat + (align - 1).toNat < 2 ^ 32) :
    size.toNat ≤ (roundUp size align).toNat := by
  have hsum := and_add_and_not (size + (align - 1)) (align - 1)
  have hx : (size + (align - 1)).toNat = size.toNat + (align - 1).toNat := by
    rw [UInt32.toNat_add, Nat.mod_eq_of_lt h]
  have hle : ((size + (align - 1)) &&& (align - 1)).toNat ≤ (align - 1).toNat := by
    rw [UInt32.toNat_and]
    exact Nat.and_le_right
  rw [roundUp]
  generalize (size + (align - 1)) &&& ~~~(align - 1) = r at *
  have hnat := congrArg UInt32.toNat hsum
  rw [UInt32.toNat_add, hx] at hnat
  have hr := r.toNat_lt
  omega

/-! ## Calls and their log -/

/-- What a call was asked for, what it returned, and `reservedSize` before and after. -/
structure Reservation where
  size : UInt32
  status : Int
  ptr : UInt32
  before : UInt32
  after : UInt32

structure Reserving where
  m : Module
  log : List Reservation := []

inductive ReserveCall where
  | reserve (size : UInt32) (status : Int)
  | clear (status : Int)

def regionOf (m : Module) (id : UInt16) : Option Region := m.regions[id.toNat]?

def reservedSizeOf (m : Module) (id : UInt16) : UInt32 :=
  ((regionOf m id).map Region.reservedSize).getD 0

def reserveStep (id : UInt16) (s : Reserving) : ReserveCall → Option Reserving
  | .reserve size status =>
    let r := reserveMemory s.m id size status
    some ⟨r.2, s.log ++ [⟨size, status, r.1, reservedSizeOf s.m id, reservedSizeOf r.2 id⟩]⟩
  | .clear status => some { s with m := clearReservedMemory s.m status }

/-! ## What reservations are for -/

/-- The region of the id, if `SharedRegion_reserveMemory` serves it. -/
def served (m : Module) (id : UInt16) : Option Region :=
  if m.setupRefCount = 0 then none
  else if id ≥ m.cfg.numEntries then none
  else (regionOf m id).filter fun r => r.entry.isValid

/-- The request, rounded up, fits behind what is reserved, and the driver goes along. -/
def Region.Fits (r : Region) (cur size : UInt32) (status : Int) : Prop :=
  0 ≤ status ∧ size.toNat + (r.minAlign - 1).toNat < 2 ^ 32 ∧
    cur.toNat + (roundUp size r.minAlign).toNat ≤ r.entry.len.toNat

def Entry.Aligned (e : Entry) (p : UInt32) : Prop :=
  e.cacheLineSize ≠ 0 → e.cacheLineSize.toNat ∣ p.toNat

/-- The bytes asked for are in the region. -/
def Entry.Inside (e : Entry) (p size : UInt32) : Prop :=
  e.base.toNat ≤ p.toNat ∧ p.toNat + size.toNat ≤ e.base.toNat + e.len.toNat

def Reservation.Disjoint (a b : Reservation) : Prop :=
  a.ptr ≠ 0 → b.ptr ≠ 0 →
    a.ptr.toNat + a.size.toNat ≤ b.ptr.toNat ∨ b.ptr.toNat + b.size.toNat ≤ a.ptr.toNat

/-- What is to hold of all calls on a region so far. -/
structure ReserveInv (id : UInt16) (s : Reserving) : Prop where
  disjoint : s.log.Pairwise Reservation.Disjoint
  inside : ∀ a ∈ s.log, a.ptr ≠ 0 → ∃ r, served s.m id = some r ∧ r.entry.Aligned a.ptr ∧
    r.entry.Inside a.ptr a.size
  bounded : ∀ r, served s.m id = some r → r.reservedSize ≤ r.entry.len
  refused : ∀ a ∈ s.log, (∀ r, served s.m id = some r → ¬ r.Fits a.before a.size a.status) →
    a.ptr = 0 ∧ a.after = a.before

/-- The condition on a call, in the state it is made in: the request fits, and the place
behind what is reserved is an aligned address of the region. If that place is the address
0, NULL is returned anyway; then it is enough that nothing is counted that does not fit. -/
def ReserveOk (id : UInt16) (s : Reserving) : ReserveCall → Prop
  | .clear _ => True
  | .reserve size status => ∀ r, served s.m id = some r →
      if r.entry.base + r.reservedSize = 0 then
        r.Fits r.reservedSize size status ∨ roundUp size r.minAlign = 0 ∨
          r.entry.len < r.reservedSize + roundUp size r.minAlign
      else
        r.Fits r.reservedSize size status ∧
          r.entry.base.toNat + r.reservedSize.toNat < 2 ^ 32 ∧
          r.entry.Aligned (r.entry.base + r.reservedSize)

/-! ## One call -/

/-- The region after a request. -/
def Region.grow (r : Region) (size : UInt32) : Region :=
  if r.entry.len < r.reservedSize + roundUp size r.minAlign then r
  else { r with reservedSize := r.reservedSize + roundUp size r.minAlign }

theorem Region.grow_entry (r : Region) (size : UInt32) : (r.grow size).entry = r.entry := by
  rw [grow]
  split <;> rfl

theorem served_eq_some (h : served m id = some r) :
    m.setupRefCount ≠ 0 ∧ ¬ id ≥ m.cfg.numEntries ∧ m.regions[id.toNat]? = some r ∧
      r.entry.isValid = true := by
  rw [served] at h
  split at h
  next => cases h
  next hcount =>
    split at h
    next => cases h
    next hlt =>
      obtain ⟨hr, hvalid⟩ := Option.filter_eq_some_iff.mp h
      exact ⟨hcount, hlt, hr, hvalid⟩

theorem reserveMemory_unserved (h : served m id = none) (size : UInt32) (status : Int) :
    reserveMemory m id size status = (0, m) := by
  rw [served] at h
  rw [reserveMemory]
  split at h
  next hcount => rw [if_pos hcount]
  next hcount =>
    rw [if_neg hcount]
    split at h
    next hge => rw [if_pos hge]
    next hge =>
      rw [if_neg hge]
      rw [regionOf] at h
      cases hr : m.regions[id.toNat]? with
      | none => rfl
      | some r =>
        rw [hr, Option.filter_some] at h
        cases hvalid : r.entry.isValid with
        | false => simp [hvalid]
        | true => simp [hvalid] at h

theorem reserveMemory_served (h : served m id = some r) (size : UInt32) (status : Int) :
    (reserveMemory m id size status).1 = r.entry.base + r.reservedSize ∧
      served (reserveMemory m id size status).2 id = some (r.grow size) := by
  obtain ⟨hcount, hlt, hr, hvalid⟩ := served_eq_some h
  have hin : id.toNat < m.regions.length := (List.getElem?_eq_some_iff.mp hr).1
  rw [reserveMemory, if_neg hcount, if_neg hlt]
  simp only [hr, hvalid, Bool.true_eq_false, if_false, Region.grow]
  split
  next => exact ⟨rfl, h⟩
  next =>
    refine ⟨rfl, ?_⟩
    simp [served, Module.setRegion, regionOf, hcount, hlt, hin, hvalid]

theorem reservedSizeOf_served (h : served m id = some r) :
    reservedSizeOf m id = r.reservedSize := by
  obtain ⟨-, -, hr, -⟩ := served_eq_some h
  rw [reservedSizeOf, regionOf, hr]
  rfl

theorem Region.Fits.grow {status : Int} (h : r.Fits r.reservedSize size status) :
    (r.grow size).reservedSize.toNat = r.reservedSize.toNat + (roundUp size r.minAlign).toNat := by
  obtain ⟨-, -, hle⟩ := h
  have hlen := r.entry.len.toNat_lt
  have hsum : (r.reservedSize + roundUp size r.minAlign).toNat =
      r.reservedSize.toNat + (roundUp size r.minAlign).toNat := by
    rw [UInt32.toNat_add]
    omega
  rw [Region.grow, if_neg, ← hsum]
  rw [UInt32.lt_iff_toNat_lt, hsum]
  omega

theorem Region.grow_eq_iff (r : Region) (size : UInt32) :
    (r.grow size).reservedSize = r.reservedSize ↔ roundUp size r.minAlign = 0 ∨
      r.entry.len < r.reservedSize + roundUp size r.minAlign := by
  rw [grow]
  split
  next hlt => simp [hlt]
  next hlt =>
    simp only [hlt, or_false]
    constructor
    · intro heq
      have hnat := congrArg UInt32.toNat heq
      rw [UInt32.toNat_add] at hnat
      have hn := (roundUp size r.minAlign).toNat_lt
      have hr := r.reservedSize.toNat_lt
      apply UInt32.toNat_inj.mp
      change _ = 0
      omega
    · intro heq
      rw [heq, UInt32.add_zero]

theorem Region.grow_le (h : r.reservedSize ≤ r.entry.len) :
    (r.grow size).reservedSize ≤ (r.grow size).entry.len := by
  rw [grow_entry, grow]
  split
  next => exact h
  next hlt => exact UInt32.not_lt.mp hlt

/-! ## All calls -/

/-- With what has been handed out below what is reserved. -/
structure ReserveSound (id : UInt16) (s : Reserving) : Prop extends ReserveInv id s where
  below : ∀ r, served s.m id = some r → ∀ a ∈ s.log, a.ptr ≠ 0 →
    a.ptr.toNat + a.size.toNat ≤ r.entry.base.toNat + r.reservedSize.toNat

theorem ReserveSound.record {r' : Region} {m' : Module} {a : Reservation} (h : ReserveSound id s)
    (hr : served s.m id = some r) (hr' : served m' id = some r') (hentry : r'.entry = r.entry)
    (hgrow : r.reservedSize.toNat ≤ r'.reservedSize.toNat) (hle : r'.reservedSize ≤ r'.entry.len)
    (hinside : a.ptr ≠ 0 →
      r.entry.Aligned a.ptr ∧ r.entry.Inside a.ptr a.size ∧
      r.entry.base.toNat + r.reservedSize.toNat ≤ a.ptr.toNat ∧
      a.ptr.toNat + a.size.toNat ≤ r.entry.base.toNat + r'.reservedSize.toNat)
    (hrefused : ¬ r.Fits a.before a.size a.status → a.ptr = 0 ∧ a.after = a.before) :
    ReserveSound id ⟨m', s.log ++ [a]⟩ := by
  have hfits : ∀ (cur size : UInt32) (status : Int),
      r'.Fits cur size status ↔ r.Fits cur size status := by
    intro cur size status
    rw [Region.Fits, Region.Fits, Region.minAlign, Region.minAlign, hentry]
  refine ⟨⟨?_, ?_, ?_, ?_⟩, ?_⟩
  · rw [List.pairwise_append]
    refine ⟨h.disjoint, List.pairwise_singleton _ _, ?_⟩
    intro b hb c hc
    rw [List.mem_singleton.mp hc]
    intro hbp hap
    have hbelow := h.below r hr b hb hbp
    exact Or.inl (Nat.le_trans hbelow (hinside hap).2.2.1)
  · intro b hb hbp
    refine ⟨r', hr', ?_⟩
    rw [hentry]
    rcases List.mem_append.mp hb with hb | hb
    · obtain ⟨r₀, hr₀, hold⟩ := h.inside b hb hbp
      cases hr.symm.trans hr₀
      exact hold
    · rw [List.mem_singleton.mp hb] at hbp ⊢
      exact ⟨(hinside hbp).1, (hinside hbp).2.1⟩
  · intro r₀ hr₀
    cases hr'.symm.trans hr₀
    exact hle
  · intro b hb hno
    rcases List.mem_append.mp hb with hb | hb
    · apply h.refused b hb
      intro r₀ hr₀ hf
      cases hr.symm.trans hr₀
      exact hno r' hr' ((hfits _ _ _).mpr hf)
    · rw [List.mem_singleton.mp hb] at hno ⊢
      exact hrefused fun hf => hno r' hr' ((hfits _ _ _).mpr hf)
  · intro r₀ hr₀ b hb hbp
    cases hr'.symm.trans hr₀
    rw [hentry]
    rcases List.mem_append.mp hb with hb | hb
    · have hbelow := h.below r hr b hb hbp
      exact Nat.le_trans hbelow (Nat.add_le_add_left hgrow _)
    · rw [List.mem_singleton.mp hb] at hbp ⊢
      exact (hinside hbp).2.2.2

theorem ReserveSound.unserved {a : Reservation} (h : ReserveSound id s) (hr : served s.m id = none)
    (hptr : a.ptr = 0) (hafter : a.after = a.before) : ReserveSound id ⟨s.m, s.log ++ [a]⟩ := by
  have hnull : ∀ b ∈ s.log ++ [a], b.ptr = 0 := by
    intro b hb
    rcases List.mem_append.mp hb with hb | hb
    · by_contra hbp
      obtain ⟨r, hr', -⟩ := h.inside b hb hbp
      rw [hr] at hr'
      cases hr'
    · rw [List.mem_singleton.mp hb]
      exact hptr
  refine ⟨⟨?_, fun b hb hbp => absurd (hnull b hb) hbp, ?_, ?_⟩, ?_⟩
  · apply List.pairwise_of_forall_mem_list
    intro b hb c _ hbp
    exact absurd (hnull b hb) hbp
  · intro r hr'
    rw [hr] at hr'
    cases hr'
  · intro b hb hno
    rcases List.mem_append.mp hb with hb | hb
    · exact h.refused b hb hno
    · rw [List.mem_singleton.mp hb]
      exact ⟨hptr, hafter⟩
  · intro r hr'
    rw [hr] at hr'
    cases hr'

theorem reserve_sound {s' : Reserving} {c : ReserveCall} (h : ReserveSound id s)
    (hok : ReserveOk id s c) (hstep : reserveStep id s c = some s') : ReserveSound id s' := by
  cases c with
  | clear status =>
    cases hstep
    exact h
  | reserve size status =>
    cases hstep
    cases hr : served s.m id with
    | none =>
      simp only [reserveMemory_unserved hr]
      exact h.unserved hr rfl rfl
    | some r =>
      obtain ⟨hptr, hr'⟩ := reserveMemory_served hr size status
      have hcond := hok r hr
      have hbefore := reservedSizeOf_served hr
      have hafter := reservedSizeOf_served hr'
      have hsame : ¬ r.Fits r.reservedSize size status →
          r.entry.base + r.reservedSize = 0 ∧ (r.grow size).reservedSize = r.reservedSize := by
        intro hno
        split at hcond
        next hzero => exact ⟨hzero, (r.grow_eq_iff size).mpr (hcond.resolve_left hno)⟩
        next => exact absurd hcond.1 hno
      apply h.record hr hr' (r.grow_entry size) _ (Region.grow_le (h.bounded r hr))
      · simp only [hptr]
        intro hne
        rw [if_neg hne] at hcond
        obtain ⟨hfits, hwrap, haligned⟩ := hcond
        have hplace : (r.entry.base + r.reservedSize).toNat =
            r.entry.base.toNat + r.reservedSize.toNat := by
          rw [UInt32.toNat_add, Nat.mod_eq_of_lt hwrap]
        have hgrown := hfits.grow
        obtain ⟨-, hround, hle⟩ := hfits
        have hsize := le_roundUp hround
        refine ⟨haligned, ⟨?_, ?_⟩, ?_, ?_⟩
        all_goals rw [hplace]
        all_goals omega
      · simp only [hptr, hbefore, hafter]
        exact hsame
      · by_cases hfits : r.Fits r.reservedSize size status
        · rw [hfits.grow]
          exact Nat.le_add_right _ _
        · rw [(hsame hfits).2]

theorem reserve_not_inv {c : ReserveCall} (hok : ¬ ReserveOk id s c) :
    ∃ s', reserveStep id s c = some s' ∧ ¬ ReserveInv id s' := by
  cases c with
  | clear status => exact absurd trivial hok
  | reserve size status =>
    refine ⟨_, rfl, ?_⟩
    intro hinv
    apply hok
    intro r hr
    obtain ⟨hptr, hr'⟩ := reserveMemory_served hr size status
    have hbefore := reservedSizeOf_served hr
    have hafter := reservedSizeOf_served hr'
    have hlast := List.mem_append_right s.log (List.mem_singleton_self (⟨size, status,
      (reserveMemory s.m id size status).1, reservedSizeOf s.m id,
      reservedSizeOf (reserveMemory s.m id size status).2 id⟩ : Reservation))
    -- what the last record says where the request does not fit
    have hrefused : ¬ r.Fits r.reservedSize size status →
        r.entry.base + r.reservedSize = 0 ∧ (r.grow size).reservedSize = r.reservedSize := by
      intro hno
      have href := hinv.refused _ hlast
      simp only [hptr, hbefore, hafter] at href
      apply href
      intro r₀ hr₀ hf
      cases hr'.symm.trans hr₀
      rw [Region.Fits, Region.minAlign, Region.grow_entry] at hf
      exact hno hf
    split
    next hzero =>
      by_cases hfits : r.Fits r.reservedSize size status
      · exact Or.inl hfits
      · exact Or.inr ((r.grow_eq_iff size).mp (hrefused hfits).2)
    next hne =>
      have hfits : r.Fits r.reservedSize size status := by
        by_contra hno
        exact hne (hrefused hno).1
      have hin := hinv.inside _ hlast
      simp only [hptr] at hin
      obtain ⟨r₀, hr₀, haligned, hinside⟩ := hin hne
      cases hr'.symm.trans hr₀
      rw [Region.grow_entry] at haligned hinside
      refine ⟨hfits, ?_, haligned⟩
      by_contra hwrap
      -- the address has wrapped around to below the base
      have hbase := hinside.1
      have hb := r.entry.base.toNat_lt
      have hc := r.reservedSize.toNat_lt
      rw [UInt32.toNat_add] at hbase
      omega

/-- For every region and every sequence of calls on it, from a table in which no more is
reserved than the region has: the pointers returned are aligned, inside and disjoint,
`reservedSize` stays within the length, and a request that cannot be satisfied gets NULL
and changes nothing, exactly if every call meets `ReserveOk`. -/
theorem reserveInv_iff (id : UInt16) (m : Module)
    (hstart : ∀ r, served m id = some r → r.reservedSize ≤ r.entry.len)
    (calls : List ReserveCall) :
    Throughout (reserveStep id) (ReserveInv id) { m := m } calls ↔
      Guarded (reserveStep id) (ReserveOk id) { m := m } calls := by
  have hinit : ReserveSound id { m := m } := by
    refine ⟨⟨List.Pairwise.nil, ?_, hstart, ?_⟩, ?_⟩
    · intro a ha
      cases ha
    · intro a ha
      cases ha
    · intro r _ a ha
      cases ha
  apply throughout_iff_guarded (J := ReserveSound id) _ _ _ hinit
  · intro s h
    exact h.toReserveInv
  · intro s c s' h hok hstep
    exact reserve_sound h hok hstep
  · intro s c _ hok
    exact reserve_not_inv hok

/-- Region 0 of the table with two regions. -/
def regionZero : Region := ⟨regionAt 0x10000000 0x100000, 0⟩

/-- A request for 100 bytes, and one for 300 bytes behind it. -/
theorem reserveInv_two_requests : Throughout (reserveStep 0) (ReserveInv 0)
    { m := twoRegionsModule } [.reserve 100 0, .reserve 300 0] := by
  have hstart : served twoRegionsModule 0 = some regionZero := rfl
  refine (reserveInv_iff 0 twoRegionsModule ?_ _).mpr ⟨?_, ?_⟩
  · intro r hr
    cases hstart.symm.trans hr
    decide
  · intro r hr
    cases hstart.symm.trans hr
    rw [if_neg (by decide)]
    exact ⟨⟨by decide, by decide, by decide⟩, by decide, fun _ => ⟨0x200000, by decide⟩⟩
  · intro s' hs'
    cases hs'
    refine ⟨?_, fun _ _ => trivial⟩
    intro r hr
    have hnext : served (reserveMemory twoRegionsModule 0 100 0).2 0 =
        some { regionZero with reservedSize := 128 } := rfl
    cases hnext.symm.trans hr
    rw [if_neg (by decide)]
    exact ⟨⟨by decide, by decide, by decide⟩, by decide, fun _ => ⟨0x200001, by decide⟩⟩

/-- A request for twice the region gets a pointer to its base, and so does the request
that comes next. -/
theorem reserveInv_broken :
    (reserveMemory twoRegionsModule 0 0x200000 0).1 = 0x10000000 ∧
    (reserveMemory (reserveMemory twoRegionsModule 0 0x200000 0).2 0 128 0).1 = 0x10000000 ∧
    ¬ Throughout (reserveStep 0) (ReserveInv 0) { m := twoRegionsModule }
      [.reserve 0x200000 0] := by
  refine ⟨by decide, by decide, ?_⟩
  intro h
  have hinv := h.2 _ rfl
  have hrefused := hinv.refused _ (List.mem_singleton_self _)
  have hnull := hrefused fun r hr hfits => by
    have hsame : served (reserveMemory twoRegionsModule 0 0x200000 0).2 0 = some regionZero := rfl
    cases hsame.symm.trans hr
    exact absurd hfits.2.2 (by decide)
  exact absurd hnull.1 (by decide)

end Omap4Hal.Syslink

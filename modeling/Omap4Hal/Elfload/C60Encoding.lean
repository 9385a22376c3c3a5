import Omap4Hal.Elfload.C60Reloc
import Mathlib.Tactic.Positivity

/- Whether the field that `reloc_do` has rewritten holds the relocation value, and nothing else has
   changed.

   The place is looked at in the byte order of the module. A type has a field in it (`Field`), and
   the field is read in one of five ways (`Reads`). Packing, masking and inserting are the same for
   nearly all types (`insert_replaced`, `Fits.reads`). Of R_C6000_PREL31 the mask is one bit too
   narrow, so that bit 30 of the old field stays; R_C6000_ABS16 and R_C6000_ABS8 are written at the
   address of the place after the whole word has been swapped, which is the other end of it. -/
namespace Omap4Hal.Elfload.C60

open Lib
open BitVec (eq_of_getLsbD_eq getLsbD getLsbD_and getLsbD_extractLsb' getLsbD_not getLsbD_or
  getLsbD_setWidth getLsbD_shiftLeft le_toInt signExtend sshiftRight_zero toInt_eq_toNat_cond
  toInt_lt toNat_ofNat toNat_setWidth ule)

/-! ## Fields -/

/-- How a field is read: with or without a sign, with either, or as one half of the value. -/
inductive Kind where
  | signed
  | unsigned
  | either
  | low
  | high
  deriving DecidableEq, Repr

/-- A field: its lowest bit in the place and its width, and the unit of its value as a power of
two. -/
structure Field where
  kind : Kind
  width : Nat
  pos : Nat
  unitLog : Nat

/-- The fields of the types, where the data of 8 and 16 bits are those of the address. -/
def fieldOf (t : RelocType) (bigEndian : Bool) : Field :=
  match t with
  | .abs32 | .other => ⟨.signed, 32, 0, 0⟩
  | .abs16 => ⟨.either, 16, if bigEndian then 16 else 0, 0⟩
  | .abs8 => ⟨.either, 8, if bigEndian then 24 else 0, 0⟩
  | .pcrS21 => ⟨.signed, 21, 7, 2⟩
  | .pcrS12 => ⟨.signed, 12, 16, 2⟩
  | .pcrS10 => ⟨.signed, 10, 13, 2⟩
  | .pcrS7 => ⟨.signed, 7, 16, 2⟩
  | .absS16 | .sbrS16 => ⟨.signed, 16, 7, 0⟩
  | .absL16 | .sbrL16B => ⟨.low, 16, 7, 0⟩
  | .sbrL16H => ⟨.low, 16, 7, 1⟩
  | .sbrL16W => ⟨.low, 16, 7, 2⟩
  | .absH16 | .sbrH16B => ⟨.high, 16, 7, 0⟩
  | .sbrH16H => ⟨.high, 16, 7, 1⟩
  | .sbrH16W => ⟨.high, 16, 7, 2⟩
  | .sbrU15B => ⟨.unsigned, 15, 8, 0⟩
  | .sbrU15H => ⟨.unsigned, 15, 8, 1⟩
  | .sbrU15W | .dsbtIndex => ⟨.unsigned, 15, 8, 2⟩
  | .prel31 => ⟨.signed, 31, 0, 1⟩

/-- The field content `x` says `v`, rounded down to the unit. -/
def Reads (f : Field) (x : BitVec f.width) (v : Word) : Prop :=
  match f.kind with
  | .signed => x.toInt * 2 ^ f.unitLog = v.toInt / 2 ^ f.unitLog * 2 ^ f.unitLog
  | .unsigned => x.toNat * 2 ^ f.unitLog = v.toNat / 2 ^ f.unitLog * 2 ^ f.unitLog
  | .either => x.toInt = v.toInt ∨ (x.toNat : Int) = v.toInt
  | .low => (x.toNat : Int) = v.toInt / 2 ^ f.unitLog % 2 ^ 16
  | .high => (x.toNat : Int) = v.toInt / 2 ^ f.unitLog / 2 ^ 16 % 2 ^ 16

/-- The place after a write that changes the field alone. -/
structure Replaced (f : Field) (place place' : Word) (x : BitVec f.width) : Prop where
  field : place'.extractLsb' f.pos f.width = x
  frame : ∀ i < 32, ¬ (f.pos ≤ i ∧ i < f.pos + f.width) → place'.getLsbD i = place.getLsbD i

/-- A place in the byte order of the module. The host is little-endian. -/
def inOrder (wrongEndian : Bool) (place : Word) : Word :=
  if wrongEndian then changeEndian32 place else place

/-- What `reloc_do` should do to a place. -/
structure Encoded (t : RelocType) (place segmentAddress addend symval spc : Word)
    (wrongEndian : Bool) (basePointer dsbtIndex : Word) : Prop where
  /-- An overflow is reported, or the field holds the value. -/
  written :
    .relocationOverflow ∈ (relocDo t place segmentAddress addend symval spc wrongEndian
      basePointer dsbtIndex).2 ∨
    ∃ x, Reads (fieldOf t wrongEndian) x
        (relocValue t segmentAddress addend symval spc basePointer dsbtIndex).1 ∧
      Replaced (fieldOf t wrongEndian) (inOrder wrongEndian place)
        (inOrder wrongEndian (relocDo t place segmentAddress addend symval spc wrongEndian
          basePointer dsbtIndex).1) x
  /-- Of a multiple of the unit an overflow is reported exactly if no field content says it. -/
  reported :
    (2 ^ (fieldOf t wrongEndian).unitLog : Int) ∣
        (relocValue t segmentAddress addend symval spc basePointer dsbtIndex).1.toInt →
    (.relocationOverflow ∈ (relocDo t place segmentAddress addend symval spc wrongEndian
      basePointer dsbtIndex).2 ↔
    ∀ x, ¬ Reads (fieldOf t wrongEndian) x
      (relocValue t segmentAddress addend symval spc basePointer dsbtIndex).1)

/-- The places and values that `reloc_do` gets right. -/
def Encodable (t : RelocType) (place v : Word) (wrongEndian : Bool) : Prop :=
  match t with
  | .prel31 => (inOrder wrongEndian place).getLsbD 30 = false ∨ v.toInt < 0
  | .abs16 => wrongEndian = false ∨ ¬ (-32768 ≤ v.toInt ∧ v.toInt < 65536) ∨
      (inOrder wrongEndian place).extractLsb' 16 16 = v.setWidth 16 ∧
        (inOrder wrongEndian place).extractLsb' 0 16 = v.setWidth 16
  | .abs8 => wrongEndian = false ∨ ¬ (-128 ≤ v.toInt ∧ v.toInt < 256) ∨
      (inOrder wrongEndian place).extractLsb' 24 8 = v.setWidth 8 ∧
        (inOrder wrongEndian place).extractLsb' 0 8 = v.setWidth 8
  | _ => True

/-! ## Writing -/

variable {n pos : Nat} {place v : Word}

theorem getLsbD_insert {field r : Word} {s i : Nat} (hn : n < 32) (hr : r.toNat < 2 ^ n)
    (hi : i < 32) :
    (insert field r n s).getLsbD i =
      if s ≤ i ∧ i < s + n then r.getLsbD (i - s) else field.getLsbD i := by
  rw [insert, mask, getLsbD_or, getLsbD_and, getLsbD_not,
    getLsbD_shiftLeft, getLsbD_shiftLeft]
  by_cases hs : s ≤ i
  · have hlow : (1#32 <<< n - 1#32).getLsbD (i - s) = decide (i - s < n) :=
      getLsbD_lowMask hn (by omega)
    rw [hlow]
    by_cases hin : i < s + n
    · have hlt : i - s < n := by omega
      simp [hi, hs, hin, hlt, Nat.not_lt.mpr hs]
    · have hge : ¬ i - s < n := by omega
      have hzero : r.getLsbD (i - s) = false := by
        rw [getLsbD]
        exact Nat.testBit_lt_two_pow (Nat.lt_of_lt_of_le hr
          (Nat.pow_le_pow_right (by decide) (Nat.not_lt.mp hge)))
      simp [hi, hin, hge, hzero]
  · simp [hi, hs, Nat.not_le.mp hs]

theorem insert_replaced {f : Field} {r : Word} (hwidth : f.width < 32) (hin : f.pos + f.width ≤ 32)
    (hr : r.toNat < 2 ^ f.width) :
    Replaced f place (insert place r f.width f.pos) (r.setWidth f.width) where
  field := by
    apply eq_of_getLsbD_eq
    intro i hi
    rw [getLsbD_extractLsb', getLsbD_insert hwidth hr (by omega), if_pos (by omega),
      getLsbD_setWidth, Nat.add_sub_cancel_left]
  frame := by
    intro i hi hout
    rw [getLsbD_insert hwidth hr hi, if_neg hout]

/-! ## Values -/

/-- The value has a field content. -/
def Fits (f : Field) (v : Word) : Prop :=
  match f.kind with
  | .signed => FitsSigned (f.width - 1 + f.unitLog) v
  | .unsigned => v.toNat < 2 ^ (f.width + f.unitLog)
  | .either => -2 ^ (f.width - 1) ≤ v.toInt ∧ v.toInt < 2 ^ f.width
  | .low | .high => True

/-- The content that packing and masking make of the value. -/
def packed (f : Field) (v : Word) : BitVec f.width :=
  (v.sshiftRight (f.unitLog + if f.kind = .high then 16 else 0)).setWidth f.width

theorem toInt_sshiftRight_eq (v : Word) (u : Nat) : (v.sshiftRight u).toInt = v.toInt / 2 ^ u := by
  rw [BitVec.toInt_sshiftRight, Int.shiftRight_eq_div_pow]
  norm_cast

theorem toInt_setWidth_of_fits {y : Word} {k : Nat} (hk : k < 32) (h : FitsSigned k y) :
    (y.setWidth (k + 1)).toInt = y.toInt := by
  rw [← BitVec.signExtend_eq_setWidth_of_le y (by omega : k + 1 ≤ 32), signExtend,
    BitVec.toInt_ofInt]
  apply Int.bmod_eq_of_le
  · have hlow := h.1
    rw [Nat.pow_succ]
    push_cast
    omega
  · have hhigh := h.2
    rw [Nat.pow_succ]
    push_cast
    omega

theorem toNat_emod (y : Word) : (y.toNat : Int) % 2 ^ 16 = y.toInt % 2 ^ 16 := by
  rw [toInt_eq_toNat_cond]
  split
  next => rfl
  next =>
    push_cast
    omega

section Reads
variable {v : Word} {pos u : Nat}

theorem reads_signed {k : Nat} (hk : k < 32) (h : FitsSigned (k + u) v) :
    Reads ⟨.signed, k + 1, pos, u⟩ (packed ⟨.signed, k + 1, pos, u⟩ v) v := by
  have hpos : (0 : Int) < 2 ^ u := by positivity
  have hfit : FitsSigned k (v.sshiftRight u) := by
    rw [FitsSigned, toInt_sshiftRight_eq]
    constructor
    · rw [Int.le_ediv_iff_mul_le hpos, Int.neg_mul, ← pow_add]
      exact h.1
    · rw [Int.ediv_lt_iff_lt_mul hpos, ← pow_add]
      exact h.2
  show ((v.sshiftRight u).setWidth (k + 1)).toInt * 2 ^ u = _
  rw [toInt_setWidth_of_fits hk hfit, toInt_sshiftRight_eq]

theorem reads_unsigned {n : Nat} (hn : n + u < 32) (h : v.toNat < 2 ^ (n + u)) :
    Reads ⟨.unsigned, n, pos, u⟩ (packed ⟨.unsigned, n, pos, u⟩ v) v := by
  have hle : 2 ^ (n + u) ≤ 2 ^ 31 := Nat.pow_le_pow_right (by decide) (by omega)
  have hmsb : v.msb = false := by
    rw [BitVec.msb_eq_decide, decide_eq_false_iff_not]
    show ¬ 2 ^ 31 ≤ v.toNat
    omega
  show ((v.sshiftRight u).setWidth n).toNat * 2 ^ u = _
  rw [BitVec.sshiftRight_eq_of_msb_false hmsb, toNat_setWidth, BitVec.toNat_ushiftRight,
    Nat.shiftRight_eq_div_pow, Nat.mod_eq_of_lt]
  rw [Nat.div_lt_iff_lt_mul (Nat.two_pow_pos u), ← Nat.pow_add]
  exact h

theorem reads_either {k : Nat} (hk : k < 31) (h : -2 ^ k ≤ v.toInt ∧ v.toInt < 2 ^ (k + 1)) :
    Reads ⟨.either, k + 1, pos, 0⟩ (packed ⟨.either, k + 1, pos, 0⟩ v) v := by
  show ((v.sshiftRight 0).setWidth (k + 1)).toInt = v.toInt ∨
    (((v.sshiftRight 0).setWidth (k + 1)).toNat : Int) = v.toInt
  rw [sshiftRight_zero]
  by_cases hfit : v.toInt < 2 ^ k
  · exact Or.inl (toInt_setWidth_of_fits (by omega) ⟨h.1, hfit⟩)
  · have hnonneg : 0 ≤ v.toInt := by
      have hpos : (0 : Int) < 2 ^ k := by positivity
      omega
    have hnat := BitVec.toInt_eq_toNat_of_lt (x := v) (by
      have hbound := toInt_eq_toNat_cond v
      split at hbound
      · assumption
      · have hlt := v.isLt
        omega)
    refine Or.inr ?_
    have hlt : v.toNat < 2 ^ (k + 1) := by
      have hupper := h.2
      rw [hnat] at hupper
      exact_mod_cast hupper
    rw [toNat_setWidth, Nat.mod_eq_of_lt hlt, hnat]

theorem reads_low : Reads ⟨.low, 16, pos, u⟩ (packed ⟨.low, 16, pos, u⟩ v) v := by
  show (((v.sshiftRight u).setWidth 16).toNat : Int) = _
  rw [toNat_setWidth, ← toInt_sshiftRight_eq, ← toNat_emod]
  push_cast
  rfl

theorem reads_high : Reads ⟨.high, 16, pos, u⟩ (packed ⟨.high, 16, pos, u⟩ v) v := by
  show (((v.sshiftRight (u + 16)).setWidth 16).toNat : Int) = _
  rw [Int.ediv_ediv_of_nonneg (by positivity), ← pow_add, toNat_setWidth,
    ← toInt_sshiftRight_eq, ← toNat_emod]
  push_cast
  rfl

end Reads

/-! ## The fields of the types -/

section Types
variable {t : RelocType} {v : Word}

variable {bigEndian : Bool}

theorem Fits.reads (ht : t ≠ .other) (h : Fits (fieldOf t bigEndian) v) :
    Reads (fieldOf t bigEndian) (packed (fieldOf t bigEndian) v) v := by
  cases t with
  | other => exact absurd rfl ht
  | abs32 => exact reads_signed (k := 31) (by decide) h
  | abs16 => exact reads_either (k := 15) (by decide) h
  | abs8 => exact reads_either (k := 7) (by decide) h
  | pcrS21 => exact reads_signed (k := 20) (by decide) h
  | pcrS12 => exact reads_signed (k := 11) (by decide) h
  | pcrS10 => exact reads_signed (k := 9) (by decide) h
  | pcrS7 => exact reads_signed (k := 6) (by decide) h
  | absS16 | sbrS16 => exact reads_signed (k := 15) (by decide) h
  | absL16 | sbrL16B | sbrL16H | sbrL16W => exact reads_low
  | absH16 | sbrH16B | sbrH16H | sbrH16W => exact reads_high
  | sbrU15B | sbrU15H | sbrU15W | dsbtIndex => exact reads_unsigned (by decide) h
  | prel31 => exact reads_signed (k := 30) (by decide) h

theorem Reads.fits {f : Field} {x : BitVec f.width} (hdvd : (2 ^ f.unitLog : Int) ∣ v.toInt)
    (hwidth : 0 < f.width) (hunit : f.unitLog ≤ 32) (h : Reads f x v) : Fits f v := by
  obtain ⟨kind, n, pos, u⟩ := f
  have hpos : (0 : Int) < 2 ^ u := by positivity
  cases kind with
  | signed =>
    have heq : x.toInt * 2 ^ u = v.toInt := (h : x.toInt * 2 ^ u = _).trans
      (Int.ediv_mul_cancel hdvd)
    have hlow := le_toInt x
    have hhigh := toInt_lt (x := x)
    show FitsSigned (n - 1 + u) v
    rw [FitsSigned, ← heq, pow_add]
    constructor
    · rw [← Int.neg_mul]
      exact Int.mul_le_mul_of_nonneg_right hlow hpos.le
    · exact Int.mul_lt_mul_of_pos_right hhigh hpos
  | unsigned =>
    have hnat : 2 ^ u ∣ v.toNat := by
      have hcond := toInt_eq_toNat_cond v
      have hword : (2 ^ u : Int) ∣ 2 ^ 32 := pow_dvd_pow 2 hunit
      have hint : (2 ^ u : Int) ∣ (v.toNat : Int) := by
        split at hcond
        next => exact hcond ▸ hdvd
        next =>
          have hsum : (v.toNat : Int) = v.toInt + 2 ^ 32 := by
            rw [hcond]
            push_cast
            omega
          rw [hsum]
          exact Int.dvd_add hdvd hword
      exact_mod_cast hint
    have heq : x.toNat * 2 ^ u = v.toNat := (h : x.toNat * 2 ^ u = _).trans
      (Nat.div_mul_cancel hnat)
    show v.toNat < 2 ^ (n + u)
    rw [← heq, Nat.pow_add]
    exact Nat.mul_lt_mul_of_pos_right x.isLt (Nat.two_pow_pos u)
  | either =>
    have hlow : -2 ^ (n - 1) ≤ x.toInt := le_toInt x
    have hhigh : x.toInt < 2 ^ (n - 1) := toInt_lt
    have hhalf : (2 : Int) ^ (n - 1) ≤ 2 ^ n := by
      exact_mod_cast Nat.pow_le_pow_right (by decide) (Nat.sub_le n 1)
    have hhalfpos : (0 : Int) < 2 ^ (n - 1) := by positivity
    have hlt : (x.toNat : Int) < 2 ^ n := by exact_mod_cast x.isLt
    show -2 ^ (n - 1) ≤ v.toInt ∧ v.toInt < 2 ^ n
    rcases (h : x.toInt = v.toInt ∨ (x.toNat : Int) = v.toInt) with heq | heq
    · rw [← heq]
      exact ⟨hlow, by omega⟩
    · rw [← heq]
      exact ⟨by omega, hlt⟩
  | low => trivial
  | high => trivial

theorem fieldOf_width (t : RelocType) (bigEndian : Bool) :
    0 < (fieldOf t bigEndian).width ∧ (fieldOf t bigEndian).unitLog ≤ 32 := by
  cases t <;> exact ⟨by simp [fieldOf], by simp [fieldOf]⟩

theorem outside_eq_false_iff {lo hi v : Word} :
    outside lo hi v = false ↔ lo.toInt ≤ v.toInt ∧ v.toInt < hi.toInt := by
  rw [outside, Bool.or_eq_false_iff, ← Bool.not_eq_true, ← Bool.not_eq_true,
    BitVec.sle_iff_toInt_le, BitVec.slt_iff_toInt_lt]
  omega

theorem ule_eq_false_iff {c v : Word} : c.ule v = false ↔ v.toNat < c.toNat := by
  rw [ule, decide_eq_false_iff_not, Nat.not_le]

theorem fits_of_not_overflow (ht : t ≠ .other) (h : (relOverflow t v).1 = false) :
    Fits (fieldOf t bigEndian) v := by
  cases t with
  | other => exact absurd rfl ht
  | absL16 | absH16 | sbrL16B | sbrL16H | sbrL16W | sbrH16B | sbrH16H | sbrH16W => trivial
  | abs32 | prel31 => exact ⟨le_toInt v, toInt_lt⟩
  | sbrU15B | sbrU15H | sbrU15W | dsbtIndex =>
    have hlt := ule_eq_false_iff.mp h
    simp only [Fits, fieldOf]
    simp only [toNat_ofNat] at hlt
    omega
  | abs16 | abs8 | pcrS21 | pcrS12 | pcrS10 | pcrS7 | absS16 | sbrS16 =>
    simpa [Fits, fieldOf, FitsSigned] using outside_eq_false_iff.mp h

theorem not_overflow_of_fits (ht : t ≠ .other)
    (hdvd : (2 ^ (fieldOf t bigEndian).unitLog : Int) ∣ v.toInt)
    (h : Fits (fieldOf t bigEndian) v) :
    (relOverflow t v).1 = false := by
  cases t with
  | other => exact absurd rfl ht
  | absL16 | absH16 | sbrL16B | sbrL16H | sbrL16W | sbrH16B | sbrH16H | sbrH16W => rfl
  | abs32 | prel31 => rfl
  | sbrU15B | sbrU15H | sbrU15W | dsbtIndex =>
    have hcond := toInt_eq_toNat_cond v
    apply ule_eq_false_iff.mpr
    simp only [Fits, fieldOf] at h hdvd
    simp only [toNat_ofNat]
    split at hcond <;> omega
  | abs16 | abs8 | pcrS21 | pcrS12 | pcrS10 | pcrS7 | absS16 | sbrS16 =>
    apply outside_eq_false_iff.mpr
    simpa [Fits, fieldOf, FitsSigned] using h

theorem overflow_iff (ht : t ≠ .other) (hdvd : (2 ^ (fieldOf t bigEndian).unitLog : Int) ∣ v.toInt)
    :
    (relOverflow t v).1 = true ↔ ∀ x, ¬ Reads (fieldOf t bigEndian) x v := by
  obtain ⟨hwidth, hunit⟩ := fieldOf_width t bigEndian
  constructor
  · intro hover x hx
    rw [not_overflow_of_fits ht hdvd (hx.fits hdvd hwidth hunit)] at hover
    cases hover
  · intro hnone
    by_contra hover
    exact hnone _ (Fits.reads ht (fits_of_not_overflow ht (Bool.eq_false_of_not_eq_true hover)))

end Types

/-! ## The place -/

section Place
variable {t : RelocType} {place segmentAddress addend symval spc : Word} {wrongEndian : Bool}
  {basePointer dsbtIndex : Word}

theorem mem_reported {b : Bool} :
    RelocError.relocationOverflow ∈ (if b = true then [RelocError.relocationOverflow] else []) ↔
      b = true := by
  cases b <;> simp

theorem relocDo_reported (ht : t ≠ .other) :
    .relocationOverflow ∈ (relocDo t place segmentAddress addend symval spc wrongEndian
        basePointer dsbtIndex).2 ↔
      (relOverflow t
        (relocValue t segmentAddress addend symval spc basePointer dsbtIndex).1).1 = true := by
  have hother : ∀ v w : Word, (relocValue t segmentAddress addend symval spc basePointer
      dsbtIndex).2 = [] ∧ (relOverflow t v).2 = [] ∧ (packResult v t).2 = [] ∧
      (maskResult v t).2 = [] ∧ (writeRelocR w t v).2 = [] := by
    intro v w
    cases t with
    | other => exact absurd rfl ht
    | _ => exact ⟨rfl, rfl, rfl, rfl, rfl⟩
  rw [relocDo]
  dsimp only
  rw [(hother 0#32 0#32).1, (hother _ 0#32).2.1, (hother _ 0#32).2.2.1, (hother _ 0#32).2.2.2.1,
    (hother _ _).2.2.2.2, List.nil_append, List.nil_append, List.append_nil, List.append_nil,
    List.append_nil]
  exact mem_reported

theorem relocDo_inOrder :
    inOrder wrongEndian (relocDo t place segmentAddress addend symval spc wrongEndian
        basePointer dsbtIndex).1 =
      (writeRelocR (inOrder wrongEndian place) t
        (maskResult (packResult
          (relocValue t segmentAddress addend symval spc basePointer dsbtIndex).1 t).1 t).1).1 := by
  cases wrongEndian
  · rfl
  · exact changeEndian32_changeEndian32 _

theorem and_lowMask (y : Word) {n : Nat} (hn : n < 32) :
    y &&& (1#32 <<< n - 1#32) = (y.setWidth n).setWidth 32 := by
  apply eq_of_getLsbD_eq
  intro i hi
  rw [getLsbD_and, getLsbD_lowMask hn hi, getLsbD_setWidth, getLsbD_setWidth]
  simp [hi, Bool.and_comm]

theorem masked_eq (ht : t ≠ .other) (ht' : t ≠ .abs32) (bigEndian : Bool) (v : Word) :
    (maskResult (packResult v t).1 t).1 = (packed (fieldOf t bigEndian) v).setWidth 32 := by
  cases t with
  | other => exact absurd rfl ht
  | abs32 => exact absurd rfl ht'
  | abs16 | absS16 | sbrS16 | absL16 | sbrL16B =>
    exact (congrArg (· &&& 0xFFFF#32) (sshiftRight_zero (x := v)).symm).trans
      (and_lowMask (n := 16) _ (by decide))
  | abs8 =>
    exact (congrArg (· &&& 0xFF#32) (sshiftRight_zero (x := v)).symm).trans
      (and_lowMask (n := 8) _ (by decide))
  | sbrU15B =>
    exact (congrArg (· &&& 0x7FFF#32) (sshiftRight_zero (x := v)).symm).trans
      (and_lowMask (n := 15) _ (by decide))
  | pcrS21 => exact and_lowMask (n := 21) _ (by decide)
  | pcrS12 => exact and_lowMask (n := 12) _ (by decide)
  | pcrS10 => exact and_lowMask (n := 10) _ (by decide)
  | pcrS7 => exact and_lowMask (n := 7) _ (by decide)
  | sbrL16H | sbrL16W | absH16 | sbrH16B | sbrH16H | sbrH16W =>
    exact and_lowMask (n := 16) _ (by decide)
  | sbrU15H | sbrU15W | dsbtIndex => exact and_lowMask (n := 15) _ (by decide)
  | prel31 => exact and_lowMask (n := 31) _ (by decide)

theorem toNat_setWidth_lt {n : Nat} (hn : n < 32) (x : BitVec n) :
    (x.setWidth 32).toNat < 2 ^ n := by
  have hlt : 2 ^ n < 2 ^ 32 := Nat.pow_lt_pow_right (by decide) hn
  have hx := x.isLt
  rw [toNat_setWidth, Nat.mod_eq_of_lt (by omega)]
  exact hx

theorem setWidth_setWidth_self {n : Nat} (hn : n < 32) (x : BitVec n) :
    (x.setWidth 32).setWidth n = x := by
  apply eq_of_getLsbD_eq
  intro i hi
  rw [getLsbD_setWidth, getLsbD_setWidth]
  simp [hi, Nat.lt_trans hi hn]

theorem insert_packed {f : Field} (hwidth : f.width < 32) (hin : f.pos + f.width ≤ 32)
    (place v : Word) :
    Replaced f place (insert place ((packed f v).setWidth 32) f.width f.pos) (packed f v) := by
  have hrep : Replaced f place _ _ :=
    insert_replaced hwidth hin (toNat_setWidth_lt hwidth (packed f v))
  rwa [setWidth_setWidth_self hwidth] at hrep

theorem insert_zero (place : Word) {r : Word} {n : Nat} (hn : n < 32) (hr : r.toNat < 2 ^ n)
    {i : Nat} (hi : i < 32) :
    (insert place r n 0).getLsbD i = if i < n then r.getLsbD i else place.getLsbD i := by
  rw [getLsbD_insert hn hr hi]
  simp

theorem ofHalves_eq_insert (place : Word) (x : BitVec 16) :
    ofHalves ((x.setWidth 32).setWidth 16) (second place) = insert place (x.setWidth 32) 16 0 := by
  apply eq_of_getLsbD_eq
  intro i hi
  rw [insert_zero place (by decide) (toNat_setWidth_lt (by decide) x) hi]
  simp only [ofHalves, second, getLsbD_or, getLsbD_shiftLeft,
    getLsbD_setWidth, BitVec.getLsbD_ushiftRight]
  by_cases hlow : i < 16
  · simp [hi, hlow]
  · have hsub : 16 + (i - 16) = i := by omega
    have hlt : i - 16 < 16 := by omega
    simp [hi, hlow, hsub, hlt, show i - 16 < 32 by omega]

theorem abs8_eq_insert (place : Word) (x : BitVec 8) :
    place &&& ~~~0xFF#32 ||| ((x.setWidth 32).setWidth 8).setWidth 32 =
      insert place (x.setWidth 32) 8 0 := by
  rw [setWidth_setWidth_self (by decide), insert, BitVec.shiftLeft_zero]
  rfl

end Place

/-! ## The types that are not right -/

theorem Reads.eq_setWidth {x : BitVec n} (hn : n < 32) (h : Reads ⟨.either, n, pos, 0⟩ x v) :
    x = v.setWidth n := by
  rcases (h : x.toInt = v.toInt ∨ (x.toNat : Int) = v.toInt) with heq | heq
  · rw [← BitVec.signExtend_eq_setWidth_of_le v (by omega : n ≤ 32), signExtend, ← heq,
      BitVec.ofInt_toInt]
  · have hcond := toInt_eq_toNat_cond v
    have hnat : v.toNat = x.toNat := by
      have hlt := v.isLt
      split at hcond <;> omega
    apply BitVec.eq_of_toNat_eq
    rw [toNat_setWidth, hnat, Nat.mod_eq_of_lt x.isLt]

theorem replaced_wrong_end (hn : n < 32) (hpos : n ≤ pos) (hin : pos + n = 32) {x : BitVec n}
    (hx : x = v.setWidth n) :
    Replaced ⟨.either, n, pos, 0⟩ place (insert place (x.setWidth 32) n 0) x ↔
      place.extractLsb' pos n = v.setWidth n ∧
        ∀ i < pos, (insert place (x.setWidth 32) n 0).getLsbD i = place.getLsbD i := by
  have hr := toNat_setWidth_lt hn x
  have hfield : (insert place (x.setWidth 32) n 0).extractLsb' pos n = place.extractLsb' pos n := by
    apply eq_of_getLsbD_eq
    intro i hi
    rw [getLsbD_extractLsb', getLsbD_extractLsb', insert_zero place hn hr (by omega),
      if_neg (by omega)]
  constructor
  · rintro ⟨hf, hframe⟩
    refine ⟨hfield.symm.trans (hf.trans hx), ?_⟩
    intro i hi
    exact hframe i (by omega) fun hin => by
      have hge : pos ≤ i := hin.1
      omega
  · rintro ⟨hf, hframe⟩
    refine ⟨hfield.trans (hf.trans hx.symm), ?_⟩
    intro i hi hout
    apply hframe i
    by_contra hge
    exact hout ⟨Nat.not_lt.mp hge, by
      show i < pos + n
      omega⟩

theorem frame_iff (hn : n < 32) (hpos : n ≤ pos) (hin : pos + n = 32) :
    (∀ i < pos, (insert place ((v.setWidth n).setWidth 32) n 0).getLsbD i = place.getLsbD i) ↔
      place.extractLsb' 0 n = v.setWidth n := by
  have hr := toNat_setWidth_lt hn (v.setWidth n)
  constructor
  · intro h
    apply eq_of_getLsbD_eq
    intro i hi
    have hbit := h i (by omega)
    rw [insert_zero place hn hr (by omega), if_pos hi, getLsbD_setWidth] at hbit
    rw [getLsbD_extractLsb', Nat.zero_add, ← hbit]
    simp [hi, show i < 32 by omega]
  · intro h i hi
    rw [insert_zero place hn hr (by omega)]
    split
    next hlt =>
      rw [← h, getLsbD_setWidth, getLsbD_extractLsb', Nat.zero_add]
      simp [hlt, show i < 32 by omega]
    next => rfl

/-- What is written for a value, in the order of the module. -/
def rewritten (t : RelocType) (place v : Word) : Word :=
  (writeRelocR place t (maskResult (packResult v t).1 t).1).1

/-- The first half of `Encoded`, for the place in the order of the module. -/
def Written (t : RelocType) (place v : Word) (bigEndian : Bool) : Prop :=
  (relOverflow t v).1 = true ∨ ∃ x, Reads (fieldOf t bigEndian) x v ∧
    Replaced (fieldOf t bigEndian) place (rewritten t place v) x

section Written
variable {t : RelocType} {place v : Word}

theorem written_of_insert (ht : t ≠ .other) {bigEndian : Bool}
    (hwidth : (fieldOf t bigEndian).width < 32)
    (hin : (fieldOf t bigEndian).pos + (fieldOf t bigEndian).width ≤ 32)
    (hwrite : rewritten t place v =
      insert place ((packed (fieldOf t bigEndian) v).setWidth 32) (fieldOf t bigEndian).width
        (fieldOf t bigEndian).pos) : Written t place v bigEndian := by
  by_cases hover : (relOverflow t v).1 = true
  · exact Or.inl hover
  · refine Or.inr ⟨packed (fieldOf t bigEndian) v, ?_, ?_⟩
    · exact (fits_of_not_overflow ht (Bool.eq_false_of_not_eq_true hover)).reads ht
    · rw [hwrite]
      exact insert_packed hwidth hin place v

theorem written_abs32 (bigEndian : Bool) : Written .abs32 place v bigEndian := by
  refine Or.inr ⟨v, ?_, ?_, ?_⟩
  · simp [Reads, fieldOf]
  · exact BitVec.extractLsb'_eq_self
  · intro i hi hout
    exact absurd ⟨Nat.zero_le i, by simpa [fieldOf] using hi⟩ hout

theorem getLsbD_mask30 (place r : Word) {i : Nat} (hi : i < 32) :
    (place &&& ~~~mask 30 0 ||| r).getLsbD i =
      ((place.getLsbD i && decide (30 ≤ i)) || r.getLsbD i) := by
  rw [mask, BitVec.shiftLeft_zero, getLsbD_or, getLsbD_and, getLsbD_not,
    getLsbD_lowMask (by decide) hi]
  by_cases h : i < 30
  · simp [h, Nat.not_le.mpr h]
  · simp [hi, h, Nat.not_lt.mp h]

/-- The bits that are written for R_C6000_PREL31: bit 30 keeps what it was. -/
theorem getLsbD_rewritten_prel31 {i : Nat} (hi : i < 32) :
    (rewritten .prel31 place v).getLsbD i =
      ((place.getLsbD i && decide (30 ≤ i)) ||
        (decide (i < 31) && (v.sshiftRight 1).getLsbD i)) := by
  have hwrite : rewritten .prel31 place v =
      place &&& ~~~mask 30 0 ||| (((v.sshiftRight 1).setWidth 31).setWidth 32) :=
    congrArg (place &&& ~~~mask 30 0 ||| ·) (masked_eq (by decide) (by decide) false v)
  rw [hwrite, getLsbD_mask30 _ _ hi, getLsbD_setWidth, getLsbD_setWidth]
  simp [hi]

theorem msb_iff_neg : v.msb = true ↔ v.toInt < 0 := by
  rw [BitVec.msb_eq_decide, decide_eq_true_iff, toInt_eq_toNat_cond]
  have hlt := v.isLt
  split <;> omega

/-- Bit 30 of the old field stays, which a value without a sign cannot have. -/
theorem written_prel31 (bigEndian : Bool) :
    Written .prel31 place v bigEndian ↔ place.getLsbD 30 = false ∨ v.toInt < 0 := by
  have hfit : FitsSigned 30 (v.sshiftRight 1) := by
    have hlow := le_toInt v
    have hhigh := toInt_lt (x := v)
    rw [FitsSigned, toInt_sshiftRight_eq]
    omega
  have htop : (v.sshiftRight 1).getLsbD 30 = v.msb := by
    rw [BitVec.getLsbD_sshiftRight, BitVec.msb_eq_getLsbD_last]
    rfl
  rw [← msb_iff_neg]
  constructor
  · rintro (hover | ⟨x, hx, hrep⟩)
    · cases hover
    · have hxv : x = (v.sshiftRight 1).setWidth 31 := by
        have heq : x.toInt * 2 = v.toInt / 2 * 2 := hx
        have hkeep : ((v.sshiftRight 1).setWidth 31).toInt = v.toInt / 2 :=
          (toInt_setWidth_of_fits (by decide) hfit).trans (toInt_sshiftRight_eq v 1)
        apply BitVec.eq_of_toInt_eq
        exact Int.eq_of_mul_eq_mul_right (by decide) (heq.trans (congrArg (· * 2) hkeep.symm))
      have hat : ((rewritten .prel31 place v).extractLsb' 0 31).getLsbD 30 =
          ((v.sshiftRight 1).setWidth 31).getLsbD 30 :=
        congrArg (getLsbD · 30) (hrep.field.trans hxv)
      rw [getLsbD_extractLsb', Nat.zero_add, getLsbD_rewritten_prel31 (by decide),
        getLsbD_setWidth, htop] at hat
      cases hmsb : v.msb with
      | true => exact Or.inr rfl
      | false =>
        rw [hmsb] at hat
        exact Or.inl (by simpa using hat)
  · intro hold
    refine Or.inr ⟨(v.sshiftRight 1).setWidth 31, ?_, ?_, ?_⟩
    · exact (fits_of_not_overflow (t := .prel31) (by decide) rfl).reads (by decide)
    · show (rewritten .prel31 place v).extractLsb' 0 31 = (v.sshiftRight 1).setWidth 31
      apply eq_of_getLsbD_eq
      intro i hi
      rw [getLsbD_extractLsb', getLsbD_setWidth, Nat.zero_add,
        getLsbD_rewritten_prel31 (Nat.lt_succ_of_lt hi)]
      by_cases hlow : i < 30
      · simp [Nat.not_le.mpr hlow]
      · obtain rfl : i = 30 := by
          have hlt : i < 31 := hi
          omega
        rw [htop]
        rcases hold with hclear | hset
        · rw [hclear]
          rfl
        · rw [hset]
          exact Bool.or_true _
    · intro i hi hout
      obtain rfl : i = 31 := by
        by_contra hne
        exact hout ⟨Nat.zero_le i, by
          show i < 0 + 31
          omega⟩
      rw [getLsbD_rewritten_prel31 (by decide)]
      simp

theorem rewritten_abs16 : rewritten .abs16 place v =
    insert place ((v.setWidth 16).setWidth 32) 16 0 := by
  rw [← ofHalves_eq_insert, ← and_lowMask v (by decide)]
  rfl

theorem rewritten_abs8 : rewritten .abs8 place v =
    insert place ((v.setWidth 8).setWidth 32) 8 0 := by
  rw [← abs8_eq_insert, ← and_lowMask v (by decide)]
  rfl

theorem written_wrong_end {n pos : Nat} (hn : n < 32) (hpos : n ≤ pos) (hin : pos + n = 32)
    (hreads : (relOverflow t v).1 = false → Reads ⟨.either, n, pos, 0⟩ (v.setWidth n) v)
    (hfield : fieldOf t true = ⟨.either, n, pos, 0⟩)
    (hwrite : rewritten t place v = insert place ((v.setWidth n).setWidth 32) n 0) :
    Written t place v true ↔ (relOverflow t v).1 = true ∨
      (place.extractLsb' pos n = v.setWidth n ∧ place.extractLsb' 0 n = v.setWidth n) := by
  rw [Written, hfield, hwrite]
  constructor
  · rintro (hover | ⟨x, hx, hrep⟩)
    · exact Or.inl hover
    · obtain rfl : x = v.setWidth n := hx.eq_setWidth hn
      obtain ⟨hhigh, hlow⟩ := (replaced_wrong_end hn hpos hin rfl).mp hrep
      exact Or.inr ⟨hhigh, (frame_iff hn hpos hin).mp hlow⟩
  · rintro (hover | ⟨hhigh, hlow⟩)
    · exact Or.inl hover
    · by_cases hover : (relOverflow t v).1 = true
      · exact Or.inl hover
      · exact Or.inr ⟨v.setWidth n, hreads (Bool.eq_false_of_not_eq_true hover),
          (replaced_wrong_end hn hpos hin rfl).mpr ⟨hhigh, (frame_iff hn hpos hin).mpr hlow⟩⟩

theorem fieldOf_inside (ht : t ≠ .other) (ht' : t ≠ .abs32) (bigEndian : Bool) :
    (fieldOf t bigEndian).width < 32 ∧
      (fieldOf t bigEndian).pos + (fieldOf t bigEndian).width ≤ 32 := by
  cases t with
  | other => exact absurd rfl ht
  | abs32 => exact absurd rfl ht'
  | abs16 | abs8 => cases bigEndian <;> exact ⟨by decide, by decide⟩
  | _ => exact ⟨by simp [fieldOf], by simp [fieldOf]⟩

theorem packed_either {n pos : Nat} : packed ⟨.either, n, pos, 0⟩ v = v.setWidth n :=
  congrArg (BitVec.setWidth n) (sshiftRight_zero (x := v))

theorem outside_iff {lo hi : Word} :
    outside lo hi v = true ↔ ¬ (lo.toInt ≤ v.toInt ∧ v.toInt < hi.toInt) := by
  rw [← outside_eq_false_iff, Bool.not_eq_false]

/-- Data of 8 and 16 bits: right in the order of the host, else only if they were there. -/
theorem written_data {n : Nat} (pos : Nat) (hn : n < 32) (hpos : n ≤ pos) (hin : pos + n = 32)
    (ht : t ≠ .other)
    (hfield : ∀ bigEndian, fieldOf t bigEndian = ⟨.either, n, if bigEndian then pos else 0, 0⟩)
    (hwrite : ∀ place, rewritten t place v = insert place ((v.setWidth n).setWidth 32) n 0)
    (bigEndian : Bool) :
    Written t place v bigEndian ↔ bigEndian = false ∨ (relOverflow t v).1 = true ∨
      (place.extractLsb' pos n = v.setWidth n ∧ place.extractLsb' 0 n = v.setWidth n) := by
  have hreads : (relOverflow t v).1 = false →
      Reads ⟨.either, n, if bigEndian then pos else 0, 0⟩ (v.setWidth n) v := by
    intro hnot
    have hfit : Fits (fieldOf t bigEndian) v := fits_of_not_overflow ht hnot
    have hfits := hfit.reads ht
    rw [hfield] at hfits
    rwa [packed_either] at hfits
  cases bigEndian with
  | true =>
    rw [written_wrong_end hn hpos hin hreads (hfield true) (hwrite place)]
    simp
  | false =>
    refine iff_of_true ?_ (Or.inl rfl)
    apply written_of_insert ht
    · rw [hfield]
      exact hn
    · rw [hfield]
      show 0 + n ≤ 32
      omega
    · rw [hfield, hwrite, packed_either]
      rfl

theorem written_iff (ht : t ≠ .other) {bigEndian : Bool} :
    Written t (inOrder bigEndian place) v bigEndian ↔ Encodable t place v bigEndian := by
  have hinsert (ht' : t ≠ .abs32)
      (hwrite : (writeRelocR (inOrder bigEndian place) t
          ((packed (fieldOf t bigEndian) v).setWidth 32)).1 =
        insert (inOrder bigEndian place) ((packed (fieldOf t bigEndian) v).setWidth 32)
          (fieldOf t bigEndian).width (fieldOf t bigEndian).pos) :
      Written t (inOrder bigEndian place) v bigEndian := by
    obtain ⟨hwidth, hin⟩ := fieldOf_inside ht ht' bigEndian
    apply written_of_insert ht hwidth hin
    rw [rewritten, masked_eq ht ht' bigEndian v]
    exact hwrite
  cases t with
  | other => exact absurd rfl ht
  | abs32 => exact iff_of_true (written_abs32 bigEndian) trivial
  | prel31 => exact written_prel31 bigEndian
  | abs16 =>
    refine (written_data 16 (by decide) (by decide) rfl ht (fun _ => rfl)
      (fun _ => rewritten_abs16) bigEndian).trans ?_
    exact or_congr_right (or_congr_left outside_iff)
  | abs8 =>
    refine (written_data 24 (by decide) (by decide) rfl ht (fun _ => rfl)
      (fun _ => rewritten_abs8) bigEndian).trans ?_
    exact or_congr_right (or_congr_left outside_iff)
  | pcrS21 | pcrS12 | pcrS10 | pcrS7 | absS16 | absL16 | absH16 | sbrU15B | sbrU15H | sbrU15W
  | sbrS16 | sbrL16B | sbrL16H | sbrL16W | sbrH16B | sbrH16H | sbrH16W | dsbtIndex =>
    exact iff_of_true (hinsert (by decide) rfl) trivial

end Written

/-! ## The relocation -/

/-- `reloc_do` does what it should exactly for these places and values. -/
theorem encoded_iff {t : RelocType} (ht : t ≠ .other)
    (place segmentAddress addend symval spc : Word) (wrongEndian : Bool)
    (basePointer dsbtIndex : Word) :
    Encoded t place segmentAddress addend symval spc wrongEndian basePointer dsbtIndex ↔
      Encodable t place
        (relocValue t segmentAddress addend symval spc basePointer dsbtIndex).1 wrongEndian := by
  rw [← written_iff ht]
  constructor
  · intro h
    have hwritten := h.written
    rw [relocDo_reported ht, relocDo_inOrder] at hwritten
    exact hwritten
  · intro h
    constructor
    · rw [relocDo_reported ht, relocDo_inOrder]
      exact h
    · intro hdvd
      rw [relocDo_reported ht]
      exact overflow_iff ht hdvd

/-- A branch forward. -/
theorem pcrS21_encoded :
    Encoded .pcrS21 0x00000010#32 0x80000000#32 0x20#32 0x80001000#32 0x40#32 false 0#32 0#32 :=
  (encoded_iff (by decide) _ _ _ _ _ _ _ _).mpr trivial

/-- An entry whose field held a negative offset is not made positive. -/
theorem prel31_not_encoded :
    ¬ Encoded .prel31 0x40000000#32 0x80000000#32 0#32 0x80000040#32 0#32 false 0#32 0#32 := by
  rintro ⟨hwritten, -⟩
  rcases hwritten with hover | ⟨x, hx, hrep⟩
  · exact absurd hover (by decide)
  · have hfield : x = 0x40000020#31 := hrep.field.symm.trans rfl
    subst hfield
    exact absurd (show (0x40000020#31).toInt * 2 = 64 / 2 * 2 from hx) (by decide)

end Omap4Hal.Elfload.C60

import Mathlib.Tactic.IntervalCases
import Omap4Hal.Lib.WordBits

/- The branch relocations of the ELF loader (`arm_reloc.c`): what `reloc_do` writes into an
   instruction and what `rel_unpack_addend` reads from it. The field is the four bytes at the
   relocated address as a word (little endian, as the loader runs); the Thumb relocations see it
   as two halves. Values of C's `int32_t` and `uint32_t` are words.

   Every encoding has a lemma that says where each bit of the field comes from when it is
   written, and one that says where each bit of the displacement comes from when it is read. -/
namespace Omap4Hal.Elfload

open Lib
open BitVec (getLsbD_and getLsbD_not getLsbD_or getLsbD_setWidth getLsbD_shiftLeft
  getLsbD_ushiftRight getLsbD_xor reduceGetLsb reduceHShiftLeft reduceSub)

/-! ## The relocations -/

/-- The branch types of `ARM_RELOC_TYPE`. -/
inductive BranchType where
  | pc24
  | call
  | plt32
  | jump24
  | thmCall
  | thmJump24
  | thmJump19
  | thmJump11
  | thmJump8
  | thmJump6
  deriving DecidableEq, Repr

/-- What `DLIF_error` is called with. -/
inductive RelocError where
  /-- "relocation overflow!" -/
  | relocationOverflow
  /-- "mask_result invalid relocation type!" -/
  | maskResultInvalidType
  deriving DecidableEq, Repr

abbrev Word := BitVec 32
abbrev Half := BitVec 16

def extract (field : Word) (lsbOffset fieldSize : Nat) : Word :=
  (field >>> lsbOffset) &&& ((1#32 <<< fieldSize) - 1#32)

def opndS (symval : Word) : Word := symval &&& ~~~1#32

def opndT (symval : Word) : Word := symval &&& 1#32

def isBLX (field : Word) : Bool := (extract field 24 8 &&& ~~~1#32) == 0xFA#32

/-- The half at the address. -/
def first (field : Word) : Half := field.setWidth 16

/-- The half after it. -/
def second (field : Word) : Half := (field >>> 16).setWidth 16

def ofHalves (h₁ h₂ : Half) : Word := h₂.setWidth 32 <<< 16 ||| h₁.setWidth 32

/-! ## Writing -/

/-- The value of the relocation, from `reloc_do`. -/
def relocValue (t : BranchType) (addend symval pc : Word) : Word :=
  match t with
  | .thmJump6 | .thmJump11 | .thmJump8 => opndS symval + addend - pc
  | .pc24 | .thmCall | .plt32 | .call | .jump24 | .thmJump24 | .thmJump19 =>
    ((opndS symval + addend) ||| opndT symval) - pc

def packResult (unpacked : Word) : BranchType → Word
  | .pc24 | .call | .plt32 | .thmCall | .thmJump24 | .thmJump11 | .thmJump8 | .thmJump6
  | .thmJump19 => unpacked.sshiftRight 1
  | .jump24 => unpacked.sshiftRight 2

/-- `PLT32` is not among the cases of `mask_result`. -/
def maskResult (unmasked : Word) : BranchType → Word × List RelocError
  | .thmJump8 => (unmasked &&& 0xFF#32, [])
  | .call | .pc24 | .thmCall | .thmJump24 => (unmasked &&& 0x01FFFFFF#32, [])
  | .jump24 => (unmasked &&& 0x00FFFFFF#32, [])
  | .thmJump11 => (unmasked &&& 0x7FF#32, [])
  | .thmJump6 => (unmasked &&& 0x3F#32, [])
  | .thmJump19 => (unmasked &&& 0xFFFFF#32, [])
  | .plt32 => (0#32, [.maskResultInvalidType])

/-- The bits from the sign on are neither all 0 nor all 1. -/
def signDiffers (k : Nat) (v : Word) : Bool := v.sshiftRight k != 0#32 && v.sshiftRight k != -1#32

def relOverflow (t : BranchType) (v : Word) : Bool :=
  match t with
  | .jump24 | .call | .pc24 => signDiffers 25 v
  | .thmCall | .thmJump24 => signDiffers 24 v
  | .thmJump19 => signDiffers 20 v
  | .plt32 | .thmJump11 | .thmJump8 | .thmJump6 => false

/-- ARM BL and BLX: `relocVal` is 25 bits, the lowest of which is the H bit of a BLX. -/
def writeArmCall (field relocVal symval : Word) : Word :=
  let field := if opndT symval ≠ 0#32 then field ||| 0xF0000000#32 else field
  let field := field &&& ~~~0xFFFFFF#32
  let field :=
    if isBLX field then field &&& ~~~0x01000000#32 ||| (relocVal &&& 1#32) <<< 24 else field
  field ||| relocVal.sshiftRight 1

def writeArmJump (field relocVal : Word) : Word := field &&& ~~~0xFFFFFF#32 ||| relocVal

/-- The halves of a Thumb B.W, BL or BLX, with `relocVal` as S:I1:I2:imm10:imm11. -/
def writeThumb24 (field relocVal : Word) : Word :=
  let sval := (relocVal >>> 23).setWidth 16 &&& 1#16
  let j1 := ((relocVal >>> 22).setWidth 16 ^^^ (sval ^^^ 1#16)) &&& 1#16
  let j2 := ((relocVal >>> 21).setWidth 16 ^^^ (sval ^^^ 1#16)) &&& 1#16
  let imm10 := (relocVal >>> 11).setWidth 16 &&& 0x3FF#16
  let imm11 := relocVal.setWidth 16 &&& 0x7FF#16
  ofHalves (first field &&& 0xF800#16 ||| sval <<< 10 ||| imm10)
    (second field &&& 0xD000#16 ||| j1 <<< 13 ||| j2 <<< 11 ||| imm11)

/-- A call to a function in ARM state becomes a BLX, whose displacement is even. -/
def convertThumbCall (field relocVal : Word) : Word × Word :=
  (ofHalves (first field) (second field &&& 0xEFFF#16),
    if relocVal &&& 1#32 ≠ 0#32 then relocVal + 1#32 else relocVal)

/-- Thumb B<c>.W: the mask for the second half leaves bit 11. -/
def writeThumb19 (field relocVal : Word) : Word :=
  let s := (relocVal >>> 19).setWidth 16 &&& 1#16
  let j2 := (relocVal >>> 18).setWidth 16 &&& 1#16
  let j1 := (relocVal >>> 17).setWidth 16 &&& 1#16
  let imm6 := (relocVal >>> 11).setWidth 16 &&& 0x3F#16
  let imm11 := relocVal.setWidth 16 &&& 0x7FF#16
  ofHalves (first field &&& 0xFBC0#16 ||| s <<< 10 ||| imm6)
    (second field &&& 0xD800#16 ||| j2 <<< 13 ||| j1 <<< 11 ||| imm11)

/-- Thumb B and B<c>: a field at the bottom of the half. -/
def writeThumbLow (mask : Half) (field relocVal : Word) : Word :=
  ofHalves (first field &&& ~~~mask ||| relocVal.setWidth 16) (second field)

/-- Thumb CBZ and CBNZ -/
def writeThumb6 (field relocVal : Word) : Word :=
  let ival := (relocVal >>> 5).setWidth 16 &&& 1#16
  let imm5 := relocVal.setWidth 16 &&& 0x1F#16
  ofHalves (first field &&& 0xFD07#16 ||| ival <<< 9 ||| imm5 <<< 3) (second field)

def writeRelocR (field : Word) (t : BranchType) (relocVal symval : Word) : Word :=
  match t with
  | .pc24 | .call | .plt32 => writeArmCall field relocVal symval
  | .jump24 => writeArmJump field relocVal
  | .thmCall =>
    if opndT symval = 0#32 then
      writeThumb24 (convertThumbCall field relocVal).1 (convertThumbCall field relocVal).2
    else writeThumb24 field relocVal
  | .thmJump24 => writeThumb24 field relocVal
  | .thmJump19 => writeThumb19 field relocVal
  | .thmJump11 => writeThumbLow 0x7FF#16 field relocVal
  | .thmJump8 => writeThumbLow 0xFF#16 field relocVal
  | .thmJump6 => writeThumb6 field relocVal

/-- The field after `reloc_do`, and the errors it has reported. -/
def relocDo (t : BranchType) (field addend symval pc : Word) : Word × List RelocError :=
  let value := relocValue t addend symval pc
  let overflow := if relOverflow t value then [.relocationOverflow] else []
  let masked := maskResult (packResult value t) t
  (writeRelocR field t masked.1 symval, overflow ++ masked.2)

/-! ## Reading -/

def offsetArm (field : Word) : Word :=
  let hval := if isBLX field then extract field 24 1 else 0#32
  ((extract field 0 24 <<< 1) + hval) <<< 1

def offsetThumb24 (field : Word) : Word :=
  let h₁ := (first field).setWidth 32
  let h₂ := (second field).setWidth 32
  let sval := extract h₁ 10 1
  let imm10 := extract h₁ 0 10
  let i1 := extract h₂ 13 1 ^^^ sval ^^^ 1#32
  let i2 := extract h₂ 11 1 ^^^ sval ^^^ 1#32
  let imm11 := extract h₂ 0 11
  (sval <<< 23 ||| i1 <<< 22 ||| i2 <<< 21 ||| imm10 <<< 11 ||| imm11) <<< 1

def offsetThumb19 (field : Word) : Word :=
  let h₁ := (first field).setWidth 32
  let h₂ := (second field).setWidth 32
  let sval := extract h₁ 10 1
  let imm6 := extract h₁ 0 6
  let j1 := extract h₂ 13 1
  let j2 := extract h₂ 11 1
  let imm11 := extract h₂ 0 11
  (sval <<< 19 ||| j2 <<< 18 ||| j1 <<< 17 ||| imm6 <<< 11 ||| imm11) <<< 1

/-- A field of `n` bits at the bottom of the half. -/
def offsetThumbLow (n : Nat) (field : Word) : Word := extract ((first field).setWidth 32) 0 n <<< 1

def offsetThumb6 (field : Word) : Word :=
  let h := (first field).setWidth 32
  (extract h 9 1 <<< 5 ||| extract h 3 5) <<< 1

/-- The offset of the instruction, with its sign. CBZ and CBNZ have none; the values that are
left over stand for -4 and -2. -/
def relUnpackAddend (t : BranchType) (field : Word) : Word :=
  match t with
  | .call | .pc24 | .plt32 | .jump24 => extendSign 25 (offsetArm field)
  | .thmJump11 => extendSign 11 (offsetThumbLow 11 field)
  | .thmJump8 => extendSign 8 (offsetThumbLow 8 field)
  | .thmCall | .thmJump24 => extendSign 24 (offsetThumb24 field)
  | .thmJump19 => extendSign 20 (offsetThumb19 field)
  | .thmJump6 => ((offsetThumb6 field + 4#32) &&& 0x7F#32) - 4#32

/-! ## Bit by bit -/

section Bits

variable (field r v : Word) {i : Nat} (hi : i < 32)
include hi

theorem getLsbD_extract {lsb n : Nat} (hn : n < 32) :
    (extract field lsb n).getLsbD i = (decide (i < n) && field.getLsbD (lsb + i)) := by
  rw [extract, getLsbD_and, getLsbD_lowMask hn hi, getLsbD_ushiftRight,
    Bool.and_comm]

theorem getLsbD_writeThumb24 : (writeThumb24 field r).getLsbD i =
    if i < 10 then r.getLsbD (i + 11)
    else if i = 10 then r.getLsbD 23
    else if i < 16 then field.getLsbD i
    else if i < 27 then r.getLsbD (i - 16)
    else if i = 27 then (r.getLsbD 21 ^^ !r.getLsbD 23)
    else if i = 29 then (r.getLsbD 22 ^^ !r.getLsbD 23)
    else field.getLsbD i := by
  simp only [writeThumb24, ofHalves, first, second, getLsbD_or, getLsbD_and,
    getLsbD_xor, getLsbD_shiftLeft, getLsbD_ushiftRight,
    getLsbD_setWidth]
  interval_cases i <;> simp only [Nat.reduceLT, Nat.reduceEqDiff, Nat.reduceSub, Nat.reduceAdd,
    reduceGetLsb, decide_true, decide_false, if_true, if_false, Bool.and_true, Bool.true_and,
    Bool.and_false, Bool.false_and, Bool.or_false, Bool.false_or, Bool.not_true, Bool.not_false,
    Bool.xor_false, Bool.xor_true, Bool.xor_not, Bool.and_self, reduceCtorEq, Nat.zero_add,
    Nat.add_zero]

theorem getLsbD_offsetThumb24 : (offsetThumb24 field).getLsbD i =
    if i = 0 then false
    else if i < 12 then field.getLsbD (i + 15)
    else if i < 22 then field.getLsbD (i - 12)
    else if i = 22 then !(field.getLsbD 27 ^^ field.getLsbD 10)
    else if i = 23 then !(field.getLsbD 29 ^^ field.getLsbD 10)
    else if i = 24 then field.getLsbD 10
    else false := by
  simp only [offsetThumb24, extract, first, second, getLsbD_or, getLsbD_and,
    getLsbD_xor, getLsbD_shiftLeft, getLsbD_ushiftRight,
    getLsbD_setWidth]
  interval_cases i <;> simp only [Nat.reduceLT, Nat.reduceEqDiff, Nat.reduceSub, Nat.reduceAdd,
    reduceHShiftLeft, reduceSub, reduceGetLsb, decide_true, decide_false,
    if_true, if_false, Bool.and_true, Bool.true_and, Bool.and_false, Bool.false_and, Bool.or_false,
    Bool.false_or, Bool.not_true, Bool.not_false, Bool.xor_false, Bool.xor_true, Bool.and_self,
    reduceCtorEq, Nat.zero_add, Nat.add_zero]

theorem getLsbD_writeThumb19 : (writeThumb19 field r).getLsbD i =
    if i < 6 then r.getLsbD (i + 11)
    else if i = 10 then r.getLsbD 19
    else if i < 16 then field.getLsbD i
    else if i < 27 then r.getLsbD (i - 16)
    else if i = 27 then (field.getLsbD 27 || r.getLsbD 17)
    else if i = 29 then r.getLsbD 18
    else field.getLsbD i := by
  simp only [writeThumb19, ofHalves, first, second, getLsbD_or, getLsbD_and,
    getLsbD_shiftLeft, getLsbD_ushiftRight, getLsbD_setWidth]
  interval_cases i <;> simp only [Nat.reduceLT, Nat.reduceEqDiff, Nat.reduceSub, Nat.reduceAdd,
    reduceGetLsb, decide_true, decide_false, if_true, if_false, Bool.and_true, Bool.true_and,
    Bool.and_false, Bool.false_and, Bool.or_false, Bool.false_or, Bool.not_true, Bool.not_false,
    Bool.and_self, reduceCtorEq, Nat.zero_add, Nat.add_zero]

theorem getLsbD_offsetThumb19 : (offsetThumb19 field).getLsbD i =
    if i = 0 then false
    else if i < 12 then field.getLsbD (i + 15)
    else if i < 18 then field.getLsbD (i - 12)
    else if i = 18 then field.getLsbD 29
    else if i = 19 then field.getLsbD 27
    else if i = 20 then field.getLsbD 10
    else false := by
  simp only [offsetThumb19, extract, first, second, getLsbD_or, getLsbD_and,
    getLsbD_shiftLeft, getLsbD_ushiftRight, getLsbD_setWidth]
  interval_cases i <;> simp only [Nat.reduceLT, Nat.reduceEqDiff, Nat.reduceSub, Nat.reduceAdd,
    reduceHShiftLeft, reduceSub, reduceGetLsb, decide_true, decide_false,
    if_true, if_false, Bool.and_true, Bool.true_and, Bool.and_false, Bool.false_and, Bool.or_false,
    Bool.false_or, Bool.not_true, Bool.not_false, Bool.and_self, reduceCtorEq, Nat.zero_add,
    Nat.add_zero]

theorem getLsbD_writeThumb6 : (writeThumb6 field r).getLsbD i =
    if i < 3 then field.getLsbD i
    else if i < 8 then r.getLsbD (i - 3)
    else if i = 9 then r.getLsbD 5
    else field.getLsbD i := by
  simp only [writeThumb6, ofHalves, first, second, getLsbD_or, getLsbD_and,
    getLsbD_shiftLeft, getLsbD_ushiftRight, getLsbD_setWidth]
  interval_cases i <;> simp only [Nat.reduceLT, Nat.reduceEqDiff, Nat.reduceSub, Nat.reduceAdd,
    reduceGetLsb, decide_true, decide_false, if_true, if_false, Bool.and_true, Bool.true_and,
    Bool.and_false, Bool.false_and, Bool.or_false, Bool.false_or, Bool.not_true, Bool.not_false,
    Bool.and_self, reduceCtorEq, Nat.add_zero]

theorem getLsbD_offsetThumb6 : (offsetThumb6 field).getLsbD i =
    if i = 0 then false
    else if i < 6 then field.getLsbD (i + 2)
    else if i = 6 then field.getLsbD 9
    else false := by
  simp only [offsetThumb6, extract, first, getLsbD_or, getLsbD_and,
    getLsbD_shiftLeft, getLsbD_ushiftRight, getLsbD_setWidth]
  interval_cases i <;> simp only [Nat.reduceLT, Nat.reduceEqDiff, Nat.reduceSub, Nat.reduceAdd,
    reduceHShiftLeft, reduceSub, reduceGetLsb, decide_true, decide_false,
    if_true, if_false, Bool.and_true, Bool.true_and, Bool.and_false, Bool.false_and, Bool.or_false,
    Bool.false_or, Bool.not_true, Bool.not_false, Bool.and_self, reduceCtorEq, Nat.zero_add,
    Nat.add_zero]

theorem getLsbD_writeThumbLow {n : Nat} (hn : n ≤ 16) {mask : Half}
    (hmask : ∀ j, j < 16 → mask.getLsbD j = decide (j < n))
    (hr : ∀ j, n ≤ j → r.getLsbD j = false) :
    (writeThumbLow mask field r).getLsbD i = if i < n then r.getLsbD i else field.getLsbD i := by
  simp only [writeThumbLow, ofHalves, first, second, getLsbD_or, getLsbD_and,
    getLsbD_not, getLsbD_shiftLeft, getLsbD_ushiftRight,
    getLsbD_setWidth]
  by_cases hlow : i < 16
  · rw [hmask i hlow]
    by_cases hin : i < n
    · simp [hi, hlow, hin]
    · rw [hr i (Nat.le_of_not_lt hin)]
      simp [hi, hlow, hin]
  · have hin : ¬ i < n := by omega
    have hsub : 16 + (i - 16) = i := by omega
    simp [hi, hlow, hin, hsub, show i - 16 < 16 by omega, show i - 16 < 32 by omega]

theorem getLsbD_offsetThumbLow {n : Nat} (hn : n ≤ 16) :
    (offsetThumbLow n field).getLsbD i = (decide (i ≠ 0 ∧ i ≤ n) && field.getLsbD (i - 1)) := by
  rw [offsetThumbLow, getLsbD_shiftLeft, getLsbD_extract _ (by omega) (by omega), first,
    getLsbD_setWidth, getLsbD_setWidth]
  by_cases h0 : i = 0
  · simp [h0]
  · by_cases hin : i ≤ n
    · simp [hi, h0, hin, show i - 1 < n by omega, show i - 1 < 32 by omega,
        show i - 1 < 16 by omega]
    · simp [h0, hin, show ¬ i - 1 < n by omega]

theorem getLsbD_offsetArm : (offsetArm field).getLsbD i =
    if i = 0 then false
    else if i = 1 then isBLX field && field.getLsbD 24
    else decide (i ≤ 25) && field.getLsbD (i - 2) := by
  have hbit : ∀ j, j < 32 → (if isBLX field then extract field 24 1 else 0#32).getLsbD j =
      (isBLX field && decide (j = 0) && field.getLsbD 24) := by
    intro j hj
    by_cases hblx : isBLX field
    · rw [if_pos hblx, getLsbD_extract field hj (by decide)]
      by_cases h0 : j = 0 <;> simp [hblx, h0]
    · simp [hblx]
  have hlow : ∀ j, j < 32 → (extract field 0 24 <<< 1).getLsbD j =
      (decide (j ≠ 0 ∧ j ≤ 24) && field.getLsbD (j - 1)) := by
    intro j hj
    rw [getLsbD_shiftLeft, getLsbD_extract field (by omega) (by decide)]
    by_cases h0 : j = 0
    · simp [h0]
    · by_cases h24 : j ≤ 24
      · simp [h0, h24, hj, show j - 1 < 24 by omega]
      · simp [h0, h24, show ¬ j - 1 < 24 by omega]
  have hdisjoint : (extract field 0 24 <<< 1) &&&
      (if isBLX field then extract field 24 1 else 0#32) = 0#32 := by
    apply BitVec.eq_of_getLsbD_eq
    intro j hj
    rw [getLsbD_and, hlow j hj, hbit j hj]
    by_cases h0 : j = 0 <;> simp [h0]
  rw [offsetArm, BitVec.add_eq_or_of_and_eq_zero _ _ hdisjoint, getLsbD_shiftLeft]
  by_cases h0 : i = 0
  · simp [h0]
  rw [getLsbD_or, hlow (i - 1) (by omega), hbit (i - 1) (by omega)]
  by_cases h1 : i = 1
  · simp [h1]
  · have hne : i - 1 ≠ 0 := by omega
    have hsub : i - 1 - 1 = i - 2 := by omega
    have hle : i - 1 ≤ 24 ↔ i ≤ 25 := by omega
    simp [h0, h1, hi, hne, hsub, hle]

theorem getLsbD_writeArmJump (hr : ∀ j, 24 ≤ j → r.getLsbD j = false) :
    (writeArmJump field r).getLsbD i = if i < 24 then r.getLsbD i else field.getLsbD i := by
  rw [writeArmJump, getLsbD_or, getLsbD_and, getLsbD_not]
  have hmask : (0xFFFFFF#32).getLsbD i = decide (i < 24) := getLsbD_lowMask (n := 24) (by decide) hi
  rw [hmask]
  by_cases hlow : i < 24
  · simp [hlow]
  · rw [hr i (Nat.le_of_not_lt hlow)]
    simp [hlow, hi]

end Bits

theorem isBLX_congr {a b : Word} (h : ∀ i, 25 ≤ i → i < 32 → a.getLsbD i = b.getLsbD i) :
    isBLX a = isBLX b := by
  have hsame : extract a 24 8 &&& ~~~1#32 = extract b 24 8 &&& ~~~1#32 := by
    apply BitVec.eq_of_getLsbD_eq
    intro i hi
    rw [getLsbD_and, getLsbD_and, getLsbD_extract a hi (by decide),
      getLsbD_extract b hi (by decide)]
    by_cases h0 : i = 0
    · simp [h0]
    · by_cases h8 : i < 8
      · rw [h (24 + i) (by omega) (by omega)]
      · simp [h8]
  rw [isBLX, isBLX, hsame]

theorem getLsbD_clearImm24 (field : Word) {i : Nat} (hi : i < 32) :
    (field &&& ~~~0xFFFFFF#32).getLsbD i = (decide (24 ≤ i) && field.getLsbD i) := by
  have hmask : (0xFFFFFF#32).getLsbD i = decide (i < 24) := getLsbD_lowMask (n := 24) (by decide) hi
  rw [getLsbD_and, getLsbD_not, hmask]
  by_cases hlow : i < 24
  · simp [hlow]
  · simp [hlow, hi, Nat.le_of_not_lt hlow]

theorem getLsbD_writeArmCall (field : Word) {r symval : Word} (hsym : opndT symval = 0#32)
    (hr : ∀ j, 25 ≤ j → r.getLsbD j = false) {i : Nat} (hi : i < 32) :
    (writeArmCall field r symval).getLsbD i =
      if i < 24 then r.getLsbD (i + 1)
      else if i = 24 then (if isBLX field then r.getLsbD 0 else field.getLsbD 24)
      else field.getLsbD i := by
  have hblx : isBLX (field &&& ~~~0xFFFFFF#32) = isBLX field := by
    apply isBLX_congr
    intro j hj hj'
    rw [getLsbD_clearImm24 field hj']
    simp [show 24 ≤ j by omega]
  have hshift : (r.sshiftRight 1).getLsbD i = (decide (i < 24) && r.getLsbD (i + 1)) := by
    have hmsb : r.msb = false := by
      rw [BitVec.msb_eq_getLsbD_last]
      exact hr _ (by decide)
    rw [BitVec.sshiftRight_eq_of_msb_false hmsb, getLsbD_ushiftRight, Nat.add_comm 1 i]
    by_cases hlow : i < 24
    · simp [hlow]
    · rw [hr (i + 1) (by omega)]
      simp
  have hbit : (0x01000000#32).getLsbD i = decide (i = 24) := by
    have hpow : 0x01000000#32 = BitVec.twoPow 32 24 := rfl
    rw [hpow, BitVec.getLsbD_twoPow]
    simp [eq_comm]
  rw [writeArmCall, if_neg (c := opndT symval ≠ 0#32) (by simp [hsym]), hblx, getLsbD_or,
    hshift]
  by_cases h : isBLX field
  · have hval : ((r &&& 1#32) <<< 24).getLsbD i = (decide (i = 24) && r.getLsbD 0) := by
      rw [getLsbD_shiftLeft, getLsbD_and, BitVec.getLsbD_one]
      by_cases h24 : i = 24
      · simp [h24]
      · by_cases hlow : i < 24
        · simp [h24, hlow]
        · simp [h24, show i - 24 ≠ 0 by omega]
    rw [if_pos h, getLsbD_or, getLsbD_and, getLsbD_clearImm24 field hi,
      getLsbD_not, hbit, hval]
    by_cases hlow : i < 24
    · simp [hlow, show i ≠ 24 by omega]
    · by_cases h24 : i = 24
      · simp [h24, h]
      · simp [hlow, h24, hi, Nat.le_of_not_lt hlow]
  · rw [if_neg h, getLsbD_clearImm24 field hi]
    by_cases hlow : i < 24
    · simp [hlow]
    · by_cases h24 : i = 24
      · simp [h24, h]
      · simp [hlow, h24, Nat.le_of_not_lt hlow]

theorem getLsbD_packed (v : Word) {s n : Nat} (hn : s + n ≤ 32) (hs : 0 < s) {mask : Word}
    (hmask : mask = 1#32 <<< n - 1#32) (j : Nat) :
    (v.sshiftRight s &&& mask).getLsbD j = (decide (j < n) && v.getLsbD (s + j)) := by
  by_cases hj : j < 32
  · rw [getLsbD_and, hmask, getLsbD_lowMask (by omega) hj, BitVec.getLsbD_sshiftRight]
    by_cases hjn : j < n
    · simp [hjn, hj, show s + j < 32 by omega]
    · simp [hjn]
  · rw [BitVec.getLsbD_of_ge _ _ (Nat.le_of_not_lt hj)]
    simp [show ¬ j < n by omega]

theorem getLsbD_packed_succ (v : Word) {n : Nat} (hn : 1 + n ≤ 32) {mask : Word}
    (hmask : mask = 1#32 <<< n - 1#32) {j k : Nat} (hj : j < n) (hk : k = j + 1) :
    (v.sshiftRight 1 &&& mask).getLsbD j = v.getLsbD k := by
  rw [getLsbD_packed v hn (by decide) hmask, hk, Nat.add_comm]
  simp [hj]

theorem signDiffers_iff (v : Word) {k : Nat} (hk : k < 32) :
    signDiffers k v = true ↔ ¬ FitsSigned k v := by
  rw [← sshiftRight_fits_iff hk]
  simp [signDiffers]

end Omap4Hal.Elfload

import Omap4Hal.Elfload.ArmReloc

/- The data relocations of the ELF loader and those of moves, loads and of the ADR.W
   (`arm_reloc.c`). The field is a word, as for the branches. -/
namespace Omap4Hal.Elfload.Data

open Lib

/-! ## The relocations -/

/-- The types of `ARM_RELOC_TYPE` for data, moves, loads and the ADR.W. -/
inductive DataType where
  | abs32
  | rel32
  | abs32Noi
  | rel32Noi
  | abs16
  | abs8
  | prel31
  | abs12
  | movwAbsNc
  | movtAbs
  | movwPrelNc
  | movtPrel
  | thmMovwAbsNc
  | thmMovtAbs
  | thmMovwPrelNc
  | thmMovtPrel
  | thmPc12
  | thmAbs5
  | thmPc8
  | thmAluPrel11_0
  deriving DecidableEq, Repr

/-! ## Writing -/

def relocValue (t : DataType) (addend symval pc : Word) : Word :=
  match t with
  | .abs16 | .abs12 | .thmAbs5 | .abs8 | .movtAbs | .thmMovtAbs | .abs32Noi =>
    opndS symval + addend
  | .abs32 | .movwAbsNc | .thmMovwAbsNc => (opndS symval + addend) ||| opndT symval
  | .movtPrel | .thmMovtPrel | .rel32Noi => opndS symval + addend - pc
  | .thmPc8 | .thmPc12 => opndS symval + addend - (pc &&& 0xFFFFFFFC#32)
  | .rel32 | .prel31 | .movwPrelNc | .thmMovwPrelNc | .thmAluPrel11_0 =>
    ((opndS symval + addend) ||| opndT symval) - pc

def packResult (unpacked : Word) : DataType → Word
  | .abs32 | .rel32 | .abs16 | .abs8 | .prel31 | .movwAbsNc | .movwPrelNc | .thmMovwAbsNc
  | .thmMovwPrelNc | .abs32Noi | .rel32Noi | .abs12 | .thmPc12 | .thmAluPrel11_0 => unpacked
  | .thmAbs5 | .thmPc8 => unpacked.sshiftRight 2
  | .movtAbs | .movtPrel | .thmMovtAbs | .thmMovtPrel => unpacked.sshiftRight 16

def maskResult (unmasked : Word) : DataType → Word
  | .abs8 | .thmPc8 => unmasked &&& 0xFF#32
  | .abs16 | .movwAbsNc | .movtAbs | .movwPrelNc | .movtPrel | .thmMovwAbsNc | .thmMovtAbs
  | .thmMovwPrelNc | .thmMovtPrel => unmasked &&& 0xFFFF#32
  | .abs32 | .rel32 | .abs32Noi | .rel32Noi | .abs12 | .thmPc12 | .thmAluPrel11_0 => unmasked
  | .prel31 => unmasked &&& 0x7FFFFFFF#32
  | .thmAbs5 => unmasked &&& 0x1F#32

/-- `abs` leaves the most negative value as it is. -/
def relOverflow (t : DataType) (v : Word) : Bool :=
  match t with
  | .abs12 | .thmPc12 => (0x1000#32).sle v.abs
  | .prel31 => signDiffers 30 v
  | .abs16 => (65535#32).slt v || v.slt (-32768#32)
  | .abs8 => (255#32).slt v || v.slt (-128#32)
  | .abs32 | .rel32 | .abs32Noi | .rel32Noi | .movwAbsNc | .movtAbs | .movwPrelNc | .movtPrel
  | .thmMovwAbsNc | .thmMovtAbs | .thmMovwPrelNc | .thmMovtPrel | .thmAbs5 | .thmPc8
  | .thmAluPrel11_0 => false

/-- The field is not cleared. -/
def writePrel31 (field relocVal : Word) : Word := field ||| relocVal

/-- 16 bits of data. -/
def writeAbs16 (field relocVal : Word) : Word := ofHalves (relocVal.setWidth 16) (second field)

/-- 8 bits of data. -/
def writeAbs8 (field relocVal : Word) : Word :=
  field &&& ~~~0xFF#32 ||| (relocVal.setWidth 8).setWidth 32

/-- ARM MOVW and MOVT. -/
def writeMov (field relocVal : Word) : Word :=
  let imm4 := (relocVal.sshiftRight 12).setWidth 8
  let imm12 := relocVal.setWidth 16 &&& 0xFFF#16
  field &&& 0xFFF0F000#32 ||| imm12.setWidth 32 ||| imm4.setWidth 32 <<< 16

/-- Thumb MOVW and MOVT. -/
def writeThumbMov (field relocVal : Word) : Word :=
  let imm4 := (relocVal.sshiftRight 12).setWidth 8
  let i := (relocVal.sshiftRight 11).setWidth 8 &&& 1#8
  let imm3 := (relocVal.sshiftRight 8).setWidth 8 &&& 7#8
  let imm8 := relocVal.setWidth 8
  ofHalves (first field &&& 0xFBF0#16 ||| i.setWidth 16 <<< 10 ||| imm4.setWidth 16)
    (second field &&& 0x8F00#16 ||| imm3.setWidth 16 <<< 12 ||| imm8.setWidth 16)

/-- An ARM LDR: the offset without its sign, and the sign in bit 23. -/
def writeAbs12 (field relocVal : Word) : Word :=
  let s : Word := if relocVal.sshiftRight 31 &&& 1#32 = 0#32 then 1#32 else 0#32
  field &&& 0xFF7FF000#32 ||| (relocVal.abs &&& 0xFFF#32) ||| s <<< 23

/-- A Thumb LDR: the offset is in the second half, the sign in bit 7 of the first. -/
def writeThumbPc12 (field relocVal : Word) : Word :=
  let u : Half := if relocVal.slt 0#32 then 0#16 else 1#16
  ofHalves (first field &&& 0xFF7F#16 ||| u <<< 7)
    (second field &&& 0xF000#16 ||| (relocVal.abs &&& 0xFFF#32).setWidth 16)

def writeThumbAbs5 (field relocVal : Word) : Word :=
  ofHalves (first field &&& 0xF83F#16 ||| (relocVal <<< 6).setWidth 16) (second field)

def writeThumbPc8 (field relocVal : Word) : Word :=
  ofHalves (first field &&& 0xFF00#16 ||| relocVal.setWidth 16) (second field)

/-- The loop of `rel_alu_mask_offset`, for the bits below `8 + k`. -/
def highestBit (residual : Word) : Nat → Nat
  | 0 => 7
  | k + 1 => if residual &&& 1#32 <<< (8 + k) ≠ 0#32 then 8 + k else highestBit residual k

def relAluMaskOffset (residual : Word) (bitAlign : Nat) : Nat :=
  let maskOffset := highestBit residual 24 - 7
  let bitAlign := if bitAlign = 0 then 1 else bitAlign
  if maskOffset &&& bitAlign ≠ 0 then maskOffset + (bitAlign - maskOffset % bitAlign)
  else maskOffset

/-- The modified immediate for a value without sign, and whether eight bits do not hold it. -/
def aluImm12 (relocVal : Word) : Half × Bool :=
  let bits_7_0 : BitVec 8 := relocVal.setWidth 8
  let bits_15_8 : BitVec 8 := (relocVal >>> 8).setWidth 8
  let bits_23_16 : BitVec 8 := (relocVal >>> 16).setWidth 8
  let bits_31_24 : BitVec 8 := (relocVal >>> 24).setWidth 8
  if bits_23_16 = bits_7_0 ∧ bits_31_24 = 0#8 ∧ bits_15_8 = 0#8 then
    (1#16 <<< 8 ||| bits_7_0.setWidth 16, false)
  else if bits_31_24 = bits_15_8 ∧ bits_23_16 = 0#8 ∧ bits_7_0 = 0#8 then
    (2#16 <<< 8 ||| bits_7_0.setWidth 16, false)
  else if bits_31_24 = bits_23_16 ∧ bits_31_24 = bits_15_8 ∧ bits_31_24 = bits_7_0 then
    (3#16 <<< 8 ||| bits_7_0.setWidth 16, false)
  else if (0#32).sle relocVal ∧ relocVal.sle 255#32 then (relocVal.setWidth 16, false)
  else
    let maskOffset := relAluMaskOffset relocVal 1
    let rval : BitVec 8 := BitVec.ofNat 8 (32 - maskOffset)
    let sval : BitVec 8 := (relocVal.sshiftRight maskOffset).setWidth 8 &&& 0x7F#8
    (rval.setWidth 16 <<< 7 ||| sval.setWidth 16,
      (relocVal &&& ~~~(0xFF#32 <<< maskOffset)) != 0#32)

/-- Thumb ADR.W: an addition or a subtraction, with the immediate as i:imm3:imm8. Of its parts
only i is cleared. -/
def writeThumbAlu (field relocVal : Word) : Word :=
  let imm12 := (aluImm12 relocVal.abs).1
  let h₁ := first field &&& 0xFB5F#16
  let h₁ := if relocVal.slt 0#32 then h₁ ||| 0x00A0#16 else h₁
  let ival := imm12 >>> 11 &&& 1#16
  let imm3 := imm12 >>> 8 &&& 7#16
  let imm8 := imm12 &&& 0xFF#16
  ofHalves (h₁ ||| ival <<< 10) (second field ||| imm3 <<< 12 ||| imm8)

def writeRelocR (field : Word) (t : DataType) (relocVal : Word) : Word × List RelocError :=
  match t with
  | .abs32 | .rel32 | .rel32Noi | .abs32Noi => (relocVal, [])
  | .prel31 => (writePrel31 field relocVal, [])
  | .thmAbs5 => (writeThumbAbs5 field relocVal, [])
  | .thmPc8 => (writeThumbPc8 field relocVal, [])
  | .abs16 => (writeAbs16 field relocVal, [])
  | .abs8 => (writeAbs8 field relocVal, [])
  | .movwAbsNc | .movtAbs | .movwPrelNc | .movtPrel => (writeMov field relocVal, [])
  | .thmMovwAbsNc | .thmMovtAbs | .thmMovwPrelNc | .thmMovtPrel =>
    (writeThumbMov field relocVal, [])
  | .abs12 => (writeAbs12 field relocVal, [])
  | .thmPc12 => (writeThumbPc12 field relocVal, [])
  | .thmAluPrel11_0 => (writeThumbAlu field relocVal,
      if (aluImm12 relocVal.abs).2 then [.relocationOverflow] else [])

/-- The field after `reloc_do`, and the errors it has reported. -/
def relocDo (t : DataType) (field addend symval pc : Word) : Word × List RelocError :=
  let value := relocValue t addend symval pc
  let overflow := if relOverflow t value then [.relocationOverflow] else []
  let written := writeRelocR field t (maskResult (packResult value t) t)
  (written.1, overflow ++ written.2)

/-! ## Reading -/

/-- The two parts of a MOVW or MOVT. -/
def offsetMov (field : Word) : Word := extract field 16 4 <<< 12 ||| extract field 0 12

def offsetThumbMov (field : Word) : Word :=
  let h₁ := (first field).setWidth 32
  let h₂ := (second field).setWidth 32
  extract h₁ 0 4 <<< 12 ||| extract h₁ 10 1 <<< 11 ||| extract h₂ 12 3 <<< 8 ||| extract h₂ 0 8

def offsetAbs12 (field : Word) : Word :=
  if extract field 23 1 = 1#32 then extract field 0 12 else -extract field 0 12

def offsetThumbPc12 (field : Word) : Word :=
  let h₁ := (first field).setWidth 32
  let h₂ := (second field).setWidth 32
  if extract h₁ 7 1 = 1#32 then extract h₂ 0 12 else -extract h₂ 0 12

/-- What a modified immediate stands for. -/
def expandImm12 (imm12 : Half) : Word :=
  let bits_11_10 := imm12 >>> 10 &&& 3#16
  if bits_11_10 = 0#16 then
    let bits_9_8 := imm12 >>> 8 &&& 3#16
    let bits_7_0 := (imm12 &&& 0xFF#16).setWidth 32
    if bits_9_8 = 0#16 then bits_7_0
    else if bits_9_8 = 1#16 then bits_7_0 <<< 16 ||| bits_7_0
    else if bits_9_8 = 2#16 then bits_7_0 <<< 24 ||| bits_7_0 <<< 8
    else bits_7_0 <<< 24 ||| bits_7_0 <<< 16 ||| bits_7_0 <<< 8 ||| bits_7_0
  else
    let bits_6_0 := (imm12 &&& 0x7F#16).setWidth 32
    let bits_11_7 := (imm12 >>> 7 &&& 0x1F#16).toNat
    let byte := 0x80#32 ||| bits_6_0
    byte >>> bits_11_7 ||| byte <<< (32 - bits_11_7)

/-- i is looked for in the bits 12 to 14 of the first half. -/
def unpackImm12 (field : Word) : Half :=
  let h₁ := (first field).setWidth 32
  let h₂ := (second field).setWidth 32
  (extract h₁ 12 3 <<< 11 ||| extract h₂ 12 3 <<< 8 ||| extract h₂ 0 8).setWidth 16

def offsetThumbAlu (field : Word) : Word :=
  let h₁ := (first field).setWidth 32
  let addend := expandImm12 (unpackImm12 field)
  if extract h₁ 7 1 = 1#32 ∧ extract h₁ 5 1 = 1#32 then -addend else addend

/-- The addend in the field. The largest offset of a load from the SP stands for -4. -/
def relUnpackAddend (t : DataType) (field : Word) : Word :=
  match t with
  | .abs32 | .rel32 | .abs32Noi | .rel32Noi => field
  | .abs16 => extendSign 15 ((first field).setWidth 32)
  | .abs8 => extendSign 7 (field &&& 0xFF#32)
  | .abs12 => offsetAbs12 field
  | .thmPc12 => offsetThumbPc12 field
  | .movwAbsNc | .movtAbs | .movwPrelNc | .movtPrel => extendSign 15 (offsetMov field)
  | .thmMovwAbsNc | .thmMovtAbs | .thmMovwPrelNc | .thmMovtPrel =>
    extendSign 15 (offsetThumbMov field)
  | .thmAluPrel11_0 => offsetThumbAlu field
  | .thmAbs5 => extract ((first field).setWidth 32) 6 5 <<< 2
  | .thmPc8 => ((extract ((first field).setWidth 32) 0 8 <<< 2 + 4#32) &&& 0x3FF#32) - 4#32
  | .prel31 => extendSign 30 (extract field 0 31)

section Bits

variable (field r : Word) {i : Nat} (hi : i < 32)
include hi

end Bits

end Omap4Hal.Elfload.Data

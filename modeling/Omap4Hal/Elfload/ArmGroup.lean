import Omap4Hal.Elfload.ArmData

/- The group relocations of the ELF loader (`arm_reloc.c`). A value is put into several
   instructions, each of which takes eight bits of what the ones before it have left. -/
namespace Omap4Hal.Elfload.Group

open Lib
open Omap4Hal.Elfload.Data (relAluMaskOffset)

/-- The group relocations of `ARM_RELOC_TYPE`. -/
inductive GroupType where
  | aluPcG0Nc
  | aluPcG0
  | aluPcG1Nc
  | aluPcG1
  | aluPcG2
  | ldrPcG0
  | ldrPcG1
  | ldrPcG2
  | ldrsPcG0
  | ldrsPcG1
  | ldrsPcG2
  | ldcPcG0
  | ldcPcG1
  | ldcPcG2
  deriving DecidableEq, Repr

inductive GroupError where
  /-- "relocation overflow\n" -/
  | aluOverflow
  /-- "relocation overflow!\n" -/
  | relocationOverflow
  /-- "write_reloc_r called with invalid relocation type\n" -/
  | writeInvalidType
  deriving DecidableEq, Repr

def relConcludesGroup : GroupType → Bool
  | .aluPcG0Nc | .aluPcG1Nc => false
  | .aluPcG0 | .aluPcG1 | .aluPcG2 | .ldcPcG0 | .ldcPcG1 | .ldcPcG2 | .ldrPcG0 | .ldrPcG1
  | .ldrPcG2 | .ldrsPcG0 | .ldrsPcG1 | .ldrsPcG2 => true

def relGroupNum : GroupType → Nat
  | .aluPcG0 | .aluPcG0Nc | .ldcPcG0 | .ldrPcG0 | .ldrsPcG0 => 0
  | .aluPcG1 | .aluPcG1Nc | .ldcPcG1 | .ldrPcG1 | .ldrsPcG1 => 1
  | .aluPcG2 | .ldcPcG2 | .ldrPcG2 | .ldrsPcG2 => 2

/-- The loop of `rel_mask_for_group`: what the last group takes, and what is left. -/
def takeGroups (relocVal currResidual : Word) : Nat → Word × Word
  | 0 => (relocVal, currResidual)
  | n + 1 =>
    let cresMask := 0xFF#32 <<< relAluMaskOffset currResidual 2
    takeGroups (currResidual &&& cresMask) (currResidual &&& ~~~cresMask) n

def relMaskForGroup (t : GroupType) (relocVal : Word) : Word :=
  let numAluGroups := if relConcludesGroup t then relGroupNum t + 1 - 1 else relGroupNum t + 1
  let taken := takeGroups relocVal relocVal numAluGroups
  if relConcludesGroup t then taken.2 else taken.1

def relocValue (t : GroupType) (addend symval pc : Word) : Word :=
  match t with
  | .ldrPcG0 | .ldrPcG1 | .ldrPcG2 | .ldrsPcG0 | .ldrsPcG1 | .ldrsPcG2 | .ldcPcG0 | .ldcPcG1
  | .ldcPcG2 => opndS symval + addend - pc
  | .aluPcG0Nc | .aluPcG0 | .aluPcG1Nc | .aluPcG1 | .aluPcG2 =>
    ((opndS symval + addend) ||| opndT symval) - pc

/-- ADD or SUB, depending on the sign. -/
def writeAlu (field : Word) (t : GroupType) (relocVal : Word) : Word × List GroupError :=
  let field := field &&& 0xFF3FF000#32
  let field := if (0#32).sle relocVal then field ||| 1#32 <<< 23 else field ||| 1#32 <<< 22
  let relocVal := relMaskForGroup t relocVal.abs
  let maskOffset := relAluMaskOffset relocVal 2
  let rval : BitVec 8 := BitVec.ofNat 8 (32 - maskOffset)
  let ival : BitVec 8 := (relocVal.sshiftRight maskOffset).setWidth 8
  (field ||| (((rval >>> 1) &&& 0xF#8).setWidth 32 <<< 8) ||| ival.setWidth 32,
    if relocVal &&& ~~~(0xFF#32 <<< maskOffset) ≠ 0#32 then [.aluOverflow] else [])

/-- The bit that says that the offset is added. -/
def upBit (relocVal : Word) : Word := if relocVal.slt 0#32 then 0#32 else 1#32

/-- LDR, STR, LDRB and STRB. -/
def writeLdr (field : Word) (t : GroupType) (relocVal : Word) : Word × List GroupError :=
  let uval := upBit relocVal
  let relocVal := relMaskForGroup t relocVal.abs
  (field &&& 0xFF7FF000#32 ||| uval <<< 23 ||| (relocVal &&& 0xFFF#32),
    if (0x1000#32).sle relocVal.abs then [.relocationOverflow] else [])

/-- LDRD, STRD, LDRH, STRH, LDRSH and LDRSB. -/
def writeLdrs (field : Word) (t : GroupType) (relocVal : Word) : Word × List GroupError :=
  let uval := upBit relocVal
  let relocVal := relMaskForGroup t relocVal.abs
  let hval := relocVal.sshiftRight 4 &&& 0xF#32
  let lval := relocVal &&& 0xF#32
  (field &&& 0xFF7FF0F0#32 ||| uval <<< 23 ||| hval <<< 8 ||| lval,
    if (0x100#32).sle relocVal.abs then [.relocationOverflow] else [])

/-- LDC and STC. -/
def writeLdc (field : Word) (t : GroupType) (relocVal : Word) : Word × List GroupError :=
  let uval := upBit relocVal
  let relocVal := relMaskForGroup t relocVal.abs
  (field &&& 0xFF7FFF00#32 ||| uval <<< 23 ||| (relocVal &&& 0xFF#32),
    if (0x1000#32).sle relocVal.abs then [.relocationOverflow] else [])

/-- `ALU_PC_G1` is not among the cases of `write_reloc_r`. -/
def writeRelocR (field : Word) (t : GroupType) (relocVal : Word) : Word × List GroupError :=
  match t with
  | .aluPcG0Nc | .aluPcG0 | .aluPcG1Nc | .aluPcG2 => writeAlu field t relocVal
  | .ldrPcG0 | .ldrPcG1 | .ldrPcG2 => writeLdr field t relocVal
  | .ldrsPcG0 | .ldrsPcG1 | .ldrsPcG2 => writeLdrs field t relocVal
  | .ldcPcG0 | .ldcPcG1 | .ldcPcG2 => writeLdc field t relocVal
  | .aluPcG1 => (field, [.writeInvalidType])

/-- The field after `reloc_do`, and the errors it has reported. `pack_result` and `mask_result`
leave the value of a group relocation as it is. -/
def relocDo (t : GroupType) (field addend symval pc : Word) : Word × List GroupError :=
  writeRelocR field t (relocValue t addend symval pc)

/-- The modified immediate of an ADD or SUB, which is rotated by half of what the processor
rotates it by. -/
def offsetAlu (field : Word) : Word :=
  let rval := (extract field 8 4).toNat
  let ival := extract field 0 8
  let addend := ival >>> rval ||| ival <<< (32 - rval)
  if extract field 22 2 = 1#32 then -addend else addend

/-- An offset without sign, and the bit that says that it is added. -/
def signedOffset (field offset : Word) : Word :=
  if extract field 23 1 = 1#32 then offset else -offset

def relUnpackAddend (t : GroupType) (field : Word) : Word :=
  match t with
  | .ldrPcG0 | .ldrPcG1 | .ldrPcG2 => signedOffset field (extract field 0 12)
  | .ldrsPcG0 | .ldrsPcG1 | .ldrsPcG2 =>
    signedOffset field (extract field 8 4 <<< 4 ||| extract field 0 4)
  | .ldcPcG0 | .ldcPcG1 | .ldcPcG2 => signedOffset field (extract field 0 8)
  | .aluPcG0Nc | .aluPcG0 | .aluPcG1Nc | .aluPcG1 | .aluPcG2 => offsetAlu field

end Omap4Hal.Elfload.Group

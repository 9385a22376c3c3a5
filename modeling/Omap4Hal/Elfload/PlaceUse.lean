import Omap4Hal.Elfload.Relocate

/- Which relocations put the address of the field into it. For each of them there are two places
   that give different fields; the others give the same field at every place. -/
namespace Omap4Hal.Elfload

open Lib

theorem getLsbD_add_twoPow (x : Word) {k : Nat} (hk : k < 32) :
    (x + BitVec.twoPow 32 k).getLsbD k = !x.getLsbD k := by
  have hcarry : BitVec.carry k x (BitVec.twoPow 32 k) false = false := by
    rw [BitVec.carry, BitVec.toNat_twoPow, Nat.mod_eq_of_lt (Nat.pow_lt_pow_right (by decide) hk),
      Nat.mod_self]
    simpa using Nat.mod_lt _ (Nat.two_pow_pos k)
  rw [BitVec.getLsbD_add hk, hcarry, BitVec.getLsbD_twoPow]
  simp [hk]

/-! ## Branches of the ARM -/

theorem relocValue_eq_sub (t : BranchType) (addend symval pc : Word) :
    relocValue t addend symval pc = relocValue t addend symval 0#32 - pc := by
  cases t <;> simp [relocValue]

/-- A bit of the field that tells an offset of 4 from none. -/
def tellingBit : BranchType → Nat
  | .pc24 | .call | .plt32 | .jump24 => 0
  | .thmCall | .thmJump24 | .thmJump19 => 17
  | .thmJump11 | .thmJump8 => 1
  | .thmJump6 => 4

theorem getLsbD_writeArmCall_zero (field r symval : Word) :
    (writeArmCall field r symval).getLsbD 0 = r.getLsbD 1 := by
  rw [writeArmCall]
  split_ifs <;> simp [BitVec.getElem_sshiftRight]

theorem getLsbD_writeThumb24_telling (field r : Word) :
    (writeThumb24 field r).getLsbD 17 = r.getLsbD 1 := by
  rw [getLsbD_writeThumb24 field r (by decide)]
  rfl

variable {t : BranchType}

theorem getLsbD_writeRelocR_telling (hplt : t ≠ .plt32) (hjump : t ≠ .jump24) (field symval : Word)
    {r : Word} (hr : r &&& 1#32 = 0#32) :
    (writeRelocR field t r symval).getLsbD (tellingBit t) = r.getLsbD 1 := by
  cases t with
  | plt32 => exact absurd rfl hplt
  | jump24 => exact absurd rfl hjump
  | pc24 => exact getLsbD_writeArmCall_zero field r symval
  | call => exact getLsbD_writeArmCall_zero field r symval
  | thmCall =>
    rw [writeRelocR, tellingBit, convertThumbCall, if_neg (c := r &&& 1#32 ≠ 0#32) (by simp [hr])]
    split_ifs <;> exact getLsbD_writeThumb24_telling _ r
  | thmJump24 => exact getLsbD_writeThumb24_telling field r
  | thmJump19 =>
    rw [writeRelocR, tellingBit, getLsbD_writeThumb19 field r (by decide)]
    rfl
  | thmJump11 => simp [writeRelocR, tellingBit, writeThumbLow, ofHalves]
  | thmJump8 => simp [writeRelocR, tellingBit, writeThumbLow, ofHalves]
  | thmJump6 =>
    rw [writeRelocR, tellingBit, getLsbD_writeThumb6 field r (by decide)]
    rfl

theorem written_ne (ht : t ≠ .plt32) (field symval : Word) :
    writeRelocR field t (maskResult (packResult 0#32 t) t).1 symval ≠
      writeRelocR field t (maskResult (packResult 4#32 t) t).1 symval := by
  intro h
  have hbit := congrArg (fun w : Word => w.getLsbD (tellingBit t)) h
  by_cases hjump : t = .jump24
  · subst hjump
    simp [writeRelocR, tellingBit, writeArmJump, maskResult, packResult] at hbit
  · have hnone : (maskResult (packResult 0#32 t) t).1 &&& 1#32 = 0#32 := by cases t <;> decide
    have hfour : (maskResult (packResult 4#32 t) t).1 &&& 1#32 = 0#32 := by
      revert hjump
      cases t <;> decide
    rw [getLsbD_writeRelocR_telling ht hjump field symval hnone,
      getLsbD_writeRelocR_telling ht hjump field symval hfour] at hbit
    revert ht hjump hbit
    cases t <;> decide

theorem exists_places_ne (ht : t ≠ .plt32) (field addend symval : Word) :
    ∃ pc pc', (relocDo t field addend symval pc).1 ≠ (relocDo t field addend symval pc').1 := by
  have hpc : ∀ v, relocValue t addend symval (relocValue t addend symval 0#32 - v) = v := by
    intro v
    rw [relocValue_eq_sub, sub_sub_cancel]
  refine ⟨relocValue t addend symval 0#32 - 0#32, relocValue t addend symval 0#32 - 4#32, ?_⟩
  rw [relocDo, relocDo, hpc, hpc]
  exact written_ne ht field symval

theorem relocDo_plt32 (field addend symval pc pc' : Word) :
    (relocDo .plt32 field addend symval pc).1 = (relocDo .plt32 field addend symval pc').1 := by
  simp only [relocDo, maskResult]

/-! ## Data, moves and loads of the ARM -/

namespace Data

/-- The types with a P in their formula. -/
def placeRelative : DataType → Bool
  | .rel32 | .rel32Noi | .prel31 | .movwPrelNc | .movtPrel | .thmMovwPrelNc | .thmMovtPrel
  | .thmPc12 | .thmPc8 | .thmAluPrel11_0 => true
  | .abs32 | .abs32Noi | .abs16 | .abs8 | .abs12 | .movwAbsNc | .movtAbs | .thmMovwAbsNc
  | .thmMovtAbs | .thmAbs5 => false

/-- The field of a `PREL31` is not cleared, and one that is all ones stays so. -/
def usesPlace (t : DataType) (field : Word) : Prop :=
  placeRelative t = true ∧ (t = .prel31 → field &&& 0x7FFFFFFF#32 ≠ 0x7FFFFFFF#32)

variable {t : DataType} {field : Word}

theorem relocValue_congr (ht : placeRelative t = false) (addend symval pc pc' : Word) :
    relocValue t addend symval pc = relocValue t addend symval pc' := by
  cases t <;> first | rfl | exact absurd ht (by decide)

theorem relocValue_eq_sub (ht : placeRelative t = true) (hpc8 : t ≠ .thmPc8) (hpc12 : t ≠ .thmPc12)
    (addend symval pc : Word) :
    relocValue t addend symval pc = relocValue t addend symval 0#32 - pc := by
  revert ht hpc8 hpc12
  cases t <;> simp [relocValue, placeRelative]

theorem prel31_blind_iff (field : Word) :
    writePrel31 field 0#32 = writePrel31 field 0x7FFFFFFF#32 ↔
      field &&& 0x7FFFFFFF#32 = 0x7FFFFFFF#32 := by
  rw [writePrel31, writePrel31, BitVec.or_zero]
  constructor
  · intro h
    rw [h]
    apply BitVec.eq_of_getLsbD_eq
    intro i hi
    rw [BitVec.getLsbD_and, BitVec.getLsbD_or, Bool.and_comm, Bool.and_or_distrib_left,
      Bool.and_self]
    cases (0x7FFFFFFF#32).getLsbD i <;> simp
  · intro h
    rw [← h]
    apply BitVec.eq_of_getLsbD_eq
    intro i hi
    rw [BitVec.getLsbD_or, BitVec.getLsbD_and]
    cases field.getLsbD i <;> simp

theorem written_ne (ht : usesPlace t field) (hpc8 : t ≠ .thmPc8) (hpc12 : t ≠ .thmPc12) :
    (writeRelocR field t (maskResult (packResult 0#32 t) t)).1 ≠
      (writeRelocR field t (maskResult (packResult (-1#32) t) t)).1 := by
  obtain ⟨hplace, hprel⟩ := ht
  intro h
  have hbit : ∀ i, _ := fun i => congrArg (fun w : Word => w.getLsbD i) h
  cases t with
  | rel32 => exact absurd h (show ¬ (0#32 : Word) = -1#32 by decide)
  | rel32Noi => exact absurd h (show ¬ (0#32 : Word) = -1#32 by decide)
  | prel31 => exact hprel rfl ((prel31_blind_iff field).mp h)
  | movwPrelNc => simpa [writeRelocR, writeMov, maskResult, packResult] using hbit 0
  | movtPrel => simpa [writeRelocR, writeMov, maskResult, packResult] using hbit 0
  | thmMovwPrelNc =>
    simpa [writeRelocR, writeThumbMov, ofHalves, maskResult, packResult] using hbit 16
  | thmMovtPrel =>
    simpa [writeRelocR, writeThumbMov, ofHalves, maskResult, packResult] using hbit 16
  | thmAluPrel11_0 =>
    simpa [writeRelocR, writeThumbAlu, ofHalves, maskResult, packResult] using hbit 7
  | thmPc8 => exact absurd rfl hpc8
  | thmPc12 => exact absurd rfl hpc12
  | _ => exact absurd hplace (by decide)

theorem getLsbD_writeThumbPc8_zero (field v : Word) :
    (writeThumbPc8 field (maskResult (packResult v .thmPc8) .thmPc8)).getLsbD 0 = v.getLsbD 2 := by
  simp [writeThumbPc8, ofHalves, maskResult, packResult, BitVec.getElem_sshiftRight]

theorem getLsbD_writeThumbPc12_seven (field v : Word) :
    (writeThumbPc12 field v).getLsbD 7 = !v.getLsbD 31 := by
  have hsign : v.slt 0#32 = v.getLsbD 31 := by
    rw [BitVec.slt_zero_eq_msb, BitVec.msb_eq_getLsbD_last]
  rw [writeThumbPc12, hsign]
  cases v.getLsbD 31 <;> simp [ofHalves]

theorem relocValue_aligned (ht : t = .thmPc8 ∨ t = .thmPc12) (addend symval : Word) {k : Nat}
    (h2 : 2 ≤ k) (hk : k < 32) :
    relocValue t addend symval (-BitVec.twoPow 32 k) =
      relocValue t addend symval 0#32 + BitVec.twoPow 32 k := by
  have hmask : -BitVec.twoPow 32 k &&& 0xFFFFFFFC#32 = -BitVec.twoPow 32 k := by
    revert h2
    interval_cases k <;> decide
  rcases ht with rfl | rfl <;> simp [relocValue, hmask]

theorem exists_places_ne (ht : usesPlace t field) (addend symval : Word) :
    ∃ pc pc', (relocDo t field addend symval pc).1 ≠ (relocDo t field addend symval pc').1 := by
  by_cases hpc8 : t = .thmPc8
  · subst hpc8
    refine ⟨0#32, -BitVec.twoPow 32 2, ?_⟩
    intro h
    have hbit := congrArg (fun w : Word => w.getLsbD 0) h
    simp only [relocDo, writeRelocR, getLsbD_writeThumbPc8_zero,
      relocValue_aligned (Or.inl rfl) addend symval (Nat.le_refl 2) (by decide),
      getLsbD_add_twoPow _ (show 2 < 32 by decide)] at hbit
    exact (Bool.eq_not_self _).mp hbit
  by_cases hpc12 : t = .thmPc12
  · subst hpc12
    refine ⟨0#32, -BitVec.twoPow 32 31, ?_⟩
    intro h
    have hbit := congrArg (fun w : Word => w.getLsbD 7) h
    simp only [relocDo, writeRelocR, maskResult, packResult, getLsbD_writeThumbPc12_seven,
      relocValue_aligned (Or.inr rfl) addend symval (show 2 ≤ 31 by decide) (by decide),
      getLsbD_add_twoPow _ (show 31 < 32 by decide)] at hbit
    exact (Bool.eq_not_self _).mp hbit
  · have hpc : ∀ v, relocValue t addend symval (relocValue t addend symval 0#32 - v) = v := by
      intro v
      rw [relocValue_eq_sub ht.1 hpc8 hpc12, sub_sub_cancel]
    refine ⟨relocValue t addend symval 0#32 - 0#32, relocValue t addend symval 0#32 - -1#32, ?_⟩
    rw [relocDo, relocDo, hpc, hpc]
    exact written_ne ht hpc8 hpc12

theorem relocDo_congr (ht : ¬ usesPlace t field) (addend symval pc pc' : Word) :
    (relocDo t field addend symval pc).1 = (relocDo t field addend symval pc').1 := by
  by_cases hplace : placeRelative t = true
  · obtain ⟨rfl, hones⟩ : t = .prel31 ∧ field &&& 0x7FFFFFFF#32 = 0x7FFFFFFF#32 := by
      by_contra h
      exact ht ⟨hplace, fun hprel hones => h ⟨hprel, hones⟩⟩
    -- what is left of the value is below the ones that are there
    have hfield : ∀ v, writePrel31 field (v &&& 0x7FFFFFFF#32) = field := by
      intro v
      rw [writePrel31, ← hones, BitVec.and_comm field, ← BitVec.and_assoc]
      apply BitVec.eq_of_getLsbD_eq
      intro i hi
      rw [BitVec.getLsbD_or, BitVec.getLsbD_and]
      cases field.getLsbD i <;> simp
    simp only [relocDo, writeRelocR, maskResult, hfield]
  · rw [Bool.not_eq_true] at hplace
    rw [relocDo, relocDo, relocValue_congr hplace addend symval pc pc']

end Data

/-! ## Group relocations -/

namespace Group

theorem relocValue_eq_sub (t : GroupType) (addend symval pc : Word) :
    relocValue t addend symval pc = relocValue t addend symval 0#32 - pc := by
  cases t <;> simp [relocValue]

theorem slt_zero_eq (v : Word) : v.slt 0#32 = v.getLsbD 31 := by
  rw [BitVec.slt_zero_eq_msb, BitVec.msb_eq_getLsbD_last]

theorem getLsbD_upBit (v : Word) : (upBit v).getLsbD 0 = !v.getLsbD 31 := by
  rw [upBit, slt_zero_eq]
  cases v.getLsbD 31 <;> simp

theorem getLsbD_writeAlu (field : Word) (t : GroupType) (v : Word) :
    (writeAlu field t v).1.getLsbD 23 = !v.getLsbD 31 := by
  have hsign : (0#32).sle v = !v.getLsbD 31 := by
    rw [BitVec.sle_eq_not_slt, slt_zero_eq]
  simp only [writeAlu, hsign]
  cases v.getLsbD 31 <;> simp

theorem getLsbD_writeRelocR {t : GroupType} (ht : t ≠ .aluPcG1) (field v : Word) :
    (writeRelocR field t v).1.getLsbD 23 = !v.getLsbD 31 := by
  have hup : (upBit v)[0] = !v.getLsbD 31 := getLsbD_upBit v
  cases t with
  | aluPcG1 => exact absurd rfl ht
  | aluPcG0Nc => exact getLsbD_writeAlu field _ v
  | aluPcG0 => exact getLsbD_writeAlu field _ v
  | aluPcG1Nc => exact getLsbD_writeAlu field _ v
  | aluPcG2 => exact getLsbD_writeAlu field _ v
  | ldrPcG0 => simp [writeRelocR, writeLdr, hup]
  | ldrPcG1 => simp [writeRelocR, writeLdr, hup]
  | ldrPcG2 => simp [writeRelocR, writeLdr, hup]
  | ldrsPcG0 => simp [writeRelocR, writeLdrs, hup]
  | ldrsPcG1 => simp [writeRelocR, writeLdrs, hup]
  | ldrsPcG2 => simp [writeRelocR, writeLdrs, hup]
  | ldcPcG0 => simp [writeRelocR, writeLdc, hup]
  | ldcPcG1 => simp [writeRelocR, writeLdc, hup]
  | ldcPcG2 => simp [writeRelocR, writeLdc, hup]

theorem exists_places_ne {t : GroupType} (ht : t ≠ .aluPcG1) (field addend symval : Word) :
    ∃ pc pc', (relocDo t field addend symval pc).1 ≠ (relocDo t field addend symval pc').1 := by
  have hpc : ∀ v, relocValue t addend symval (relocValue t addend symval 0#32 - v) = v := by
    intro v
    rw [relocValue_eq_sub, sub_sub_cancel]
  refine ⟨relocValue t addend symval 0#32 - 0#32, relocValue t addend symval 0#32 - -1#32, ?_⟩
  intro h
  have hbit := congrArg (fun w : Word => w.getLsbD 23) h
  simp only [relocDo, hpc, getLsbD_writeRelocR ht] at hbit
  exact absurd hbit (by decide)

end Group

/-! ## The C6000 -/

namespace C60

/-- The types with a P in their formula. -/
def usesPlace : RelocType → Bool
  | .pcrS21 | .pcrS12 | .pcrS10 | .pcrS7 | .prel31 => true
  | .abs32 | .abs16 | .abs8 | .absS16 | .absL16 | .absH16 | .sbrU15B | .sbrU15H | .sbrU15W
  | .sbrS16 | .sbrL16B | .sbrL16H | .sbrL16W | .sbrH16B | .sbrH16H | .sbrH16W | .dsbtIndex
  | .other => false

theorem relocValue_congr (t : RelocType) (addend symval basePointer dsbtIndex : Word)
    {segmentAddress segmentAddress' spc : Word}
    (h : usesPlace t = true → segmentAddress = segmentAddress') :
    relocValue t segmentAddress addend symval spc basePointer dsbtIndex =
      relocValue t segmentAddress' addend symval spc basePointer dsbtIndex := by
  cases t <;> first | rfl | rw [h rfl]

/-- The field after `reloc_do`, but for the order of its bytes. -/
def written (t : RelocType) (field value : Word) : Word :=
  (writeRelocR field t (maskResult (packResult value t).1 t).1).1

/-- The bit of the value that is looked at: a branch takes the packet that the place is in. -/
def valueBit (t : RelocType) : Nat := if t = .prel31 then 1 else 5

/-- Where it is in the field. -/
def tellingBit : RelocType → Nat
  | .pcrS21 => 10
  | .pcrS12 => 19
  | .pcrS10 => 16
  | .pcrS7 => 19
  | _ => 0

variable {t : RelocType}

theorem getLsbD_written (ht : usesPlace t = true) (field v : Word) :
    (written t field v).getLsbD (tellingBit t) = v.getLsbD (valueBit t) := by
  cases t with
  | pcrS21 | pcrS12 | pcrS10 | pcrS7 | prel31 =>
    simp [written, tellingBit, valueBit, writeRelocR, insert, mask, maskResult, packResult,
      BitVec.getElem_sshiftRight]
  | _ => exact absurd ht (by decide)

theorem relocValue_places (ht : usesPlace t = true) (addend symval spc basePointer dsbtIndex : Word)
    :
    (relocValue t (-BitVec.twoPow 32 (valueBit t) - spc) addend symval spc basePointer
        dsbtIndex).1 =
      (relocValue t (0#32 - spc) addend symval spc basePointer dsbtIndex).1 +
        BitVec.twoPow 32 (valueBit t) := by
  have hplace : ∀ x : Word, spc + (x - spc) = x := fun x => add_sub_cancel spc x
  have hmask : -BitVec.twoPow 32 5 &&& 0xFFFFFFE0#32 = -BitVec.twoPow 32 5 := by decide
  cases t with
  | pcrS21 | pcrS12 | pcrS10 | pcrS7 =>
    simp only [relocValue, hplace, valueBit, reduceCtorEq, if_false, hmask]
    simp
  | prel31 => simp [relocValue, hplace, valueBit]
  | _ => exact absurd ht (by decide)

/-- A field in the order of the file, or brought into the order of the host. -/
def ordered (wrongEndian : Bool) (field : Word) : Word :=
  if wrongEndian then changeEndian32 field else field

theorem ordered_injective (wrongEndian : Bool) : Function.Injective (ordered wrongEndian) := by
  cases wrongEndian
  · exact fun _ _ h => h
  · exact Function.LeftInverse.injective changeEndian32_changeEndian32

theorem relocDo_fst (t : RelocType) (field segmentAddress addend symval spc : Word)
    (wrongEndian : Bool) (basePointer dsbtIndex : Word) :
    (relocDo t field segmentAddress addend symval spc wrongEndian basePointer dsbtIndex).1 =
      ordered wrongEndian (written t (ordered wrongEndian field)
        (relocValue t segmentAddress addend symval spc basePointer dsbtIndex).1) := rfl

theorem exists_places_ne (ht : usesPlace t = true) (field addend symval spc : Word)
    (wrongEndian : Bool) (basePointer dsbtIndex : Word) :
    ∃ a a', (relocDo t field a addend symval spc wrongEndian basePointer dsbtIndex).1 ≠
      (relocDo t field a' addend symval spc wrongEndian basePointer dsbtIndex).1 := by
  refine ⟨0#32 - spc, -BitVec.twoPow 32 (valueBit t) - spc, ?_⟩
  intro h
  rw [relocDo_fst, relocDo_fst] at h
  have hbit := congrArg (fun w : Word => w.getLsbD (tellingBit t)) (ordered_injective _ h)
  have hlt : valueBit t < 32 := by
    rw [valueBit]
    split <;> decide
  simp only [getLsbD_written ht, relocValue_places ht, getLsbD_add_twoPow _ hlt] at hbit
  exact (Bool.eq_not_self _).mp hbit

end C60

end Omap4Hal.Elfload

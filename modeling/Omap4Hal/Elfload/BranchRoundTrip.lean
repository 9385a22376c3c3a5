import Omap4Hal.Elfload.ArmReloc

/- What `rel_unpack_addend` reads from an instruction that `reloc_do` has relocated. The branch
   to a function in the same state should be read back as it was computed, or be reported as out
   of range. `reloc_roundTrip_iff` says for which displacements that is so: the writer and the
   reader of a B<c>.W have two bits in each other's place, `R_ARM_PLT32` is missing from
   `mask_result`, and the range of the short Thumb branches is not checked. -/
namespace Omap4Hal.Elfload

open Lib

/-! ## What is asked of a relocation -/

/-- The callee runs in the other state, and the call is made a BLX. -/
def Converts (t : BranchType) (symval : Word) : Prop :=
  match t with
  | .pc24 | .call | .plt32 => opndT symval ≠ 0#32
  | .thmCall => opndT symval = 0#32
  | .jump24 | .thmJump24 | .thmJump19 | .thmJump11 | .thmJump8 | .thmJump6 => False

/-- The bits of the field that hold the offset. In a Thumb instruction of two halves the second
one begins at bit 16. -/
def InOffset (t : BranchType) (field : Word) (i : Nat) : Prop :=
  match t with
  | .pc24 | .call | .plt32 => i < 24 ∨ i = 24 ∧ isBLX field = true
  | .jump24 => i < 24
  | .thmCall | .thmJump24 => i < 11 ∨ 16 ≤ i ∧ i < 28 ∨ i = 29
  | .thmJump19 => i < 6 ∨ i = 10 ∨ 16 ≤ i ∧ i < 28 ∨ i = 29
  | .thmJump11 => i < 11
  | .thmJump8 => i < 8
  | .thmJump6 => 3 ≤ i ∧ i < 8 ∨ i = 9

/-- The relocation reports an overflow, or leaves a field from which the displacement is read
again, with nothing else changed. -/
def RoundTrip (t : BranchType) (field addend symval pc : Word) : Prop :=
  .relocationOverflow ∈ (relocDo t field addend symval pc).2 ∨
    relUnpackAddend t (relocDo t field addend symval pc).1 =
        relocValue t addend symval pc &&& ~~~1#32 ∧
      ∀ i, i < 32 → ¬ InOffset t field i →
        (relocDo t field addend symval pc).1.getLsbD i = field.getLsbD i

/-- The displacements for which the code has the encoding right. -/
def Encodes (t : BranchType) (field v : Word) : Prop :=
  match t with
  | .pc24 | .call => FitsSigned 25 v → isBLX field = true ∨ v.getLsbD 1 = false
  | .plt32 => v &&& ~~~1#32 = 0#32
  | .jump24 => FitsSigned 25 v → v.getLsbD 1 = (isBLX field && field.getLsbD 24)
  | .thmCall | .thmJump24 => True
  | .thmJump19 => FitsSigned 20 v →
      v.getLsbD 18 = v.getLsbD 19 ∧ (field.getLsbD 27 = true → v.getLsbD 18 = true)
  | .thmJump11 => FitsSigned 11 v
  | .thmJump8 => FitsSigned 8 v
  | .thmJump6 => -4 ≤ v.toInt ∧ v.toInt < 124

/-! ## Reading what was written -/

theorem offsetArm_high (field : Word) (i : Nat) (hi : 25 < i) (hi' : i < 32) :
    (offsetArm field).getLsbD i = false := by
  rw [getLsbD_offsetArm field hi', if_neg (by omega), if_neg (by omega)]
  simp [show ¬ i ≤ 25 by omega]

/-- An ARM branch whose offset is that of `v` down to bit 2. -/
theorem unpackArm_eq_iff {field v : Word}
    (hbits : ∀ i, i < 24 → field.getLsbD i = v.getLsbD (i + 2)) :
    extendSign 25 (offsetArm field) = v &&& ~~~1#32 ↔
      FitsSigned 25 v ∧ v.getLsbD 1 = (isBLX field && field.getLsbD 24) := by
  rw [extendSign_eq_iff (by decide) (by decide) (offsetArm_high field)]
  apply and_congr_right
  intro _
  constructor
  · intro h
    have h1 := h 1 (by decide)
    rw [getLsbD_offsetArm field (by decide)] at h1
    simpa using h1.symm
  · intro h i hi
    rw [getLsbD_offsetArm field (by omega)]
    by_cases h0 : i = 0
    · simp [h0]
    · by_cases h1 : i = 1
      · rw [if_neg h0, if_pos h1, ← h, h1]
        simp
      · rw [if_neg h0, if_neg h1, hbits (i - 2) (by omega), show i - 2 + 2 = i by omega]
        simp [h0, hi]

theorem offsetThumb24_write (field v : Word) {i : Nat} (hi : i ≤ 24) :
    (offsetThumb24 (writeThumb24 field (v.sshiftRight 1 &&& 0x01FFFFFF#32))).getLsbD i =
      (decide (i ≠ 0) && v.getLsbD i) := by
  have hr : ∀ j k, j < 25 → k = j + 1 →
      (v.sshiftRight 1 &&& 0x01FFFFFF#32).getLsbD j = v.getLsbD k := fun j k hj hk =>
    getLsbD_packed_succ v (n := 25) (by decide) (by decide) hj hk
  generalize v.sshiftRight 1 &&& 0x01FFFFFF#32 = r at hr
  rw [getLsbD_offsetThumb24 _ (by omega)]
  by_cases h0 : i = 0
  · simp [h0]
  by_cases h12 : i < 12
  · rw [if_neg h0, if_pos h12, getLsbD_writeThumb24 field r (by omega), if_neg (by omega),
      if_neg (by omega), if_neg (by omega), if_pos (by omega), hr _ i (by omega) (by omega)]
    simp [h0]
  by_cases h22 : i < 22
  · rw [if_neg h0, if_neg h12, if_pos h22, getLsbD_writeThumb24 field r (by omega),
      if_pos (by omega), hr _ i (by omega) (by omega)]
    simp [h0]
  -- the sign and the two bits that are written against it
  rw [getLsbD_writeThumb24 field r (i := 10) (by decide),
    getLsbD_writeThumb24 field r (i := 27) (by decide),
    getLsbD_writeThumb24 field r (i := 29) (by decide), hr 23 24 (by decide) rfl,
    hr 22 23 (by decide) rfl, hr 21 22 (by decide) rfl]
  obtain rfl | rfl | rfl : i = 22 ∨ i = 23 ∨ i = 24 := by omega
  · simp
  · simp
  · simp

/-- Bits 18 and 19 change places, and bit 11 of the second half stays if it was set. -/
theorem offsetThumb19_write (field v : Word) {i : Nat} (hi : i ≤ 20) :
    (offsetThumb19 (writeThumb19 field (v.sshiftRight 1 &&& 0xFFFFF#32))).getLsbD i =
      if i = 18 then v.getLsbD 19
      else if i = 19 then (field.getLsbD 27 || v.getLsbD 18)
      else (decide (i ≠ 0) && v.getLsbD i) := by
  have hr : ∀ j k, j < 20 → k = j + 1 →
      (v.sshiftRight 1 &&& 0xFFFFF#32).getLsbD j = v.getLsbD k := fun j k hj hk =>
    getLsbD_packed_succ v (n := 20) (by decide) (by decide) hj hk
  generalize v.sshiftRight 1 &&& 0xFFFFF#32 = r at hr
  rw [getLsbD_offsetThumb19 _ (by omega)]
  by_cases h0 : i = 0
  · simp [h0]
  by_cases h12 : i < 12
  · rw [if_neg h0, if_pos h12, getLsbD_writeThumb19 field r (by omega), if_neg (by omega),
      if_neg (by omega), if_neg (by omega), if_pos (by omega), hr _ i (by omega) (by omega),
      if_neg (by omega), if_neg (by omega)]
    simp [h0]
  by_cases h18 : i < 18
  · rw [if_neg h0, if_neg h12, if_pos h18, getLsbD_writeThumb19 field r (by omega),
      if_pos (by omega), hr _ i (by omega) (by omega), if_neg (by omega), if_neg (by omega)]
    simp [h0]
  rw [getLsbD_writeThumb19 field r (i := 10) (by decide),
    getLsbD_writeThumb19 field r (i := 27) (by decide),
    getLsbD_writeThumb19 field r (i := 29) (by decide), hr 19 20 (by decide) rfl,
    hr 18 19 (by decide) rfl, hr 17 18 (by decide) rfl]
  obtain rfl | rfl | rfl : i = 18 ∨ i = 19 ∨ i = 20 := by omega
  · simp
  · simp
  · simp

theorem offsetThumbLow_write (field v : Word) {n : Nat} (hn : n < 16) {mask : Half}
    (hmask : ∀ j, j < 16 → mask.getLsbD j = decide (j < n)) {i : Nat} (hi : i < 32) :
    (offsetThumbLow n (writeThumbLow mask field
        (v.sshiftRight 1 &&& (1#32 <<< n - 1#32)))).getLsbD i =
      (decide (i ≠ 0 ∧ i ≤ n) && v.getLsbD i) := by
  have hr : ∀ j, (v.sshiftRight 1 &&& (1#32 <<< n - 1#32)).getLsbD j =
      (decide (j < n) && v.getLsbD (1 + j)) := getLsbD_packed v (by omega) (by decide) rfl
  rw [getLsbD_offsetThumbLow _ hi (by omega)]
  by_cases h0 : i = 0
  · simp [h0]
  by_cases hin : i ≤ n
  · rw [getLsbD_writeThumbLow field _ (by omega) (by omega) hmask, if_pos (by omega), hr]
    · simp [show i - 1 < n by omega, show 1 + (i - 1) = i by omega]
    · intro j hj
      rw [hr]
      simp [Nat.not_lt_of_le hj]
  · simp [hin]

theorem offsetThumb6_write (field v : Word) {i : Nat} (hi : i < 32) :
    (offsetThumb6 (writeThumb6 field (v.sshiftRight 1 &&& 0x3F#32))).getLsbD i =
      (decide (i ≠ 0 ∧ i ≤ 6) && v.getLsbD i) := by
  have hr : ∀ j k, j < 6 → k = j + 1 →
      (v.sshiftRight 1 &&& 0x3F#32).getLsbD j = v.getLsbD k := fun j k hj hk =>
    getLsbD_packed_succ v (n := 6) (by decide) (by decide) hj hk
  generalize v.sshiftRight 1 &&& 0x3F#32 = r at hr
  rw [getLsbD_offsetThumb6 _ hi, getLsbD_writeThumb6 field r (i := 9) (by decide),
    hr 5 6 (by decide) rfl]
  by_cases h0 : i = 0
  · simp [h0]
  by_cases h6 : i < 6
  · rw [if_neg h0, if_pos h6, getLsbD_writeThumb6 field r (by omega), if_neg (by omega),
      if_pos (by omega), hr _ i (by omega) (by omega)]
    simp [h0, show i ≤ 6 by omega]
  by_cases he : i = 6
  · simp [he]
  · simp [h0, h6, he, show ¬ i ≤ 6 by omega]

theorem relOverflow_reported (t : BranchType) (field addend symval pc : Word) :
    .relocationOverflow ∈ (relocDo t field addend symval pc).2 ↔
      relOverflow t (relocValue t addend symval pc) = true := by
  simp only [relocDo, List.mem_append]
  have hmask : ∀ x, .relocationOverflow ∉ (maskResult x t).2 := by
    intro x
    cases t <;> simp [maskResult]
  simp [hmask]

theorem checked_iff {A B C D U : Prop} (hoverflow : A ↔ ¬ B) (hread : C ↔ B ∧ D) (hU : U) :
    (A ∨ C ∧ U) ↔ (B → D) := by
  by_cases h : B
  · simp [hoverflow, hread, h, hU]
  · simp [hoverflow, h]

theorem unchecked_iff {C D U : Prop} (hread : C ↔ D) (hU : U) : (false = true ∨ C ∧ U) ↔ D := by
  simp [hread, hU]

/-! ## Each encoding -/

section Encodings

variable (field v : Word)

variable {symval : Word}

theorem armCall_unchanged {r : Word} (hsym : opndT symval = 0#32)
    (hr : ∀ j, 25 ≤ j → r.getLsbD j = false) (i : Nat) (hi : i < 32)
    (hout : ¬ (i < 24 ∨ i = 24 ∧ isBLX field = true)) :
    (writeArmCall field r symval).getLsbD i = field.getLsbD i := by
  rw [getLsbD_writeArmCall field hsym hr hi, if_neg (by omega)]
  by_cases h24 : i = 24
  · have hblx : ¬ isBLX field = true := fun h => hout (.inr ⟨h24, h⟩)
    rw [if_pos h24, if_neg hblx, h24]
  · rw [if_neg h24]

theorem isBLX_writeArmCall {r : Word} (hsym : opndT symval = 0#32)
    (hr : ∀ j, 25 ≤ j → r.getLsbD j = false) :
    isBLX (writeArmCall field r symval) = isBLX field := by
  apply isBLX_congr
  intro i hge hi
  exact armCall_unchanged field hsym hr i hi (by omega)

theorem packedCall_high (j : Nat) (hj : 25 ≤ j) :
    (v.sshiftRight 1 &&& 0x01FFFFFF#32).getLsbD j = false := by
  rw [getLsbD_packed v (n := 25) (by decide) (by decide) (by decide)]
  simp [Nat.not_lt_of_le hj]

theorem armCall_iff (hsym : opndT symval = 0#32) :
    extendSign 25 (offsetArm (writeArmCall field (v.sshiftRight 1 &&& 0x01FFFFFF#32) symval)) =
        v &&& ~~~1#32 ↔
      FitsSigned 25 v ∧ (isBLX field = true ∨ v.getLsbD 1 = false) := by
  have hr : ∀ j k, j < 25 → k = j + 1 →
      (v.sshiftRight 1 &&& 0x01FFFFFF#32).getLsbD j = v.getLsbD k := fun j k hj hk =>
    getLsbD_packed_succ v (n := 25) (by decide) (by decide) hj hk
  have hbits := fun i hi => getLsbD_writeArmCall field hsym (packedCall_high v) (i := i) hi
  rw [unpackArm_eq_iff (v := v), isBLX_writeArmCall field hsym (packedCall_high v),
    hbits 24 (by decide), if_neg (by decide), if_pos rfl, hr 0 1 (by decide) rfl]
  · cases isBLX field <;> simp
  · intro i hi
    rw [hbits i (by omega), if_pos hi, hr (i + 1) (i + 2) (by omega) rfl]

theorem armCall_zero (hsym : opndT symval = 0#32) :
    extendSign 25 (offsetArm (writeArmCall field 0#32 symval)) = v &&& ~~~1#32 ↔
      v &&& ~~~1#32 = 0#32 := by
  have hzero : extendSign 25 (offsetArm (writeArmCall field 0#32 symval)) = 0#32 := by
    have hoff : offsetArm (writeArmCall field 0#32 symval) = 0#32 := by
      have hr : ∀ j, 25 ≤ j → (0#32).getLsbD j = false := fun j _ => by simp
      have hbits := fun i hi => getLsbD_writeArmCall field hsym hr (i := i) hi
      apply BitVec.eq_of_getLsbD_eq
      intro i hi
      rw [getLsbD_offsetArm _ hi, isBLX_writeArmCall field hsym hr, hbits 24 (by decide)]
      by_cases h25 : i ≤ 25
      · rw [hbits (i - 2) (by omega)]
        by_cases h : isBLX field <;> simp [h, show i - 2 < 24 by omega]
      · simp [h25, show i ≠ 0 by omega, show i ≠ 1 by omega]
    rw [hoff]
    decide
  rw [hzero]
  exact eq_comm

theorem packedJump_bits (j : Nat) : (v.sshiftRight 2 &&& 0x00FFFFFF#32).getLsbD j =
    (decide (j < 24) && v.getLsbD (2 + j)) :=
  getLsbD_packed v (n := 24) (by decide) (by decide) (by decide) j

theorem armJump_bits {i : Nat} (hi : i < 32) :
    (writeArmJump field (v.sshiftRight 2 &&& 0x00FFFFFF#32)).getLsbD i =
      if i < 24 then v.getLsbD (i + 2) else field.getLsbD i := by
  rw [getLsbD_writeArmJump field _ hi, packedJump_bits, Nat.add_comm 2 i]
  · by_cases h : i < 24 <;> simp [h]
  · intro j hj
    rw [packedJump_bits]
    simp [Nat.not_lt_of_le hj]

theorem armJump_iff :
    extendSign 25 (offsetArm (writeArmJump field (v.sshiftRight 2 &&& 0x00FFFFFF#32))) =
        v &&& ~~~1#32 ↔
      FitsSigned 25 v ∧ v.getLsbD 1 = (isBLX field && field.getLsbD 24) := by
  have hblx : isBLX (writeArmJump field (v.sshiftRight 2 &&& 0x00FFFFFF#32)) = isBLX field := by
    apply isBLX_congr
    intro i hge hi
    rw [armJump_bits field v hi, if_neg (by omega)]
  rw [unpackArm_eq_iff (v := v), hblx, armJump_bits field v (by decide), if_neg (by decide)]
  intro i hi
  rw [armJump_bits field v (by omega), if_pos hi]

theorem thumb24_iff :
    extendSign 24 (offsetThumb24 (writeThumb24 field (v.sshiftRight 1 &&& 0x01FFFFFF#32))) =
      v &&& ~~~1#32 ↔ FitsSigned 24 v ∧ True := by
  rw [extendSign_eq_iff (by decide) (by decide)]
  · apply and_congr_right
    intro _
    exact iff_true_intro fun i hi => offsetThumb24_write field v hi
  · intro i hi hi'
    rw [getLsbD_offsetThumb24 _ hi']
    simp [show i ≠ 0 by omega, show ¬ i < 12 by omega, show ¬ i < 22 by omega,
      show i ≠ 22 by omega, show i ≠ 23 by omega, show i ≠ 24 by omega]

theorem thumb24_unchanged (r : Word) (i : Nat) (hi : i < 32)
    (hout : ¬ (i < 11 ∨ 16 ≤ i ∧ i < 28 ∨ i = 29)) :
    (writeThumb24 field r).getLsbD i = field.getLsbD i := by
  rw [getLsbD_writeThumb24 field r hi]
  by_cases h16 : i < 16
  · rw [if_neg (by omega), if_neg (by omega), if_pos h16]
  · rw [if_neg (by omega), if_neg (by omega), if_neg h16, if_neg (by omega), if_neg (by omega),
      if_neg (by omega)]

theorem thumb19_iff :
    extendSign 20 (offsetThumb19 (writeThumb19 field (v.sshiftRight 1 &&& 0xFFFFF#32))) =
        v &&& ~~~1#32 ↔
      FitsSigned 20 v ∧
        (v.getLsbD 18 = v.getLsbD 19 ∧ (field.getLsbD 27 = true → v.getLsbD 18 = true)) := by
  rw [extendSign_eq_iff (by decide) (by decide)]
  · apply and_congr_right
    intro _
    constructor
    · intro h
      have h18 := h 18 (by decide)
      have h19 := h 19 (by decide)
      rw [offsetThumb19_write field v (by decide)] at h18 h19
      rw [if_pos rfl] at h18
      rw [if_neg (by decide), if_pos rfl] at h19
      have hsame : v.getLsbD 19 = v.getLsbD 18 := by simpa using h18
      refine ⟨hsame.symm, ?_⟩
      intro hset
      rw [hset, Bool.true_or] at h19
      rw [← hsame]
      simpa using h19.symm
    · intro h i hi
      obtain ⟨hsame, hset⟩ := h
      rw [offsetThumb19_write field v hi]
      by_cases h18 : i = 18
      · rw [if_pos h18, h18, hsame]
        simp
      by_cases h19 : i = 19
      · rw [if_neg h18, if_pos h19, h19, ← hsame]
        cases hbit : field.getLsbD 27 with
        | false => simp
        | true =>
          rw [hset hbit]
          simp
      · rw [if_neg h18, if_neg h19]
  · intro i hi hi'
    rw [getLsbD_offsetThumb19 _ hi']
    simp [show i ≠ 0 by omega, show ¬ i < 12 by omega, show ¬ i < 18 by omega,
      show i ≠ 18 by omega, show i ≠ 19 by omega, show i ≠ 20 by omega]

theorem thumb19_unchanged (r : Word) (i : Nat) (hi : i < 32)
    (hout : ¬ (i < 6 ∨ i = 10 ∨ 16 ≤ i ∧ i < 28 ∨ i = 29)) :
    (writeThumb19 field r).getLsbD i = field.getLsbD i := by
  rw [getLsbD_writeThumb19 field r hi]
  by_cases h16 : i < 16
  · rw [if_neg (by omega), if_neg (by omega), if_pos h16]
  · rw [if_neg (by omega), if_neg (by omega), if_neg h16, if_neg (by omega), if_neg (by omega),
      if_neg (by omega)]

theorem thumbLow_iff {n : Nat} (hn : n < 16) (hpos : 0 < n) {mask : Half}
    (hmask : ∀ j, j < 16 → mask.getLsbD j = decide (j < n)) :
    extendSign n (offsetThumbLow n (writeThumbLow mask field
        (v.sshiftRight 1 &&& (1#32 <<< n - 1#32)))) = v &&& ~~~1#32 ↔ FitsSigned n v := by
  rw [extendSign_eq_iff (by omega) hpos]
  · apply and_iff_left_of_imp
    intro _ i hi
    rw [offsetThumbLow_write field v hn hmask (by omega)]
    simp [hi]
  · intro i hi hi'
    rw [offsetThumbLow_write field v hn hmask hi']
    simp [Nat.not_le_of_lt hi]

theorem thumbLow_unchanged {n : Nat} (hn : n < 16) {mask : Half}
    (hmask : ∀ j, j < 16 → mask.getLsbD j = decide (j < n)) (i : Nat) (hi : i < 32)
    (hout : ¬ i < n) :
    (writeThumbLow mask field (v.sshiftRight 1 &&& (1#32 <<< n - 1#32))).getLsbD i =
      field.getLsbD i := by
  rw [getLsbD_writeThumbLow field _ hi (by omega) hmask, if_neg hout]
  intro j hj
  rw [getLsbD_packed v (by omega) (by decide) rfl]
  simp [Nat.not_lt_of_le hj]

theorem offsetThumb6_toNat :
    (offsetThumb6 (writeThumb6 field (v.sshiftRight 1 &&& 0x3F#32))).toNat =
      v.toNat % 128 / 2 * 2 := by
  have hshift : offsetThumb6 (writeThumb6 field (v.sshiftRight 1 &&& 0x3F#32)) =
      (v &&& 0x7F#32) &&& ~~~1#32 := by
    apply BitVec.eq_of_getLsbD_eq
    intro i hi
    have hmask : (0x7F#32).getLsbD i = decide (i < 7) := getLsbD_lowMask (n := 7) (by decide) hi
    have hle : i ≤ 6 ↔ i < 7 := by omega
    rw [offsetThumb6_write field v hi, getLsbD_clearLow _ hi, BitVec.getLsbD_and, hmask]
    by_cases h0 : i = 0 <;> simp [h0, hle, Bool.and_comm]
  rw [hshift, toNat_clearLow, BitVec.toNat_and]
  exact congrArg (· / 2 * 2) (Nat.and_two_pow_sub_one_eq_mod v.toNat 7)

theorem thumb6_iff :
    ((offsetThumb6 (writeThumb6 field (v.sshiftRight 1 &&& 0x3F#32)) + 4#32) &&& 0x7F#32) - 4#32 =
      v &&& ~~~1#32 ↔ -4 ≤ v.toInt ∧ v.toInt < 124 := by
  have hlt := v.isLt
  have hmask : ∀ y : Word, (y &&& 0x7F#32).toNat = y.toNat % 128 := by
    intro y
    rw [BitVec.toNat_and]
    exact Nat.and_two_pow_sub_one_eq_mod y.toNat 7
  rw [← BitVec.toNat_inj, toNat_clearLow, BitVec.toNat_sub, hmask, BitVec.toNat_add,
    offsetThumb6_toNat, BitVec.toInt_eq_toNat_cond]
  simp only [BitVec.toNat_ofNat]
  split
  · omega
  · omega

theorem thumb6_unchanged (r : Word) (i : Nat) (hi : i < 32) (hout : ¬ (3 ≤ i ∧ i < 8 ∨ i = 9)) :
    (writeThumb6 field r).getLsbD i = field.getLsbD i := by
  rw [getLsbD_writeThumb6 field r hi]
  by_cases h3 : i < 3
  · rw [if_pos h3]
  · rw [if_neg h3, if_neg (by omega), if_neg (by omega)]

end Encodings

theorem mask11 (j : Nat) (hj : j < 16) : (0x7FF#16).getLsbD j = decide (j < 11) :=
  getLsbD_lowMask (n := 11) (by decide) hj

theorem mask8 (j : Nat) (hj : j < 16) : (0xFF#16).getLsbD j = decide (j < 8) :=
  getLsbD_lowMask (n := 8) (by decide) hj

/-! ## The round trip -/

/-- Where no call is made a BLX, the relocation goes through exactly for these displacements. -/
theorem reloc_roundTrip_iff (t : BranchType) (field addend symval pc : Word)
    (hconv : ¬ Converts t symval) : RoundTrip t field addend symval pc ↔
      Encodes t field (relocValue t addend symval pc) := by
  unfold RoundTrip
  rw [relOverflow_reported]
  simp only [relocDo]
  generalize relocValue t addend symval pc = v
  cases t with
  | pc24 | call =>
    have hsym : opndT symval = 0#32 := by simpa [Converts] using hconv
    exact checked_iff (signDiffers_iff v (by decide)) (armCall_iff field v hsym)
      (armCall_unchanged field hsym (packedCall_high v))
  | plt32 =>
    have hsym : opndT symval = 0#32 := by simpa [Converts] using hconv
    exact unchecked_iff (armCall_zero field v hsym)
      (armCall_unchanged field hsym (fun j _ => by simp [maskResult]))
  | jump24 =>
    refine checked_iff (signDiffers_iff v (by decide)) (armJump_iff field v) ?_
    intro i hi hout
    exact (armJump_bits field v hi).trans (if_neg hout)
  | thmCall =>
    have hsym : opndT symval ≠ 0#32 := hconv
    simp only [writeRelocR, if_neg hsym]
    exact (checked_iff (signDiffers_iff v (by decide)) (thumb24_iff field v)
      (thumb24_unchanged field _)).trans (by simp [Encodes])
  | thmJump24 =>
    exact (checked_iff (signDiffers_iff v (by decide)) (thumb24_iff field v)
      (thumb24_unchanged field _)).trans (by simp [Encodes])
  | thmJump19 =>
    exact checked_iff (signDiffers_iff v (by decide)) (thumb19_iff field v)
      (thumb19_unchanged field _)
  | thmJump11 =>
    exact unchecked_iff (thumbLow_iff field v (n := 11) (by decide) (by decide) mask11)
      (thumbLow_unchanged field v (n := 11) (by decide) mask11)
  | thmJump8 =>
    exact unchecked_iff (thumbLow_iff field v (n := 8) (by decide) (by decide) mask8)
      (thumbLow_unchanged field v (n := 8) (by decide) mask8)
  | thmJump6 => exact unchecked_iff (thumb6_iff field v) (thumb6_unchanged field _)

/-- A BL to a function in ARM state, 0x7000 bytes ahead. -/
theorem reloc_roundTrip_call :
    ¬ Converts .call 0x8000#32 ∧
      RoundTrip .call 0xEB000000#32 0xFFFFFFF8#32 0x8000#32 0x1000#32 := by
  have hconv : ¬ Converts .call 0x8000#32 := by simp [Converts, opndT]
  refine ⟨hconv, (reloc_roundTrip_iff _ _ _ _ _ hconv).mpr ?_⟩
  intro _
  right
  decide

/-- The displacement 0x40000 of a B<c>.W is read as 0x80000; a BL with `R_ARM_PLT32` and a Thumb B
over 0x1000 bytes are both left with the offset 0. None of them is reported as an overflow. -/
theorem reloc_not_roundTrip :
    relUnpackAddend .thmJump19
        (relocDo .thmJump19 0x8000F000#32 0xFFFFFFFC#32 0x41005#32 0x1000#32).1 = 0x80000#32 ∧
      relocValue .thmJump19 0xFFFFFFFC#32 0x41005#32 0x1000#32 = 0x40001#32 ∧
      ¬ RoundTrip .thmJump19 0x8000F000#32 0xFFFFFFFC#32 0x41005#32 0x1000#32 ∧
      ¬ RoundTrip .plt32 0xEB000000#32 0xFFFFFFF8#32 0x8000#32 0x1000#32 ∧
      ¬ RoundTrip .thmJump11 0xE000#32 0xFFFFFFFC#32 0x2005#32 0x1000#32 ∧
    ¬ ∀ t field addend symval pc, ¬ Converts t symval → RoundTrip t field addend symval pc := by
  have hjump19 : ¬ RoundTrip .thmJump19 0x8000F000#32 0xFFFFFFFC#32 0x41005#32 0x1000#32 := by
    intro h
    rcases h with h | h
    · exact absurd h (by decide)
    · exact absurd h.1 (by decide)
  refine ⟨by decide, by decide, hjump19, ?_, ?_, ?_⟩
  · intro h
    rcases h with h | h
    · exact absurd h (by decide)
    · exact absurd h.1 (by decide)
  · intro h
    rcases h with h | h
    · exact absurd h (by decide)
    · exact absurd h.1 (by decide)
  · intro hall
    exact hjump19 (hall _ _ _ _ _ (by simp [Converts]))

end Omap4Hal.Elfload

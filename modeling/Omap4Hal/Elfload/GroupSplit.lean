import Omap4Hal.Elfload.ArmGroup
import Omap4Hal.Lib.BitSplit

/- How the group relocations (`arm_reloc.c`) split an offset over a sequence of instructions.
   Every group takes eight bits of the magnitude that is left, and the last one takes the rest.

   The parts always add up to the magnitude (`chain_split`). What is written and read back is right
   for small offsets only. `rel_alu_mask_offset` rounds the place of the eight bits with the
   alignment as a mask, where the alignment less one is meant: a place of the form 4m+1 stays odd
   (`relAluMaskOffset_two`), and the half rotation that is stored for it stands for the double of
   the part. `rel_unpack_addend` turns the eight bits by the field and not by twice the field.
   `write_reloc_r` has no case for `ALU_PC_G1`, and bounds the eight bits of an LDC by 0x1000.
   `group_exact_iff` is the condition under which all is as it should be. -/
namespace Omap4Hal.Elfload.Group

open Lib
open Omap4Hal.Elfload.Data (relAluMaskOffset highestBit)
open BitVec (eq_of_getLsbD_eq eq_of_toNat_eq getLsbD_and getLsbD_of_ge getLsbD_or intMin toNat_ofNat
  toNat_setWidth)

/-! ## The highest bit -/

theorem topBit_iff {a : Word} {p : Nat} (hp : p < 32) (hlt : a.toNat < 2 ^ (p + 1)) :
    a &&& 1#32 <<< p ≠ 0#32 ↔ 2 ^ p ≤ a.toNat := by
  have hbit : a &&& 1#32 <<< p ≠ 0#32 ↔ a.getLsbD p = true := by
    constructor
    · intro h
      by_contra hnot
      apply h
      apply eq_of_getLsbD_eq
      intro i hi
      rw [getLsbD_and_single a p i hi, Bool.eq_false_iff.mpr hnot]
      simp
    · intro h hzero
      have hsingle := getLsbD_and_single a p p hp
      rw [hzero, h] at hsingle
      simp at hsingle
  have hdiv : a.toNat / 2 ^ p < 2 :=
    Nat.div_lt_of_lt_mul (by rw [Nat.pow_succ] at hlt; exact hlt)
  rw [hbit, BitVec.getLsbD, Nat.testBit_eq_decide_div_mod_eq, decide_eq_true_eq,
    ← Nat.one_le_div_iff (Nat.two_pow_pos p)]
  generalize a.toNat / 2 ^ p = q at hdiv
  omega

theorem highestBit_eq {a : Word} (hge : 256 ≤ a.toNat) :
    ∀ k, k ≤ 24 → a.toNat < 2 ^ (8 + k) → highestBit a k = a.toNat.log2
  | 0, _, hlt => absurd hlt (by omega)
  | k + 1, hk, hlt => by
    have hbit := topBit_iff (a := a) (p := 8 + k) (by omega) hlt
    rw [highestBit]
    by_cases hle : 2 ^ (8 + k) ≤ a.toNat
    · rw [if_pos (hbit.mpr hle), eq_comm, Nat.log2_eq_iff (by omega)]
      exact ⟨hle, hlt⟩
    · rw [if_neg (fun h => hle (hbit.mp h)), highestBit_eq hge k (by omega) (by omega)]

/-! ## What a group relocation is to do -/

/-- The parts of a magnitude, up to the one that concludes the sequence. -/
def chain (c : GroupType) : List GroupType :=
  [.aluPcG0Nc, .aluPcG1Nc].take (relGroupNum c) ++ [c]

def isAlu : GroupType → Bool
  | .aluPcG0Nc | .aluPcG0 | .aluPcG1Nc | .aluPcG1 | .aluPcG2 => true
  | _ => false

/-- The immediate of a data processing instruction: eight bits, turned to the right by twice the
four bits above them. -/
def armImmediate (field : Word) : Word :=
  (extract field 0 8).rotateRight (2 * (extract field 8 4).toNat)

/-- Some immediate is the value. -/
def Encodable (v : Word) : Prop :=
  ∃ (imm : BitVec 8) (rot : BitVec 4), v = (imm.setWidth 32).rotateRight (2 * rot.toNat)

/-- The value fits the immediate of the instruction. -/
def Fits (t : GroupType) (v : Word) : Prop :=
  match t with
  | .aluPcG0Nc | .aluPcG0 | .aluPcG1Nc | .aluPcG1 | .aluPcG2 => Encodable v
  | .ldrPcG0 | .ldrPcG1 | .ldrPcG2 => v.toNat < 0x1000
  | .ldrsPcG0 | .ldrsPcG1 | .ldrsPcG2 => v.toNat < 0x100
  | .ldcPcG0 | .ldcPcG1 | .ldcPcG2 => v.toNat < 0x100

/-- The part of the offset `x` that an instruction gets. -/
def part (t : GroupType) (x : Word) : Word := relMaskForGroup t x.abs

/-- With the sign of the offset. -/
def signed (x v : Word) : Word := if x.slt 0#32 then -v else v

/-- An overflow is reported. -/
def Overflows (errors : List GroupError) : Prop :=
  .aluOverflow ∈ errors ∨ .relocationOverflow ∈ errors

/-- The relocation of type `t` splits the offset `x` exactly. -/
structure Exact (t : GroupType) (field x : Word) : Prop where
  disjoint : ∀ c, relConcludesGroup c = true →
    ((chain c).map (part · x)).Pairwise fun a b => a &&& b = 0#32
  sum : ∀ c, relConcludesGroup c = true →
    (((chain c).map (part · x)).map BitVec.toNat).sum = x.toInt.natAbs
  even : relConcludesGroup t = false →
    ∃ (imm : BitVec 8) (s : Nat), s % 2 = 0 ∧ s ≤ 24 ∧ part t x = imm.setWidth 32 <<< s
  stored : .writeInvalidType ∉ (writeRelocR field t x).2
  decodes : isAlu t = true → (relConcludesGroup t = true → Fits t (part t x)) →
    armImmediate (writeRelocR field t x).1 = part t x ∧
      extract (writeRelocR field t x).1 22 2 = if x.slt 0#32 then 1#32 else 2#32
  unpacked : isAlu t = true → (relConcludesGroup t = true → Fits t (part t x)) →
    relUnpackAddend t (writeRelocR field t x).1 = signed x (part t x)
  overflow : Overflows (writeRelocR field t x).2 ↔
    relConcludesGroup t = true ∧ ¬ Fits t (part t x)

/-! ## The condition, on the offset -/

/-- Where the code puts the eight bits. -/
def place (n : Nat) : Nat :=
  let p := n.log2 - 7
  if p % 4 < 2 then p else p / 4 * 4 + 4

/-- What one group leaves. -/
def leaves (n : Nat) : Nat := n % 2 ^ place n

/-- The groups before the one of this type. -/
def residual (t : GroupType) (x : Word) : Nat := leaves^[relGroupNum t] x.toInt.natAbs

/-- Eight bits, the highest of which is set, at a place of the form 4m+1. -/
def AtOddPlace (n : Nat) : Prop := ∃ m b, 128 ≤ b ∧ b < 256 ∧ n = b * 2 ^ (4 * m + 1)

/-- What is left for the instruction is small; or, where the sequence ends, it is reported as what
it is: too much. -/
def Proper (t : GroupType) (x : Word) : Prop :=
  match t with
  | .aluPcG0Nc | .aluPcG1Nc => residual t x < 0x100
  | .aluPcG0 | .aluPcG2 => residual t x < 0x100 ∨
      ¬ Encodable (BitVec.ofNat 32 (residual t x)) ∧ ¬ AtOddPlace (residual t x)
  | .aluPcG1 => False
  | .ldrPcG0 | .ldrPcG1 | .ldrPcG2 | .ldrsPcG0 | .ldrsPcG1 | .ldrsPcG2 => residual t x ≠ 2 ^ 31
  | .ldcPcG0 | .ldcPcG1 | .ldcPcG2 => residual t x < 0x100 ∨
      0x1000 ≤ residual t x ∧ residual t x ≠ 2 ^ 31

/-! ## Places -/

variable {v : Word} {n s : Nat} {c t : GroupType}

theorem highestBit_small (hlt : v.toNat < 256) : ∀ k, k ≤ 24 → highestBit v k = 7
  | 0, _ => rfl
  | k + 1, hk => by
    have hpow : 2 ^ 8 ≤ 2 ^ (8 + k) := Nat.pow_le_pow_right (by decide) (by omega)
    have hup : 2 ^ (8 + k) ≤ 2 ^ (8 + k + 1) := Nat.pow_le_pow_right (by decide) (by omega)
    have hbit := topBit_iff (a := v) (p := 8 + k) (by omega) (by omega)
    rw [highestBit, if_neg (fun h => absurd (hbit.mp h) (by omega)),
      highestBit_small hlt k (by omega)]

theorem log2_le_seven (hlt : n < 256) : n.log2 ≤ 7 := by
  rcases Nat.eq_zero_or_pos n with rfl | hpos
  · decide
  · exact Nat.le_of_lt_succ ((Nat.log2_lt (by omega)).mpr hlt)

theorem highestBit_toNat (v : Word) : highestBit v 24 - 7 = v.toNat.log2 - 7 := by
  by_cases hlt : v.toNat < 256
  · have hlog := log2_le_seven hlt
    rw [highestBit_small hlt 24 (Nat.le_refl 24)]
    omega
  · rw [highestBit_eq (by omega) 24 (Nat.le_refl 24) v.isLt]

theorem place_bounds (n : Nat) : n.log2 - 7 ≤ place n ∧ place n ≤ n.log2 - 7 + 2 := by
  simp only [place]
  split <;> omega

theorem place_le (hlt : n < 2 ^ 32) : place n ≤ 24 := by
  have hlog : n.log2 < 32 := by
    rcases Nat.eq_zero_or_pos n with rfl | hpos
    · decide
    · exact (Nat.log2_lt (by omega)).mpr hlt
  simp only [place]
  split <;> omega

/-- The bit test: a place 4m or 4m+1 stays, 4m+2 and 4m+3 become 4m+4. -/
theorem relAluMaskOffset_two (v : Word) : relAluMaskOffset v 2 = place v.toNat := by
  have hlog : v.toNat.log2 - 7 < 25 := by
    have hbound := place_le v.isLt
    have hlow := (place_bounds v.toNat).1
    omega
  have hround : ∀ p < 25, (if p &&& 2 ≠ 0 then p + (2 - p % 2) else p) =
      if p % 4 < 2 then p else p / 4 * 4 + 4 := by decide
  have hp := hround _ hlog
  simp only [relAluMaskOffset, highestBit_toNat]
  exact hp

theorem lt_place (n : Nat) : n < 2 ^ (place n + 8) := by
  have hlog : n < 2 ^ (n.log2 + 1) := Nat.lt_log2_self
  have hlow := (place_bounds n).1
  apply Nat.lt_of_lt_of_le hlog
  exact Nat.pow_le_pow_right (by decide) (by omega)

theorem place_small (hlt : n < 256) : place n = 0 := by
  have hlog := log2_le_seven hlt
  have hzero : n.log2 - 7 = 0 := by omega
  simp only [place, hzero]
  rfl

theorem eight_le_log2 (hge : 256 ≤ n) : 8 ≤ n.log2 := (Nat.le_log2 (by omega)).mpr hge

theorem place_pos (hge : 256 ≤ n) : 0 < place n := by
  have hlog := eight_le_log2 hge
  have hlow := (place_bounds n).1
  omega

/-! ## Parts -/

/-- The mask of the next group. -/
def groupMask (v : Word) : Word := window 32 8 (relAluMaskOffset v 2)

theorem takeGroups_residual (u v : Word) (n : Nat) :
    (takeGroups u v n).2 = (rest groupMask)^[n] v := by
  induction n generalizing u v with
  | zero => rfl
  | succ n ih => exact ih _ _

theorem takeGroups_part (u v : Word) (n : Nat) :
    (takeGroups u v (n + 1)).1 = taken groupMask ((rest groupMask)^[n] v) := by
  induction n generalizing u v with
  | zero => rfl
  | succ n ih => exact ih (v &&& groupMask v) _

theorem part_concludes (hc : relConcludesGroup c = true) (x : Word) :
    part c x = (rest groupMask)^[relGroupNum c] x.abs := by
  rw [part, relMaskForGroup]
  simp only [hc, if_true]
  exact takeGroups_residual _ _ _

theorem part_continues (ht : relConcludesGroup t = false) (x : Word) :
    part t x = taken groupMask ((rest groupMask)^[relGroupNum t] x.abs) := by
  rw [part, relMaskForGroup]
  simp only [ht, Bool.false_eq_true, if_false]
  exact takeGroups_part _ _ _

theorem chain_split (hc : relConcludesGroup c = true) (x : Word) :
    (chain c).map (part · x) = split groupMask x.abs (relGroupNum c) := by
  rw [chain, split, List.map_append, List.map_cons, List.map_nil, part_concludes hc]
  congr 1
  cases c <;> rfl

theorem toNat_abs (x : Word) : x.abs.toNat = x.toInt.natAbs := by
  have hx := x.isLt
  rw [BitVec.toNat_abs, BitVec.toInt_eq_msb_cond]
  cases x.msb with
  | true =>
    simp only [if_true]
    omega
  | false =>
    simp only [Bool.false_eq_true, if_false]
    omega

theorem toNat_rest (v : Word) : (rest groupMask v).toNat = leaves v.toNat := by
  rw [rest, groupMask, relAluMaskOffset_two, toNat_clear_window (lt_place _)]
  rfl

theorem toNat_residual (t : GroupType) (x : Word) :
    ((rest groupMask)^[relGroupNum t] x.abs).toNat = residual t x := by
  have hiter : ∀ n, ((rest groupMask)^[n] x.abs).toNat = leaves^[n] x.toInt.natAbs := by
    intro n
    induction n with
    | zero => exact toNat_abs x
    | succ n ih => rw [Function.iterate_succ_apply', Function.iterate_succ_apply', toNat_rest, ih]
  exact hiter _

theorem toNat_part_concludes (hc : relConcludesGroup c = true) (x : Word) :
    (part c x).toNat = residual c x := by
  rw [part_concludes hc, toNat_residual]

theorem toNat_part_continues (ht : relConcludesGroup t = false) (x : Word) :
    (part t x).toNat = residual t x / 2 ^ place (residual t x) * 2 ^ place (residual t x) := by
  rw [part_continues ht, taken, groupMask, relAluMaskOffset_two, toNat_and_window (lt_place _),
    toNat_residual]

/-! ## Writing an ADD or SUB -/

/-- The field with its opcode, and no immediate. -/
def opcodeField (field x : Word) : Word :=
  if (0#32).sle x then field &&& 0xFF3FF000#32 ||| 1#32 <<< 23
  else field &&& 0xFF3FF000#32 ||| 1#32 <<< 22

/-- The four bits above the immediate. -/
def rotBits (s : Nat) : BitVec 8 := (BitVec.ofNat 8 (32 - s) >>> 1) &&& 0xF#8

/-- The eight bits from place `s` on. -/
def immBits (v : Word) (s : Nat) : BitVec 8 := (v.sshiftRight s).setWidth 8

theorem writeAlu_field (field : Word) (t : GroupType) (x : Word) : (writeAlu field t x).1 =
    opcodeField field x ||| (rotBits (place (part t x).toNat)).setWidth 32 <<< 8 |||
      (immBits (part t x) (place (part t x).toNat)).setWidth 32 := by
  rw [← relAluMaskOffset_two]
  rfl

theorem toNat_rotBits (hs : s ≤ 24) : (rotBits s).toNat = (32 - s) / 2 % 16 := by
  have hall : ∀ s < 25, (rotBits s).toNat = (32 - s) / 2 % 16 := by decide
  exact hall s (by omega)

theorem toNat_immBits (v : Word) (hs : s ≤ 24) :
    (immBits v s).toNat = v.toNat / 2 ^ s % 2 ^ 8 := by
  apply toNat_of_bits (by decide)
  intro i hi
  rw [immBits, BitVec.getLsbD_setWidth, BitVec.getLsbD_sshiftRight, if_pos (by omega)]
  simp [hi, show i < 32 by omega]

theorem getLsbD_opcodeField_low (field x : Word) {i : Nat} (hi : i < 12) :
    (opcodeField field x).getLsbD i = false := by
  have hmask : ∀ i < 12, (0xFF3FF000#32).getLsbD i = false ∧
      (1#32 <<< 23).getLsbD i = false ∧ (1#32 <<< 22).getLsbD i = false := by decide
  obtain ⟨hfield, hadd, hsub⟩ := hmask i hi
  rw [opcodeField]
  split
  · rw [getLsbD_or, getLsbD_and, hfield, hadd, Bool.and_false, Bool.or_false]
  · rw [getLsbD_or, getLsbD_and, hfield, hsub, Bool.and_false, Bool.or_false]

theorem extract_opcodeField (field x : Word) :
    extract (opcodeField field x) 22 2 = if x.slt 0#32 then 1#32 else 2#32 := by
  have hsle : (0#32).sle x = !x.slt 0#32 := BitVec.sle_eq_not_slt
  apply eq_of_getLsbD_eq
  intro i hi
  rw [getLsbD_extract _ hi (by decide), opcodeField, hsle]
  by_cases hlow : i < 2
  · obtain rfl | rfl : i = 0 ∨ i = 1 := by omega
    · cases x.slt 0#32 <;> simp
    · cases x.slt 0#32 <;> simp
  · have hone : (1#32).getLsbD i = false := by simp [show i ≠ 0 by omega]
    have htwo : (2#32).getLsbD i = false := by
      have hall : ∀ i < 32, 2 ≤ i → (2#32).getLsbD i = false := by decide
      exact hall i hi (by omega)
    rw [decide_eq_false hlow, Bool.false_and]
    split
    · exact hone.symm
    · exact htwo.symm

section Fields
variable {o : Word} (ho : ∀ i < 12, o.getLsbD i = false) (rot imm : BitVec 8)
include ho

theorem extract_imm :
    extract (o ||| rot.setWidth 32 <<< 8 ||| imm.setWidth 32) 0 8 = imm.setWidth 32 := by
  apply eq_of_getLsbD_eq
  intro i hi
  rw [getLsbD_extract _ hi (by decide), Nat.zero_add, getLsbD_or, getLsbD_or,
    BitVec.getLsbD_shiftLeft]
  by_cases hlow : i < 8
  · rw [ho i (by omega)]
    simp [hlow]
  · have himm : imm.getLsbD i = false := getLsbD_of_ge _ _ (by omega)
    simp [hlow, himm]

theorem extract_rot (hrot : rot.toNat < 16) :
    extract (o ||| rot.setWidth 32 <<< 8 ||| imm.setWidth 32) 8 4 = rot.setWidth 32 := by
  apply eq_of_getLsbD_eq
  intro i hi
  rw [getLsbD_extract _ hi (by decide), getLsbD_or, getLsbD_or,
    BitVec.getLsbD_shiftLeft]
  by_cases hlow : i < 4
  · rw [ho (8 + i) (by omega)]
    simp [hlow, hi, show 8 + i < 32 by omega]
  · have hpow : 2 ^ 4 ≤ 2 ^ i := Nat.pow_le_pow_right (by decide) (by omega)
    have hhigh : rot.getLsbD i = false := Nat.testBit_lt_two_pow (by omega)
    simp [hlow, hhigh]

omit ho in
theorem extract_opcode :
    extract (o ||| rot.setWidth 32 <<< 8 ||| imm.setWidth 32) 22 2 = extract o 22 2 := by
  apply eq_of_getLsbD_eq
  intro i hi
  rw [getLsbD_extract _ hi (by decide), getLsbD_extract _ hi (by decide)]
  have hrot' : rot.getLsbD (22 + i - 8) = false := getLsbD_of_ge _ _ (by omega)
  have himm' : imm.getLsbD (22 + i) = false := getLsbD_of_ge _ _ (by omega)
  simp [hrot', himm']

end Fields

/-! ## Turning a byte -/

theorem toNat_byte (b : BitVec 8) : (b.setWidth 32).toNat = b.toNat := by
  rw [toNat_setWidth, Nat.mod_eq_of_lt]
  have hb := b.isLt
  omega

theorem toNat_rotateRight_byte (b : BitVec 8) (hs : s ≤ 24) :
    ((b.setWidth 32).rotateRight ((32 - s) % 32)).toNat = b.toNat * 2 ^ s := by
  have hb := b.isLt
  rw [BitVec.toNat_rotateRight, toNat_byte, Nat.mod_mod]
  rcases Nat.eq_zero_or_pos s with rfl | hpos
  · have hover : b.toNat <<< 32 % 2 ^ 32 = 0 := by rw [Nat.shiftLeft_eq, Nat.mul_mod_left]
    show b.toNat >>> 0 ||| b.toNat <<< 32 % 2 ^ 32 = b.toNat * 2 ^ 0
    rw [hover, Nat.shiftRight_zero, Nat.or_zero, Nat.pow_zero, Nat.mul_one]
  · have hpow : 2 ^ 8 ≤ 2 ^ (32 - s) := Nat.pow_le_pow_right (by decide) (by omega)
    have hfits : b.toNat * 2 ^ s < 2 ^ 32 := by
      have hup : 2 ^ s ≤ 2 ^ 24 := Nat.pow_le_pow_right (by decide) hs
      have hmul : b.toNat * 2 ^ s ≤ b.toNat * 2 ^ 24 := Nat.mul_le_mul_left _ hup
      omega
    rw [Nat.mod_eq_of_lt (by omega : 32 - s < 32), Nat.shiftRight_eq_div_pow,
      Nat.div_eq_of_lt (by omega), Nat.zero_or, Nat.sub_sub_self (by omega), Nat.shiftLeft_eq,
      Nat.mod_eq_of_lt hfits]

theorem turned_half_ne {b : BitVec 8} (hb : b.toNat ≠ 0) (hpos : 0 < s) (hs : s ≤ 24) :
    ((b.setWidth 32) >>> ((32 - s) / 2) ||| (b.setWidth 32) <<< (32 - (32 - s) / 2)).toNat ≠
      b.toNat * 2 ^ s := by
  intro h
  have hlt := b.isLt
  generalize hf : (32 - s) / 2 = f at h
  rw [BitVec.toNat_or, BitVec.toNat_ushiftRight, BitVec.toNat_shiftLeft, toNat_byte,
    Nat.shiftRight_eq_div_pow, Nat.shiftLeft_eq] at h
  -- the bits below the place are none of the byte
  have hlow : b.toNat / 2 ^ f = 0 := by
    by_cases hs8 : s < 8
    · have hpow : 2 ^ 12 ≤ 2 ^ f := Nat.pow_le_pow_right (by decide) (by omega)
      exact Nat.div_eq_of_lt (by omega)
    · apply Nat.eq_of_testBit_eq
      intro i
      rw [Nat.zero_testBit]
      by_cases hi : i < 8
      · have hbit := congrArg (Nat.testBit · i) h
        simp only [Nat.testBit_or, Nat.testBit_mul_two_pow, show ¬ s ≤ i by omega, decide_false,
          Bool.false_and, Bool.or_eq_false_iff] at hbit
        exact hbit.1
      · have hdiv : b.toNat / 2 ^ f ≤ b.toNat := Nat.div_le_self _ _
        have hpow : 2 ^ 8 ≤ 2 ^ i := Nat.pow_le_pow_right (by decide) (by omega)
        exact Nat.testBit_lt_two_pow (by omega)
  have hbyte : b.toNat < 2 ^ f := by
    rcases Nat.div_eq_zero_iff.mp hlow with hzero | hsmall
    · exact absurd hzero (Nat.two_pow_pos f).ne'
    · exact hsmall
  have hfits : b.toNat * 2 ^ (32 - f) < 2 ^ 32 := by
    calc b.toNat * 2 ^ (32 - f) < 2 ^ f * 2 ^ (32 - f) :=
          Nat.mul_lt_mul_of_pos_right hbyte (Nat.two_pow_pos _)
      _ = 2 ^ 32 := by rw [← Nat.pow_add, Nat.add_sub_of_le (by omega)]
  rw [hlow, Nat.zero_or, Nat.mod_eq_of_lt hfits] at h
  have hpow := Nat.eq_of_mul_eq_mul_left (Nat.pos_of_ne_zero hb) h
  have hexp := Nat.pow_right_injective (Nat.le_refl 2) hpow
  omega

/-! ## What is read from a written ADD or SUB -/

section Alu
variable (t : GroupType) (field x : Word)

/-- The byte and its place. -/
def immOf : BitVec 8 := immBits (part t x) (place (part t x).toNat)

theorem toNat_immOf : (immOf t x).toNat = (part t x).toNat / 2 ^ place (part t x).toNat := by
  rw [immOf, toNat_immBits _ (place_le (part t x).isLt), Nat.mod_eq_of_lt]
  apply Nat.div_lt_of_lt_mul
  rw [← Nat.pow_add]
  exact lt_place _

theorem rotBits_lt {s : Nat} (hs : s ≤ 24) : (rotBits s).toNat < 16 := by
  rw [toNat_rotBits hs]
  exact Nat.mod_lt _ (by decide)

theorem imm_writeAlu : extract (writeAlu field t x).1 0 8 = (immOf t x).setWidth 32 := by
  rw [writeAlu_field, extract_imm fun i hi => getLsbD_opcodeField_low field x hi]
  rfl

theorem toNat_rot_writeAlu : (extract (writeAlu field t x).1 8 4).toNat =
    (32 - place (part t x).toNat) / 2 % 16 := by
  have hs := place_le (part t x).isLt
  rw [writeAlu_field, extract_rot (fun i hi => getLsbD_opcodeField_low field x hi) _ _
    (rotBits_lt hs), toNat_byte, toNat_rotBits hs]

theorem armImmediate_writeAlu : armImmediate (writeAlu field t x).1 =
    ((immOf t x).setWidth 32).rotateRight (2 * ((32 - place (part t x).toNat) / 2 % 16)) := by
  rw [armImmediate, imm_writeAlu, toNat_rot_writeAlu]

theorem opcode_writeAlu :
    extract (writeAlu field t x).1 22 2 = if x.slt 0#32 then 1#32 else 2#32 := by
  rw [writeAlu_field, extract_opcode, extract_opcodeField]

theorem offsetAlu_writeAlu : offsetAlu (writeAlu field t x).1 =
    signed x ((immOf t x).setWidth 32 >>> ((32 - place (part t x).toNat) / 2 % 16) |||
      (immOf t x).setWidth 32 <<< (32 - (32 - place (part t x).toNat) / 2 % 16)) := by
  simp only [offsetAlu, toNat_rot_writeAlu, imm_writeAlu, opcode_writeAlu, signed]
  cases x.slt 0#32 <;> rfl

theorem errors_writeAlu : (writeAlu field t x).2 =
    if rest groupMask (part t x) ≠ 0#32 then [.aluOverflow] else [] := rfl

theorem overflows_writeAlu : Overflows (writeAlu field t x).2 ↔ leaves (part t x).toNat ≠ 0 := by
  have hclear : rest groupMask (part t x) = 0#32 ↔ leaves (part t x).toNat = 0 := by
    rw [← toNat_rest, ← BitVec.toNat_inj, BitVec.toNat_zero]
  rw [Overflows, errors_writeAlu, ne_eq (leaves _), ← hclear]
  split
  next h => simp [h]
  next h => simp [h]

theorem stored_writeAlu : .writeInvalidType ∉ (writeAlu field t x).2 := by
  rw [errors_writeAlu]
  split <;> simp

variable {t x}

theorem writeAlu_small (hv : (part t x).toNat < 256) :
    armImmediate (writeAlu field t x).1 = part t x ∧
      offsetAlu (writeAlu field t x).1 = signed x (part t x) := by
  have hplace := place_small hv
  have himm : (immOf t x).setWidth 32 = part t x := by
    apply eq_of_toNat_eq
    rw [toNat_byte, toNat_immOf, hplace, Nat.pow_zero, Nat.div_one]
  constructor
  · rw [armImmediate_writeAlu, hplace]
    apply eq_of_toNat_eq
    rw [← himm]
    show (((immOf t x).setWidth 32).rotateRight ((32 - 0) % 32)).toNat = _
    rw [toNat_rotateRight_byte _ (Nat.zero_le 24), toNat_byte, Nat.pow_zero, Nat.mul_one]
  · rw [offsetAlu_writeAlu, hplace, himm]
    simp

theorem signed_injective {a b : Word} (h : signed x a = signed x b) : a = b := by
  rw [signed, signed] at h
  split at h
  · exact BitVec.neg_inj.mp h
  · exact h

theorem writeAlu_unpacked_ne (hge : 256 ≤ (part t x).toNat)
    (hrest : leaves (part t x).toNat = 0) :
    offsetAlu (writeAlu field t x).1 ≠ signed x (part t x) := by
  have hs := place_le (part t x).isLt
  have hpos := place_pos hge
  have himm := toNat_immOf t x
  have hvalue : (part t x).toNat = (immOf t x).toNat * 2 ^ place (part t x).toNat := by
    rw [himm, Nat.div_mul_cancel (Nat.dvd_of_mod_eq_zero hrest)]
  have hne : (immOf t x).toNat ≠ 0 := by
    intro hzero
    rw [hzero, Nat.zero_mul] at hvalue
    omega
  intro h
  rw [offsetAlu_writeAlu] at h
  have hword := congrArg BitVec.toNat (signed_injective h)
  rw [Nat.mod_eq_of_lt (by omega : (32 - place (part t x).toNat) / 2 < 16)] at hword
  exact turned_half_ne hne hpos hs (hword.trans hvalue)

end Alu

/-! ## What fits an immediate -/

theorem encodable_small (hv : v.toNat < 256) : Encodable v := by
  refine ⟨v.setWidth 8, 0#4, ?_⟩
  apply eq_of_toNat_eq
  show v.toNat = (((v.setWidth 8).setWidth 32).rotateRight ((32 - 0) % 32)).toNat
  rw [toNat_rotateRight_byte _ (Nat.zero_le 24), toNat_setWidth, Nat.mod_eq_of_lt hv,
    Nat.pow_zero, Nat.mul_one]

theorem encodable_even (heven : place v.toNat % 2 = 0) (hrest : leaves v.toNat = 0) :
    Encodable v := by
  have hs := place_le v.isLt
  have hbyte : v.toNat / 2 ^ place v.toNat < 2 ^ 8 := by
    apply Nat.div_lt_of_lt_mul
    rw [← Nat.pow_add]
    exact lt_place _
  refine ⟨BitVec.ofNat 8 (v.toNat / 2 ^ place v.toNat),
    BitVec.ofNat 4 ((32 - place v.toNat) / 2), ?_⟩
  have hrot : 2 * (BitVec.ofNat 4 ((32 - place v.toNat) / 2)).toNat =
      (32 - place v.toNat) % 32 := by
    rw [toNat_ofNat]
    omega
  apply eq_of_toNat_eq
  rw [hrot, toNat_rotateRight_byte _ hs, toNat_ofNat, Nat.mod_eq_of_lt hbyte,
    Nat.div_mul_cancel (Nat.dvd_of_mod_eq_zero hrest)]

theorem atOddPlace_of_odd (hge : 256 ≤ n) (hodd : place n % 2 = 1) (hrest : leaves n = 0) :
    AtOddPlace n := by
  have hlog := eight_le_log2 hge
  have hplace : place n % 4 = 1 ∧ n.log2 = place n + 7 := by
    revert hodd
    simp only [place]
    split <;> omega
  have hdvd := Nat.dvd_of_mod_eq_zero hrest
  refine ⟨place n / 4, n / 2 ^ place n, ?_, ?_, ?_⟩
  · rw [Nat.le_div_iff_mul_le (Nat.two_pow_pos _)]
    have hself := Nat.log2_self_le (n := n) (by omega)
    rw [hplace.2, Nat.pow_add, Nat.mul_comm] at hself
    exact hself
  · apply Nat.div_lt_of_lt_mul
    exact Nat.lt_of_lt_of_eq (lt_place n) (Nat.pow_add 2 _ 8)
  · have hexp : 4 * (place n / 4) + 1 = place n := by omega
    rw [hexp, Nat.div_mul_cancel hdvd]

theorem leaves_atOddPlace (h : AtOddPlace n) : leaves n = 0 := by
  obtain ⟨m, b, hlo, hhi, rfl⟩ := h
  have hlog : (b * 2 ^ (4 * m + 1)).log2 = 4 * m + 8 := by
    rw [Nat.log2_eq_iff (Nat.mul_pos (by omega) (Nat.two_pow_pos _)).ne']
    constructor
    · calc 2 ^ (4 * m + 8)
          = 2 ^ 7 * 2 ^ (4 * m + 1) := by rw [← Nat.pow_add]; congr 1; omega
        _ ≤ b * 2 ^ (4 * m + 1) := Nat.mul_le_mul_right _ hlo
    · calc b * 2 ^ (4 * m + 1) < 2 ^ 8 * 2 ^ (4 * m + 1) :=
            Nat.mul_lt_mul_of_pos_right hhi (Nat.two_pow_pos _)
        _ = 2 ^ (4 * m + 8 + 1) := by rw [← Nat.pow_add]; congr 1; omega
  have hplace : place (b * 2 ^ (4 * m + 1)) = 4 * m + 1 := by
    simp only [place, hlog]
    split <;> omega
  rw [leaves, hplace, Nat.mul_mod_left]

theorem leaves_ne_zero_iff (hge : 256 ≤ v.toNat) :
    ¬ Encodable v ∧ leaves v.toNat ≠ 0 ↔ ¬ Encodable v ∧ ¬ AtOddPlace v.toNat := by
  apply and_congr_right
  intro hcode
  rw [not_iff_not]
  constructor
  · intro hrest
    rcases Nat.mod_two_eq_zero_or_one (place v.toNat) with heven | hodd
    · exact absurd (encodable_even heven hrest) hcode
    · exact atOddPlace_of_odd hge hodd hrest
  · exact leaves_atOddPlace

theorem residual_le (t : GroupType) (x : Word) : residual t x ≤ 2 ^ 31 := by
  have hiter : ∀ n, leaves^[n] x.toInt.natAbs ≤ x.toInt.natAbs := by
    intro n
    induction n with
    | zero => exact Nat.le_refl _
    | succ n ih =>
      rw [Function.iterate_succ_apply']
      exact Nat.le_trans (Nat.mod_le _ _) ih
  have hlo := BitVec.le_toInt x
  have hhi := BitVec.toInt_lt (x := x)
  have hx := hiter (relGroupNum t)
  rw [residual]
  omega

theorem sle_abs_iff (hv : v.toNat ≤ 2 ^ 31) {k : Nat} (hk : k < 2 ^ 31) (hpos : 0 < k) :
    (BitVec.ofNat 32 k).sle v.abs ↔ k ≤ v.toNat ∧ v.toNat ≠ 2 ^ 31 := by
  have hnat : (BitVec.ofNat 32 k).toNat = k := by
    rw [toNat_ofNat, Nat.mod_eq_of_lt (by omega)]
  have hint : (BitVec.ofNat 32 k).toInt = k := by
    rw [BitVec.toInt_eq_toNat_of_lt (by omega), hnat]
  rw [BitVec.sle_iff_toInt_le, hint]
  by_cases hmin : v.toNat = 2 ^ 31
  · obtain rfl : v = intMin 32 := by
      apply eq_of_toNat_eq
      rw [hmin]
      rfl
    have hneg : (intMin 32).abs.toInt = -2 ^ 31 := by decide
    rw [hneg]
    simp
    omega
  · have hmsb : v.msb = false := by
      rw [BitVec.msb_eq_decide, decide_eq_false]
      omega
    have habs : v.abs = v := by
      rw [BitVec.abs, hmsb]
      rfl
    rw [habs, BitVec.toInt_eq_toNat_of_msb hmsb]
    omega

/-! ## Exactness -/

theorem chain_disjoint (x : Word) (hc : relConcludesGroup c = true) :
    ((chain c).map (part · x)).Pairwise fun a b => a &&& b = 0#32 := by
  rw [chain_split hc]
  exact split_disjoint _ _ _

theorem chain_sum (x : Word) (hc : relConcludesGroup c = true) :
    (((chain c).map (part · x)).map BitVec.toNat).sum = x.toInt.natAbs := by
  rw [chain_split hc, split_sum, toNat_abs]

/-- What a part that does not conclude the sequence has: the highest bit, and nothing below its
place. -/
theorem part_continues_facts (ht : relConcludesGroup t = false) (x : Word) :
    ((part t x).toNat < 256 ↔ residual t x < 256) ∧ leaves (part t x).toNat = 0 := by
  have hvalue := toNat_part_continues ht x
  by_cases hsmall : residual t x < 256
  · rw [place_small hsmall, Nat.pow_zero, Nat.div_one, Nat.mul_one] at hvalue
    rw [hvalue, leaves, place_small hsmall, Nat.pow_zero, Nat.mod_one]
    exact ⟨Iff.rfl, rfl⟩
  · have hge : 256 ≤ residual t x := by omega
    have hlog8 := eight_le_log2 hge
    have hle : place (residual t x) ≤ (residual t x).log2 := by
      have hhigh := (place_bounds (residual t x)).2
      omega
    have hself := Nat.log2_self_le (n := residual t x) (by omega)
    have hlow : 2 ^ (residual t x).log2 ≤ (part t x).toNat := by
      rw [hvalue]
      calc 2 ^ (residual t x).log2
          = 2 ^ (residual t x).log2 / 2 ^ place (residual t x) * 2 ^ place (residual t x) := by
            rw [Nat.div_mul_cancel (Nat.pow_dvd_pow 2 hle)]
        _ ≤ residual t x / 2 ^ place (residual t x) * 2 ^ place (residual t x) :=
            Nat.mul_le_mul_right _ (Nat.div_le_div_right hself)
    have hup : (part t x).toNat ≤ residual t x := by
      rw [hvalue]
      exact Nat.div_mul_le_self _ _
    have hpow : 2 ^ 8 ≤ 2 ^ (residual t x).log2 := Nat.pow_le_pow_right (by decide) hlog8
    have hlog : (part t x).toNat.log2 = (residual t x).log2 := by
      rw [Nat.log2_eq_iff (by omega)]
      exact ⟨hlow, Nat.lt_of_le_of_lt hup Nat.lt_log2_self⟩
    have hplace : place (part t x).toNat = place (residual t x) := by rw [place, place, hlog]
    refine ⟨by omega, ?_⟩
    rw [leaves, hplace, hvalue, Nat.mul_mod_left]

section Types
variable {t : GroupType} {field x : Word}

theorem exact_continues_iff (halu : isAlu t = true) (ht : relConcludesGroup t = false)
    (hwrite : writeRelocR field t x = writeAlu field t x)
    (hread : ∀ w, relUnpackAddend t w = offsetAlu w) :
    Exact t field x ↔ residual t x < 0x100 := by
  obtain ⟨hsmall, hrest⟩ := part_continues_facts ht x
  constructor
  · intro hexact
    by_contra hlarge
    have hunpack := hexact.unpacked halu (fun h => absurd (ht.symm.trans h) Bool.false_ne_true)
    rw [hwrite, hread] at hunpack
    exact writeAlu_unpacked_ne field (by omega) hrest hunpack
  · intro hlt
    have hpart := hsmall.mpr hlt
    obtain ⟨himm, hoffset⟩ := writeAlu_small field hpart
    refine ⟨fun c hc => chain_disjoint x hc, fun c hc => chain_sum x hc, ?_, ?_, ?_, ?_, ?_⟩
    · intro _
      refine ⟨(part t x).setWidth 8, 0, rfl, Nat.zero_le _, ?_⟩
      apply eq_of_toNat_eq
      rw [BitVec.shiftLeft_zero, toNat_byte, toNat_setWidth, Nat.mod_eq_of_lt hpart]
    · rw [hwrite]
      exact stored_writeAlu t field x
    · intro _ _
      rw [hwrite]
      exact ⟨himm, opcode_writeAlu t field x⟩
    · intro _ _
      rw [hwrite, hread]
      exact hoffset
    · rw [hwrite, overflows_writeAlu, hrest, ht]
      simp

theorem exact_concludes_iff (halu : isAlu t = true) (ht : relConcludesGroup t = true)
    (hwrite : writeRelocR field t x = writeAlu field t x)
    (hread : ∀ w, relUnpackAddend t w = offsetAlu w) (hfits : ∀ v, Fits t v ↔ Encodable v) :
    Exact t field x ↔ residual t x < 0x100 ∨
      ¬ Encodable (BitVec.ofNat 32 (residual t x)) ∧ ¬ AtOddPlace (residual t x) := by
  have hvalue := toNat_part_concludes ht x
  have hword : BitVec.ofNat 32 (residual t x) = part t x := by
    rw [← hvalue, BitVec.ofNat_toNat, BitVec.setWidth_eq]
  rw [hword, ← hvalue]
  constructor
  · intro hexact
    by_cases hlt : (part t x).toNat < 256
    · exact .inl hlt
    · right
      have hge : 256 ≤ (part t x).toNat := by omega
      have hover := hexact.overflow
      rw [hwrite, overflows_writeAlu, ht, hfits] at hover
      rw [← leaves_ne_zero_iff hge]
      have hcode : ¬ Encodable (part t x) := by
        intro hcode
        have hrest : leaves (part t x).toNat = 0 := by
          by_contra hne
          exact (hover.mp hne).2 hcode
        have hunpack := hexact.unpacked halu (fun _ => (hfits _).mpr hcode)
        rw [hwrite, hread] at hunpack
        exact writeAlu_unpacked_ne field hge hrest hunpack
      exact ⟨hcode, hover.mpr ⟨rfl, hcode⟩⟩
  · intro hproper
    refine ⟨fun c hc => chain_disjoint x hc, fun c hc => chain_sum x hc,
      fun h => absurd (ht.symm.trans h) (by decide), ?_, ?_, ?_, ?_⟩
    · rw [hwrite]
      exact stored_writeAlu t field x
    · intro _ hfit
      rw [hwrite]
      refine ⟨?_, opcode_writeAlu t field x⟩
      rcases hproper with hlt | hcode
      · exact (writeAlu_small field hlt).1
      · exact absurd ((hfits _).mp (hfit ht)) hcode.1
    · intro _ hfit
      rw [hwrite, hread]
      rcases hproper with hlt | hcode
      · exact (writeAlu_small field hlt).2
      · exact absurd ((hfits _).mp (hfit ht)) hcode.1
    · rw [hwrite, overflows_writeAlu, ht, hfits]
      by_cases hlt : (part t x).toNat < 256
      · have hcode := encodable_small hlt
        rw [leaves, place_small hlt, Nat.pow_zero, Nat.mod_one]
        simp [hcode]
      · have hcode := (leaves_ne_zero_iff (by omega)).mpr (hproper.resolve_left hlt)
        simp [hcode.1, hcode.2]

theorem exact_bounded_iff (halu : isAlu t = false) (ht : relConcludesGroup t = true) {k n : Nat}
    (hk : k < 2 ^ 31) (hpos : 0 < k)
    (herrors : (writeRelocR field t x).2 =
      if (BitVec.ofNat 32 k).sle (part t x).abs then [.relocationOverflow] else [])
    (hfits : ∀ v, Fits t v ↔ v.toNat < n) :
    Exact t field x ↔ (k ≤ residual t x ∧ residual t x ≠ 2 ^ 31 ↔ n ≤ residual t x) := by
  have hvalue := toNat_part_concludes ht x
  have hsle := sle_abs_iff (v := part t x) (hvalue ▸ residual_le t x) hk hpos
  have hover : Overflows (writeRelocR field t x).2 ↔ k ≤ residual t x ∧ residual t x ≠ 2 ^ 31 := by
    rw [← hvalue, ← hsle, Overflows, herrors]
    split
    next h => simp [h]
    next h => simp [h]
  have hnot : relConcludesGroup t = true ∧ ¬ Fits t (part t x) ↔ n ≤ residual t x := by
    rw [hfits, hvalue, Nat.not_lt, ht]
    simp
  have hnoalu : isAlu t ≠ true := by rw [halu]; exact Bool.false_ne_true
  rw [← hover, ← hnot]
  constructor
  · exact fun hexact => hexact.overflow
  · intro hoverflow
    refine ⟨fun c hc => chain_disjoint x hc, fun c hc => chain_sum x hc,
      fun h => absurd (ht.symm.trans h) (by decide), ?_, fun h => absurd h hnoalu,
      fun h => absurd h hnoalu, hoverflow⟩
    rw [herrors]
    split <;> simp

end Types

/-- For every type, every field and every offset, the relocation splits the offset exactly if the
offset is proper. -/
theorem group_exact_iff (t : GroupType) (field x : Word) : Exact t field x ↔ Proper t x := by
  have hbounded : ∀ r, (0x1000 ≤ r ∧ r ≠ 2 ^ 31 ↔ 0x1000 ≤ r) ↔ r ≠ 2 ^ 31 := by omega
  have hbyte : ∀ r, (0x100 ≤ r ∧ r ≠ 2 ^ 31 ↔ 0x100 ≤ r) ↔ r ≠ 2 ^ 31 := by omega
  have hcoarse : ∀ r, (0x1000 ≤ r ∧ r ≠ 2 ^ 31 ↔ 0x100 ≤ r) ↔
      r < 0x100 ∨ 0x1000 ≤ r ∧ r ≠ 2 ^ 31 := by omega
  cases t with
  | aluPcG0Nc | aluPcG1Nc => exact exact_continues_iff rfl rfl rfl fun _ => rfl
  | aluPcG0 | aluPcG2 =>
    exact exact_concludes_iff rfl rfl rfl (fun _ => rfl) fun _ => Iff.rfl
  | aluPcG1 => exact ⟨fun hexact => hexact.stored (List.mem_singleton_self _), False.elim⟩
  | ldrPcG0 | ldrPcG1 | ldrPcG2 =>
    exact (exact_bounded_iff rfl rfl (by decide) (by decide) rfl fun _ => Iff.rfl).trans
      (hbounded _)
  | ldrsPcG0 | ldrsPcG1 | ldrsPcG2 =>
    exact (exact_bounded_iff rfl rfl (by decide) (by decide) rfl fun _ => Iff.rfl).trans (hbyte _)
  | ldcPcG0 | ldcPcG1 | ldcPcG2 =>
    exact (exact_bounded_iff rfl rfl (by decide) (by decide) rfl fun _ => Iff.rfl).trans
      (hcoarse _)

/-- ADD r0, pc, #0 for the offset 0x102: no byte at an even place is the part. The instruction adds
0x204, and 0x1020000 is read back. -/
theorem offset_doubled :
    part .aluPcG0Nc 0x102#32 = 0x102#32 ∧
    armImmediate (writeRelocR 0xE28F0000#32 .aluPcG0Nc 0x102#32).1 = 0x204#32 ∧
    relUnpackAddend .aluPcG0Nc (writeRelocR 0xE28F0000#32 .aluPcG0Nc 0x102#32).1 = 0x1020000#32 ∧
    ¬ Exact .aluPcG0Nc 0xE28F0000#32 0x102#32 := by
  refine ⟨by decide, by decide, by decide, ?_⟩
  intro hexact
  have hdecodes := (hexact.decodes rfl (fun h => absurd h (by decide))).1
  exact absurd hdecodes (by decide)

end Omap4Hal.Elfload.Group

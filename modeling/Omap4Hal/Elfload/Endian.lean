import Omap4Hal.Elfload.ArmReloc

/- The order of the bytes of a field (`dload_endian.c`). -/
namespace Omap4Hal.Elfload

open BitVec (add_eq_or_of_and_eq_zero eq_of_getLsbD_eq getLsbD_and getLsbD_or getLsbD_shiftLeft
  getLsbD_ushiftRight reduceGetLsb)

def changeEndian32 (v : Word) : Word :=
  ((v &&& 0x000000FF#32) <<< 24) + ((v &&& 0x0000FF00#32) <<< 8) + ((v &&& 0x00FF0000#32) >>> 8) +
    ((v &&& 0xFF000000#32) >>> 24)

def changeEndian16 (v : Half) : Half := ((v &&& 0x00FF#16) <<< 8) + ((v &&& 0xFF00#16) >>> 8)

theorem add_four_eq_or {a b c d : Word} (hb : a &&& b = 0#32) (hc : (a ||| b) &&& c = 0#32)
    (hd : (a ||| b ||| c) &&& d = 0#32) : a + b + c + d = a ||| b ||| c ||| d := by
  rw [add_eq_or_of_and_eq_zero a b hb, add_eq_or_of_and_eq_zero _ c hc,
    add_eq_or_of_and_eq_zero _ d hd]

theorem changeEndian32_eq_or (v : Word) : changeEndian32 v =
    (v &&& 0x000000FF#32) <<< 24 ||| (v &&& 0x0000FF00#32) <<< 8 ||| (v &&& 0x00FF0000#32) >>> 8 |||
      (v &&& 0xFF000000#32) >>> 24 := by
  apply add_four_eq_or
  all_goals
    apply eq_of_getLsbD_eq
    intro i hi
    simp only [getLsbD_and, getLsbD_or, getLsbD_shiftLeft,
      getLsbD_ushiftRight, BitVec.getLsbD_zero]
    interval_cases i <;> simp only [Nat.reduceLT, Nat.reduceSub, Nat.reduceAdd, reduceGetLsb,
      decide_true, decide_false, Bool.and_true, Bool.true_and, Bool.and_false, Bool.false_and,
      Bool.or_false, Bool.false_or, Bool.not_true, Bool.not_false, Bool.and_self, Nat.add_zero]

theorem getLsbD_changeEndian32 (v : Word) {i : Nat} (hi : i < 32) :
    (changeEndian32 v).getLsbD i =
      if i < 8 then v.getLsbD (i + 24)
      else if i < 16 then v.getLsbD (i + 8)
      else if i < 24 then v.getLsbD (i - 8)
      else v.getLsbD (i - 24) := by
  simp only [changeEndian32_eq_or, getLsbD_and, getLsbD_or, getLsbD_shiftLeft,
    getLsbD_ushiftRight]
  interval_cases i <;> simp only [Nat.reduceLT, Nat.reduceSub, Nat.reduceAdd, reduceGetLsb,
    decide_true, decide_false, if_true, if_false, Bool.and_true, Bool.true_and, Bool.and_false,
    Bool.false_and, Bool.or_false, Bool.false_or, Bool.not_true, Bool.not_false, Bool.and_self,
    Nat.zero_add, Nat.add_zero]

theorem changeEndian32_changeEndian32 (v : Word) : changeEndian32 (changeEndian32 v) = v := by
  apply eq_of_getLsbD_eq
  intro i hi
  rw [getLsbD_changeEndian32 _ hi]
  by_cases h8 : i < 8
  · rw [if_pos h8, getLsbD_changeEndian32 _ (by omega)]
    simp [show ¬ i + 24 < 8 by omega]
  by_cases h16 : i < 16
  · rw [if_neg h8, if_pos h16, getLsbD_changeEndian32 _ (by omega)]
    simp [show ¬ i + 8 < 8 by omega, show ¬ i + 8 < 16 by omega, show i + 8 < 24 by omega]
  by_cases h24 : i < 24
  · rw [if_neg h8, if_neg h16, if_pos h24, getLsbD_changeEndian32 _ (by omega)]
    simp [show ¬ i - 8 < 8 by omega, show i - 8 < 16 by omega, show i - 8 + 8 = i by omega]
  · rw [if_neg h8, if_neg h16, if_neg h24, getLsbD_changeEndian32 _ (by omega)]
    simp [show i - 24 < 8 by omega, show i - 24 + 24 = i by omega]

theorem changeEndian16_changeEndian16 (v : Half) : changeEndian16 (changeEndian16 v) = v := by
  have hor : ∀ h : Half,
      changeEndian16 h = (h &&& 0x00FF#16) <<< 8 ||| (h &&& 0xFF00#16) >>> 8 := by
    intro h
    rw [changeEndian16, add_eq_or_of_and_eq_zero]
    apply eq_of_getLsbD_eq
    intro i hi
    interval_cases i <;> simp
  rw [hor, hor]
  apply eq_of_getLsbD_eq
  intro i hi
  interval_cases i <;> simp

@[simp] theorem first_ofHalves (h₁ h₂ : Half) : first (ofHalves h₁ h₂) = h₁ := by
  apply eq_of_getLsbD_eq
  intro i hi
  simp [first, ofHalves, hi]

@[simp] theorem second_ofHalves (h₁ h₂ : Half) : second (ofHalves h₁ h₂) = h₂ := by
  apply eq_of_getLsbD_eq
  intro i hi
  simp [second, ofHalves, hi, show 16 + i < 32 by omega]

@[simp] theorem ofHalves_first_second (field : Word) :
    ofHalves (first field) (second field) = field := by
  apply eq_of_getLsbD_eq
  intro i hi
  simp only [ofHalves, first, second, getLsbD_or, getLsbD_shiftLeft,
    getLsbD_ushiftRight, BitVec.getLsbD_setWidth]
  by_cases hlow : i < 16
  · simp [hi, hlow]
  · simp [hi, hlow, show i - 16 < 16 by omega, show i - 16 < 32 by omega,
      show 16 + (i - 16) = i by omega]

end Omap4Hal.Elfload

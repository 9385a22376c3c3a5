import Mathlib.Data.BitVec

/- Words of four bytes in a memory of bytes, the lowest byte first. Addresses are words and wrap
   around. -/
namespace Omap4Hal.Lib

abbrev Memory := BitVec 32 → BitVec 8

def readWord (m : Memory) (a : BitVec 32) : BitVec 32 := m (a + 3) ++ m (a + 2) ++ m (a + 1) ++ m a

def writeWord (m : Memory) (a w : BitVec 32) : Memory := fun x =>
  if x = a then w.extractLsb' 0 8
  else if x = a + 1 then w.extractLsb' 8 8
  else if x = a + 2 then w.extractLsb' 16 8
  else if x = a + 3 then w.extractLsb' 24 8
  else m x

theorem readWord_writeWord (m : Memory) (a w : BitVec 32) : readWord (writeWord m a w) a = w := by
  have h1 : a + 1 ≠ a := by bv_omega
  have h2 : a + 2 ≠ a := by bv_omega
  have h21 : a + 2 ≠ a + 1 := by bv_omega
  have h3 : a + 3 ≠ a := by bv_omega
  have h31 : a + 3 ≠ a + 1 := by bv_omega
  have h32 : a + 3 ≠ a + 2 := by bv_omega
  simp only [readWord, writeWord, h1, h2, h21, h3, h31, h32, if_true, if_false]
  apply BitVec.eq_of_getLsbD_eq
  intro i hi
  simp only [BitVec.getLsbD_append, BitVec.getLsbD_extractLsb']
  by_cases h8 : i < 8
  · simp [h8]
  by_cases h16 : i < 16
  · simp [h8, show i - 8 < 8 by omega, show 8 + (i - 8) = i by omega]
  by_cases h24 : i < 24
  · simp [h8, show ¬ i - 8 < 8 by omega, show i - 8 - 8 < 8 by omega,
      show 16 + (i - 8 - 8) = i by omega]
  · simp [h8, show ¬ i - 8 < 8 by omega, show ¬ i - 8 - 8 < 8 by omega,
      show i - 8 - 8 - 8 < 8 by omega, show 24 + (i - 8 - 8 - 8) = i by omega]

variable {a : BitVec 32}

theorem writeWord_inj {m : Memory} {w w' : BitVec 32} :
    writeWord m a w = writeWord m a w' ↔ w = w' := by
  constructor
  · intro h
    rw [← readWord_writeWord m a w, h, readWord_writeWord]
  · intro h
    rw [h]

/-- Two words that have no byte in common. -/
def Apart (a b : BitVec 32) : Prop := 4 ≤ b - a ∧ 4 ≤ a - b

theorem Apart.symm {b : BitVec 32} (h : Apart a b) : Apart b a := ⟨h.2, h.1⟩

theorem readWord_writeWord_of_apart (m : Memory) {b : BitVec 32} (h : Apart a b) (w : BitVec 32) :
    readWord (writeWord m a w) b = readWord m b := by
  obtain ⟨hab, hba⟩ := h
  have hbyte : ∀ x, x ≠ a → x ≠ a + 1 → x ≠ a + 2 → x ≠ a + 3 → writeWord m a w x = m x := by
    intro x h0 h1 h2 h3
    rw [writeWord, if_neg h0, if_neg h1, if_neg h2, if_neg h3]
  simp only [readWord]
  rw [hbyte b (by bv_omega) (by bv_omega) (by bv_omega) (by bv_omega),
    hbyte (b + 1) (by bv_omega) (by bv_omega) (by bv_omega) (by bv_omega),
    hbyte (b + 2) (by bv_omega) (by bv_omega) (by bv_omega) (by bv_omega),
    hbyte (b + 3) (by bv_omega) (by bv_omega) (by bv_omega) (by bv_omega)]

end Omap4Hal.Lib

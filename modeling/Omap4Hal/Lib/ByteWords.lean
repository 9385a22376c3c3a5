import Mathlib.Data.List.GetD

/- Words of four bytes in a sequence of bytes, the lowest byte first. Places are numbers and do
   not wrap around. -/
namespace Omap4Hal.Lib

def wordOf (b₀ b₁ b₂ b₃ : UInt8) : UInt32 :=
  UInt32.ofNat (b₀.toNat + 256 * b₁.toNat + 65536 * b₂.toNat + 16777216 * b₃.toNat)

/-- The word that starts at a place. -/
def wordAt (b : Nat → UInt8) (i : Nat) : UInt32 := wordOf (b i) (b (i + 1)) (b (i + 2)) (b (i + 3))

def wordBytes (v : UInt32) : List UInt8 :=
  [UInt8.ofNat v.toNat, UInt8.ofNat (v.toNat / 256), UInt8.ofNat (v.toNat / 65536),
    UInt8.ofNat (v.toNat / 16777216)]

@[simp] theorem length_wordBytes (v : UInt32) : (wordBytes v).length = 4 := rfl

theorem wordOf_toNat (b₀ b₁ b₂ b₃ : UInt8) : (wordOf b₀ b₁ b₂ b₃).toNat =
    b₀.toNat + 256 * b₁.toNat + 65536 * b₂.toNat + 16777216 * b₃.toNat := by
  have h₀ := b₀.toNat_lt
  have h₁ := b₁.toNat_lt
  have h₂ := b₂.toNat_lt
  have h₃ := b₃.toNat_lt
  rw [wordOf, UInt32.toNat_ofNat']
  omega

theorem wordOf_bytes (v : UInt32) : wordOf (UInt8.ofNat v.toNat) (UInt8.ofNat (v.toNat / 256))
    (UInt8.ofNat (v.toNat / 65536)) (UInt8.ofNat (v.toNat / 16777216)) = v := by
  have hv := v.toNat_lt
  apply UInt32.toNat_inj.mp
  rw [wordOf_toNat, UInt8.toNat_ofNat', UInt8.toNat_ofNat', UInt8.toNat_ofNat', UInt8.toNat_ofNat']
  omega

theorem wordOf_inj {b₀ b₁ b₂ b₃ c₀ c₁ c₂ c₃ : UInt8} :
    wordOf b₀ b₁ b₂ b₃ = wordOf c₀ c₁ c₂ c₃ ↔ b₀ = c₀ ∧ b₁ = c₁ ∧ b₂ = c₂ ∧ b₃ = c₃ := by
  have hb := wordOf_toNat b₀ b₁ b₂ b₃
  have hc := wordOf_toNat c₀ c₁ c₂ c₃
  have h₀ := b₀.toNat_lt
  have h₁ := b₁.toNat_lt
  have h₂ := b₂.toNat_lt
  have k₀ := c₀.toNat_lt
  have k₁ := c₁.toNat_lt
  have k₂ := c₂.toNat_lt
  constructor
  · intro h
    rw [h, hc] at hb
    simp only [← UInt8.toNat_inj]
    omega
  · rintro ⟨rfl, rfl, rfl, rfl⟩
    rfl

theorem wordAt_inj {b c : Nat → UInt8} {i j : Nat} :
    wordAt b i = wordAt c j ↔ ∀ k, k < 4 → b (i + k) = c (j + k) := by
  rw [wordAt, wordAt, wordOf_inj]
  constructor
  · rintro ⟨h₀, h₁, h₂, h₃⟩ k hk
    obtain rfl | rfl | rfl | rfl : k = 0 ∨ k = 1 ∨ k = 2 ∨ k = 3 := by omega
    · exact h₀
    · exact h₁
    · exact h₂
    · exact h₃
  · intro h
    exact ⟨h 0 (by omega), h 1 (by omega), h 2 (by omega), h 3 (by omega)⟩

/-- The bytes of a list, with zeros behind it. -/
def bytesOfList (l : List UInt8) (i : Nat) : UInt8 := l.getD i 0

theorem wordAt_append (pre : List UInt8) (v : UInt32) (post : List UInt8) :
    wordAt (bytesOfList (pre ++ (wordBytes v ++ post))) pre.length = v := by
  have hbyte : ∀ k, k < 4 →
      bytesOfList (pre ++ (wordBytes v ++ post)) (pre.length + k) =
        bytesOfList (wordBytes v) k := by
    intro k hk
    rw [bytesOfList, List.getD_append_right _ _ _ _ (by omega), Nat.add_sub_cancel_left,
      List.getD_append _ _ _ _ (by simpa using hk), bytesOfList]
  calc
    _ = wordAt (bytesOfList (wordBytes v)) 0 :=
      wordAt_inj.mpr fun k hk => by rw [hbyte k hk, Nat.zero_add]
    _ = v := wordOf_bytes v

theorem wordAt_flatMap (pre : List UInt8) (vs : List UInt32) :
    (List.range vs.length).map (fun i =>
      wordAt (bytesOfList (pre ++ vs.flatMap wordBytes)) (pre.length + 4 * i)) = vs := by
  induction vs generalizing pre with
  | nil => rfl
  | cons v vs ih =>
    have hrest := ih (pre ++ wordBytes v)
    rw [List.length_cons, List.range_succ_eq_map, List.map_cons, List.map_map, List.flatMap_cons,
      Nat.mul_zero, Nat.add_zero, wordAt_append]
    refine congrArg (v :: ·) ?_
    calc
      _ = (List.range vs.length).map (fun i => wordAt
          (bytesOfList (pre ++ wordBytes v ++ vs.flatMap wordBytes))
          ((pre ++ wordBytes v).length + 4 * i)) := by
        refine List.map_congr_left fun i _ => ?_
        rw [List.append_assoc, List.length_append, length_wordBytes, Function.comp_apply,
          Nat.mul_succ, Nat.add_right_comm, Nat.add_assoc]
      _ = vs := hrest

end Omap4Hal.Lib

import Mathlib.Algebra.Order.Field.Basic
import Mathlib.Tactic.NormNum
import Omap4Hal.Lib.CString

/- The rational numbers of EXIF tags (camera/Encoder_libjpeg.cpp): `stringToRational` converts the
   digits before and after the point apart. A number before the point that is zero becomes one, so
   the conversion is exact for the numbers from one on (`stringToRational_exact_iff`).

   The power of ten is computed by `pow` and cast to an unsigned number; this is an argument. -/
namespace Omap4Hal.Camera.ExifRational

open Lib

/-- `ExifElementsTable::stringToRational`: the numerator and the denominator, if they are set. The
length of the fraction is never `HUGE_VAL`, which is infinite. -/
def stringToRational (powCast : Nat → UInt32) (str : Option (List Char)) (malloc : Bool) :
    Option (UInt32 × UInt32) :=
  match str with
  | none => none
  | some tempVal =>
    if malloc then
      let (temp, ctx) := strtok '.' tempVal
      let numerator : UInt32 :=
        match temp with
        | some t => (atoi t).toUInt32
        | none => 0
      let numerator := if numerator = 0 then 1 else numerator
      match (strtok '.' ctx).1 with
      | some t =>
        let denominator := powCast t.length
        some (numerator * denominator + (atoi t).toUInt32, denominator)
      | none => some (numerator, 1)
    else none

/-! ## Decimal strings -/

/-- Digits with at most one point. -/
def IsDecimal (s : List Char) : Prop :=
  (∀ c ∈ s, c.isDigit = true ∨ c = '.') ∧ s.count '.' ≤ 1

def integerPart (s : List Char) : List Char := s.takeWhile (· != '.')

def fraction (s : List Char) : List Char := (s.dropWhile (· != '.')).drop 1

/-- The digits without the point. -/
def digits (s : List Char) : List Char := integerPart s ++ fraction s

def decimalValue (s : List Char) : ℚ := decimal (digits s) / 10 ^ (fraction s).length

/-- The denominator is a power of ten, and the ratio the value. -/
structure Exact (num den : UInt32) (value : ℚ) : Prop where
  power : ∃ k, den.toNat = 10 ^ k
  ratio : (num.toNat : ℚ) / den.toNat = value

section Strings

variable {powCast : Nat → UInt32} {s a b : List Char}

theorem IsDecimal.split (hs : IsDecimal s) :
    (∀ c ∈ s, c.isDigit = true) ∨ ∃ a b, s = a ++ '.' :: b ∧ (∀ c ∈ a, c.isDigit = true) ∧
      ∀ c ∈ b, c.isDigit = true := by
  obtain ⟨hchars, hcount⟩ := hs
  by_cases hpoint : '.' ∈ s
  · obtain ⟨a, b, rfl, ha⟩ := List.eq_append_cons_of_mem hpoint
    rw [List.count_append, List.count_cons_self] at hcount
    have hb : '.' ∉ b := List.count_eq_zero.mp (by omega)
    refine Or.inr ⟨a, b, rfl, fun c hc => ?_, fun c hc => ?_⟩
    · refine (hchars c (List.mem_append_left _ hc)).resolve_right ?_
      rintro rfl
      exact ha hc
    · refine (hchars c (List.mem_append_right _ (List.mem_cons_of_mem _ hc))).resolve_right ?_
      rintro rfl
      exact hb hc
  · refine Or.inl fun c hc => (hchars c hc).resolve_right ?_
    rintro rfl
    exact hpoint hc

theorem point_not_mem (ha : ∀ c ∈ a, c.isDigit = true) : '.' ∉ a :=
  fun hpoint => absurd (ha _ hpoint) (by decide)

theorem parts_point (ha : ∀ c ∈ a, c.isDigit = true) :
    integerPart (a ++ '.' :: b) = a ∧ fraction (a ++ '.' :: b) = b := by
  have hkeep := ne_delim (point_not_mem ha)
  rw [integerPart, fraction, List.takeWhile_append_of_pos hkeep,
    List.dropWhile_append_of_pos hkeep]
  simp

theorem parts_digits (ha : ∀ c ∈ a, c.isDigit = true) : integerPart a = a ∧ fraction a = [] := by
  have hkeep := ne_delim (point_not_mem ha)
  rw [integerPart, fraction, List.takeWhile_eq_self_iff.mpr hkeep,
    List.dropWhile_eq_nil_iff.mpr hkeep]
  exact ⟨rfl, rfl⟩

/-! ## The numbers -/

/-- The number before the point, which is never zero. -/
def lead (t : List Char) : UInt32 := if (atoi t).toUInt32 = 0 then 1 else (atoi t).toUInt32

theorem atoi_toNat (ha : ∀ c ∈ a, c.isDigit = true) :
    (atoi a).toUInt32.toNat = min (decimal a) 2147483647 := by
  rw [atoi_digits ha, Int32.toUInt32_ofNat', UInt32.toNat_ofNat_of_lt']
  exact lt_of_le_of_lt (Nat.min_le_right _ _) (by decide)

theorem lead_toNat (ha : ∀ c ∈ a, c.isDigit = true) :
    (lead a).toNat = max 1 (min (decimal a) 2147483647) := by
  have hatoi := atoi_toNat ha
  rw [lead]
  split
  next hzero =>
    rw [hzero] at hatoi
    rw [← hatoi]
    rfl
  next hne =>
    have hpos : (atoi a).toUInt32.toNat ≠ 0 := fun h => hne (UInt32.toNat_inj.mp h)
    omega

/-- What the function gives for a decimal string: the parts on both sides of the point, or the only
part there is. -/
theorem IsDecimal.result (hs : IsDecimal s) (powCast : Nat → UInt32) :
    (∀ c ∈ integerPart s, c.isDigit = true) ∧ (∀ c ∈ fraction s, c.isDigit = true) ∧
      (fraction s ≠ [] ∧ stringToRational powCast (some s) true =
          some (lead (integerPart s) * powCast (fraction s).length +
            (atoi (fraction s)).toUInt32, powCast (fraction s).length) ∨
        fraction s = [] ∧ stringToRational powCast (some s) true =
          some (lead (integerPart s), 1) ∨
        integerPart s = [] ∧ stringToRational powCast (some s) true =
          some (lead (fraction s), 1)) := by
  rcases hs.split with hdigits | ⟨a, b, rfl, ha, hb⟩
  · obtain ⟨hint, hfrac⟩ := parts_digits hdigits
    rw [hint, hfrac]
    refine ⟨hdigits, nofun, Or.inr (Or.inl ⟨rfl, ?_⟩)⟩
    by_cases hnil : s = []
    · subst hnil
      rfl
    · rw [stringToRational, if_pos rfl, strtok_last hnil (point_not_mem hdigits)]
      rfl
  · obtain ⟨hint, hfrac⟩ := parts_point (b := b) ha
    rw [hint, hfrac]
    refine ⟨ha, hb, ?_⟩
    by_cases hanil : a = []
    · subst hanil
      refine Or.inr (Or.inr ⟨rfl, ?_⟩)
      rw [stringToRational, if_pos rfl, List.nil_append, strtok_skip]
      by_cases hbnil : b = []
      · subst hbnil
        rfl
      · rw [strtok_last hbnil (point_not_mem hb)]
        rfl
    · rw [stringToRational, if_pos rfl, strtok_append hanil (point_not_mem ha)]
      by_cases hbnil : b = []
      · subst hbnil
        exact Or.inr (Or.inl ⟨rfl, rfl⟩)
      · refine Or.inl ⟨hbnil, ?_⟩
        dsimp only
        rw [strtok_last hbnil (point_not_mem hb)]
        rfl

/-! ## Exactness -/

theorem not_exact {num den : UInt32} (hb : ∀ c ∈ b, c.isDigit = true) (hle : den ≤ num) :
    ¬ Exact num den (decimal b / 10 ^ b.length : ℚ) := by
  rintro ⟨⟨k, hk⟩, hratio⟩
  have hden : (0 : ℚ) < den.toNat := by
    rw [hk]
    exact_mod_cast Nat.pow_pos (by decide)
  have hone : (1 : ℚ) ≤ num.toNat / den.toNat := by
    rw [one_le_div hden]
    exact_mod_cast UInt32.le_iff_toNat_le.mp hle
  have hlt : (decimal b / 10 ^ b.length : ℚ) < 1 := by
    rw [div_lt_one (by positivity)]
    exact_mod_cast decimal_lt hb
  rw [hratio] at hone
  exact absurd hone (not_le.mpr hlt)

theorem exact_integer (ha : ∀ c ∈ a, c.isDigit = true) :
    Exact (lead a) 1 (decimal a) ↔ 1 ≤ decimal a ∧ decimal a < 2 ^ 31 := by
  have hlead := lead_toNat ha
  have hden : ((1 : UInt32).toNat : ℚ) = 1 := Nat.cast_one
  constructor
  · rintro ⟨-, hratio⟩
    rw [hden, div_one, Nat.cast_inj, hlead] at hratio
    omega
  · intro hrange
    refine ⟨⟨0, rfl⟩, ?_⟩
    rw [hden, div_one, Nat.cast_inj, hlead]
    omega

theorem lead_zero {den : UInt32} (ha : ∀ c ∈ a, c.isDigit = true)
    (hb : ∀ c ∈ b, c.isDigit = true) (hzero : decimal a = 0) (hden : den.toNat ≤ 10 ^ 9) :
    den ≤ lead a * den + (atoi b).toUInt32 := by
  have hlead : lead a = 1 := by
    apply UInt32.toNat_inj.mp
    rw [lead_toNat ha, hzero]
    rfl
  have hatoi := atoi_toNat hb
  rw [hlead, UInt32.one_mul, UInt32.le_iff_toNat_le, UInt32.toNat_add, Nat.mod_eq_of_lt (by omega)]
  exact Nat.le_add_right _ _

theorem power_le {den : UInt32} (hden : ∃ k, den.toNat = 10 ^ k) : den.toNat ≤ 10 ^ 9 := by
  obtain ⟨k, hk⟩ := hden
  rw [hk]
  apply Nat.pow_le_pow_right (by decide)
  by_contra hlarge
  have hlt := den.toNat_lt
  have hle : 10 ^ 10 ≤ 10 ^ k := Nat.pow_le_pow_right (by decide) (by omega)
  omega

theorem exact_parts (hpow : ∀ k ≤ 9, (powCast k).toNat = 10 ^ k)
    (ha : ∀ c ∈ a, c.isDigit = true) (hb : ∀ c ∈ b, c.isDigit = true) (hnil : b ≠ [])
    (hfits : decimal (a ++ b) < 2 ^ 32) :
    Exact (lead a * powCast b.length + (atoi b).toUInt32) (powCast b.length)
      (decimal (a ++ b) / 10 ^ b.length) ↔ 1 ≤ decimal a ∧ decimal a < 2 ^ 31 := by
  have hlt := decimal_lt hb
  have hlen : 10 ^ 1 ≤ 10 ^ b.length :=
    Nat.pow_le_pow_right (by decide) (List.length_pos_iff.mpr hnil)
  rw [decimal_append] at hfits ⊢
  by_cases hzero : decimal a = 0
  · rw [hzero, Nat.mul_zero, Nat.zero_add]
    refine ⟨fun hexact => ?_, fun hrange => absurd hrange.1 (by decide)⟩
    exact absurd hexact (not_exact hb (lead_zero ha hb hzero (power_le hexact.power)))
  · have hlarge : 10 ^ b.length * 1 ≤ 10 ^ b.length * decimal a :=
      Nat.mul_le_mul_left _ (Nat.one_le_iff_ne_zero.mpr hzero)
    have hsmall : 10 * decimal a ≤ 10 ^ b.length * decimal a := Nat.mul_le_mul_right _ hlen
    have hnine : b.length ≤ 9 := by
      by_contra hlong
      have hle : 10 ^ 10 ≤ 10 ^ b.length := Nat.pow_le_pow_right (by decide) (by omega)
      omega
    have hfraction : 10 ^ b.length ≤ 10 ^ 9 := Nat.pow_le_pow_right (by decide) hnine
    have hatoi := atoi_toNat hb
    have hlead := lead_toNat ha
    have hden := hpow _ hnine
    have hnum : (lead a * powCast b.length + (atoi b).toUInt32).toNat =
        10 ^ b.length * decimal a + decimal b := by
      rw [UInt32.toNat_add, UInt32.toNat_mul, hden, hatoi, hlead,
        show max 1 (min (decimal a) 2147483647) = decimal a by omega,
        show min (decimal b) 2147483647 = decimal b by omega, Nat.mul_comm (decimal a),
        Nat.mod_add_mod, Nat.mod_eq_of_lt hfits]
    refine ⟨fun _ => by omega, fun _ => ⟨⟨_, hden⟩, ?_⟩⟩
    rw [hnum, hden, Nat.cast_pow]
    rfl

end Strings

/-- The decimal strings that are converted without a loss are those with a number from one on before
the point, if it is one that an `int` can have. -/
theorem stringToRational_exact_iff {powCast : Nat → UInt32} {s : List Char}
    (hpow : ∀ k ≤ 9, (powCast k).toNat = 10 ^ k) (hs : IsDecimal s)
    (hfits : decimal (digits s) < 2 ^ 32) :
    (∃ num den, stringToRational powCast (some s) true = some (num, den) ∧
      Exact num den (decimalValue s)) ↔
      1 ≤ decimal (integerPart s) ∧ decimal (integerPart s) < 2 ^ 31 := by
  obtain ⟨ha, hb, hresult⟩ := hs.result powCast
  have honly : ∀ {num den : UInt32}, stringToRational powCast (some s) true = some (num, den) →
      ((∃ num den, stringToRational powCast (some s) true = some (num, den) ∧
        Exact num den (decimalValue s)) ↔ Exact num den (decimalValue s)) := by
    intro num den hres
    rw [hres]
    constructor
    · rintro ⟨num', den', hsome, hexact⟩
      cases hsome
      exact hexact
    · intro hexact
      exact ⟨num, den, rfl, hexact⟩
  rcases hresult with ⟨hnil, hres⟩ | ⟨hnil, hres⟩ | ⟨hnil, hres⟩
  · rw [honly hres]
    exact exact_parts hpow ha hb hnil hfits
  · rw [honly hres, decimalValue, digits, hnil, List.append_nil, List.length_nil, pow_zero, div_one]
    exact exact_integer ha
  · rw [honly hres, decimalValue, digits, hnil, List.nil_append]
    refine ⟨fun hexact => ?_, fun hrange => absurd hrange.1 (by decide)⟩
    refine absurd hexact (not_exact hb ?_)
    rw [UInt32.le_iff_toNat_le, lead_toNat hb]
    exact Nat.le_max_left 1 _

/-- A cast that takes the largest number for what is too large. -/
def castSaturating (k : Nat) : UInt32 := UInt32.ofNat (min (10 ^ k) 4294967295)

theorem stringToRational_exact_iff_focal :
    (∃ num den, stringToRational castSaturating (some ['4', '.', '2']) true = some (num, den) ∧
      Exact num den (decimalValue ['4', '.', '2'])) ↔
      1 ≤ decimal (integerPart ['4', '.', '2']) ∧ decimal (integerPart ['4', '.', '2']) < 2 ^ 31 :=
  stringToRational_exact_iff (by decide) ⟨by simp, by decide⟩ (by decide)

/-- One half becomes one and a half. -/
theorem half_not_exact : ¬ ∀ s, IsDecimal s → decimal (digits s) < 2 ^ 32 →
    ∃ num den, stringToRational castSaturating (some s) true = some (num, den) ∧
      Exact num den (decimalValue s) := by
  intro hall
  obtain ⟨num, den, hres, -, hratio⟩ :=
    hall ['0', '.', '5'] ⟨by simp, by decide⟩ (by decide)
  obtain ⟨rfl, rfl⟩ : num = 15 ∧ den = 10 := by
    rw [show stringToRational castSaturating (some ['0', '.', '5']) true = some (15, 10) by decide]
      at hres
    cases hres
    exact ⟨rfl, rfl⟩
  have hvalue : decimalValue ['0', '.', '5'] = 5 / 10 := rfl
  have hnum : (15 : UInt32).toNat = 15 := rfl
  have hden : (10 : UInt32).toNat = 10 := rfl
  rw [hvalue, hnum, hden] at hratio
  norm_num at hratio

end Omap4Hal.Camera.ExifRational

import Mathlib.Data.List.DropRight
import Omap4Hal.Security.ManifestTermination

/- The value of a property, as text. `valueLoop` decodes UTF-8 byte by byte while it
   looks for the end of the line. Here its checks are compared with what UTF-8 is: the
   values it accepts are the encodings of texts without NUL (`utf8Run_iff`), and it
   returns the line up to its last character that is no blank (`valueLoop_eq_some`). -/
namespace Omap4Hal.Security
open Lib
open String (utf8EncodeChar)
open UInt8 (ofNat_toNat toNat_toUInt32)
open UInt32 (toNat_and toNat_inj)

/-- The encoding of a text without NUL. -/
def IsText (bs : List UInt8) : Prop :=
  ∃ chars : List Char, Char.ofNat 0 ∉ chars ∧ bs = chars.flatMap utf8EncodeChar

/-! ## One byte -/

theorem masks_of_lt : ∀ n : Fin 256, let x := (UInt8.ofNat n.val).toUInt32
    (x &&& 0x80 = 0 ↔ n.val < 0x80) ∧ (x = 0 ↔ n.val = 0) ∧
    (x &&& 0xC0 = 0xC0 ↔ 0xC0 ≤ n.val) ∧ (x &&& 0xC0 = 0x80 ↔ 0x80 ≤ n.val ∧ n.val < 0xC0) ∧
    (x &&& 0xE0 = 0xC0 ↔ 0xC0 ≤ n.val ∧ n.val < 0xE0) ∧
    (x &&& 0xF0 = 0xE0 ↔ 0xE0 ≤ n.val ∧ n.val < 0xF0) ∧
    (x &&& 0xF8 = 0xF0 ↔ 0xF0 ≤ n.val ∧ n.val < 0xF8) ∧
    (x &&& 0x1E = 0 ↔ n.val % 32 < 2) ∧ (x &&& 0x20 = 0 ↔ n.val % 64 < 32) ∧
    (x &&& 0x30 = 0 ↔ n.val % 64 < 16) := by
  decide +kernel

theorem utf8Byte_eq (u : Utf8State) (b : UInt8) :
    utf8Byte u b =
      if b.toNat < 0x80 then
        if u.count ≠ 0 ∨ b.toNat = 0 then none else some { u with char := b.toUInt32 }
      else if b.toNat < 0xC0 then
        if u.count = 0 ∨ (u.count = 2 ∧ u.char = 0 ∧ b.toNat < 0xA0) ∨
            (u.count = 3 ∧ u.char = 0 ∧ b.toNat < 0x90) then none
        else some ⟨u.count - 1, (u.char <<< 6) ||| (b.toUInt32 &&& 0x3F)⟩
      else if u.count ≠ 0 ∨ b.toNat < 0xC2 ∨ 0xF8 ≤ b.toNat then none
      else if b.toNat < 0xE0 then some ⟨1, b.toUInt32 &&& 0x1F⟩
      else if b.toNat < 0xF0 then some ⟨2, b.toUInt32 &&& 0x0F⟩
      else some ⟨3, b.toUInt32 &&& 0x07⟩ := by
  obtain ⟨h80, h0, hC0, hC80, hE0, hF0, hF8, h1E, h20, h30⟩ := masks_of_lt ⟨b.toNat, b.toNat_lt⟩
  simp only [ofNat_toNat] at h80 h0 hC0 hC80 hE0 hF0 hF8 h1E h20 h30
  simp only [utf8Byte, h80, h0, hC0, hC80, hE0, hF0, hF8, h1E, h20, h30]
  clear h80 h0 hC0 hC80 hE0 hF0 hF8 h1E h20 h30
  have hlt := b.toNat_lt
  by_cases hascii : b.toNat < 0x80
  · rw [if_pos hascii, if_pos hascii]
    split_ifs <;> first | rfl | omega
  rw [if_neg hascii, if_neg hascii]
  by_cases hcont : b.toNat < 0xC0
  · have hin : 0x80 ≤ b.toNat ∧ b.toNat < 0xC0 := ⟨Nat.le_of_not_lt hascii, hcont⟩
    rw [if_neg (Nat.not_le_of_lt hcont), if_pos hin, if_pos hcont]
    split_ifs <;> first | rfl | grind
  rw [if_pos (Nat.le_of_not_lt hcont), if_neg hcont]
  split_ifs <;> first | rfl | omega

/-- A byte of a value, with the check of the character that it completes. -/
def utf8Check (u : Utf8State) (b : UInt8) : Option Utf8State :=
  match utf8Byte u b with
  | none => none
  | some u' => if u'.count = 0 ∧ illegalCodePoint u'.char then none else some u'

variable {c : UInt32} {u v : Utf8State} {bs : List UInt8}

theorem continuation_toNat (b : UInt8) (h : c.toNat < 2 ^ 20) :
    ((c <<< 6) ||| (b.toUInt32 &&& 0x3F)).toNat = c.toNat * 64 + b.toNat % 64 := by
  have h63 : (0x3F : UInt32).toNat = 2 ^ 6 - 1 := rfl
  have h6 : (6 : UInt32).toNat % 32 = 6 := rfl
  rw [UInt32.toNat_or, toNat_and, UInt32.toNat_shiftLeft, h63, h6,
    Nat.and_two_pow_sub_one_eq_mod, toNat_toUInt32, Nat.mod_eq_of_lt
      (show c.toNat <<< 6 < 2 ^ 32 by rw [Nat.shiftLeft_eq]; omega),
    ← Nat.shiftLeft_add_eq_or_of_lt (Nat.mod_lt _ (by decide)), Nat.shiftLeft_eq]

theorem lead_toNat (b : UInt8) : (b.toUInt32 &&& 0x1F).toNat = b.toNat % 32 ∧
    (b.toUInt32 &&& 0x0F).toNat = b.toNat % 16 ∧ (b.toUInt32 &&& 0x07).toNat = b.toNat % 8 := by
  have h31 : (0x1F : UInt32).toNat = 2 ^ 5 - 1 := rfl
  have h15 : (0x0F : UInt32).toNat = 2 ^ 4 - 1 := rfl
  have h7 : (0x07 : UInt32).toNat = 2 ^ 3 - 1 := rfl
  rw [toNat_and, toNat_and, toNat_and, toNat_toUInt32, h31, h15, h7,
    Nat.and_two_pow_sub_one_eq_mod, Nat.and_two_pow_sub_one_eq_mod,
    Nat.and_two_pow_sub_one_eq_mod]
  exact ⟨rfl, rfl, rfl⟩

theorem illegalCodePoint_eq_false {w : UInt32} :
    illegalCodePoint w = false ↔ w.toNat.isValidChar := by
  simp only [illegalCodePoint, Nat.isValidChar, Bool.or_eq_false_iff, Bool.and_eq_false_iff,
    decide_eq_false_iff_not, UInt32.le_iff_toNat_le, UInt32.lt_iff_toNat_lt]
  have h₁ : (0xD800 : UInt32).toNat = 0xD800 := rfl
  have h₂ : (0xE000 : UInt32).toNat = 0xE000 := rfl
  have h₃ : (0x110000 : UInt32).toNat = 0x110000 := rfl
  rw [h₁, h₂, h₃]
  omega

theorem utf8Check_tail {n : Nat} {b : UInt8} :
    utf8Check ⟨n + 1, c⟩ b = some u ↔
      (0x80 ≤ b.toNat ∧ b.toNat < 0xC0) ∧ (n = 1 → c = 0 → 0xA0 ≤ b.toNat) ∧
        (n = 2 → c = 0 → 0x90 ≤ b.toNat) ∧
        (n = 0 → illegalCodePoint ((c <<< 6) ||| (b.toUInt32 &&& 0x3F)) = false) ∧
        u = ⟨n, (c <<< 6) ||| (b.toUInt32 &&& 0x3F)⟩ := by
  rw [utf8Check, utf8Byte_eq]
  by_cases h₁ : b.toNat < 0x80
  · grind
  by_cases h₂ : b.toNat < 0xC0
  · simp only [h₁, h₂, if_true, if_false]
    grind
  · grind

theorem utf8Check_lead {b : UInt8} :
    utf8Check ⟨0, c⟩ b = some u ↔
      (b.toNat ≠ 0 ∧ b.toNat < 0x80 ∧ u = ⟨0, b.toUInt32⟩) ∨
      (0xC2 ≤ b.toNat ∧ b.toNat < 0xE0 ∧ u = ⟨1, b.toUInt32 &&& 0x1F⟩) ∨
      (0xE0 ≤ b.toNat ∧ b.toNat < 0xF0 ∧ u = ⟨2, b.toUInt32 &&& 0x0F⟩) ∨
      (0xF0 ≤ b.toNat ∧ b.toNat < 0xF8 ∧ u = ⟨3, b.toUInt32 &&& 0x07⟩) := by
  have hlegal : b.toNat < 0x80 → illegalCodePoint b.toUInt32 = false := by
    intro h
    rw [illegalCodePoint_eq_false, toNat_toUInt32]
    left
    omega
  rw [utf8Check, utf8Byte_eq]
  by_cases h₁ : b.toNat < 0x80
  · grind
  by_cases h₂ : b.toNat < 0xC2
  · grind
  · grind

/-! ## All bytes -/

theorem utf8Run_cons {b : UInt8} :
    (b :: bs).foldlM utf8Check u = some v ↔
      ∃ u', utf8Check u b = some u' ∧ bs.foldlM utf8Check u' = some v := by
  rw [List.foldlM_cons, Option.bind_eq_bind, Option.bind_eq_some_iff]

theorem utf8Run_tail {n : Nat} (h : bs.foldlM utf8Check ⟨n + 1, c⟩ = some v) (hv : v.count = 0) :
    ∃ b rest, bs = b :: rest ∧ (0x80 ≤ b.toNat ∧ b.toNat < 0xC0) ∧
      (n = 1 → c = 0 → 0xA0 ≤ b.toNat) ∧ (n = 2 → c = 0 → 0x90 ≤ b.toNat) ∧
      (n = 0 → illegalCodePoint ((c <<< 6) ||| (b.toUInt32 &&& 0x3F)) = false) ∧
      rest.foldlM utf8Check ⟨n, (c <<< 6) ||| (b.toUInt32 &&& 0x3F)⟩ = some v := by
  cases bs with
  | nil =>
    cases h
    cases hv
  | cons b rest =>
    obtain ⟨u', hb, hrest⟩ := utf8Run_cons.mp h
    obtain ⟨hrange, h₁, h₂, hlegal, rfl⟩ := utf8Check_tail.mp hb
    exact ⟨b, rest, rfl, hrange, h₁, h₂, hlegal, hrest⟩

theorem IsText.cons {w : UInt32} {rest : List UInt8} (h : IsText rest) (hw : w.isValidChar)
    (hne : w.toNat ≠ 0) : IsText (utf8EncodeChar ⟨w, hw⟩ ++ rest) := by
  obtain ⟨chars, hnul, rfl⟩ := h
  refine ⟨⟨w, hw⟩ :: chars, ?_, by rw [List.flatMap_cons]⟩
  rw [List.mem_cons, not_or]
  refine ⟨?_, hnul⟩
  intro heq
  apply hne
  have hval := congrArg (fun ch : Char => ch.val.toNat) heq
  exact hval.symm

/-! ## Characters -/

section
variable {b b₁ b₂ b₃ : UInt8} {w : UInt32} (hw : w.isValidChar)

theorem encode_one (hlt : b.toNat < 0x80) (hval : w.toNat = b.toNat) :
    utf8EncodeChar ⟨w, hw⟩ = [b] := by
  simp only [utf8EncodeChar, hval, if_pos (show b.toNat ≤ 0x7f by omega),
    ofNat_toNat]

theorem encode_two (hb : 0xC2 ≤ b.toNat ∧ b.toNat < 0xE0) (h₁ : 0x80 ≤ b₁.toNat ∧ b₁.toNat < 0xC0)
    (hval : w.toNat = b.toNat % 32 * 64 + b₁.toNat % 64) :
    utf8EncodeChar ⟨w, hw⟩ = [b, b₁] := by
  have h0 : b = .ofNat (w.toNat / 64 % 0x20 + 0xc0) := by
    rw [show w.toNat / 64 % 0x20 + 0xc0 = b.toNat by omega, ofNat_toNat]
  have h1 : b₁ = .ofNat (w.toNat % 0x40 + 0x80) := by
    rw [show w.toNat % 0x40 + 0x80 = b₁.toNat by omega, ofNat_toNat]
  rw [h0, h1]
  simp only [utf8EncodeChar, if_neg (show ¬ w.toNat ≤ 0x7f by omega),
    if_pos (show w.toNat ≤ 0x7ff by omega)]

theorem encode_three (hb : 0xE0 ≤ b.toNat ∧ b.toNat < 0xF0)
    (h₁ : 0x80 ≤ b₁.toNat ∧ b₁.toNat < 0xC0) (h₂ : 0x80 ≤ b₂.toNat ∧ b₂.toNat < 0xC0)
    (hlong : b.toNat % 16 = 0 → 0xA0 ≤ b₁.toNat)
    (hval : w.toNat = (b.toNat % 16 * 64 + b₁.toNat % 64) * 64 + b₂.toNat % 64) :
    utf8EncodeChar ⟨w, hw⟩ = [b, b₁, b₂] := by
  have h0 : b = .ofNat (w.toNat / 4096 % 0x10 + 0xe0) := by
    rw [show w.toNat / 4096 % 0x10 + 0xe0 = b.toNat by omega, ofNat_toNat]
  have h1 : b₁ = .ofNat (w.toNat / 64 % 0x40 + 0x80) := by
    rw [show w.toNat / 64 % 0x40 + 0x80 = b₁.toNat by omega, ofNat_toNat]
  have h2 : b₂ = .ofNat (w.toNat % 0x40 + 0x80) := by
    rw [show w.toNat % 0x40 + 0x80 = b₂.toNat by omega, ofNat_toNat]
  rw [h0, h1, h2]
  simp only [utf8EncodeChar, if_neg (show ¬ w.toNat ≤ 0x7f by omega),
    if_neg (show ¬ w.toNat ≤ 0x7ff by omega), if_pos (show w.toNat ≤ 0xffff by omega)]

theorem encode_four (hb : 0xF0 ≤ b.toNat ∧ b.toNat < 0xF8)
    (h₁ : 0x80 ≤ b₁.toNat ∧ b₁.toNat < 0xC0) (h₂ : 0x80 ≤ b₂.toNat ∧ b₂.toNat < 0xC0)
    (h₃ : 0x80 ≤ b₃.toNat ∧ b₃.toNat < 0xC0) (hlong : b.toNat % 8 = 0 → 0x90 ≤ b₁.toNat)
    (hval : w.toNat =
      ((b.toNat % 8 * 64 + b₁.toNat % 64) * 64 + b₂.toNat % 64) * 64 + b₃.toNat % 64) :
    utf8EncodeChar ⟨w, hw⟩ = [b, b₁, b₂, b₃] := by
  have h0 : b = .ofNat (w.toNat / 262144 % 0x08 + 0xf0) := by
    rw [show w.toNat / 262144 % 0x08 + 0xf0 = b.toNat by omega, ofNat_toNat]
  have h1 : b₁ = .ofNat (w.toNat / 4096 % 0x40 + 0x80) := by
    rw [show w.toNat / 4096 % 0x40 + 0x80 = b₁.toNat by omega, ofNat_toNat]
  have h2 : b₂ = .ofNat (w.toNat / 64 % 0x40 + 0x80) := by
    rw [show w.toNat / 64 % 0x40 + 0x80 = b₂.toNat by omega, ofNat_toNat]
  have h3 : b₃ = .ofNat (w.toNat % 0x40 + 0x80) := by
    rw [show w.toNat % 0x40 + 0x80 = b₃.toNat by omega, ofNat_toNat]
  rw [h0, h1, h2, h3]
  simp only [utf8EncodeChar, if_neg (show ¬ w.toNat ≤ 0x7f by omega),
    if_neg (show ¬ w.toNat ≤ 0x7ff by omega), if_neg (show ¬ w.toNat ≤ 0xffff by omega)]

end

/-- What the code accepts between characters is text. The induction is on the length:
each step takes the bytes of one character. -/
theorem utf8Run_isText {n : Nat} (hn : bs.length ≤ n) (h : bs.foldlM utf8Check ⟨0, c⟩ = some v)
    (hv : v.count = 0) :
    IsText bs := by
  induction n generalizing bs c with
  | zero =>
    rw [List.eq_nil_of_length_eq_zero (Nat.le_zero.mp hn)]
    exact ⟨[], List.not_mem_nil, rfl⟩
  | succ n ih =>
    cases bs with
    | nil => exact ⟨[], List.not_mem_nil, rfl⟩
    | cons b rest =>
      rw [List.length_cons] at hn
      obtain ⟨u, hb, hrest⟩ := utf8Run_cons.mp h
      obtain ⟨l₂, l₃, l₄⟩ := lead_toNat b
      rcases utf8Check_lead.mp hb with ⟨hne, hlt, rfl⟩ | ⟨hlo, hhi, rfl⟩ | ⟨hlo, hhi, rfl⟩ |
        ⟨hlo, hhi, rfl⟩
      · have hw : b.toUInt32.isValidChar := Or.inl (by rw [toNat_toUInt32]; omega)
        have htext := IsText.cons (ih (by omega) hrest) hw (by rw [toNat_toUInt32]; omega)
        rwa [encode_one hw hlt (toNat_toUInt32 b)] at htext
      · obtain ⟨b₁, r, rfl, h₁, -, -, hlegal, hr⟩ := utf8Run_tail hrest hv
        have hval := continuation_toNat (c := b.toUInt32 &&& 0x1F) b₁ (by omega)
        have hw := illegalCodePoint_eq_false.mp (hlegal rfl)
        rw [l₂] at hval
        rw [List.length_cons] at hn
        have htext := IsText.cons (ih (by omega) hr) hw (by omega)
        rwa [encode_two hw ⟨hlo, hhi⟩ h₁ hval] at htext
      · obtain ⟨b₁, r₁, rfl, h₁, hlong, -, -, hr₁⟩ := utf8Run_tail hrest hv
        obtain ⟨b₂, r, rfl, h₂, -, -, hlegal, hr⟩ := utf8Run_tail hr₁ hv
        have hval₁ := continuation_toNat (c := b.toUInt32 &&& 0x0F) b₁ (by omega)
        have hval := continuation_toNat b₂ (by rw [hval₁]; omega)
        have hw := illegalCodePoint_eq_false.mp (hlegal rfl)
        rw [hval₁, l₃] at hval
        have hlong' : b.toNat % 16 = 0 → 0xA0 ≤ b₁.toNat := fun h0 =>
          hlong rfl (toNat_inj.mp (l₃.trans h0))
        rw [List.length_cons, List.length_cons] at hn
        have htext := IsText.cons (ih (by omega) hr) hw (by omega)
        rwa [encode_three hw ⟨hlo, hhi⟩ h₁ h₂ hlong' hval] at htext
      · obtain ⟨b₁, r₁, rfl, h₁, -, hlong, -, hr₁⟩ := utf8Run_tail hrest hv
        obtain ⟨b₂, r₂, rfl, h₂, -, -, -, hr₂⟩ := utf8Run_tail hr₁ hv
        obtain ⟨b₃, r, rfl, h₃, -, -, hlegal, hr⟩ := utf8Run_tail hr₂ hv
        have hval₁ := continuation_toNat (c := b.toUInt32 &&& 0x07) b₁ (by omega)
        have hval₂ := continuation_toNat b₂ (by rw [hval₁]; omega)
        have hval := continuation_toNat b₃ (by rw [hval₂, hval₁]; omega)
        have hw := illegalCodePoint_eq_false.mp (hlegal rfl)
        rw [hval₂, hval₁, l₄] at hval
        have hlong' : b.toNat % 8 = 0 → 0x90 ≤ b₁.toNat := fun h0 =>
          hlong rfl (toNat_inj.mp (l₄.trans h0))
        rw [List.length_cons, List.length_cons, List.length_cons] at hn
        have htext := IsText.cons (ih (by omega) hr) hw (by omega)
        rwa [encode_four hw ⟨hlo, hhi⟩ h₁ h₂ h₃ hlong' hval] at htext

theorem byte_toNat {k : Nat} (h : k < 256) : (UInt8.ofNat k).toNat = k :=
  UInt8.toNat_ofNat_of_lt' h

theorem encode_cases (ch : Char) :
    (∃ b, utf8EncodeChar ch = [b] ∧ b.toNat < 0x80 ∧ ch.val.toNat = b.toNat) ∨
    (∃ b b₁, utf8EncodeChar ch = [b, b₁] ∧ (0xC2 ≤ b.toNat ∧ b.toNat < 0xE0) ∧
      (0x80 ≤ b₁.toNat ∧ b₁.toNat < 0xC0) ∧
      ch.val.toNat = b.toNat % 32 * 64 + b₁.toNat % 64) ∨
    (∃ b b₁ b₂, utf8EncodeChar ch = [b, b₁, b₂] ∧ (0xE0 ≤ b.toNat ∧ b.toNat < 0xF0) ∧
      (0x80 ≤ b₁.toNat ∧ b₁.toNat < 0xC0) ∧ (0x80 ≤ b₂.toNat ∧ b₂.toNat < 0xC0) ∧
      (b.toNat % 16 = 0 → 0xA0 ≤ b₁.toNat) ∧
      ch.val.toNat = (b.toNat % 16 * 64 + b₁.toNat % 64) * 64 + b₂.toNat % 64) ∨
    (∃ b b₁ b₂ b₃, utf8EncodeChar ch = [b, b₁, b₂, b₃] ∧
      (0xF0 ≤ b.toNat ∧ b.toNat < 0xF8) ∧ (0x80 ≤ b₁.toNat ∧ b₁.toNat < 0xC0) ∧
      (0x80 ≤ b₂.toNat ∧ b₂.toNat < 0xC0) ∧ (0x80 ≤ b₃.toNat ∧ b₃.toNat < 0xC0) ∧
      (b.toNat % 8 = 0 → 0x90 ≤ b₁.toNat) ∧ ch.val.toNat =
        ((b.toNat % 8 * 64 + b₁.toNat % 64) * 64 + b₂.toNat % 64) * 64 + b₃.toNat % 64) := by
  have hvalid : ch.val.toNat < 0x110000 := by
    rcases ch.valid with h | h
    · exact Nat.lt_trans h (by decide)
    · exact h.2
  by_cases h₁ : ch.val.toNat ≤ 0x7f
  · left
    refine ⟨.ofNat ch.val.toNat, ?_, ?_⟩
    · simp only [utf8EncodeChar, if_pos h₁]
    · rw [byte_toNat (by omega)]
      omega
  by_cases h₂ : ch.val.toNat ≤ 0x7ff
  · right; left
    refine ⟨.ofNat (ch.val.toNat / 64 % 0x20 + 0xc0), .ofNat (ch.val.toNat % 0x40 + 0x80), ?_, ?_⟩
    · simp only [utf8EncodeChar, if_neg h₁, if_pos h₂]
    · rw [byte_toNat (by omega), byte_toNat (by omega)]
      omega
  by_cases h₃ : ch.val.toNat ≤ 0xffff
  · right; right; left
    refine ⟨.ofNat (ch.val.toNat / 4096 % 0x10 + 0xe0), .ofNat (ch.val.toNat / 64 % 0x40 + 0x80),
      .ofNat (ch.val.toNat % 0x40 + 0x80), ?_, ?_⟩
    · simp only [utf8EncodeChar, if_neg h₁, if_neg h₂, if_pos h₃]
    · rw [byte_toNat (by omega), byte_toNat (by omega), byte_toNat (by omega)]
      omega
  · right; right; right
    refine ⟨.ofNat (ch.val.toNat / 262144 % 0x08 + 0xf0),
      .ofNat (ch.val.toNat / 4096 % 0x40 + 0x80), .ofNat (ch.val.toNat / 64 % 0x40 + 0x80),
      .ofNat (ch.val.toNat % 0x40 + 0x80), ?_, ?_⟩
    · simp only [utf8EncodeChar, if_neg h₁, if_neg h₂, if_neg h₃]
    · rw [byte_toNat (by omega), byte_toNat (by omega), byte_toNat (by omega),
        byte_toNat (by omega)]
      omega

theorem utf8Run_encode {ch : Char} (hne : ch.val.toNat ≠ 0) {rest : List UInt8}
    (h : rest.foldlM utf8Check ⟨0, ch.val⟩ = some v) :
    (utf8EncodeChar ch ++ rest).foldlM utf8Check ⟨0, c⟩ = some v := by
  have hlegal : illegalCodePoint ch.val = false := illegalCodePoint_eq_false.mpr ch.valid
  rcases encode_cases ch with ⟨b, henc, hlt, hval⟩ | ⟨b, b₁, henc, hb, h₁, hval⟩ |
    ⟨b, b₁, b₂, henc, hb, h₁, h₂, hlong, hval⟩ |
    ⟨b, b₁, b₂, b₃, henc, hb, h₁, h₂, h₃, hlong, hval⟩
  · have hch : ch.val = b.toUInt32 :=
      toNat_inj.mp (hval.trans (toNat_toUInt32 b).symm)
    rw [henc]
    refine utf8Run_cons.mpr ⟨_, utf8Check_lead.mpr (Or.inl ⟨by omega, hlt, rfl⟩), ?_⟩
    exact hch ▸ h
  · obtain ⟨l₂, -, -⟩ := lead_toNat b
    have hc := continuation_toNat (c := b.toUInt32 &&& 0x1F) b₁ (by omega)
    have hch : ((b.toUInt32 &&& 0x1F) <<< 6) ||| (b₁.toUInt32 &&& 0x3F) = ch.val :=
      toNat_inj.mp (by rw [hc, l₂, hval])
    rw [henc]
    refine utf8Run_cons.mpr ⟨_, utf8Check_lead.mpr (Or.inr (Or.inl ⟨hb.1, hb.2, rfl⟩)), ?_⟩
    refine utf8Run_cons.mpr ⟨_, utf8Check_tail.mpr ⟨h₁, by omega, by omega, ?_, rfl⟩, ?_⟩
    · exact fun _ => hch ▸ hlegal
    · exact hch ▸ h
  · obtain ⟨-, l₃, -⟩ := lead_toNat b
    have hc₁ := continuation_toNat (c := b.toUInt32 &&& 0x0F) b₁ (by omega)
    have hc := continuation_toNat b₂ (by rw [hc₁]; omega)
    rw [hc₁, l₃, ← hval] at hc
    rw [henc]
    refine utf8Run_cons.mpr
      ⟨_, utf8Check_lead.mpr (Or.inr (Or.inr (Or.inl ⟨hb.1, hb.2, rfl⟩))), ?_⟩
    refine utf8Run_cons.mpr ⟨_, utf8Check_tail.mpr ⟨h₁, ?_, by omega, by omega, rfl⟩, ?_⟩
    · intro _ h0
      exact hlong (by rw [← l₃, h0]; rfl)
    refine utf8Run_cons.mpr ⟨_, utf8Check_tail.mpr ⟨h₂, by omega, by omega, ?_, rfl⟩, ?_⟩
    · exact fun _ => toNat_inj.mp hc ▸ hlegal
    · exact toNat_inj.mp hc ▸ h
  · obtain ⟨-, -, l₄⟩ := lead_toNat b
    have hc₁ := continuation_toNat (c := b.toUInt32 &&& 0x07) b₁ (by omega)
    have hc₂ := continuation_toNat b₂ (by rw [hc₁]; omega)
    have hc := continuation_toNat b₃ (by rw [hc₂, hc₁]; omega)
    rw [hc₂, hc₁, l₄, ← hval] at hc
    rw [henc]
    refine utf8Run_cons.mpr
      ⟨_, utf8Check_lead.mpr (Or.inr (Or.inr (Or.inr ⟨hb.1, hb.2, rfl⟩))), ?_⟩
    refine utf8Run_cons.mpr ⟨_, utf8Check_tail.mpr ⟨h₁, by omega, ?_, by omega, rfl⟩, ?_⟩
    · intro _ h0
      exact hlong (by rw [← l₄, h0]; rfl)
    refine utf8Run_cons.mpr ⟨_, utf8Check_tail.mpr ⟨h₂, ?_, by omega, by omega, rfl⟩, ?_⟩
    · -- the first continuation byte has left a bit set
      intro _ h0
      have hzero := congrArg UInt32.toNat h0
      rw [hc₁, l₄, UInt32.toNat_zero] at hzero
      omega
    refine utf8Run_cons.mpr ⟨_, utf8Check_tail.mpr ⟨h₃, by omega, by omega, ?_, rfl⟩, ?_⟩
    · exact fun _ => toNat_inj.mp hc ▸ hlegal
    · exact toNat_inj.mp hc ▸ h

theorem utf8Run_iff :
    (∃ v, bs.foldlM utf8Check ⟨0, c⟩ = some v ∧ v.count = 0) ↔ IsText bs := by
  constructor
  · intro h
    obtain ⟨v, hrun, hv⟩ := h
    exact utf8Run_isText (Nat.le_refl _) hrun hv
  · intro h
    obtain ⟨chars, hnul, rfl⟩ := h
    induction chars generalizing c with
    | nil => exact ⟨⟨0, c⟩, rfl, rfl⟩
    | cons ch chars ih =>
      rw [List.mem_cons, not_or] at hnul
      obtain ⟨v, hrun, hv⟩ := ih (c := ch.val) hnul.2
      refine ⟨v, ?_, hv⟩
      rw [List.flatMap_cons]
      apply utf8Run_encode _ hrun
      intro h0
      apply hnul.1
      apply Char.ext
      exact toNat_inj.mp h0.symm

/-! ## The end of the line -/

/-- The current line, from where the pointer is. -/
def lineOf (cs : List UInt8) : List UInt8 := cs.takeWhile fun c => !isEol c

/-- What starts with the end of the line. -/
def behindLine (cs : List UInt8) : List UInt8 := cs.dropWhile fun c => !isEol c

theorem lineOf_append_behindLine (cs : List UInt8) : lineOf cs ++ behindLine cs = cs :=
  List.takeWhile_append_dropWhile

theorem isEol_of_mem_lineOf {cs : List UInt8} {c : UInt8} (h : c ∈ lineOf cs) :
    isEol c = false := by
  have hc := List.mem_takeWhile_imp h
  simpa using hc

theorem behindLine_cases (cs : List UInt8) :
    behindLine cs = [] ∨ ∃ c t, behindLine cs = c :: t ∧ isEol c = true := by
  cases h : behindLine cs with
  | nil => exact Or.inl rfl
  | cons c t =>
    refine Or.inr ⟨c, t, rfl, ?_⟩
    have hne : cs.dropWhile (fun c => !isEol c) ≠ [] := by
      intro hnil
      rw [behindLine, hnil] at h
      cases h
    have hc := List.head_dropWhile_not (fun c => !isEol c) hne
    simp only [behindLine] at h
    simp only [h, List.head_cons] at hc
    simpa using hc

/-- What is left behind a value, and the lines passed. -/
def afterValue (nType : ManifestType) : List UInt8 → List UInt8 × Nat
  | [] => ([], 0)
  | c :: cs => endOfValue nType c cs

/-- `pLastNonWhitespaceChar` at the end of the line. -/
def lastNonBlank (cur last : Nat) : List UInt8 → Nat
  | [] => last
  | c :: cs => lastNonBlank (cur + 1) (if isBlank c then last else cur + 1) cs

theorem lastNonBlank_concat (cs : List UInt8) (c : UInt8) (cur last : Nat) :
    lastNonBlank cur last (cs ++ [c]) =
      if isBlank c then lastNonBlank cur last cs else cur + cs.length + 1 := by
  induction cs generalizing cur last with
  | nil => simp [lastNonBlank]
  | cons d cs ih =>
    rw [List.cons_append, lastNonBlank, ih, lastNonBlank, List.length_cons]
    split
    · rfl
    · omega

theorem lastNonBlank_eq (cs : List UInt8) :
    lastNonBlank 0 0 cs = (cs.rdropWhile isBlank).length := by
  induction cs using List.reverseRecOn with
  | nil => rfl
  | append_singleton cs c ih =>
    rw [lastNonBlank_concat]
    split
    next hc => rw [ih, List.rdropWhile_concat_pos _ _ _ hc]
    next hc =>
      rw [List.rdropWhile_concat_neg _ _ _ hc, List.length_append, List.length_singleton]
      omega

theorem utf8Byte_eol {c : UInt8} (h : isEol c = true) (u : Utf8State) :
    utf8Byte u c = if u.count ≠ 0 then none else some { u with char := c.toUInt32 } := by
  have hc : c = charCR ∨ c = charLF := by
    simpa [isEol] using h
  rw [utf8Byte_eq]
  rcases hc with rfl | rfl
  · simp [charCR]
  · simp [charLF]

theorem legal_eol {c : UInt8} (h : isEol c = true) : illegalCodePoint c.toUInt32 = false := by
  have hc : c = charCR ∨ c = charLF := by
    simpa [isEol] using h
  rcases hc with rfl | rfl
  · rfl
  · rfl

theorem valueLoop_line (nType : ManifestType) {body tail : List UInt8}
    (hbody : ∀ c ∈ body, isEol c = false)
    (htail : tail = [] ∨ ∃ c t, tail = c :: t ∧ isEol c = true) (u : Utf8State)
    (cur last : Nat) :
    valueLoop nType u cur last (body ++ tail) =
      match body.foldlM utf8Check u with
      | none => none
      | some v =>
        if v.count ≠ 0 then none
        else some (lastNonBlank cur last body, (afterValue nType tail).1,
          (afterValue nType tail).2) := by
  induction body generalizing u cur last with
  | nil =>
    rcases htail with rfl | ⟨c, t, rfl, hc⟩
    · rfl
    · rw [List.nil_append, valueLoop, utf8Byte_eol hc]
      by_cases hu : u.count ≠ 0
      · simp [hu]
      · simp [hu, legal_eol hc, hc, lastNonBlank, afterValue]
  | cons b body ih =>
    have hb : isEol b = false := hbody b List.mem_cons_self
    have hrest : ∀ c ∈ body, isEol c = false := fun c hc => hbody c (List.mem_cons_of_mem b hc)
    rw [List.cons_append, valueLoop, List.foldlM_cons, utf8Check]
    cases hstep : utf8Byte u b with
    | none => rfl
    | some u' =>
      by_cases hill : u'.count = 0 ∧ illegalCodePoint u'.char = true
      · simp [hill]
      · simp only [hill, hb, if_false, Bool.false_eq_true, and_false, lastNonBlank]
        exact ih hrest u' _ _

theorem valueLoop_eq_some {nType : ManifestType} {v r : List UInt8} {k lines : Nat} :
    valueLoop nType ⟨0, 0⟩ 0 0 v = some (k, r, lines) ↔
      IsText (lineOf v) ∧ k = ((lineOf v).rdropWhile isBlank).length ∧
        (r, lines) = afterValue nType (behindLine v) := by
  have hline := valueLoop_line nType (fun _ => @isEol_of_mem_lineOf v _)
    (behindLine_cases v) ⟨0, 0⟩ 0 0
  rw [lineOf_append_behindLine, lastNonBlank_eq] at hline
  rw [hline, ← utf8Run_iff (c := 0)]
  constructor
  · intro h
    split at h
    next => cases h
    next u hu =>
      split at h
      · cases h
      next hcount =>
        cases h
        exact ⟨⟨u, hu, by simpa using hcount⟩, rfl, rfl⟩
  · intro h
    obtain ⟨⟨u, hu, hcount⟩, rfl, hafter⟩ := h
    rw [hu]
    simp only [hcount, ne_eq, not_true_eq_false, if_false, ← hafter]

end Omap4Hal.Security

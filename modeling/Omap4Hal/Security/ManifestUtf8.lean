import Omap4Hal.Security.ManifestLines

/- The value of a property against RFC 3629. `Utf8Octets` is the grammar of section 4 of
   the RFC, less NUL: its characters are the encodings of the code points
   (`utf8Char_iff`), so what it derives are the texts of `IsText`. The scanner accepts a
   value exactly if the grammar derives the line behind the colon. -/
namespace Omap4Hal.Security
open Lib

/-! ## The grammar -/

def Utf8Tail (b : UInt8) : Prop := 0x80 ≤ b.toNat ∧ b.toNat ≤ 0xBF

/-- `UTF8-char`, other than NUL. The lines of `three` and `four` are the alternatives of
`UTF8-3` and `UTF8-4`: they leave out overlong forms, surrogates and what is past
U+10FFFF. -/
inductive Utf8Char : List UInt8 → Prop where
  | one {b : UInt8} (h : b.toNat ≠ 0 ∧ b.toNat ≤ 0x7F) : Utf8Char [b]
  | two {b b₁ : UInt8} (h : 0xC2 ≤ b.toNat ∧ b.toNat ≤ 0xDF) (h₁ : Utf8Tail b₁) :
      Utf8Char [b, b₁]
  | three {b b₁ b₂ : UInt8}
      (h : (b.toNat = 0xE0 ∧ 0xA0 ≤ b₁.toNat ∧ b₁.toNat ≤ 0xBF) ∨
        ((0xE1 ≤ b.toNat ∧ b.toNat ≤ 0xEC) ∧ Utf8Tail b₁) ∨
        (b.toNat = 0xED ∧ 0x80 ≤ b₁.toNat ∧ b₁.toNat ≤ 0x9F) ∨
        ((0xEE ≤ b.toNat ∧ b.toNat ≤ 0xEF) ∧ Utf8Tail b₁))
      (h₂ : Utf8Tail b₂) : Utf8Char [b, b₁, b₂]
  | four {b b₁ b₂ b₃ : UInt8}
      (h : (b.toNat = 0xF0 ∧ 0x90 ≤ b₁.toNat ∧ b₁.toNat ≤ 0xBF) ∨
        ((0xF1 ≤ b.toNat ∧ b.toNat ≤ 0xF3) ∧ Utf8Tail b₁) ∨
        (b.toNat = 0xF4 ∧ 0x80 ≤ b₁.toNat ∧ b₁.toNat ≤ 0x8F))
      (h₂ : Utf8Tail b₂) (h₃ : Utf8Tail b₃) : Utf8Char [b, b₁, b₂, b₃]

/-- `UTF8-octets`, without NUL. -/
inductive Utf8Octets : List UInt8 → Prop where
  | nil : Utf8Octets []
  | cons {c rest : List UInt8} (hc : Utf8Char c) (hrest : Utf8Octets rest) :
      Utf8Octets (c ++ rest)

/-! ## Characters -/

theorem codePoint_of_valid {k : Nat} (h : k < 0xD800 ∨ 0xDFFF < k ∧ k < 0x110000) :
    ∃ w : UInt32, w.isValidChar ∧ w.toNat = k := by
  have hk : (UInt32.ofNat k).toNat = k := UInt32.toNat_ofNat_of_lt' (by
    simp only [UInt32.size]
    omega)
  refine ⟨UInt32.ofNat k, ?_, hk⟩
  rw [UInt32.isValidChar, hk]
  exact h

variable {bs : List UInt8}

theorem Utf8Char.encoded (h : Utf8Char bs) :
    ∃ ch : Char, ch.val.toNat ≠ 0 ∧ bs = String.utf8EncodeChar ch := by
  cases h with
  | @one b h =>
    obtain ⟨w, hw, hval⟩ := codePoint_of_valid (k := b.toNat) (by omega)
    exact ⟨⟨w, hw⟩, by show w.toNat ≠ 0; omega, (encode_one hw (by omega) hval).symm⟩
  | @two b b₁ h h₁ =>
    obtain ⟨hlo, hhi⟩ := h₁
    obtain ⟨w, hw, hval⟩ :=
      codePoint_of_valid (k := b.toNat % 32 * 64 + b₁.toNat % 64) (by omega)
    refine ⟨⟨w, hw⟩, ?_, (encode_two hw (by omega) (by omega) hval).symm⟩
    show w.toNat ≠ 0
    omega
  | @three b b₁ b₂ h h₂ =>
    simp only [Utf8Tail] at h h₂
    obtain ⟨w, hw, hval⟩ := codePoint_of_valid
      (k := (b.toNat % 16 * 64 + b₁.toNat % 64) * 64 + b₂.toNat % 64) (by omega)
    refine ⟨⟨w, hw⟩, ?_,
      (encode_three hw (by omega) (by omega) (by omega) (by omega) hval).symm⟩
    show w.toNat ≠ 0
    omega
  | @four b b₁ b₂ b₃ h h₂ h₃ =>
    simp only [Utf8Tail] at h h₂ h₃
    obtain ⟨w, hw, hval⟩ := codePoint_of_valid
      (k := ((b.toNat % 8 * 64 + b₁.toNat % 64) * 64 + b₂.toNat % 64) * 64 + b₃.toNat % 64)
      (by omega)
    refine ⟨⟨w, hw⟩, ?_,
      (encode_four hw (by omega) (by omega) (by omega) (by omega) (by omega) hval).symm⟩
    show w.toNat ≠ 0
    omega

theorem utf8Char_encode {ch : Char} (hne : ch.val.toNat ≠ 0) :
    Utf8Char (String.utf8EncodeChar ch) := by
  have hvalid : ch.val.toNat < 0xD800 ∨ 0xDFFF < ch.val.toNat ∧ ch.val.toNat < 0x110000 := ch.valid
  rcases encode_cases ch with ⟨b, henc, hlt, hval⟩ | ⟨b, b₁, henc, hb, h₁, hval⟩ |
    ⟨b, b₁, b₂, henc, hb, h₁, h₂, hlong, hval⟩ |
    ⟨b, b₁, b₂, b₃, henc, hb, h₁, h₂, h₃, hlong, hval⟩
  · rw [henc]
    exact .one (by omega)
  · rw [henc]
    exact .two (by omega) ⟨h₁.1, by omega⟩
  · rw [henc]
    refine .three ?_ ⟨h₂.1, by omega⟩
    simp only [Utf8Tail]
    omega
  · rw [henc]
    refine .four ?_ ⟨h₂.1, by omega⟩ ⟨h₃.1, by omega⟩
    simp only [Utf8Tail]
    omega

theorem utf8Char_iff :
    Utf8Char bs ↔ ∃ ch : Char, ch.val.toNat ≠ 0 ∧ bs = String.utf8EncodeChar ch := by
  constructor
  · exact Utf8Char.encoded
  · rintro ⟨ch, hne, rfl⟩
    exact utf8Char_encode hne

theorem nul_iff {ch : Char} : Char.ofNat 0 = ch ↔ ch.val.toNat = 0 := by
  constructor
  · rintro rfl
    rfl
  · intro h
    apply Char.ext
    exact UInt32.toNat_inj.mp h.symm

theorem utf8Octets_iff : Utf8Octets bs ↔ IsText bs := by
  constructor
  · intro h
    induction h with
    | nil => exact ⟨[], List.not_mem_nil, rfl⟩
    | cons hc _ ih =>
      obtain ⟨⟨w, hw⟩, hne, rfl⟩ := utf8Char_iff.mp hc
      exact ih.cons hw hne
  · rintro ⟨chars, hnul, rfl⟩
    induction chars with
    | nil => exact .nil
    | cons ch chars ih =>
      rw [List.mem_cons, not_or, nul_iff] at hnul
      rw [List.flatMap_cons]
      exact .cons (utf8Char_encode hnul.1) (ih hnul.2)

/-! ## The line behind the colon -/

theorem isText_cons_blank {c : UInt8} (hc : isBlank c = true) {cs : List UInt8} :
    IsText (c :: cs) ↔ IsText cs := by
  have hstep : utf8Check ⟨0, 0⟩ c = some ⟨0, c.toUInt32⟩ := by
    simp only [isBlank, Bool.or_eq_true, beq_iff_eq] at hc
    rcases hc with rfl | rfl <;> rfl
  rw [← utf8Run_iff (c := 0), ← utf8Run_iff (c := c.toUInt32), List.foldlM_cons, hstep]
  exact Iff.rfl

theorem isText_dropBlanks {cs : List UInt8} :
    IsText (lineOf (cs.dropWhile isBlank)) ↔ IsText (lineOf cs) := by
  induction cs with
  | nil => exact Iff.rfl
  | cons c cs ih =>
    by_cases hc : isBlank c = true
    · have heol : isEol c = false := by
        simp only [isBlank, Bool.or_eq_true, beq_iff_eq] at hc
        rcases hc with rfl | rfl <;> rfl
      have hline : lineOf (c :: cs) = c :: lineOf cs := by
        simp only [lineOf, List.takeWhile_cons, heol, Bool.not_false, if_true]
      rw [List.dropWhile_cons_of_pos hc, ih, hline, isText_cons_blank hc]
    · rw [List.dropWhile_cons_of_neg hc]

theorem valueLoop_accepts (nType : ManifestType) (v : List UInt8) :
    (∃ x, valueLoop nType ⟨0, 0⟩ 0 0 v = some x) ↔ IsText (lineOf v) := by
  constructor
  · rintro ⟨⟨k, r, lines⟩, h⟩
    exact (valueLoop_eq_some.mp h).1
  · intro h
    exact ⟨_, valueLoop_eq_some.mpr ⟨h, rfl, rfl⟩⟩

/-- A property whose name has been read up to the colon, `r` being what follows the
colon: the scanner accepts it exactly if the bytes up to CR, LF or the end of the buffer
are UTF-8 without NUL, and refuses it as ill formed otherwise. -/
theorem valueScanner_utf8 (nType : ManifestType) (l : Lines) (c : UInt8) (cs : List UInt8)
    (k : Nat) (r : List UInt8) (hfirst : checkCharacter c .nameFirst = true)
    (hname : nameLoop nType 1 1 cs = some (k, r)) :
    ((scanProperty nType l c cs).nResult = sSuccess ↔ Utf8Octets (lineOf r)) ∧
      ((scanProperty nType l c cs).nResult = sErrorBadFormat ↔ ¬ Utf8Octets (lineOf r)) := by
  have hdiff : sErrorBadFormat ≠ sSuccess := by decide
  rw [utf8Octets_iff, ← isText_dropBlanks, ← valueLoop_accepts nType]
  simp only [scanProperty, hfirst, hname, Bool.true_eq_false, if_false]
  cases valueLoop nType ⟨0, 0⟩ 0 0 (r.dropWhile isBlank) with
  | none => simp [Scan.error, hdiff]
  | some x => simp [hdiff.symm]

/-- `a: é` before the end of a line. -/
theorem valueScanner_accents :
    (scanProperty .source ⟨[], 0, false⟩ 0x61 [0x3A, 0x20, 0xC3, 0xA9, 0x0D]).nResult = sSuccess ∧
      Utf8Octets (lineOf [0x20, 0xC3, 0xA9, 0x0D]) := by
  have hscan := valueScanner_utf8 .source ⟨[], 0, false⟩ 0x61 [0x3A, 0x20, 0xC3, 0xA9, 0x0D] 1
    [0x20, 0xC3, 0xA9, 0x0D] (by decide) (by decide)
  have hok : (scanProperty .source ⟨[], 0, false⟩ 0x61
      [0x3A, 0x20, 0xC3, 0xA9, 0x0D]).nResult = sSuccess := by decide
  exact ⟨hok, hscan.1.mp hok⟩

end Omap4Hal.Security

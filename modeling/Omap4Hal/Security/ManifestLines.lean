import Mathlib.Data.List.Forall2
import Omap4Hal.Security.ManifestText

/- The lines of a manifest. A line is blank, a comment, a section header or a property;
   `LineIs` says which, and `Entries` reads a manifest line by line. The scanner does
   not split lines: it works on the bytes from its pointer on. `scanItem_entries` says
   that it takes the entries one after the other, and that it fails only where a line
   is none of the four, or a property stands before the first section header. -/
namespace Omap4Hal.Security
open Lib
open List (append_nil cons_append forall_mem_cons mem_append mem_cons mem_cons_self nil_append
  not_mem_nil)

/-! ## Characters and names -/

/-- `[A-Za-z0-9]`. -/
def IsAlnum (c : UInt8) : Prop :=
  (0x41 ≤ c ∧ c ≤ 0x5A) ∨ (0x61 ≤ c ∧ c ≤ 0x7A) ∨ (0x30 ≤ c ∧ c ≤ 0x39)

/-- `[A-Za-z0-9_.-]`. -/
def IsNameChar (c : UInt8) : Prop := IsAlnum c ∨ c = 0x5F ∨ c = 0x2E ∨ c = 0x2D

/-- `[A-Za-z0-9][A-Za-z0-9_.-]*`. -/
def IsPropertyName (name : List UInt8) : Prop :=
  ∃ c cs, name = c :: cs ∧ IsAlnum c ∧ ∀ d ∈ cs, IsNameChar d

/-- `[A-Za-z0-9_. -]*`. -/
def IsSectionName (name : List UInt8) : Prop := ∀ c ∈ name, IsNameChar c ∨ c = charSpace

/-- No blank at either end. -/
def Trimmed (value : List UInt8) : Prop :=
  (∀ c ∈ value.head?, isBlank c = false) ∧ ∀ c ∈ value.getLast?, isBlank c = false

theorem checkCharacter_first {c : UInt8} : checkCharacter c .nameFirst = true ↔ IsAlnum c := by
  rw [checkCharacter, IsAlnum]
  grind

theorem checkCharacter_subsequent {c : UInt8} :
    checkCharacter c .nameSubsequent = true ↔ IsNameChar c := by
  rw [checkCharacter, IsNameChar, IsAlnum]
  grind

theorem checkCharacter_section {c : UInt8} :
    checkCharacter c .sectionName = true ↔ IsNameChar c ∨ c = charSpace := by
  rw [checkCharacter, IsNameChar, IsAlnum]
  grind

theorem isSectionName_of_all {name : List UInt8}
    (h : name.all (fun c => checkCharacter c .sectionName) = true) : IsSectionName name :=
  fun c hc => checkCharacter_section.mp (List.all_eq_true.mp h c hc)

theorem isNameChar_of_all {cs : List UInt8}
    (h : cs.all (fun c => checkCharacter c .nameSubsequent) = true) : ∀ d ∈ cs, IsNameChar d :=
  fun d hd => checkCharacter_subsequent.mp (List.all_eq_true.mp h d hd)

theorem trimmed_of_ends {value : List UInt8} {a b : UInt8} (hhead : value.head? = some a)
    (ha : isBlank a = false) (hlast : value.getLast? = some b) (hb : isBlank b = false) :
    Trimmed value := by
  refine ⟨?_, ?_⟩
  · intro c hc
    rw [hhead] at hc
    exact Option.some.inj hc ▸ ha
  · intro c hc
    rw [hlast] at hc
    exact Option.some.inj hc ▸ hb

/-! ## What a line holds -/

/-- A section header, or a property with its value. -/
structure Entry where
  name : List UInt8
  value : Option (List UInt8)
  deriving DecidableEq, Repr

/-- The lines that are well formed, with what they hold. -/
inductive LineIs (nType : ManifestType) : List UInt8 → Option Entry → Prop where
  | blank {l : List UInt8} (hl : ∀ c ∈ l, isBlank c = true) : LineIs nType l none
  | comment {l : List UInt8} (hl : 0 ∉ l) : LineIs nType (charHash :: l) none
  | header {name b : List UInt8} (htype : nType = .sourceWithSections)
      (hname : IsSectionName name) (hb : ∀ c ∈ b, isBlank c = true) :
      LineIs nType (charOpenBracket :: (name ++ charCloseBracket :: b)) (some ⟨name, none⟩)
  | property {name b₁ b₂ value b₃ : List UInt8} (hname : IsPropertyName name)
      (h₁ : ∀ c ∈ b₁, isBlank c = true) (h₂ : ∀ c ∈ b₂, isBlank c = true)
      (htext : IsText value) (htrim : Trimmed value) (h₃ : ∀ c ∈ b₃, isBlank c = true) :
      LineIs nType (name ++ (b₁ ++ charColon :: (b₂ ++ (value ++ b₃)))) (some ⟨name, some value⟩)

/-- Every line of the text is well formed, and these are its entries. CR LF ends a line
and starts an empty one, which holds nothing. -/
def Entries (nType : ManifestType) (text : List UInt8) (entries : List Entry) : Prop :=
  ∃ marks, List.Forall₂ (LineIs nType) (text.splitOnP isEol) marks ∧
    entries = marks.filterMap id

variable {nType : ManifestType}

theorem isEol_eq_false_of_blank {c : UInt8} (h : isBlank c = true) : isEol c = false := by
  simp only [isBlank, isEol, Bool.or_eq_true, beq_iff_eq] at h ⊢
  rcases h with rfl | rfl <;> rfl

theorem IsAlnum.not_blank {c : UInt8} (h : IsAlnum c) : isBlank c = false := by
  simp only [IsAlnum, isBlank, charSpace, charTab, Bool.or_eq_false_iff, beq_eq_false_iff_ne] at h ⊢
  grind

theorem IsNameChar.not_blank {c : UInt8} (h : IsNameChar c) : isBlank c = false := by
  simp only [IsNameChar, IsAlnum, isBlank, charSpace, charTab, Bool.or_eq_false_iff,
    beq_eq_false_iff_ne] at h ⊢
  grind

theorem IsNameChar.not_eol {c : UInt8} (h : IsNameChar c) : isEol c = false := by
  simp only [IsNameChar, IsAlnum, isEol, charCR, charLF, Bool.or_eq_false_iff,
    beq_eq_false_iff_ne] at h ⊢
  grind

theorem IsNameChar.ne_colon {c : UInt8} (h : IsNameChar c) : c ≠ charColon := by
  simp only [IsNameChar, IsAlnum, charColon] at h ⊢
  grind

theorem IsSectionName.not_eol {name : List UInt8} (h : IsSectionName name) :
    ∀ c ∈ name, isEol c = false := by
  intro c hc
  rcases h c hc with hname | rfl
  · exact hname.not_eol
  · rfl

theorem IsSectionName.ne_bracket {name : List UInt8} (h : IsSectionName name) :
    ∀ c ∈ name, c ≠ charCloseBracket := by
  intro c hc
  rcases h c hc with hname | rfl
  · simp only [IsNameChar, IsAlnum, charCloseBracket] at hname ⊢
    grind
  · decide

/-! ## Lines -/

theorem lineOf_append {a : List UInt8} (ha : ∀ c ∈ a, isEol c = false) (b : List UInt8) :
    lineOf (a ++ b) = a ++ lineOf b := by
  rw [lineOf, List.takeWhile_append_of_pos (by simpa using ha), lineOf]

theorem behindLine_append {a : List UInt8} (ha : ∀ c ∈ a, isEol c = false) (b : List UInt8) :
    behindLine (a ++ b) = behindLine b := by
  rw [behindLine, List.dropWhile_append_of_pos (by simpa using ha), behindLine]

theorem lineOf_cons {c : UInt8} (hc : isEol c = false) (cs : List UInt8) :
    lineOf (c :: cs) = c :: lineOf cs :=
  lineOf_append (a := [c]) (by simpa using hc) cs

theorem behindLine_cons {c : UInt8} (hc : isEol c = false) (cs : List UInt8) :
    behindLine (c :: cs) = behindLine cs :=
  behindLine_append (a := [c]) (by simpa using hc) cs

theorem lineOf_behindLine (cs : List UInt8) : lineOf (behindLine cs) = [] := by
  rcases behindLine_cases cs with h | ⟨c, t, h, hc⟩
  · rw [h]
    rfl
  · rw [h, lineOf, List.takeWhile_cons_of_neg (by simpa using hc)]

theorem behindLine_behindLine (cs : List UInt8) : behindLine (behindLine cs) = behindLine cs := by
  have h := lineOf_append_behindLine (behindLine cs)
  rwa [lineOf_behindLine, nil_append] at h

theorem splitOnP_eol {c : UInt8} (hc : isEol c = true) (cs : List UInt8) :
    (c :: cs).splitOnP isEol = [] :: cs.splitOnP isEol := by
  have h := @List.splitOnP_append_cons_of_forall_mem _ isEol [] (by simp) c hc cs
  rwa [nil_append] at h

theorem splitOnP_line (cs : List UInt8) : ∃ ls, cs.splitOnP isEol = lineOf cs :: ls ∧
    (behindLine cs).splitOnP isEol = [] :: ls := by
  have hline : ∀ c ∈ lineOf cs, isEol c = false := fun _ => isEol_of_mem_lineOf
  have happ := lineOf_append_behindLine cs
  rcases behindLine_cases cs with h | ⟨c, t, h, hc⟩
  · rw [h, append_nil] at happ
    refine ⟨[], ?_, by rw [h, List.splitOnP_nil]⟩
    rw [← List.splitOnP_eq_singleton hline, happ]
  · refine ⟨t.splitOnP isEol, ?_, ?_⟩
    · rw [← List.splitOnP_append_cons_of_forall_mem hline c hc, ← h, happ]
    · rw [h, splitOnP_eol hc]

theorem LineIs.of_nil {m : Option Entry} (h : LineIs nType [] m) : m = none := by
  generalize hl : ([] : List UInt8) = l at h
  cases h with
  | blank => rfl
  | comment => rfl
  | header => cases hl
  | property hname =>
    obtain ⟨c, cs, rfl, -⟩ := hname
    cases hl

theorem entries_line {cs : List UInt8} {es : List Entry} :
    Entries nType cs es ↔ ∃ m rest, LineIs nType (lineOf cs) m ∧
      Entries nType (behindLine cs) rest ∧ es = m.toList ++ rest := by
  obtain ⟨ls, hls, hbehind⟩ := splitOnP_line cs
  rw [Entries, hls]
  constructor
  · intro h
    obtain ⟨marks, hmarks, rfl⟩ := h
    obtain ⟨m, ms, hm, hms, rfl⟩ := List.forall₂_cons_left_iff.mp hmarks
    refine ⟨m, ms.filterMap id, hm, ⟨none :: ms, ?_, rfl⟩, ?_⟩
    · rw [hbehind]
      exact .cons (.blank (by simp)) hms
    · cases m with
      | none => rfl
      | some e => rfl
  · intro h
    obtain ⟨m, rest, hm, ⟨marks, hmarks, rfl⟩, rfl⟩ := h
    rw [hbehind] at hmarks
    obtain ⟨m', ms, hm', hms, rfl⟩ := List.forall₂_cons_left_iff.mp hmarks
    obtain rfl := hm'.of_nil
    refine ⟨m :: ms, .cons hm hms, ?_⟩
    cases m with
    | none => rfl
    | some e => rfl

theorem entries_eol {c : UInt8} (hc : isEol c = true) {cs : List UInt8} {es : List Entry} :
    Entries nType (c :: cs) es ↔ Entries nType cs es := by
  rw [Entries, splitOnP_eol hc]
  constructor
  · intro h
    obtain ⟨marks, hmarks, rfl⟩ := h
    obtain ⟨m, ms, hm, hms, rfl⟩ := List.forall₂_cons_left_iff.mp hmarks
    obtain rfl := hm.of_nil
    exact ⟨ms, hms, rfl⟩
  · intro h
    obtain ⟨marks, hmarks, rfl⟩ := h
    exact ⟨none :: marks, .cons (.blank (by simp)) hmarks, rfl⟩

theorem entries_nil {es : List Entry} : Entries nType [] es ↔ es = [] := by
  constructor
  · intro h
    obtain ⟨marks, hmarks, rfl⟩ := h
    rw [List.splitOnP_nil] at hmarks
    obtain ⟨m, ms, hm, hms, rfl⟩ := List.forall₂_cons_left_iff.mp hmarks
    rw [hm.of_nil, List.forall₂_nil_left_iff.mp hms]
    rfl
  · intro h
    subst h
    exact ⟨[none], .cons (.blank (by simp)) .nil, rfl⟩

/-! ## Lines by their first character -/

theorem lineIs_hash {l : List UInt8} {m : Option Entry} :
    LineIs nType (charHash :: l) m ↔ 0 ∉ l ∧ m = none := by
  constructor
  · intro h
    generalize hl : charHash :: l = line at h
    cases h with
    | blank hb =>
      subst hl
      exact absurd (hb charHash mem_cons_self) (by decide)
    | comment hz =>
      cases hl
      exact ⟨hz, rfl⟩
    | header => exact absurd (List.cons.inj hl).1 (by decide)
    | property hname =>
      obtain ⟨c, cs, rfl, hc, -⟩ := hname
      obtain rfl := (List.cons.inj hl).1
      exact absurd hc (by unfold IsAlnum; decide)
  · intro h
    obtain ⟨hz, rfl⟩ := h
    exact .comment hz

theorem lineIs_blank {c : UInt8} (hc : isBlank c = true) {l : List UInt8} {m : Option Entry} :
    LineIs nType (c :: l) m ↔ (∀ d ∈ l, isBlank d = true) ∧ m = none := by
  constructor
  · intro h
    generalize hl : c :: l = line at h
    cases h with
    | blank hb =>
      subst hl
      exact ⟨fun d hd => hb d (List.mem_cons_of_mem c hd), rfl⟩
    | comment =>
      rw [(List.cons.inj hl).1] at hc
      exact absurd hc (by decide)
    | header =>
      rw [(List.cons.inj hl).1] at hc
      exact absurd hc (by decide)
    | property hname =>
      obtain ⟨d, cs, rfl, hd, -⟩ := hname
      obtain rfl := (List.cons.inj hl).1
      rw [hd.not_blank] at hc
      cases hc
  · intro h
    obtain ⟨hb, rfl⟩ := h
    apply LineIs.blank
    intro d hd
    rcases mem_cons.mp hd with rfl | hd
    · exact hc
    · exact hb d hd

theorem lineIs_bracket {l : List UInt8} {m : Option Entry} :
    LineIs .sourceWithSections (charOpenBracket :: l) m ↔
      ∃ name b, IsSectionName name ∧ (∀ c ∈ b, isBlank c = true) ∧
        l = name ++ charCloseBracket :: b ∧ m = some ⟨name, none⟩ := by
  constructor
  · intro h
    generalize hl : charOpenBracket :: l = line at h
    cases h with
    | blank hb =>
      subst hl
      exact absurd (hb charOpenBracket mem_cons_self) (by decide)
    | comment => exact absurd (List.cons.inj hl).1 (by decide)
    | header _ hname hb => exact ⟨_, _, hname, hb, (List.cons.inj hl).2, rfl⟩
    | property hname =>
      obtain ⟨d, cs, rfl, hd, -⟩ := hname
      obtain rfl := (List.cons.inj hl).1
      exact absurd hd (by unfold IsAlnum; decide)
  · intro h
    obtain ⟨name, b, hname, hb, rfl, rfl⟩ := h
    exact .header rfl hname hb

theorem lineIs_other {c : UInt8} (hhash : c ≠ charHash) (hblank : isBlank c = false)
    (hsec : nType = .sourceWithSections → c ≠ charOpenBracket) {l : List UInt8}
    {m : Option Entry} (h : LineIs nType (c :: l) m) :
    ∃ name' b₁ b₂ value b₃, IsAlnum c ∧ (∀ d ∈ name', IsNameChar d) ∧
      (∀ d ∈ b₁, isBlank d = true) ∧ (∀ d ∈ b₂, isBlank d = true) ∧ IsText value ∧
      Trimmed value ∧ (∀ d ∈ b₃, isBlank d = true) ∧
      l = name' ++ (b₁ ++ charColon :: (b₂ ++ (value ++ b₃))) ∧
      m = some ⟨c :: name', some value⟩ := by
  generalize hl : c :: l = line at h
  cases h with
  | blank hb =>
    subst hl
    rw [hb c mem_cons_self] at hblank
    cases hblank
  | comment => exact absurd (List.cons.inj hl).1 hhash
  | header htype => exact absurd (List.cons.inj hl).1 (hsec htype)
  | property hname h₁ h₂ htext htrim h₃ =>
    obtain ⟨d, cs, rfl, hd, hcs⟩ := hname
    cases hl
    exact ⟨cs, _, _, _, _, hd, hcs, h₁, h₂, htext, htrim, h₃, rfl, rfl⟩

/-! ## The loops of the scanner -/

theorem skipComment_eq_some {cs r : List UInt8} :
    skipComment cs = some r ↔ 0 ∉ lineOf cs ∧ r = behindLine cs := by
  induction cs with
  | nil => simp [skipComment, lineOf, behindLine, eq_comm]
  | cons c cs ih =>
    rw [skipComment]
    by_cases hc : isEol c = true
    · simp [hc, lineOf, behindLine, eq_comm]
    · have hc' : isEol c = false := by simpa using hc
      rw [if_neg hc, lineOf_cons hc', behindLine_cons hc', mem_cons, not_or]
      split
      next h0 => simp [h0]
      next h0 =>
        rw [ih]
        exact ⟨fun h => ⟨⟨fun e => h0 e.symm, h.1⟩, h.2⟩, fun h => ⟨h.1.2, h.2⟩⟩

theorem skipWhite_eq_some {cs r : List UInt8} :
    skipWhite cs = some r ↔ (∀ c ∈ lineOf cs, isBlank c = true) ∧ r = behindLine cs := by
  induction cs with
  | nil =>
    rw [skipWhite, Option.some.injEq]
    exact ⟨fun h => ⟨fun _ hc => absurd hc not_mem_nil, h.symm⟩, fun h => h.2.symm⟩
  | cons c cs ih =>
    rw [skipWhite]
    by_cases hc : isEol c = true
    · rw [if_pos hc, Option.some.injEq]
      simp only [lineOf, behindLine, hc, Bool.not_true, Bool.false_eq_true, not_false_eq_true,
        List.takeWhile_cons_of_neg, List.dropWhile_cons_of_neg]
      exact ⟨fun h => ⟨fun _ hc => absurd hc not_mem_nil, h.symm⟩, fun h => h.2.symm⟩
    · have hc' : isEol c = false := by simpa using hc
      rw [if_neg hc, lineOf_cons hc', behindLine_cons hc', forall_mem_cons]
      split
      next hb => rw [ih, and_iff_right hb]
      next hb =>
        constructor
        · intro h
          cases h
        · intro h
          exact absurd h.1.1 hb

theorem sectionName_eq_some {cs name r : List UInt8} :
    sectionName cs = some (name, r) ↔
      IsSectionName name ∧ cs = name ++ charCloseBracket :: r := by
  induction cs generalizing name with
  | nil => simp [sectionName]
  | cons c cs ih =>
    rw [sectionName]
    split
    next hc =>
      subst hc
      constructor
      · intro h
        cases h
        exact ⟨fun _ h => absurd h not_mem_nil, rfl⟩
      · intro h
        obtain ⟨hname, heq⟩ := h
        cases name with
        | nil => rw [(List.cons.inj heq).2]
        | cons d name =>
          obtain rfl := (List.cons.inj heq).1
          exact absurd rfl (hname.ne_bracket _ mem_cons_self)
    next hc =>
      split
      next hchar =>
        rw [Option.map_eq_some_iff]
        constructor
        · intro h
          obtain ⟨⟨name', r'⟩, hrec, heq⟩ := h
          cases heq
          obtain ⟨hname, rfl⟩ := ih.mp hrec
          refine ⟨?_, rfl⟩
          intro d hd
          rcases mem_cons.mp hd with rfl | hd
          · exact checkCharacter_section.mp hchar
          · exact hname d hd
        · intro h
          obtain ⟨hname, heq⟩ := h
          cases name with
          | nil => exact absurd (List.cons.inj heq).1 hc
          | cons d name =>
            cases heq
            exact ⟨(name, r), ih.mpr ⟨fun e he => hname e (List.mem_cons_of_mem _ he), rfl⟩, rfl⟩
      next hchar =>
        constructor
        · intro h
          cases h
        · intro h
          obtain ⟨hname, heq⟩ := h
          cases name with
          | nil => exact absurd (List.cons.inj heq).1 hc
          | cons d name =>
            obtain rfl := (List.cons.inj heq).1
            exact absurd (checkCharacter_section.mpr (hname _ mem_cons_self)) hchar

theorem not_stray_iff {r : List UInt8} : ¬ Stray r ↔ ∀ c ∈ lineOf r, isBlank c = true := by
  induction r with
  | nil => simp [Stray, lineOf]
  | cons c r ih =>
    by_cases hb : isBlank c = true
    · rw [lineOf_cons (isEol_eq_false_of_blank hb), forall_mem_cons, ← ih,
        and_iff_right hb, Stray, dropWhile_blank hb, Stray]
    · rw [Stray, dropWhile_not_blank hb]
      by_cases hc : isEol c = true
      · simp [hc, lineOf]
      · have hc' : isEol c = false := by simpa using hc
        rw [lineOf_cons hc', forall_mem_cons]
        constructor
        · intro h
          exact absurd ⟨c, r, rfl, hc'⟩ h
        · intro h
          exact absurd h.1 hb

theorem dropWhile_blank_line {r : List UInt8} (h : ∀ c ∈ lineOf r, isBlank c = true) :
    r.dropWhile isBlank = behindLine r := by
  have hsplit := lineOf_append_behindLine r
  have hstop : (behindLine r).dropWhile isBlank = behindLine r := by
    rcases behindLine_cases r with hnil | ⟨c, t, hcons, hc⟩
    · rw [hnil]
      rfl
    · have hb : ¬ isBlank c = true := by
        intro hb
        rw [isEol_eq_false_of_blank hb] at hc
        cases hc
      rw [hcons, dropWhile_not_blank hb]
  calc r.dropWhile isBlank = (lineOf r ++ behindLine r).dropWhile isBlank := by rw [hsplit]
    _ = (behindLine r).dropWhile isBlank := List.dropWhile_append_of_pos h
    _ = behindLine r := hstop

/-! ## Names -/

/-- Nothing but blanks stands before a colon. -/
def BlanksColon (cs r : List UInt8) : Prop :=
  ∃ b, (∀ c ∈ b, isBlank c = true) ∧ cs = b ++ charColon :: r

theorem blanksColon_cons {c : UInt8} {cs r : List UInt8} :
    BlanksColon (c :: cs) r ↔
      (c = charColon ∧ cs = r) ∨ (isBlank c = true ∧ BlanksColon cs r) := by
  constructor
  · intro h
    obtain ⟨b, hb, heq⟩ := h
    cases b with
    | nil => exact Or.inl (List.cons.inj heq)
    | cons d b =>
      cases heq
      obtain ⟨hd, hb⟩ := forall_mem_cons.mp hb
      exact Or.inr ⟨hd, b, hb, rfl⟩
  · intro h
    rcases h with ⟨rfl, rfl⟩ | ⟨hc, b, hb, rfl⟩
    · exact ⟨[], by simp, rfl⟩
    · exact ⟨c :: b, forall_mem_cons.mpr ⟨hc, hb⟩, rfl⟩

theorem nameLoop_blanks {cur last k : Nat} {cs r : List UInt8} (hlt : last < cur)
    (hsrc : nType ≠ .compiled) :
    nameLoop nType cur last cs = some (k, r) ↔ BlanksColon cs r ∧ k = last := by
  induction cs generalizing cur with
  | nil => simp [nameLoop, BlanksColon]
  | cons c cs ih =>
    rw [nameLoop, blanksColon_cons]
    split
    next hc =>
      subst hc
      have hb : isBlank charColon = false := rfl
      simp [hb, eq_comm, and_comm]
    next hc =>
      split
      next hblank =>
        rw [ih (by omega)]
        simp [hc, hblank.2]
      next hblank =>
        have hb : ¬ isBlank c = true := fun hb => hblank ⟨hsrc, hb⟩
        have hcur : nType ≠ .compiled ∧ cur ≠ last := ⟨hsrc, by omega⟩
        simp [hc, hb, if_pos hcur]

theorem nameLoop_eq_some {cur k : Nat} {cs r : List UInt8} (hsrc : nType ≠ .compiled) :
    nameLoop nType cur cur cs = some (k, r) ↔
      ∃ name cs', (∀ c ∈ name, IsNameChar c) ∧ BlanksColon cs' r ∧ cs = name ++ cs' ∧
        k = cur + name.length := by
  induction cs generalizing cur with
  | nil => simp [nameLoop, BlanksColon]
  | cons c cs ih =>
    by_cases hchar : IsNameChar c
    · -- the name goes on
      have hblank : isBlank c = false := hchar.not_blank
      have hcheck : checkCharacter c .nameSubsequent = true := checkCharacter_subsequent.mpr hchar
      rw [nameLoop, if_neg hchar.ne_colon, if_neg (by simp [hblank]), if_neg (by simp [hcheck]),
        if_neg (by simp), ih]
      constructor
      · intro h
        obtain ⟨name, cs', hname, hb, rfl, rfl⟩ := h
        refine ⟨c :: name, cs', forall_mem_cons.mpr ⟨hchar, hname⟩, hb, rfl, ?_⟩
        rw [List.length_cons]
        omega
      · intro h
        obtain ⟨name, cs', hname, hb, heq, rfl⟩ := h
        cases name with
        | nil =>
          rw [nil_append] at heq
          subst heq
          rcases blanksColon_cons.mp hb with ⟨rfl, -⟩ | ⟨hc, -⟩
          · exact absurd rfl hchar.ne_colon
          · rw [hblank] at hc
            cases hc
        | cons d name =>
          cases heq
          refine ⟨name, cs', (forall_mem_cons.mp hname).2, hb, rfl, ?_⟩
          rw [List.length_cons]
          omega
    · -- the name ends here
      have hend : (∃ name cs', (∀ c ∈ name, IsNameChar c) ∧ BlanksColon cs' r ∧
          c :: cs = name ++ cs' ∧ k = cur + name.length) ↔ BlanksColon (c :: cs) r ∧ k = cur := by
        constructor
        · intro h
          obtain ⟨name, cs', hname, hb, heq, rfl⟩ := h
          cases name with
          | nil => exact ⟨heq ▸ hb, rfl⟩
          | cons d name =>
            obtain rfl := (List.cons.inj heq).1
            exact absurd (hname _ mem_cons_self) hchar
        · intro h
          exact ⟨[], c :: cs, by simp, h.1, rfl, h.2⟩
      have hcheck : checkCharacter c .nameSubsequent = false := by
        by_contra h
        exact hchar (checkCharacter_subsequent.mp (by simpa using h))
      rw [hend, nameLoop, blanksColon_cons]
      split
      next hc =>
        subst hc
        have hb : isBlank charColon = false := rfl
        simp [hb, eq_comm, and_comm]
      next hc =>
        split
        next hblank =>
          rw [nameLoop_blanks (by omega) hsrc]
          simp [hc, hblank.2]
        next hblank =>
          have hb : ¬ isBlank c = true := fun hb => hblank ⟨hsrc, hb⟩
          simp [hc, hb]

/-! ## Values -/

theorem utf8Check_blank {c : UInt8} (hc : isBlank c = true) {u v : Utf8State}
    (h : utf8Check u c = some v) : u.count = 0 ∧ v.count = 0 := by
  have hlt : c.toNat < 0x80 := by
    simp only [isBlank, Bool.or_eq_true, beq_iff_eq] at hc
    rcases hc with rfl | rfl <;> decide
  obtain ⟨count, char⟩ := u
  cases count with
  | zero =>
    rcases utf8Check_lead.mp h with ⟨-, -, rfl⟩ | hlong | hlong | hlong
    · exact ⟨rfl, rfl⟩
    · omega
    · omega
    · omega
  | succ n =>
    have hge := (utf8Check_tail.mp h).1.1
    omega

theorem utf8Run_blanks {b : List UInt8} (hb : ∀ c ∈ b, isBlank c = true) {u v : Utf8State}
    (h : b.foldlM utf8Check u = some v) (hv : v.count = 0) : u.count = 0 := by
  cases b with
  | nil =>
    cases h
    exact hv
  | cons c b =>
    obtain ⟨u', hc, -⟩ := utf8Run_cons.mp h
    exact (utf8Check_blank (hb c mem_cons_self) hc).1

theorem isText_blanks {b : List UInt8} (hb : ∀ c ∈ b, isBlank c = true) : IsText b := by
  refine ⟨b.map fun c => Char.ofNat c.toNat, ?_, ?_⟩
  · intro h
    obtain ⟨c, hc, heq⟩ := List.mem_map.mp h
    have hblank := hb c hc
    simp only [isBlank, Bool.or_eq_true, beq_iff_eq] at hblank
    rcases hblank with rfl | rfl
    · exact absurd heq (by decide)
    · exact absurd heq (by decide)
  · induction b with
    | nil => rfl
    | cons c b ih =>
      rw [List.map_cons, List.flatMap_cons, ← ih (forall_mem_cons.mp hb).2]
      have hblank := hb c mem_cons_self
      simp only [isBlank, Bool.or_eq_true, beq_iff_eq] at hblank
      rcases hblank with rfl | rfl
      · rfl
      · rfl

theorem isText_append_blanks {v b : List UInt8} (hb : ∀ c ∈ b, isBlank c = true) :
    IsText (v ++ b) ↔ IsText v := by
  constructor
  · intro h
    obtain ⟨w, hrun, hw⟩ := (utf8Run_iff (c := 0)).mpr h
    rw [List.foldlM_append, Option.bind_eq_bind, Option.bind_eq_some_iff] at hrun
    obtain ⟨u, hu, hblanks⟩ := hrun
    exact utf8Run_iff.mp ⟨u, hu, utf8Run_blanks hb hblanks hw⟩
  · intro h
    obtain ⟨chars, hnul, rfl⟩ := h
    obtain ⟨blanks, hnul', rfl⟩ := isText_blanks hb
    refine ⟨chars ++ blanks, ?_, by rw [List.flatMap_append]⟩
    rw [mem_append, not_or]
    exact ⟨hnul, hnul'⟩

theorem rdropWhile_append_blanks {v b : List UInt8} (hb : ∀ c ∈ b, isBlank c = true) :
    (v ++ b).rdropWhile isBlank = v.rdropWhile isBlank := by
  rw [List.rdropWhile, List.reverse_append, List.dropWhile_append_of_pos (by simpa using hb),
    List.rdropWhile]

theorem Trimmed.rdropWhile_eq {value : List UInt8} (h : Trimmed value) :
    value.rdropWhile isBlank = value := by
  rw [List.rdropWhile_eq_self_iff]
  intro hne
  have hlast := h.2 (value.getLast hne) (List.getLast?_eq_some_getLast hne)
  simp [hlast]

theorem afterValue_source (hsrc : nType ≠ .compiled) (cs : List UInt8) :
    afterValue nType cs = (cs, 0) := by
  cases cs with
  | nil => rfl
  | cons c cs => rw [afterValue, endOfValue.eq_def, if_pos hsrc]

theorem value_split {r : List UInt8} :
    lineOf r = r.takeWhile isBlank ++ ((lineOf (r.dropWhile isBlank)).rdropWhile isBlank ++
        (lineOf (r.dropWhile isBlank)).rtakeWhile isBlank) ∧
      behindLine r = behindLine (r.dropWhile isBlank) := by
  have hblank : ∀ c ∈ r.takeWhile isBlank, isEol c = false := fun c hc =>
    isEol_eq_false_of_blank (List.mem_takeWhile_imp hc)
  have hsplit : r.takeWhile isBlank ++ r.dropWhile isBlank = r := List.takeWhile_append_dropWhile
  constructor
  · rw [List.rdropWhile_append_rtakeWhile, ← lineOf_append hblank, hsplit]
  · rw [← behindLine_append hblank (r.dropWhile isBlank), hsplit]

theorem trimmed_value (r : List UInt8) :
    Trimmed ((lineOf (r.dropWhile isBlank)).rdropWhile isBlank) := by
  constructor
  · intro c hc
    -- its first character is the one behind the blanks
    cases hv : r.dropWhile isBlank with
    | nil =>
      rw [hv] at hc
      cases hc
    | cons d t =>
      have hd : isBlank d = false := by
        have hne : r.dropWhile isBlank ≠ [] := by simp [hv]
        have hhead := List.head_dropWhile_not isBlank hne
        simpa [hv] using hhead
      have hpre := List.rdropWhile_prefix isBlank (l := lineOf (r.dropWhile isBlank))
      cases hval : (lineOf (r.dropWhile isBlank)).rdropWhile isBlank with
      | nil =>
        rw [hval] at hc
        cases hc
      | cons e t' =>
        rw [hval] at hc hpre
        obtain rfl : e = c := by simpa using hc
        have hline : lineOf (r.dropWhile isBlank) <+: r.dropWhile isBlank :=
          List.takeWhile_prefix _
        obtain ⟨u, hu⟩ := hpre.trans hline
        rw [hv, cons_append, List.cons.injEq] at hu
        rw [hu.1]
        exact hd
  · intro c hc
    have hne : (lineOf (r.dropWhile isBlank)).rdropWhile isBlank ≠ [] := by
      intro hnil
      rw [hnil] at hc
      cases hc
    have hlast := List.rdropWhile_last_not isBlank _ hne
    rw [List.getLast?_eq_some_getLast hne] at hc
    cases hc
    simpa using hlast

theorem lineOf_dropWhile_blank (r : List UInt8) :
    lineOf (r.dropWhile isBlank) = (lineOf r).dropWhile isBlank := by
  induction r with
  | nil => rfl
  | cons c r ih =>
    by_cases hb : isBlank c = true
    · rw [dropWhile_blank hb, lineOf_cons (isEol_eq_false_of_blank hb), dropWhile_blank hb, ih]
    · rw [dropWhile_not_blank hb]
      by_cases hc : isEol c = true
      · simp [lineOf, hc]
      · rw [lineOf_cons (by simpa using hc), dropWhile_not_blank hb]

theorem trim_eq {b value b' : List UInt8} (hb : ∀ c ∈ b, isBlank c = true)
    (hb' : ∀ c ∈ b', isBlank c = true) (h : Trimmed value) :
    ((b ++ (value ++ b')).dropWhile isBlank).rdropWhile isBlank = value := by
  rw [List.dropWhile_append_of_pos hb]
  cases value with
  | nil =>
    rw [nil_append, List.dropWhile_eq_nil_iff.mpr hb']
    rfl
  | cons d t =>
    have hd : ¬ isBlank d = true := by simp [h.1 d rfl]
    rw [cons_append, dropWhile_not_blank hd, ← cons_append,
      rdropWhile_append_blanks hb', h.rdropWhile_eq]

/-! ## Properties -/

theorem scanProperty_success {l : Lines} {c : UInt8} {cs : List UInt8}
    (h : (scanProperty nType l c cs).nResult = sSuccess) :
    ∃ k r k' r' lines, IsAlnum c ∧ nameLoop nType 1 1 cs = some (k, r) ∧
      valueLoop nType ⟨0, 0⟩ 0 0 (r.dropWhile isBlank) = some (k', r', lines) ∧
      scanProperty nType l c cs = ⟨sSuccess, (c :: cs).take k,
        some ((r.dropWhile isBlank).take k'), r', l.nLine + lines⟩ := by
  simp only [scanProperty] at h ⊢
  split at h
  · exact absurd h badFormat_ne_success
  next hc =>
    split at h
    next => exact absurd h badFormat_ne_success
    next k r hname =>
      split at h
      next => exact absurd h badFormat_ne_success
      next k' r' lines hvalue =>
        refine ⟨k, r, k', r', lines, checkCharacter_first.mp (by simpa using hc), hname, hvalue, ?_⟩
        rw [if_neg hc]

theorem take_value (r : List UInt8) :
    (r.dropWhile isBlank).take ((lineOf (r.dropWhile isBlank)).rdropWhile isBlank).length =
      (lineOf (r.dropWhile isBlank)).rdropWhile isBlank := by
  symm
  apply List.prefix_iff_eq_take.mp
  exact (List.rdropWhile_prefix isBlank _).trans (List.takeWhile_prefix _)

theorem scanProperty_line (hsrc : nType ≠ .compiled) {l : Lines} {c : UInt8} {cs : List UInt8}
    (h : (scanProperty nType l c cs).nResult = sSuccess) :
    LineIs nType (c :: lineOf cs)
        (some ⟨(scanProperty nType l c cs).name, (scanProperty nType l c cs).value⟩) ∧
      (scanProperty nType l c cs).value ≠ none ∧
      (scanProperty nType l c cs).rest = behindLine cs := by
  obtain ⟨k, r, k', r', lines, hc, hname, hvalue, hscan⟩ := scanProperty_success h
  obtain ⟨name, cs', hchars, ⟨b, hb, rfl⟩, rfl, rfl⟩ := (nameLoop_eq_some hsrc).mp hname
  obtain ⟨htext, rfl, hafter⟩ := valueLoop_eq_some.mp hvalue
  rw [afterValue_source hsrc, Prod.mk.injEq] at hafter
  obtain ⟨rfl, rfl⟩ := hafter
  obtain ⟨hline, hbehind⟩ := value_split (r := r)
  have heol : ∀ d ∈ name ++ (b ++ [charColon]), isEol d = false := by
    intro d hd
    rcases mem_append.mp hd with hd | hd
    · exact (hchars d hd).not_eol
    · rcases mem_append.mp hd with hd | hd
      · exact isEol_eq_false_of_blank (hb d hd)
      · rw [List.mem_singleton.mp hd]
        rfl
  have hcs : name ++ (b ++ charColon :: r) = (name ++ (b ++ [charColon])) ++ r := by simp
  have htake : (c :: (name ++ (b ++ charColon :: r))).take (1 + name.length) = c :: name := by
    rw [Nat.add_comm, List.take_succ_cons, List.take_left]
  have htext' : IsText ((lineOf (r.dropWhile isBlank)).rdropWhile isBlank) := by
    rw [← isText_append_blanks fun d hd => List.mem_rtakeWhile_imp hd,
      List.rdropWhile_append_rtakeWhile]
    exact htext
  rw [hscan, take_value, htake]
  refine ⟨?_, by simp, ?_⟩
  · rw [hcs, lineOf_append heol, hline]
    have hprop := @LineIs.property nType (c :: name) b (r.takeWhile isBlank) _
      ((lineOf (r.dropWhile isBlank)).rtakeWhile isBlank) ⟨c, name, rfl, hc, hchars⟩ hb
      (fun d hd => List.mem_takeWhile_imp hd) htext' (trimmed_value r)
      (fun d hd => List.mem_rtakeWhile_imp hd)
    simpa using hprop
  · rw [hcs, behindLine_append heol, hbehind]

theorem scanProperty_of_line (hsrc : nType ≠ .compiled) {l : Lines} {c : UInt8}
    {cs : List UInt8} (hhash : c ≠ charHash) (hblank : isBlank c = false)
    (hsec : nType = .sourceWithSections → c ≠ charOpenBracket) {m : Option Entry}
    (h : LineIs nType (c :: lineOf cs) m) :
    (scanProperty nType l c cs).nResult = sSuccess ∧
      m = some ⟨(scanProperty nType l c cs).name, (scanProperty nType l c cs).value⟩ := by
  obtain ⟨name', b₁, b₂, value, b₃, hc, hchars, h₁, h₂, htext, htrim, h₃, hl, rfl⟩ :=
    lineIs_other hhash hblank hsec h
  -- `r` is what the scanner has before it behind the colon
  let r := b₂ ++ (value ++ b₃) ++ behindLine cs
  have hcs : cs = name' ++ (b₁ ++ charColon :: r) := by
    have hsplit := (lineOf_append_behindLine cs).symm
    rw [hl] at hsplit
    simpa [r] using hsplit
  have hname : nameLoop nType 1 1 cs = some (1 + name'.length, r) :=
    (nameLoop_eq_some hsrc).mpr ⟨name', _, hchars, ⟨b₁, h₁, rfl⟩, hcs, rfl⟩
  have hline : lineOf r = b₂ ++ (value ++ b₃) := by
    have heol : ∀ d ∈ b₂ ++ (value ++ b₃), isEol d = false := by
      intro d hd
      have hmem : d ∈ lineOf cs := by
        rw [hl]
        simp [hd]
      exact isEol_of_mem_lineOf hmem
    rw [lineOf_append heol, lineOf_behindLine, append_nil]
  have hvalue : (lineOf (r.dropWhile isBlank)).rdropWhile isBlank = value := by
    rw [lineOf_dropWhile_blank, hline, trim_eq h₂ h₃ htrim]
  have htext' : IsText (lineOf (r.dropWhile isBlank)) := by
    rw [← List.rdropWhile_append_rtakeWhile (p := isBlank) (l := lineOf (r.dropWhile isBlank)),
      isText_append_blanks fun d hd => List.mem_rtakeWhile_imp hd, hvalue]
    exact htext
  have hloop := valueLoop_eq_some.mpr ⟨htext', rfl, (afterValue_source hsrc _).symm⟩
  have hfirst : ¬ checkCharacter c .nameFirst = false := by
    rw [checkCharacter_first.mpr hc]
    simp
  have htake : (c :: cs).take (1 + name'.length) = c :: name' := by
    rw [hcs, Nat.add_comm, List.take_succ_cons, List.take_left]
  have htake' := take_value r
  rw [hvalue] at htake'
  have hscan : scanProperty nType l c cs = ⟨sSuccess, c :: name', some value,
      behindLine (r.dropWhile isBlank), l.nLine + 0⟩ := by
    simp only [scanProperty, if_neg hfirst, hname, hloop, hvalue, htake, htake']
  rw [hscan]
  exact ⟨rfl, rfl⟩

/-! ## Comments and empty lines -/

theorem entries_comment {cs : List UInt8} {es : List Entry} :
    Entries nType (charHash :: cs) es ↔
      0 ∉ lineOf cs ∧ Entries nType (behindLine cs) es := by
  have hc : isEol charHash = false := rfl
  rw [entries_line, lineOf_cons hc, behindLine_cons hc]
  constructor
  · intro h
    obtain ⟨m, rest, hline, hrest, rfl⟩ := h
    obtain ⟨hz, rfl⟩ := lineIs_hash.mp hline
    exact ⟨hz, hrest⟩
  · intro h
    exact ⟨none, es, lineIs_hash.mpr ⟨h.1, rfl⟩, h.2, rfl⟩

theorem entries_blank {c : UInt8} (hb : isBlank c = true) {cs : List UInt8} {es : List Entry} :
    Entries nType (c :: cs) es ↔
      (∀ d ∈ lineOf cs, isBlank d = true) ∧ Entries nType (behindLine cs) es := by
  have hc := isEol_eq_false_of_blank hb
  rw [entries_line, lineOf_cons hc, behindLine_cons hc]
  constructor
  · intro h
    obtain ⟨m, rest, hline, hrest, rfl⟩ := h
    obtain ⟨hl, rfl⟩ := (lineIs_blank hb).mp hline
    exact ⟨hl, hrest⟩
  · intro h
    exact ⟨none, es, (lineIs_blank hb).mpr ⟨h.1, rfl⟩, h.2, rfl⟩

theorem linesPass_next_entries {l l' : Lines} (h : linesPass l = .next l') :
    l'.failed = l.failed ∧ ∀ es, Entries nType l.rest es ↔ Entries nType l'.rest es := by
  obtain ⟨rest, nLine, failed⟩ := l
  cases rest with
  | nil => simp [linesPass] at h
  | cons c cs =>
    simp only [linesPass] at h
    split at h
    next hc =>
      subst hc
      split at h
      next => cases h
      next r hr =>
        cases h
        obtain ⟨hz, rfl⟩ := skipComment_eq_some.mp hr
        exact ⟨rfl, fun es => entries_comment.trans (and_iff_right hz)⟩
    split at h
    next hc =>
      subst hc
      have hcr : ∀ es, Entries nType (charCR :: cs) es ↔ Entries nType cs es :=
        fun es => entries_eol rfl
      split at h
      next =>
        cases h
        exact ⟨rfl, hcr⟩
      next d ds =>
        split at h
        next hd =>
          subst hd
          cases h
          exact ⟨rfl, fun es => (hcr es).trans (entries_eol rfl)⟩
        next =>
          cases h
          exact ⟨rfl, hcr⟩
    split at h
    next hc =>
      subst hc
      cases h
      exact ⟨rfl, fun es => entries_eol rfl⟩
    split at h
    next hb =>
      split at h
      next => cases h
      next r hr =>
        cases h
        obtain ⟨hl, rfl⟩ := skipWhite_eq_some.mp hr
        exact ⟨rfl, fun es => (entries_blank hb).trans (and_iff_right hl)⟩
    · cases h

theorem linesPass_stop_entries {l l' : Lines} (hok : l.failed = false)
    (h : linesPass l = .stop l') :
    (l'.failed = true ∧ ∀ es, ¬ Entries nType l.rest es) ∨
      (l' = l ∧ (l.rest = [] ∨ ∃ c cs, l.rest = c :: cs ∧ c ≠ charHash ∧ isBlank c = false ∧
        isEol c = false)) := by
  obtain ⟨rest, nLine, failed⟩ := l
  cases rest with
  | nil =>
    simp only [linesPass, Flow.stop.injEq] at h
    exact Or.inr ⟨h.symm, Or.inl rfl⟩
  | cons c cs =>
    simp only [linesPass] at h
    split at h
    next hc =>
      subst hc
      split at h
      next hr =>
        cases h
        refine Or.inl ⟨rfl, ?_⟩
        intro es hes
        rw [skipComment_eq_some.mpr ⟨(entries_comment.mp hes).1, rfl⟩] at hr
        cases hr
      next => cases h
    next hhash =>
      split at h
      · split at h
        · cases h
        · split at h <;> cases h
      next hcr =>
        split at h
        · cases h
        next hlf =>
          split at h
          next hb =>
            split at h
            next hr =>
              cases h
              refine Or.inl ⟨rfl, ?_⟩
              intro es hes
              rw [skipWhite_eq_some.mpr ⟨((entries_blank hb).mp hes).1, rfl⟩] at hr
              cases hr
            next => cases h
          next hb =>
            cases h
            refine Or.inr ⟨rfl, Or.inr ⟨c, cs, rfl, hhash, by simpa using hb, ?_⟩⟩
            simp [isEol, hcr, hlf]

theorem skipLines_entries (hsrc : nType ≠ .compiled) {n : Nat} {atStart : Bool}
    {rest : List UInt8} {l : Lines} (h : skipLines n nType atStart rest = some l) :
    (l.failed = true ∧ ∀ es, ¬ Entries nType (skipBom atStart rest) es) ∨
      (l.failed = false ∧
        (∀ es, Entries nType (skipBom atStart rest) es ↔ Entries nType l.rest es) ∧
        (l.rest = [] ∨ ∃ c cs, l.rest = c :: cs ∧ c ≠ charHash ∧ isBlank c = false ∧
          isEol c = false)) := by
  rw [skipLines, if_neg hsrc] at h
  obtain ⟨s, ⟨hok, hsame⟩, hstop⟩ := loop_last
    (I := fun s : Lines => s.failed = false ∧
      ∀ es, Entries nType (skipBom atStart rest) es ↔ Entries nType s.rest es)
    (by
      intro s s' hs hb
      obtain ⟨hfailed, hes⟩ := linesPass_next_entries hb
      exact ⟨hfailed.trans hs.1, fun es => (hs.2 es).trans (hes es)⟩)
    ⟨rfl, fun _ => Iff.rfl⟩ h
  rcases linesPass_stop_entries hok hstop with ⟨hfailed, hnone⟩ | ⟨rfl, hrest⟩
  · exact Or.inl ⟨hfailed, fun es hes => hnone es ((hsame es).mp hes)⟩
  · exact Or.inr ⟨hok, hsame, hrest⟩

/-! ## Items -/

theorem entries_header {cs : List UInt8} {es : List Entry} :
    Entries .sourceWithSections (charOpenBracket :: cs) es ↔
      ∃ name r tl, sectionName cs = some (name, r) ∧ ¬ Stray r ∧ es = ⟨name, none⟩ :: tl ∧
        Entries .sourceWithSections (behindLine r) tl := by
  have hc : isEol charOpenBracket = false := rfl
  rw [entries_line, lineOf_cons hc, behindLine_cons hc]
  constructor
  · intro h
    obtain ⟨m, tl, hline, htl, rfl⟩ := h
    obtain ⟨name, b, hname, hb, hl, rfl⟩ := lineIs_bracket.mp hline
    have heol : ∀ c ∈ b, isEol c = false := fun c hc => isEol_eq_false_of_blank (hb c hc)
    have hcs : cs = name ++ charCloseBracket :: (b ++ behindLine cs) := by
      have hsplit := (lineOf_append_behindLine cs).symm
      rw [hl] at hsplit
      simpa using hsplit
    refine ⟨name, b ++ behindLine cs, tl, sectionName_eq_some.mpr ⟨hname, hcs⟩, ?_, rfl, ?_⟩
    · rw [not_stray_iff, lineOf_append heol, lineOf_behindLine, append_nil]
      exact hb
    · rw [behindLine_append heol, behindLine_behindLine]
      exact htl
  · intro h
    obtain ⟨name, r, tl, hsec, hstray, rfl, htl⟩ := h
    obtain ⟨hname, rfl⟩ := sectionName_eq_some.mp hsec
    have heol : ∀ c ∈ name ++ [charCloseBracket], isEol c = false := by
      intro c hc
      rcases mem_append.mp hc with hc | hc
      · exact hname.not_eol c hc
      · rw [List.mem_singleton.mp hc]
        rfl
    have hcs : name ++ charCloseBracket :: r = (name ++ [charCloseBracket]) ++ r := by simp
    rw [hcs, lineOf_append heol, behindLine_append heol]
    refine ⟨some ⟨name, none⟩, tl, ?_, htl, rfl⟩
    exact lineIs_bracket.mpr ⟨name, lineOf r, hname, not_stray_iff.mp hstray, by simp, rfl⟩

theorem entries_property (hsrc : nType ≠ .compiled) (l : Lines) {c : UInt8} {cs : List UInt8}
    (hhash : c ≠ charHash) (hblank : isBlank c = false) (heol : isEol c = false)
    (hsec : nType = .sourceWithSections → c ≠ charOpenBracket) {es : List Entry} :
    Entries nType (c :: cs) es ↔ (scanProperty nType l c cs).nResult = sSuccess ∧
      ∃ tl, es = ⟨(scanProperty nType l c cs).name, (scanProperty nType l c cs).value⟩ :: tl ∧
        Entries nType (scanProperty nType l c cs).rest tl := by
  rw [entries_line, lineOf_cons heol, behindLine_cons heol]
  constructor
  · intro h
    obtain ⟨m, tl, hline, htl, rfl⟩ := h
    obtain ⟨hok, rfl⟩ := scanProperty_of_line (l := l) hsrc hhash hblank hsec hline
    refine ⟨hok, tl, rfl, ?_⟩
    rw [(scanProperty_line hsrc hok).2.2]
    exact htl
  · intro h
    obtain ⟨hok, tl, rfl, htl⟩ := h
    obtain ⟨hline, -, hrest⟩ := scanProperty_line hsrc hok
    exact ⟨_, tl, hline, hrest ▸ htl, rfl⟩

theorem headerLoop_eq {n : Nat} {r r' : List UInt8} (h : loop headerPass n r = some r') :
    ¬ Stray r ∧ r' = behindLine r := by
  have hns : ¬ Stray r := by
    intro hs
    rw [headerLoop_stray hs] at h
    cases h
  have hbig := loop_mono (Nat.le_max_left n (r.length + 1)) h
  rw [headerLoop_returns hns (by omega), Option.some.injEq] at hbig
  exact ⟨hns, by rw [← hbig, dropWhile_blank_line (not_stray_iff.mp hns)]⟩

theorem scanProperty_result (l : Lines) (c : UInt8) (cs : List UInt8) :
    (scanProperty nType l c cs).nResult = sSuccess ∨
      (scanProperty nType l c cs).nResult = sErrorBadFormat := by
  simp only [scanProperty]
  split
  · exact Or.inr rfl
  · split
    · exact Or.inr rfl
    · split
      · exact Or.inr rfl
      · exact Or.inl rfl

/-- What a call of the scanner finds, in terms of the entries that the text holds. -/
theorem scanItem_entries (hsrc : nType ≠ .compiled) {n : Nat} {atStart hasSection : Bool}
    {rest : List UInt8} {x : Scan} (h : scanItem n nType atStart hasSection rest = some x) :
    (x.nResult = sSuccess ∧ ∀ es, Entries nType (skipBom atStart rest) es ↔
        ∃ tl, es = ⟨x.name, x.value⟩ :: tl ∧ Entries nType x.rest tl) ∨
      (x.nResult = sErrorItemNotFound ∧
        ∀ es, Entries nType (skipBom atStart rest) es ↔ es = []) ∨
      (x.nResult = sErrorBadFormat ∧ ((∀ es, ¬ Entries nType (skipBom atStart rest) es) ∨
        (nType = .sourceWithSections ∧ hasSection = false ∧
          ∀ es, Entries nType (skipBom atStart rest) es →
            ∃ e tl, es = e :: tl ∧ e.value ≠ none))) := by
  obtain ⟨l, hl, hline⟩ := scanItem_eq_some h
  rcases skipLines_entries hsrc hl with ⟨hfailed, hnone⟩ | ⟨hok, hsame, hrest⟩
  · rw [scanLine, if_pos hfailed, Option.some.injEq] at hline
    subst hline
    exact Or.inr (Or.inr ⟨rfl, Or.inl hnone⟩)
  simp only [scanLine, hok, Bool.false_eq_true, if_false] at hline
  rcases hrest with hnil | ⟨c, cs, hcons, hhash, hblank, heol⟩
  · rw [hnil] at hline hsame
    cases hline
    exact Or.inr (Or.inl ⟨rfl, fun es => (hsame es).trans entries_nil⟩)
  have hprop : (nType = .sourceWithSections → c ≠ charOpenBracket) →
      x = scanProperty nType l c cs →
      (x.nResult = sSuccess ∧ ∀ es, Entries nType (skipBom atStart rest) es ↔
        ∃ tl, es = ⟨x.name, x.value⟩ :: tl ∧ Entries nType x.rest tl) ∨
      (x.nResult = sErrorBadFormat ∧ ∀ es, ¬ Entries nType (skipBom atStart rest) es) := by
    intro hsec hx
    subst hx
    have hes := fun es => @entries_property nType hsrc l c cs hhash hblank heol hsec es
    rcases @scanProperty_result nType l c cs with hok | hbad
    · refine Or.inl ⟨hok, fun es => (hsame es).trans ?_⟩
      rw [hcons, hes, and_iff_right hok]
    · refine Or.inr ⟨hbad, fun es h => ?_⟩
      rw [hsame, hcons, hes, hbad] at h
      exact badFormat_ne_success h.1
  simp only [hcons] at hline
  split at hline
  next htype =>
    subst htype
    split at hline
    next hc =>
      subst hc
      -- a section header
      rw [scanSection] at hline
      split at hline
      next hname =>
        cases hline
        refine Or.inr (Or.inr ⟨rfl, Or.inl ?_⟩)
        intro es hes
        rw [hsame, hcons, entries_header] at hes
        obtain ⟨name, r, tl, hsec, -⟩ := hes
        rw [hname] at hsec
        cases hsec
      next name r hname =>
        split at hline
        next => cases hline
        next r' hloop =>
          cases hline
          obtain ⟨hns, rfl⟩ := headerLoop_eq hloop
          refine Or.inl ⟨rfl, fun es => (hsame es).trans ?_⟩
          rw [hcons, entries_header]
          constructor
          · intro h
            obtain ⟨name', r', tl, hsec, -, rfl, htl⟩ := h
            rw [hname, Option.some.injEq, Prod.mk.injEq] at hsec
            obtain ⟨rfl, rfl⟩ := hsec
            exact ⟨tl, rfl, htl⟩
          · intro h
            obtain ⟨tl, rfl, htl⟩ := h
            exact ⟨name, r, tl, hname, hns, rfl, htl⟩
    next hc =>
      split at hline
      next hsec =>
        cases hline
        refine Or.inr (Or.inr ⟨rfl, Or.inr ⟨rfl, hsec, ?_⟩⟩)
        intro es hes
        rw [hsame, hcons, entries_property hsrc l hhash hblank heol (fun _ => hc)] at hes
        obtain ⟨hok, tl, rfl, -⟩ := hes
        exact ⟨_, tl, rfl, (scanProperty_line hsrc hok).2.1⟩
      next =>
        cases hline
        rcases hprop (fun _ => hc) rfl with hgood | ⟨hbad, hnone⟩
        · exact Or.inl hgood
        · exact Or.inr (Or.inr ⟨hbad, Or.inl hnone⟩)
  next htype =>
    cases hline
    rcases hprop (fun e => absurd e htype) rfl with hgood | ⟨hbad, hnone⟩
    · exact Or.inl hgood
    · exact Or.inr (Or.inr ⟨hbad, Or.inl hnone⟩)

theorem strayHeader_entries {atStart : Bool} {rest : List UInt8}
    (h : StrayHeader nType atStart rest) (es : List Entry) :
    ¬ Entries nType (skipBom atStart rest) es := by
  obtain ⟨rfl, n, l, cs, name, r, hl, hok, hrest, hname, hstray⟩ := h
  intro hes
  rcases skipLines_entries (by decide) hl with ⟨hfailed, -⟩ | ⟨-, hsame, -⟩
  · rw [hok] at hfailed
    cases hfailed
  · rw [hsame, hrest, entries_header] at hes
    obtain ⟨name', r', tl, hsec, hns, -⟩ := hes
    rw [hname, Option.some.injEq, Prod.mk.injEq] at hsec
    obtain ⟨rfl, rfl⟩ := hsec
    exact hns hstray

end Omap4Hal.Security

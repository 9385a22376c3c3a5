import Mathlib.Data.List.Infix
import Mathlib.Data.List.Nodup
import Omap4Hal.Security.ManifestLines

/- The format check is exact. `libManifest2CheckFormat` succeeds on a manifest exactly
   when its lines are well formed and its names are different: all property names in a
   source manifest; in a manifest with sections the section names, ignoring case, and
   the property names of each section.

   `Admits` is what the loop over the earlier items decides of one item. That the loop
   meets the right items, all of them or those of the current section, is carried by
   `Trace`: the entries found so far lie on a path from the start of the manifest, and
   those of the current section on a path from its start. -/
namespace Omap4Hal.Security
open Lib
open Entry
open List (append_nil dropWhile_suffix length_cons map_append map_singleton mem_map nodup_nil
  suffix_cons suffix_rfl)

/-! ## Names that differ -/

/-- ASCII letters in lower case. -/
def lowerCase (c : UInt8) : UInt8 := if 0x41 ≤ c ∧ c ≤ 0x5A then c + 0x20 else c

def Entry.isHeader (e : Entry) : Bool := e.value.isNone

/-- The names of a manifest without sections. -/
def NamesDiffer (es : List Entry) : Prop := (es.map Entry.name).Nodup

/-- The names of a manifest with sections. The properties of a section, or some of them
that follow each other, are an infix without headers. -/
structure SectionNamesDiffer (es : List Entry) : Prop where
  sections : ((es.filter isHeader).map fun e => e.name.map lowerCase).Nodup
  properties : ∀ s, s <:+: es → (∀ e ∈ s, e.isHeader = false) → (s.map Entry.name).Nodup

/-- The entries of the section that is open at the end. -/
def currentSection (done : List Entry) : List Entry := done.rtakeWhile fun e => !e.isHeader

/-- Another entry, behind those found so far, is accepted. -/
def Admits (nType : ManifestType) (done : List Entry) (e : Entry) : Prop :=
  if nType = .sourceWithSections then
    if e.isHeader then
      ∀ d ∈ done, d.isHeader = true → d.name.map lowerCase ≠ e.name.map lowerCase
    else done ≠ [] ∧ ∀ d ∈ currentSection done, d.name ≠ e.name
  else ∀ d ∈ done, d.name ≠ e.name

/-- What all accepted entries have in common. -/
def Admitted (nType : ManifestType) (es : List Entry) : Prop :=
  if nType = .sourceWithSections then
    (∀ e ∈ es.head?, e.isHeader = true) ∧ SectionNamesDiffer es
  else NamesDiffer es

theorem currentSection_suffix (done : List Entry) : currentSection done <:+ done :=
  List.rtakeWhile_suffix _ _

theorem currentSection_property {done : List Entry} {e : Entry} (h : e ∈ currentSection done) :
    e.isHeader = false := by
  have hp := List.mem_rtakeWhile_imp h
  simpa using hp

theorem suffix_currentSection {t done : List Entry} (h : t <:+ done)
    (ht : ∀ e ∈ t, e.isHeader = false) : t <:+ currentSection done := by
  obtain ⟨pre, rfl⟩ := h
  rw [currentSection, List.rtakeWhile, List.reverse_append,
    List.takeWhile_append_of_pos (by simpa using ht), List.reverse_append, List.reverse_reverse]
  exact List.suffix_append _ _

theorem currentSection_concat_property {done : List Entry} {e : Entry}
    (h : e.isHeader = false) : currentSection (done ++ [e]) = currentSection done ++ [e] :=
  List.rtakeWhile_concat_pos _ _ _ (by simpa using h)

theorem currentSection_concat_header {done : List Entry} {e : Entry} (h : e.isHeader = true) :
    currentSection (done ++ [e]) = [] :=
  List.rtakeWhile_concat_neg _ _ _ (by simpa using h)

theorem nodup_concat {α : Type} {l : List α} {a : α} : (l ++ [a]).Nodup ↔ l.Nodup ∧ a ∉ l := by
  rw [← List.concat_eq_append, List.nodup_concat, and_comm]

theorem admitted_concat_header {done : List Entry} {e : Entry} (he : e.isHeader = true) :
    Admitted .sourceWithSections (done ++ [e]) ↔
      Admitted .sourceWithSections done ∧ Admits .sourceWithSections done e := by
  have hfilter : (done ++ [e]).filter isHeader = done.filter isHeader ++ [e] := by
    rw [List.filter_append, List.filter_cons_of_pos he, List.filter_nil]
  have hsub : ∀ s : List Entry, (∀ d ∈ s, d.isHeader = false) →
      (s <:+: done ++ [e] ↔ s <:+: done) := by
    intro s hs
    rw [List.infix_concat_iff, List.suffix_concat_iff]
    constructor
    · intro h
      rcases h with (rfl | ⟨t, rfl, -⟩) | h
      · exact List.nil_infix
      · have hbad := hs e (by simp)
        rw [he] at hbad
        cases hbad
      · exact h
    · exact Or.inr
  simp only [Admitted, Admits, if_true, he]
  constructor
  · intro h
    obtain ⟨hfirst, hsec, hprop⟩ := h
    rw [hfilter, map_append, map_singleton, nodup_concat] at hsec
    refine ⟨⟨?_, hsec.1, fun s hs hp => hprop s ((hsub s hp).mpr hs) hp⟩, ?_⟩
    · intro d hd
      apply hfirst
      cases done with
      | nil => cases hd
      | cons a done => exact hd
    · intro d hd hheader heq
      exact hsec.2 (mem_map.mpr ⟨d, List.mem_filter.mpr ⟨hd, hheader⟩, heq⟩)
  · intro h
    obtain ⟨⟨hfirst, hsec, hprop⟩, hadmits⟩ := h
    refine ⟨?_, ?_, fun s hs hp => hprop s ((hsub s hp).mp hs) hp⟩
    · intro d hd
      cases done with
      | nil =>
        cases hd
        exact he
      | cons a done => exact hfirst d hd
    · rw [hfilter, map_append, map_singleton, nodup_concat]
      refine ⟨hsec, ?_⟩
      intro hmem
      obtain ⟨d, hd, heq⟩ := mem_map.mp hmem
      obtain ⟨hd, hheader⟩ := List.mem_filter.mp hd
      exact hadmits d hd hheader heq

theorem admitted_concat_property {done : List Entry} {e : Entry} (he : e.isHeader = false) :
    Admitted .sourceWithSections (done ++ [e]) ↔
      Admitted .sourceWithSections done ∧ Admits .sourceWithSections done e := by
  have hfilter : (done ++ [e]).filter isHeader = done.filter isHeader := by
    rw [List.filter_append, List.filter_cons_of_neg (by simp [he]), List.filter_nil,
      append_nil]
  have hfirst : (∀ d ∈ (done ++ [e]).head?, d.isHeader = true) ↔
      done ≠ [] ∧ ∀ d ∈ done.head?, d.isHeader = true := by
    cases done with
    | nil => simp [he]
    | cons a done => simp
  simp only [Admitted, Admits, if_true, he, Bool.false_eq_true, if_false, hfirst]
  constructor
  · intro h
    obtain ⟨⟨hne, hfirst⟩, hsec, hprop⟩ := h
    rw [hfilter] at hsec
    refine ⟨⟨hfirst, hsec, ?_⟩, hne, ?_⟩
    · intro s hs
      exact hprop s (hs.trans (List.prefix_append done [e]).isInfix)
    · -- the current section with the new entry is an infix, so its names differ
      obtain ⟨pre, hpre⟩ := currentSection_suffix done
      have hnd := hprop (currentSection done ++ [e]) ⟨pre, [], by
        rw [append_nil, ← List.append_assoc, hpre]⟩ (by
        intro d hd
        rcases List.mem_append.mp hd with hd | hd
        · exact currentSection_property hd
        · rw [List.mem_singleton.mp hd]
          exact he)
      rw [map_append, map_singleton, nodup_concat] at hnd
      intro d hd heq
      exact hnd.2 (mem_map.mpr ⟨d, hd, heq⟩)
  · intro h
    obtain ⟨⟨hfirst, hsec, hprop⟩, hne, hnew⟩ := h
    refine ⟨⟨hne, hfirst⟩, hfilter ▸ hsec, ?_⟩
    intro s hs hp
    rw [List.infix_concat_iff, List.suffix_concat_iff] at hs
    rcases hs with (rfl | ⟨t, rfl, ht⟩) | hs
    · exact nodup_nil
    · have htp : ∀ d ∈ t, d.isHeader = false := fun d hd => hp d (List.mem_append_left _ hd)
      rw [map_append, map_singleton, nodup_concat]
      refine ⟨hprop t ht.isInfix htp, ?_⟩
      intro hmem
      obtain ⟨d, hd, heq⟩ := mem_map.mp hmem
      exact hnew d ((suffix_currentSection ht htp).subset hd) heq
    · exact hprop s hs hp

theorem admitted_concat {nType : ManifestType} {done : List Entry} {e : Entry} :
    Admitted nType (done ++ [e]) ↔ Admitted nType done ∧ Admits nType done e := by
  by_cases htype : nType = .sourceWithSections
  · subst htype
    cases he : e.isHeader with
    | true => exact admitted_concat_header he
    | false => exact admitted_concat_property he
  · simp only [Admitted, Admits, if_neg htype, NamesDiffer, map_append, map_singleton,
      nodup_concat, mem_map, not_exists, not_and, ne_eq]

/-- Every entry is accepted behind those before it. -/
def AllAdmitted (nType : ManifestType) : List Entry → List Entry → Prop
  | _, [] => True
  | done, e :: es => Admits nType done e ∧ AllAdmitted nType (done ++ [e]) es

theorem Admitted.of_append {nType : ManifestType} {done es : List Entry}
    (h : Admitted nType (done ++ es)) : Admitted nType done := by
  induction es using List.reverseRecOn with
  | nil => rwa [append_nil] at h
  | append_singleton es e ih =>
    rw [← List.append_assoc] at h
    exact ih (admitted_concat.mp h).1

theorem allAdmitted_iff {nType : ManifestType} {done es : List Entry}
    (h : Admitted nType done) : AllAdmitted nType done es ↔ Admitted nType (done ++ es) := by
  induction es generalizing done with
  | nil => simp [AllAdmitted, h]
  | cons e es ih =>
    rw [AllAdmitted, List.append_cons done e es]
    constructor
    · intro hall
      exact (ih (admitted_concat.mpr ⟨h, hall.1⟩)).mp hall.2
    · intro hall
      have hfirst : Admitted nType (done ++ [e]) := hall.of_append
      exact ⟨(admitted_concat.mp hfirst).2, (ih hfirst).mpr hall⟩

/-! ## Section names -/

/-- Among the characters of section names, bit 5 tells lower from upper case letters
and nothing else. -/
theorem lowerCase_mask : ∀ n : Fin 256, let c := UInt8.ofNat n.val
    (IsNameChar c ∨ c = charSpace) →
      lowerCase c = (if c &&& ~~~ 0x20 = 0x5F then 0x5F else (c &&& ~~~ 0x20) + 0x20) ∧
        lowerCase c &&& ~~~ 0x20 = c &&& ~~~ 0x20 := by
  unfold IsNameChar IsAlnum
  decide +kernel

theorem mask_eq_iff {c d : UInt8} (hc : IsNameChar c ∨ c = charSpace)
    (hd : IsNameChar d ∨ d = charSpace) :
    (c &&& ~~~ 0x20) = (d &&& ~~~ 0x20) ↔ lowerCase c = lowerCase d := by
  have hmask : ∀ c : UInt8, (IsNameChar c ∨ c = charSpace) →
      lowerCase c = (if c &&& ~~~ 0x20 = 0x5F then 0x5F else (c &&& ~~~ 0x20) + 0x20) ∧
        lowerCase c &&& ~~~ 0x20 = c &&& ~~~ 0x20 := by
    intro c hc
    have h := lowerCase_mask ⟨c.toNat, c.toNat_lt⟩
    simp only [UInt8.ofNat_toNat] at h
    exact h hc
  constructor
  · intro h
    rw [(hmask c hc).1, (hmask d hd).1, h]
  · intro h
    rw [← (hmask c hc).2, ← (hmask d hd).2, h]

theorem sectionNameEqual_iff {a b : List UInt8} (ha : IsSectionName a) (hb : IsSectionName b) :
    sectionNameEqualCaseInsensitive a b = true ↔ a.map lowerCase = b.map lowerCase := by
  induction a generalizing b with
  | nil =>
    cases b with
    | nil => simp [sectionNameEqualCaseInsensitive]
    | cons d b => simp [sectionNameEqualCaseInsensitive]
  | cons c a ih =>
    cases b with
    | nil => simp [sectionNameEqualCaseInsensitive]
    | cons d b =>
      obtain ⟨hc, ha⟩ := List.forall_mem_cons.mp ha
      obtain ⟨hd, hb⟩ := List.forall_mem_cons.mp hb
      have hrec := ih ha hb
      simp only [sectionNameEqualCaseInsensitive, Bool.and_eq_true, beq_iff_eq] at hrec
      simp only [sectionNameEqualCaseInsensitive, length_cons, List.zip_cons_cons,
        List.all_cons, Bool.and_eq_true, beq_iff_eq, Nat.add_right_cancel_iff, List.map_cons,
        List.cons.injEq, mask_eq_iff hc hd, ← hrec]
      exact ⟨fun h => ⟨h.2.1, h.1, h.2.2⟩, fun h => ⟨h.2.1, h.1, h.2.2⟩⟩

/-! ## What is left is a suffix -/

theorem linesPass_suffix {l l' : Lines} (h : linesPass l = .next l') : l'.rest <:+ l.rest := by
  obtain ⟨rest, nLine, failed⟩ := l
  cases rest with
  | nil => simp [linesPass] at h
  | cons c cs =>
    have hbehind : behindLine cs <:+ c :: cs :=
      (dropWhile_suffix _).trans (suffix_cons c cs)
    simp only [linesPass] at h
    split at h
    · split at h
      next => cases h
      next r hr =>
        cases h
        rw [(skipComment_eq_some.mp hr).2]
        exact hbehind
    split at h
    · split at h
      next =>
        cases h
        exact List.nil_suffix
      next d ds =>
        split at h <;> cases h
        · exact (suffix_cons d ds).trans (suffix_cons c _)
        · exact suffix_cons c _
    split at h
    · cases h
      exact suffix_cons c cs
    split at h
    · split at h
      next => cases h
      next r hr =>
        cases h
        rw [(skipWhite_eq_some.mp hr).2]
        exact hbehind
    · cases h

theorem skipBom_suffix (atStart : Bool) (rest : List UInt8) : skipBom atStart rest <:+ rest := by
  rw [skipBom.eq_def]
  split
  next cs =>
    split
    · exact ⟨[0xEF, 0xBB, 0xBF], rfl⟩
    · exact suffix_rfl
  · exact suffix_rfl

variable {nType : ManifestType} {atStart hasSection : Bool} {rest content : List UInt8}

theorem skipLines_suffix {n : Nat} {l : Lines} (h : skipLines n nType atStart rest = some l) :
    l.rest <:+ rest := by
  rw [skipLines] at h
  split at h
  · cases h
    exact suffix_rfl
  · apply loop_induct (I := fun l => l.rest <:+ rest) _ _ _ h
    · intro s s' hs hb
      exact (linesPass_suffix hb).trans hs
    · intro s t hs hb
      rw [linesPass_stop hb]
      exact hs
    · exact skipBom_suffix atStart rest

/-- What a successful scan has found: behind comments and empty lines a header or a
property. -/
theorem scanItem_found {n : Nat} {x : Scan}
    (h : scanItem n nType atStart hasSection rest = some x) (hx : x.nResult = sSuccess) :
    ∃ l, skipLines n nType atStart rest = some l ∧
      ((∃ cs name r, l.rest = charOpenBracket :: cs ∧ nType = .sourceWithSections ∧
          sectionName cs = some (name, r) ∧ x = ⟨sSuccess, name, none, behindLine r, l.nLine⟩) ∨
        ∃ c cs, l.rest = c :: cs ∧ (nType = .sourceWithSections → c ≠ charOpenBracket) ∧
          x = scanProperty nType l c cs) := by
  obtain ⟨l, hl, hline⟩ := scanItem_eq_some h
  refine ⟨l, hl, ?_⟩
  rw [scanLine] at hline
  split at hline
  · cases hline
    exact absurd hx badFormat_ne_success
  · split at hline
    next =>
      cases hline
      exact absurd hx itemNotFound_ne_success
    next c cs hrest =>
      split at hline
      next htype =>
        split at hline
        next hc =>
          subst hc
          rw [scanSection] at hline
          split at hline
          next =>
            cases hline
            exact absurd hx badFormat_ne_success
          next name r hname =>
            split at hline
            next => cases hline
            next r' hloop =>
              obtain rfl := (headerLoop_eq hloop).2
              cases hline
              exact Or.inl ⟨cs, name, r, hrest, htype, hname, rfl⟩
        next hc =>
          split at hline
          · cases hline
            exact absurd hx badFormat_ne_success
          · cases hline
            exact Or.inr ⟨c, cs, hrest, fun _ => hc, rfl⟩
      next htype =>
        cases hline
        exact Or.inr ⟨c, cs, hrest, fun e => absurd e htype, rfl⟩

theorem scanItem_suffix (hsrc : nType ≠ .compiled) {n : Nat} {x : Scan}
    (h : scanItem n nType atStart hasSection rest = some x) (hx : x.nResult = sSuccess) :
    x.rest <:+ rest := by
  obtain ⟨l, hl, ⟨cs, name, r, hrest, -, hname, rfl⟩ | ⟨c, cs, hrest, -, rfl⟩⟩ :=
    scanItem_found h hx
  · obtain ⟨-, rfl⟩ := sectionName_eq_some.mp hname
    have hr : behindLine r <:+ r := dropWhile_suffix _
    have hl' := skipLines_suffix hl
    rw [hrest] at hl'
    apply hr.trans (List.IsSuffix.trans _ hl')
    exact ⟨charOpenBracket :: (name ++ [charCloseBracket]), by simp⟩
  · have hl' := skipLines_suffix hl
    rw [hrest] at hl'
    rw [(scanProperty_line hsrc hx).2.2]
    exact ((dropWhile_suffix _).trans (suffix_cons c cs)).trans hl'

theorem scanItem_header {n : Nat} {x : Scan}
    (h : scanItem n nType atStart hasSection rest = some x) (hx : x.nResult = sSuccess)
    (hv : x.value = none) : IsSectionName x.name := by
  obtain ⟨l, hl, ⟨cs, name, r, hrest, -, hname, rfl⟩ | ⟨c, cs, hrest, -, rfl⟩⟩ :=
    scanItem_found h hx
  · exact (sectionName_eq_some.mp hname).1
  · exact absurd hv (scanProperty_length hx).2

/-! ## Paths -/

/-- The text from a position on, as the scanner starts to read it. -/
def textAt (content : List UInt8) (o : Nat) : List UInt8 := skipBom (o == 0) (content.drop o)

/-- With a section open, the scanner finds an entry at a position and goes to another. -/
def EntryAt (nType : ManifestType) (content : List UInt8) (o : Nat) (e : Entry) (o' : Nat) :
    Prop :=
  ∃ n x, scanItem n nType (o == 0) true (content.drop o) = some x ∧ x.nResult = sSuccess ∧
    e = ⟨x.name, x.value⟩ ∧ o' = content.length - x.rest.length

theorem EntryAt.itemAt {o o' : Nat} {e : Entry} (h : EntryAt nType content o e o') :
    ItemAt nType content o o' := by
  obtain ⟨n, x, hscan, hx, -, ho⟩ := h
  exact ⟨n, x, hscan, hx, ho⟩

theorem EntryAt.header {o o' : Nat} {e : Entry} (h : EntryAt nType content o e o')
    (he : e.isHeader = true) : IsSectionName e.name := by
  obtain ⟨n, x, hscan, hx, rfl, -⟩ := h
  exact scanItem_header hscan hx (by simpa [isHeader] using he)

/-- The entries from one position to another. -/
inductive Path (nType : ManifestType) (content : List UInt8) : Nat → List Entry → Nat → Prop where
  | nil {o : Nat} : Path nType content o [] o
  | cons {o o₁ o₂ : Nat} {e : Entry} {es : List Entry} (h : EntryAt nType content o e o₁)
      (hrest : Path nType content o₁ es o₂) : Path nType content o (e :: es) o₂

theorem Path.concat {o o₁ o₂ : Nat} {e : Entry} {es : List Entry} (h : Path nType content o es o₁)
    (he : EntryAt nType content o₁ e o₂) : Path nType content o (es ++ [e]) o₂ := by
  induction h with
  | nil => exact .cons he .nil
  | cons hfirst _ ih => exact .cons hfirst (ih he)

theorem Path.chain {o o' : Nat} {es : List Entry} (h : Path nType content o es o') :
    Chain nType content o o' := by
  induction h with
  | nil => exact Relation.ReflTransGen.refl
  | cons hfirst _ ih => exact Relation.ReflTransGen.head hfirst.itemAt ih

theorem Path.sectionName {o o' : Nat} {es : List Entry} (h : Path nType content o es o') :
    ∀ e ∈ es, e.isHeader = true → IsSectionName e.name := by
  induction h with
  | nil => simp
  | cons hfirst _ ih =>
    intro d hd
    rcases List.mem_cons.mp hd with rfl | hd
    · exact hfirst.header
    · exact ih d hd

theorem getNextItemInternal_entry {ctx ctx' : Context} {e : Entry} {o' n : Nat} {item : Item}
    (hat : EntryAt ctx.nType ctx.content ctx.nOffset e o')
    (hsec : ctx.nType = .sourceWithSections → ctx.nSectionStartOffset ≠ 0)
    (h : getNextItemInternal n ctx = some (item, ctx')) :
    item = ⟨sSuccess, e.name, e.value⟩ ∧ ctx'.nOffset = o' := by
  obtain ⟨m, x, hscan, hx, rfl, rfl⟩ := hat
  have hbig := getNextItemInternal_mono (Nat.le_max_left n (ctx.content.length + 1)) h
  rw [getNextItemInternal_of_scan hscan hsec (by omega), Option.some.injEq, Prod.mk.injEq] at hbig
  obtain ⟨rfl, rfl⟩ := hbig
  rw [hx]
  simp only [Context.after, if_pos hx, and_self]

/-! ## The loop over the earlier items -/

theorem duplicateLoop_eq {ctx ctx' : Context} {item : Item} {orig n k : Nat} {es : List Entry}
    {flag : Bool} (hpath : Path ctx.nType ctx.content ctx.nOffset es orig)
    (hsec : ctx.nType = .sourceWithSections → ctx.nSectionStartOffset ≠ 0)
    (h : loopM (duplicatePass n orig item) k (ctx, false) = some (ctx', flag)) :
    flag = es.any fun d => isDuplicate ctx.nType item ⟨sSuccess, d.name, d.value⟩ := by
  induction es generalizing ctx k with
  | nil =>
    have ho : ¬ ctx.nOffset < orig := by
      cases hpath
      omega
    obtain ⟨j, -, hstop | ⟨s', hnext, -⟩⟩ := loopM_eq_some h
    · rw [duplicatePass, if_neg ho] at hstop
      cases hstop
      rfl
    · rw [duplicatePass, if_neg ho] at hnext
      cases hnext
  | cons e es ih =>
    cases hpath with
    | @cons _ o₁ _ _ _ hfirst hrest =>
      have ho : ctx.nOffset < orig := by
        have hlt := hfirst.itemAt.bounds.1
        have hle := hrest.chain.le
        omega
      cases hcall : getNextItemInternal n ctx with
      | none =>
        obtain ⟨j, -, hstop | ⟨s', hnext, -⟩⟩ := loopM_eq_some h
        · simp only [duplicatePass, if_pos ho, hcall] at hstop
          cases hstop
        · simp only [duplicatePass, if_pos ho, hcall] at hnext
          cases hnext
      | some r =>
        obtain ⟨dup, ctx₁⟩ := r
        have hscanned := getNextItemInternal_scanned hcall
        obtain ⟨rfl, rfl⟩ := getNextItemInternal_entry hfirst hsec hcall
        rw [List.any_cons]
        obtain ⟨j, -, hstop | ⟨s', hnext, hloop⟩⟩ := loopM_eq_some h
        · simp only [duplicatePass, if_pos ho, hcall] at hstop
          split at hstop
          next hdup =>
            cases hstop
            rw [hdup, Bool.true_or]
          next => cases hstop
        · simp only [duplicatePass, if_pos ho, hcall] at hnext
          split at hnext
          next => cases hnext
          next hdup =>
            cases hnext
            rw [← hscanned.nType, ← hscanned.content] at hrest
            have hflag := ih hrest (fun htype => hscanned.section_open rfl (hscanned.nType ▸ htype))
              hloop
            rw [hflag, hscanned.nType, Bool.eq_false_iff.mpr hdup, Bool.false_or]

theorem notDuplicate_iff {item : Item} {es : List Entry}
    (hname : item.value = none → IsSectionName item.name)
    (hnames : ∀ e ∈ es, e.isHeader = true → IsSectionName e.name) :
    (es.any fun d => isDuplicate nType item ⟨sSuccess, d.name, d.value⟩) = false ↔
      if nType = .sourceWithSections ∧ item.value = none then
        ∀ d ∈ es, d.isHeader = true → d.name.map lowerCase ≠ item.name.map lowerCase
      else ∀ d ∈ es, d.name ≠ item.name := by
  rw [List.any_eq_false]
  by_cases hsec : nType = .sourceWithSections ∧ item.value = none
  · simp only [isDuplicate, if_pos hsec]
    apply forall₂_congr
    intro d hd
    rw [Bool.and_eq_true, not_and]
    have hheader : (d.value == none) = true ↔ d.isHeader = true := by
      simp [isHeader, Option.isNone_iff_eq_none]
    rw [hheader]
    apply forall_congr'
    intro hd'
    rw [sectionNameEqual_iff (hname hsec.2) (hnames d hd hd')]
    exact not_congr ⟨Eq.symm, Eq.symm⟩
  · simp only [isDuplicate, if_neg hsec, beq_iff_eq, ne_eq]

/-! ## Calls -/

/-- The entries found so far, all of them and those of the current section, lie on paths
to the current position. -/
structure Trace (ctx : Context) (done : List Entry) : Prop where
  fromStart : Path ctx.nType ctx.content 0 done ctx.nOffset
  noSection : ctx.nType = .sourceWithSections → ctx.nSectionStartOffset = 0 → done = []
  fromSection : ctx.nType = .sourceWithSections → ctx.nSectionStartOffset ≠ 0 →
    done ≠ [] ∧
      Path ctx.nType ctx.content ctx.nSectionStartOffset (currentSection done) ctx.nOffset

theorem Trace.init (nType : ManifestType) (content : List UInt8) :
    Trace (.init nType content) [] :=
  ⟨.nil, fun _ _ => rfl, fun _ h => absurd rfl h⟩

theorem Trace.onTrack {ctx : Context} {done : List Entry} (h : Trace ctx done) : OnTrack ctx :=
  ⟨h.fromStart.chain, fun htype hne => (h.fromSection htype hne).2.chain⟩

theorem getNextItemInternal_entries {n : Nat} {ctx ctx' : Context} {item : Item}
    {done : List Entry} (hsrc : ctx.nType ≠ .compiled) (ht : Trace ctx done)
    (h : getNextItemInternal n ctx = some (item, ctx')) :
    (item.nResult = sSuccess ∧
        EntryAt ctx.nType ctx.content ctx.nOffset ⟨item.name, item.value⟩ ctx'.nOffset ∧
        ∀ es, Entries ctx.nType (textAt ctx.content ctx.nOffset) es ↔
          ∃ tl, es = ⟨item.name, item.value⟩ :: tl ∧
            Entries ctx.nType (textAt ctx.content ctx'.nOffset) tl) ∨
      (item.nResult = sErrorItemNotFound ∧
        ∀ es, Entries ctx.nType (textAt ctx.content ctx.nOffset) es ↔ es = []) ∨
      (item.nResult = sErrorBadFormat ∧
        ∀ es, Entries ctx.nType (textAt ctx.content ctx.nOffset) es →
          ∃ e tl, es = e :: tl ∧ ¬ Admits ctx.nType done e) := by
  rw [getNextItemInternal] at h
  split at h
  next => cases h
  next x hscan =>
    cases h
    rcases scanItem_entries hsrc hscan with ⟨hx, hes⟩ | ⟨hx, hes⟩ | ⟨hx, hbad⟩
    · left
      obtain ⟨hlt, hopen, -⟩ := scanItem_success hscan hx
      have hoff : (ctx.after x).nOffset = ctx.content.length - x.rest.length := by
        simp only [Context.after, if_pos hx]
      have hsuffix := (scanItem_suffix hsrc hscan hx).trans (List.drop_suffix _ _)
      have htext : textAt ctx.content (ctx.after x).nOffset = x.rest := by
        rw [List.length_drop] at hlt
        have hne : (ctx.content.length - x.rest.length == 0) = false := by
          rw [beq_eq_false_iff_ne]
          omega
        rw [textAt, hoff, hne, ← List.suffix_iff_eq_drop.mp hsuffix, skipBom.eq_def]
        split <;> rfl
      refine ⟨hx, ⟨n, x, hopen, hx, rfl, hoff⟩, ?_⟩
      rw [htext]
      exact hes
    · exact Or.inr (Or.inl ⟨hx, hes⟩)
    · refine Or.inr (Or.inr ⟨hx, ?_⟩)
      intro es hes
      rcases hbad with hnone | ⟨htype, hsec, hhead⟩
      · exact absurd hes (hnone es)
      · -- a property with no section open; then nothing has been found yet
        have hdone : done = [] := ht.noSection htype (by simpa using hsec)
        obtain ⟨e, tl, rfl, hv⟩ := hhead es hes
        refine ⟨e, tl, rfl, ?_⟩
        have hprop : e.isHeader = false := by
          rw [isHeader, Option.isNone_eq_false_iff]
          exact Option.isSome_iff_ne_none.mpr hv
        simp [Admits, htype, hprop, hdone]

theorem Trace.extend {n : Nat} {ctx ctx' : Context} {item : Item} {done : List Entry}
    (ht : Trace ctx done) (h : getNextItemInternal n ctx = some (item, ctx'))
    (hok : item.nResult = sSuccess)
    (hat : EntryAt ctx.nType ctx.content ctx.nOffset ⟨item.name, item.value⟩ ctx'.nOffset) :
    Trace ctx' (done ++ [⟨item.name, item.value⟩]) := by
  have hscanned := getNextItemInternal_scanned h
  refine ⟨?_, ?_, ?_⟩
  · rw [hscanned.nType, hscanned.content]
    exact ht.fromStart.concat hat
  · intro htype hzero
    exact absurd hzero (hscanned.section_open hok (hscanned.nType ▸ htype))
  · intro htype _
    rw [hscanned.nType] at htype
    refine ⟨by simp, ?_⟩
    rw [hscanned.nType, hscanned.content]
    by_cases hv : item.value = none
    · rw [hscanned.header hok hv, currentSection_concat_header (by simp [isHeader, hv])]
      exact .nil
    · obtain ⟨hsec, hopen⟩ := hscanned.property hok hv
      have hprop : isHeader ⟨item.name, item.value⟩ = false := by
        rw [isHeader, Option.isNone_eq_false_iff]
        exact Option.isSome_iff_ne_none.mpr hv
      rw [hsec, currentSection_concat_property hprop]
      exact (ht.fromSection htype (hopen htype)).2.concat hat

/-- The path that the loop over the earlier items follows, and what it decides there. -/
theorem Trace.rescan {n : Nat} {ctx ctx' : Context} {item : Item} {done : List Entry}
    (hsrc : ctx.nType ≠ .compiled) (ht : Trace ctx done)
    (h : getNextItemInternal n ctx = some (item, ctx')) (hok : item.nResult = sSuccess)
    (hat : EntryAt ctx.nType ctx.content ctx.nOffset ⟨item.name, item.value⟩ ctx'.nOffset) :
    ∃ es, Path ctx.nType ctx.content (rescanOffset ctx' item) es ctx.nOffset ∧
      ((es.any fun d => isDuplicate ctx.nType item ⟨sSuccess, d.name, d.value⟩) = false ↔
        Admits ctx.nType done ⟨item.name, item.value⟩) := by
  have hscanned := getNextItemInternal_scanned h
  have hname : item.value = none → IsSectionName item.name := fun hv =>
    hat.header (by simp [isHeader, hv])
  by_cases hcur : ctx.nType = .sourceWithSections ∧ item.value ≠ none
  · -- a property of a section
    obtain ⟨htype, hv⟩ := hcur
    obtain ⟨hsec, hopen⟩ := hscanned.property hok hv
    obtain ⟨hne, hpath⟩ := ht.fromSection htype (hopen htype)
    refine ⟨currentSection done, ?_, ?_⟩
    · rw [rescanOffset, hscanned.nType, if_neg (by simp [htype]), if_neg hv, hsec]
      exact hpath
    · have hprop : isHeader ⟨item.name, item.value⟩ = false := by
        rw [isHeader, Option.isNone_eq_false_iff]
        exact Option.isSome_iff_ne_none.mpr hv
      rw [notDuplicate_iff hname hpath.sectionName, if_neg (by simp [hv]), Admits, if_pos htype,
        hprop]
      simp [hne]
  · have hoff : rescanOffset ctx' item = 0 := by
      rw [rescanOffset, hscanned.nType]
      split
      · rfl
      next hsource =>
        split
        · rfl
        next hv =>
          have htype : ctx.nType = .sourceWithSections := by
            cases hc : ctx.nType with
            | compiled => exact absurd hc hsrc
            | source => exact absurd hc hsource
            | sourceWithSections => rfl
          exact absurd ⟨htype, hv⟩ hcur
    refine ⟨done, hoff ▸ ht.fromStart, ?_⟩
    rw [notDuplicate_iff hname ht.fromStart.sectionName, Admits]
    by_cases htype : ctx.nType = .sourceWithSections
    · have hv : item.value = none := by
        by_contra hv
        exact hcur ⟨htype, hv⟩
      rw [if_pos ⟨htype, hv⟩, if_pos htype, if_pos (by simp [isHeader, hv])]
    · rw [if_neg (fun e => htype e.1), if_neg htype]

theorem getNextItem_entries {n : Nat} {ctx ctx' : Context} {item : Item} {done : List Entry}
    (hsrc : ctx.nType ≠ .compiled) (ht : Trace ctx done)
    (h : getNextItem n ctx = some (item, ctx')) :
    (item.nResult = sSuccess ∧ Admits ctx.nType done ⟨item.name, item.value⟩ ∧
        ctx'.nType = ctx.nType ∧ ctx'.content = ctx.content ∧
        Trace ctx' (done ++ [⟨item.name, item.value⟩]) ∧
        ∀ es, Entries ctx.nType (textAt ctx.content ctx.nOffset) es ↔
          ∃ tl, es = ⟨item.name, item.value⟩ :: tl ∧
            Entries ctx.nType (textAt ctx.content ctx'.nOffset) tl) ∨
      (item.nResult = sErrorItemNotFound ∧
        ∀ es, Entries ctx.nType (textAt ctx.content ctx.nOffset) es ↔ es = []) ∨
      (item.nResult = sErrorBadFormat ∧
        ∀ es, Entries ctx.nType (textAt ctx.content ctx.nOffset) es →
          ∃ e tl, es = e :: tl ∧ ¬ Admits ctx.nType done e) := by
  rw [getNextItem] at h
  split at h
  next => cases h
  next item₀ ctx₀ hcall =>
    have hscanned := getNextItemInternal_scanned hcall
    have hfound := getNextItemInternal_entries hsrc ht hcall
    rw [if_neg hsrc] at h
    split at h
    next hfail =>
      cases h
      rcases hfound with ⟨hok, -⟩ | hother
      · exact absurd hok hfail
      · exact Or.inr hother
    next hok =>
      have hok' : item₀.nResult = sSuccess := by simpa using hok
      obtain ⟨-, hat, hes⟩ : item₀.nResult = sSuccess ∧ _ := by
        rcases hfound with hfound | ⟨hx, -⟩ | ⟨hx, -⟩
        · exact hfound
        · rw [hok'] at hx
          exact absurd hx.symm itemNotFound_ne_success
        · rw [hok'] at hx
          exact absurd hx.symm badFormat_ne_success
      obtain ⟨es, hpath, hdup⟩ := ht.rescan hsrc hcall hok' hat
      split at h
      next hnosec =>
        exact absurd hnosec.2.2 (hscanned.section_open hok' hnosec.1)
      next =>
        rw [← hscanned.nType, ← hscanned.content] at hpath
        have hsecopen : ctx₀.nType = .sourceWithSections → ctx₀.nSectionStartOffset ≠ 0 :=
          fun htype => hscanned.section_open hok' (hscanned.nType ▸ htype)
        split at h
        next => cases h
        next _ _ hloop =>
          have hflag := @duplicateLoop_eq { ctx₀ with nOffset := rescanOffset ctx₀ item₀ } _ item₀
            _ _ _ es _ hpath hsecopen hloop
          simp only [hscanned.nType] at hflag
          cases h
          refine Or.inr (Or.inr ⟨rfl, ?_⟩)
          intro es' hes'
          obtain ⟨tl, rfl, -⟩ := (hes es').mp hes'
          refine ⟨_, tl, rfl, ?_⟩
          rw [← hdup, ← hflag]
          simp
        next _ _ hloop =>
          have hflag := @duplicateLoop_eq { ctx₀ with nOffset := rescanOffset ctx₀ item₀ } _ item₀
            _ _ _ es _ hpath hsecopen hloop
          simp only [hscanned.nType] at hflag
          cases h
          exact Or.inl ⟨hok', hdup.mp hflag.symm, hscanned.nType, hscanned.content,
            ht.extend hcall hok' hat, hes⟩

/-! ## The check -/

theorem checkLoop_success {n k : Nat} {ctx : Context} {count : Nat} {done : List Entry} {t : Check}
    (hsrc : ctx.nType ≠ .compiled) (ht : Trace ctx done)
    (h : loopM (checkPass n) k ⟨ctx, count, sSuccess⟩ = some t) (hok : t.nResult = sSuccess) :
    (∃ es, Entries ctx.nType (textAt ctx.content ctx.nOffset) es) ∧
      ∀ es, Entries ctx.nType (textAt ctx.content ctx.nOffset) es →
        AllAdmitted ctx.nType done es := by
  induction k generalizing ctx count done with
  | zero => cases h
  | succ k ih =>
    obtain ⟨j, hj, hfirst⟩ := loopM_eq_some h
    obtain rfl : k = j := by omega
    cases hcall : getNextItem n ctx with
    | none =>
      simp only [checkPass, hcall] at hfirst
      rcases hfirst with hstop | ⟨s', hnext, -⟩
      · cases hstop
      · cases hnext
    | some r =>
      obtain ⟨item, ctx'⟩ := r
      rcases getNextItem_entries hsrc ht hcall with
        ⟨hitem, hadmits, htype, hcontent, ht', hes⟩ | ⟨hitem, hes⟩ | ⟨hitem, hes⟩
      · rw [checkPass_success hcall hitem] at hfirst
        rcases hfirst with hstop | ⟨s', hnext, hrest⟩
        · cases hstop
        · cases hnext
          obtain ⟨⟨es, htl⟩, hall⟩ := ih (htype ▸ hsrc) ht' hrest
          rw [htype, hcontent] at htl hall
          refine ⟨⟨_ :: es, (hes _).mpr ⟨es, rfl, htl⟩⟩, ?_⟩
          intro es' hes'
          obtain ⟨tl, rfl, htl'⟩ := (hes es').mp hes'
          exact ⟨hadmits, hall tl htl'⟩
      · refine ⟨⟨[], (hes []).mpr rfl⟩, ?_⟩
        intro es' hes'
        obtain rfl := (hes es').mp hes'
        exact trivial
      · simp only [checkPass, hcall, hitem, if_neg (show sErrorBadFormat ≠ sErrorItemNotFound
          by decide), if_pos badFormat_ne_success] at hfirst
        rcases hfirst with hstop | ⟨s', hnext, -⟩
        · cases hstop
          exact absurd hok badFormat_ne_success
        · cases hnext

theorem checkLoop_returns {n : Nat} {ctx : Context} (count : Nat) {done es : List Entry}
    (hsrc : ctx.nType ≠ .compiled) (ht : Trace ctx done) (hn : ctx.content.length < n)
    (hes : Entries ctx.nType (textAt ctx.content ctx.nOffset) es)
    (hall : AllAdmitted ctx.nType done es) :
    ∃ k t, loopM (checkPass n) k ⟨ctx, count, sSuccess⟩ = some t ∧ t.nResult = sSuccess := by
  induction es generalizing ctx count done with
  | nil =>
    have hns : ¬ StrayAt ctx := fun hs => strayHeader_entries hs [] hes
    obtain ⟨⟨item, ctx'⟩, hcall⟩ := getNextItem_returns ht.onTrack hns hn
    rcases getNextItem_entries hsrc ht hcall with ⟨-, -, -, -, -, hfound⟩ | ⟨hitem, -⟩ | ⟨-, hbad⟩
    · obtain ⟨tl, htl, -⟩ := (hfound []).mp hes
      cases htl
    · refine ⟨1, { ctx := ctx', nPropertyCount := count, nResult := sSuccess }, ?_, rfl⟩
      apply loopM_stop
      simp only [checkPass, hcall, hitem, if_true]
    · obtain ⟨e, tl, htl, -⟩ := hbad [] hes
      cases htl
  | cons e es ih =>
    have hns : ¬ StrayAt ctx := fun hs => strayHeader_entries hs (e :: es) hes
    obtain ⟨⟨item, ctx'⟩, hcall⟩ := getNextItem_returns ht.onTrack hns hn
    rcases getNextItem_entries hsrc ht hcall with
      ⟨hitem, -, htype, hcontent, ht', hfound⟩ | ⟨-, hnone⟩ | ⟨-, hbad⟩
    · obtain ⟨tl, htl, hrest⟩ := (hfound _).mp hes
      cases htl
      obtain ⟨k, t, hloop, hok⟩ := ih (count + 1) (htype ▸ hsrc) ht' (hcontent ▸ hn)
        (by rw [htype, hcontent]; exact hrest) (htype ▸ hall.2)
      refine ⟨k + 1, t, ?_, hok⟩
      rw [loopM_next (checkPass_success hcall hitem)]
      exact hloop
    · cases (hnone _).mp hes
    · obtain ⟨e', tl, htl, hno⟩ := hbad _ hes
      cases htl
      exact absurd hall.1 hno

theorem admitted_nil (nType : ManifestType) : Admitted nType [] := by
  rw [Admitted]
  split
  · refine ⟨by simp, by simp, ?_⟩
    intro s hs _
    rw [List.eq_nil_of_infix_nil hs]
    exact nodup_nil
  · exact nodup_nil

theorem checkFormat_admitted (hsrc : nType ≠ .compiled) {content : List UInt8} {t : Check}
    (ht : Returns (fun n => checkFormat n nType content) t) (hok : t.nResult = sSuccess) :
    (∃ es, Entries nType (skipBom true content) es) ∧
      ∀ es, Entries nType (skipBom true content) es → Admitted nType es := by
  obtain ⟨n, ht⟩ := ht
  obtain ⟨hex, hall⟩ := checkLoop_success hsrc (Trace.init nType content) ht hok
  refine ⟨hex, ?_⟩
  intro es hes
  exact (allAdmitted_iff (admitted_nil nType)).mp (hall es hes)

/-- The check succeeds exactly on the manifests whose lines are well formed and whose
entries are accepted. -/
theorem checkFormat_success_iff (hsrc : nType ≠ .compiled) (content : List UInt8) :
    (∃ t, Returns (fun n => checkFormat n nType content) t ∧ t.nResult = sSuccess) ↔
      ∃ es, Entries nType (skipBom true content) es ∧ Admitted nType es := by
  constructor
  · intro h
    obtain ⟨t, ht, hok⟩ := h
    obtain ⟨⟨es, hes⟩, hall⟩ := checkFormat_admitted hsrc ht hok
    exact ⟨es, hes, hall es hes⟩
  · intro h
    obtain ⟨es, hes, hall⟩ := h
    obtain ⟨k, t, hloop, hok⟩ := checkLoop_returns 0 hsrc (Trace.init nType content)
      (Nat.lt_succ_self _) hes ((allAdmitted_iff (admitted_nil nType)).mpr hall)
    refine ⟨t, ⟨max (content.length + 1) k, ?_⟩, hok⟩
    exact loopM_mono (checkPass_mono (Nat.le_max_left _ _)) (Nat.le_max_right _ _) hloop

/-! ## Slices -/

/-- `*ppName` and `*pNameLength`, or `*ppValue` and `*pValueLength`: the pointer as its
distance from `pManifestContent`. -/
structure Slice where
  offset : Nat
  length : Nat
  deriving DecidableEq, Repr

def Slice.bytes (s : Slice) (content : List UInt8) : List UInt8 :=
  (content.drop s.offset).take s.length

def Slice.Inside (s : Slice) (content : List UInt8) : Prop :=
  s.offset + s.length ≤ content.length

/-- The slices that a scan sets, from behind the comments and empty lines. -/
def scanSlices (nType : ManifestType) (content : List UInt8) (l : Lines) :
    Option (Slice × Option Slice) :=
  match l.rest with
  | [] => none
  | c :: cs =>
    if nType = .sourceWithSections ∧ c = charOpenBracket then
      match sectionName cs with
      | none => none
      | some (name, _) => some (⟨content.length - cs.length, name.length⟩, none)
    else
      match nameLoop nType 1 1 cs with
      | none => none
      | some (nameLength, r) =>
        let v := r.dropWhile isBlank
        match valueLoop nType ⟨0, 0⟩ 0 0 v with
        | none => none
        | some (valueLength, _, _) =>
          some (⟨content.length - l.rest.length, nameLength⟩,
            some ⟨content.length - v.length, valueLength⟩)

/-- The slices that a call sets. -/
def itemSlices (n : Nat) (ctx : Context) : Option (Slice × Option Slice) :=
  match skipLines n ctx.nType (ctx.nOffset == 0) (ctx.content.drop ctx.nOffset) with
  | none => none
  | some l => scanSlices ctx.nType ctx.content l

theorem slice_suffix {cs : List UInt8} (h : cs <:+ content) {k : Nat} (hk : k ≤ cs.length) :
    Slice.Inside ⟨content.length - cs.length, k⟩ content ∧
      Slice.bytes ⟨content.length - cs.length, k⟩ content = cs.take k := by
  have hle := h.length_le
  refine ⟨?_, ?_⟩
  · show content.length - cs.length + k ≤ content.length
    omega
  · rw [Slice.bytes, ← List.suffix_iff_eq_drop.mp h]

theorem nameLoop_compiled {cur k : Nat} {cs r : List UInt8}
    (h : nameLoop .compiled cur cur cs = some (k, r)) :
    ∃ name, (∀ c ∈ name, IsNameChar c) ∧ cs = name ++ charColon :: r ∧
      k = cur + name.length := by
  induction cs generalizing cur with
  | nil => cases h
  | cons c cs ih =>
    rw [nameLoop] at h
    split at h
    next hc =>
      subst hc
      cases h
      exact ⟨[], by simp, rfl, rfl⟩
    rw [if_neg (by simp)] at h
    split at h
    · cases h
    next hchar =>
      rw [if_neg (by simp)] at h
      obtain ⟨name, hname, rfl, rfl⟩ := ih h
      have hc : IsNameChar c := checkCharacter_subsequent.mp (by simpa using hchar)
      refine ⟨c :: name, List.forall_mem_cons.mpr ⟨hc, hname⟩, rfl, ?_⟩
      rw [length_cons]
      omega

theorem nameLoop_name {cur k : Nat} {cs r : List UInt8}
    (h : nameLoop nType cur cur cs = some (k, r)) :
    ∃ name cs', (∀ c ∈ name, IsNameChar c) ∧ BlanksColon cs' r ∧ cs = name ++ cs' ∧
      k = cur + name.length := by
  by_cases hsrc : nType = .compiled
  · subst hsrc
    obtain ⟨name, hname, rfl, rfl⟩ := nameLoop_compiled h
    exact ⟨name, _, hname, ⟨[], by simp, rfl⟩, rfl, rfl⟩
  · exact (nameLoop_eq_some hsrc).mp h

theorem getNextItem_slices {n : Nat} {ctx ctx' : Context} {item : Item}
    (h : getNextItem n ctx = some (item, ctx')) (hok : item.nResult = sSuccess) :
    ∃ name value, itemSlices n ctx = some (name, value) ∧ name.Inside ctx.content ∧
      name.bytes ctx.content = item.name ∧
      value.map (fun v => v.bytes ctx.content) = item.value ∧
      (value = none → IsSectionName item.name) ∧
      ∀ v ∈ value, v.Inside ctx.content ∧ Trimmed (v.bytes ctx.content) ∧
        IsPropertyName item.name := by
  -- a call that succeeds returns the item that the scanner has found
  obtain ⟨ctx₀, hcall⟩ : ∃ ctx₀, getNextItemInternal n ctx = some (item, ctx₀) := by
    rw [getNextItem] at h
    split at h
    next => cases h
    next item₀ ctx₀ hcall =>
      split at h
      · cases h
        exact ⟨_, hcall⟩
      split at h
      · cases h
        exact ⟨_, hcall⟩
      split at h
      · cases h
        exact absurd hok badFormat_ne_success
      split at h
      · cases h
      · cases h
        exact absurd hok badFormat_ne_success
      · cases h
        exact ⟨_, hcall⟩
  rw [getNextItemInternal] at hcall
  split at hcall
  next => cases hcall
  next x hscan =>
    cases hcall
    obtain ⟨l, hl, hfound⟩ := scanItem_found hscan hok
    have hsuffix : l.rest <:+ ctx.content := (skipLines_suffix hl).trans (List.drop_suffix _ _)
    rcases hfound with ⟨cs, name, r, hrest, htype, hname, rfl⟩ | ⟨c, cs, hrest, hsec, rfl⟩
    · rw [hrest] at hsuffix
      obtain ⟨hsection, hcs⟩ := sectionName_eq_some.mp hname
      have hcs' := (suffix_cons _ _).trans hsuffix
      obtain ⟨hin, hbytes⟩ := slice_suffix hcs' (k := name.length) (by simp [hcs])
      refine ⟨_, none, ?_, hin, ?_, rfl, fun _ => hsection, by simp⟩
      · simp only [itemSlices, hl, scanSlices, hrest, hname]
        exact if_pos ⟨htype, trivial⟩
      · rw [hbytes, hcs, List.take_left]
    · rw [hrest] at hsuffix
      obtain ⟨k, r, k', r', lines, hc, hname, hvalue, hx⟩ := scanProperty_success hok
      obtain ⟨name, cs', hchars, ⟨b, -, rfl⟩, hcs, rfl⟩ := nameLoop_name hname
      obtain ⟨-, rfl, -⟩ := valueLoop_eq_some.mp hvalue
      have hv : r.dropWhile isBlank <:+ ctx.content := by
        have hr : r <:+ c :: cs := ⟨c :: (name ++ (b ++ [charColon])), by rw [hcs]; simp⟩
        exact (dropWhile_suffix _).trans (hr.trans hsuffix)
      obtain ⟨hin, hbytes⟩ := slice_suffix hsuffix (k := 1 + name.length) (by
        rw [hcs, length_cons, List.length_append]
        omega)
      obtain ⟨hin', hbytes'⟩ := slice_suffix hv
        (k := ((lineOf (r.dropWhile isBlank)).rdropWhile isBlank).length) (by
          exact ((List.rdropWhile_prefix isBlank _).trans (List.takeWhile_prefix _)).length_le)
      rw [take_value] at hbytes'
      refine ⟨_, some ⟨ctx.content.length - (r.dropWhile isBlank).length,
        ((lineOf (r.dropWhile isBlank)).rdropWhile isBlank).length⟩, ?_, hin, ?_, ?_, ?_, ?_⟩
      · have hno : ¬ (ctx.nType = .sourceWithSections ∧ c = charOpenBracket) :=
          fun e => hsec e.1 e.2
        simp only [itemSlices, hl, scanSlices, hrest, if_neg hno, hname, hvalue]
      · rw [hbytes, hx]
      · rw [hx, Option.map_some, hbytes', take_value]
      · intro hnone
        cases hnone
      · intro v hmem
        cases hmem
        refine ⟨hin', ?_, ?_⟩
        · rw [hbytes']
          exact trimmed_value r
        rw [hx, hcs]
        refine ⟨c, name, ?_, hc, hchars⟩
        rw [Nat.add_comm, List.take_succ_cons, List.take_left]

/-- For every manifest: the check succeeds on a source manifest exactly when every line
is well formed and the property names are different; on a manifest with sections exactly
when every line is well formed, a header comes first, the section names are different
ignoring case, and so are the property names of each section. And every call that
succeeds reports slices inside the manifest: a section name, or a property name and a
value without blanks around it. -/
theorem manifest_format_exact (content : List UInt8) :
    ((∃ t, Returns (fun n => checkFormat n .source content) t ∧ t.nResult = sSuccess) ↔
      ∃ es, Entries .source (skipBom true content) es ∧ NamesDiffer es) ∧
    ((∃ t, Returns (fun n => checkFormat n .sourceWithSections content) t ∧
        t.nResult = sSuccess) ↔
      ∃ es, Entries .sourceWithSections (skipBom true content) es ∧
        (∀ e ∈ es.head?, e.isHeader = true) ∧ SectionNamesDiffer es) ∧
    ∀ n ctx item ctx', ctx.content = content → getNextItem n ctx = some (item, ctx') →
      item.nResult = sSuccess →
      ∃ name value, itemSlices n ctx = some (name, value) ∧ name.Inside content ∧
        name.bytes content = item.name ∧ value.map (fun v => v.bytes content) = item.value ∧
        (value = none → IsSectionName item.name) ∧
        ∀ v ∈ value, v.Inside content ∧ Trimmed (v.bytes content) ∧ IsPropertyName item.name := by
  refine ⟨checkFormat_success_iff (by decide) content, checkFormat_success_iff (by decide) content,
    ?_⟩
  intro n ctx item ctx' hcontent hcall hok
  subst hcontent
  exact getNextItem_slices hcall hok

/-- `[a]` and `b:c` pass the check, and the first call reports the name `a`. -/
theorem manifest_format_section_and_property :
    (∃ es, Entries .sourceWithSections (skipBom true sectionAndProperty) es ∧
      (∀ e ∈ es.head?, e.isHeader = true) ∧ SectionNamesDiffer es) ∧
    ∃ name value, itemSlices 8 (.init .sourceWithSections sectionAndProperty) =
        some (name, value) ∧ name.Inside sectionAndProperty ∧
      name.bytes sectionAndProperty = [0x61] ∧
      value.map (fun v => v.bytes sectionAndProperty) = none ∧
      (value = none → IsSectionName [0x61]) ∧
      ∀ v ∈ value, v.Inside sectionAndProperty ∧ Trimmed (v.bytes sectionAndProperty) ∧
        IsPropertyName [0x61] := by
  have hexact := manifest_format_exact sectionAndProperty
  refine ⟨hexact.2.1.mp ⟨_, ⟨8, rfl⟩, rfl⟩, ?_⟩
  exact hexact.2.2 8 (.init .sourceWithSections sectionAndProperty) ⟨sSuccess, [0x61], none⟩ _
    rfl rfl rfl

/-- `[a b]`. -/
def nameWithSpace : List UInt8 := [0x5B, 0x61, 0x20, 0x62, 0x5D]

/-- `a:b`. -/
def propertyOnly : List UInt8 := [0x61, 0x3A, 0x62]

theorem propertyOnly_entries :
    Entries .sourceWithSections propertyOnly [⟨[0x61], some [0x62]⟩] := by
  have hblank : ∀ c ∈ ([] : List UInt8), isBlank c = true := by simp
  have htrim : Trimmed [0x62] := trimmed_of_ends rfl rfl rfl rfl
  have hline : LineIs .sourceWithSections ([0x61] ++ ([] ++ charColon :: ([] ++ ([0x62] ++ []))))
      (some ⟨[0x61], some [0x62]⟩) :=
    .property ⟨0x61, [], rfl, Or.inr (Or.inl (by decide)), by simp⟩ hblank hblank
      ⟨[Char.ofNat 0x62], by decide, rfl⟩ htrim hblank
  exact ⟨[some ⟨[0x61], some [0x62]⟩], .cons hline .nil, rfl⟩

/-- Section names may hold spaces: the first call on `[a b]` reports one that is no
property name. And a property outside any section is refused, though its line is well
formed and no names are equal. -/
theorem manifest_section_name_and_stray_property :
    (∃ ctx', getNextItem 6 (.init .sourceWithSections nameWithSpace) =
        some (⟨sSuccess, [0x61, 0x20, 0x62], none⟩, ctx') ∧
      ¬ IsPropertyName [0x61, 0x20, 0x62]) ∧
    (∃ es, Entries .sourceWithSections (skipBom true propertyOnly) es ∧ SectionNamesDiffer es) ∧
    ∃ t, Returns (fun n => checkFormat n .sourceWithSections propertyOnly) t ∧
      t.nResult ≠ sSuccess := by
  refine ⟨⟨_, rfl, ?_⟩, ⟨_, propertyOnly_entries, ?_⟩, _, ⟨4, rfl⟩, ?_⟩
  · intro h
    obtain ⟨c, cs, heq, -, hcs⟩ := h
    cases heq
    have hspace := hcs 0x20 (by simp)
    exact absurd hspace (by unfold IsNameChar IsAlnum; decide)
  · refine ⟨by decide, ?_⟩
    intro s hs _
    exact (List.Nodup.sublist (hs.sublist.map Entry.name) (by decide))
  · decide

end Omap4Hal.Security

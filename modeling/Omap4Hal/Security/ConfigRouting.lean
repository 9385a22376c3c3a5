import Mathlib.Algebra.GroupWithZero.Nat
import Omap4Hal.Security.ConfigFile

/- Where the properties of a configuration file go. `intended` is the list that a property
   belongs to: that of the system properties in section `Global`, and in a section of a
   service its private or its public list, by the prefix of the name. `route` is the list
   that `SMCPropYacc` adds it to. They differ where a name with the prefix has a short
   value, and in section `Global` once a section of a service has been read: the pointer
   to the private list stays set. -/
namespace Omap4Hal.Security
open Lib
open List (append_cons append_nil filter_append mem_append mem_cons mem_filter mem_of_getLast?
  replicate reverseRecOn)
open Entry
open ConfFile
open Option (bind_some getD_some map_eq_some_iff map_some ne_none_iff_exists')
open BinTree

/-! ## The text of the entries -/

theorem toCString_bytes {bs : List UInt8} (h : 0 ∉ bs) : (toCString bs).bytes = bs := by
  apply List.takeWhile_eq_self_iff.mpr
  intro c hc
  simp only [ne_eq, decide_eq_true_eq]
  exact fun h0 => h (h0 ▸ hc)

/-- Name and value have no zero bytes. -/
def Entry.Clean (e : Entry) : Prop := 0 ∉ e.name ∧ ∀ v ∈ e.value, 0 ∉ v

theorem utf8Run_ne_zero {bs : List UInt8} {u v : Utf8State} (h : bs.foldlM utf8Check u = some v) :
    0 ∉ bs := by
  induction bs generalizing u with
  | nil => simp
  | cons b bs ih =>
    obtain ⟨w, hw, hrest⟩ := utf8Run_cons.mp h
    rw [mem_cons, not_or]
    refine ⟨?_, ih hrest⟩
    intro hb
    subst hb
    rw [utf8Check, utf8Byte_eq] at hw
    simp at hw

theorem IsNameChar.ne_zero {c : UInt8} (h : IsNameChar c) : c ≠ 0 := by
  unfold IsNameChar IsAlnum at h
  intro h0
  subst h0
  revert h
  decide

theorem LineIs.clean {nType : ManifestType} {l : List UInt8} {e : Entry}
    (h : LineIs nType l (some e)) : e.Clean := by
  cases h with
  | header _ hname _ =>
    refine ⟨?_, by simp⟩
    intro h0
    rcases hname 0 h0 with hchar | hspace
    · exact hchar.ne_zero rfl
    · exact absurd hspace (by decide)
  | @property name _ _ value _ hname _ _ htext _ _ =>
    refine ⟨?_, ?_⟩
    · intro h0
      obtain ⟨c, cs, rfl, hc, hcs⟩ := hname
      rcases mem_cons.mp h0 with h0 | h0
      · exact IsNameChar.ne_zero (Or.inl hc) h0.symm
      · exact (hcs 0 h0).ne_zero rfl
    · intro v hv
      cases hv
      obtain ⟨w, hrun, -⟩ := (@utf8Run_iff 0 value).mpr htext
      exact utf8Run_ne_zero hrun

theorem entries_clean {text : List UInt8} {nType : ManifestType} {es : List Entry}
    (h : Entries nType text es) : ∀ e ∈ es, e.Clean := by
  obtain ⟨marks, hlines, rfl⟩ := h
  generalize text.splitOnP isEol = ls at hlines
  induction hlines with
  | nil => simp
  | @cons l m ls marks hline _ ih =>
    cases m with
    | none => exact ih
    | some d =>
      intro e he
      rcases mem_cons.mp he with rfl | he
      · exact hline.clean
      · exact ih e he

/-! ## Routes -/

def Entry.isGlobal (e : Entry) : Bool := strcasecmp (toCString e.name) systemSectionName == .eq

/-- The name starts with `config.`. -/
def Entry.isConfig (e : Entry) : Bool := configPropertyName.isPrefixOf e.name

/-- The value has more characters than the prefix. -/
def Entry.isLong (e : Entry) : Bool := configPropertyName.length < (e.value.getD []).length

def Entry.property (e : Entry) : Property := ⟨toCString e.name, toCString (e.value.getD [])⟩

/-- The header of the section that is open. -/
def headerOf (done : List Entry) : Option Entry := (done.filter isHeader).getLast?

/-- The service whose section was opened last. -/
def serviceOf (c : ConfFile) (done : List Entry) : Option Nat :=
  (done.filter fun e => e.isHeader && !e.isGlobal).getLast?.bind fun h =>
    c.findSection (toCString h.name)

/-- `pPublicPropertyList`. -/
def publicRef (c : ConfFile) (done : List Entry) : Option ListRef :=
  (headerOf done).bind fun h =>
    if h.isGlobal then some .system else (c.findSection (toCString h.name)).map .publicOf

/-- The list that a property is added to. -/
def route (c : ConfFile) (done : List Entry) (e : Entry) : Option ListRef :=
  match serviceOf c done with
  | none => publicRef c done
  | some a => if e.isLong ∧ e.isConfig then some (.privateOf a) else publicRef c done

/-- The list that a property belongs to. -/
def intended (c : ConfFile) (done : List Entry) (e : Entry) : Option ListRef :=
  (headerOf done).bind fun h =>
    if h.isGlobal then some .system
    else (c.findSection (toCString h.name)).map fun a =>
      if e.isConfig then .privateOf a else .publicOf a

/-- A property among the entries, added to the list. -/
def AddedTo (c : ConfFile) (done : List Entry) (ref : ListRef) (p : Property) : Prop :=
  ∃ pre e post, done = pre ++ e :: post ∧ e.isHeader = false ∧ e.property = p ∧
    route c pre e = some ref

theorem headerOf_concat (done : List Entry) (e : Entry) :
    headerOf (done ++ [e]) = if e.isHeader then some e else headerOf done := by
  rw [headerOf, filter_append]
  cases he : e.isHeader with
  | true => simp [he]
  | false => simp [he, headerOf]

theorem serviceOf_concat (c : ConfFile) (done : List Entry) (e : Entry) :
    serviceOf c (done ++ [e]) =
      if e.isHeader ∧ e.isGlobal = false then c.findSection (toCString e.name)
      else serviceOf c done := by
  rw [serviceOf, filter_append]
  by_cases he : e.isHeader = true ∧ e.isGlobal = false
  · simp [he.1, he.2]
  · have hno : (e.isHeader && !e.isGlobal) = false := by simpa using he
    rw [if_neg he, List.filter_cons_of_neg (by simp [hno]), List.filter_nil, append_nil]
    rfl

theorem concat_split {done pre post : List Entry} {d e : Entry} :
    done ++ [d] = pre ++ e :: post ↔
      (done = pre ∧ d = e ∧ post = []) ∨
        ∃ post', done = pre ++ e :: post' ∧ post = post' ++ [d] := by
  constructor
  · intro h
    cases post using reverseRecOn with
    | nil =>
      obtain ⟨hpre, hd⟩ := List.append_inj' h rfl
      exact Or.inl ⟨hpre, (List.cons.inj hd).1, rfl⟩
    | append_singleton post x =>
      rw [← List.cons_append, ← List.append_assoc] at h
      obtain ⟨hpre, hd⟩ := List.append_inj' h rfl
      exact Or.inr ⟨post, hpre, by rw [(List.cons.inj hd).1]⟩
  · intro h
    rcases h with ⟨rfl, rfl, rfl⟩ | ⟨post', rfl, rfl⟩
    · rfl
    · simp

theorem addedTo_concat {c : ConfFile} {done : List Entry} {d : Entry} {ref : ListRef}
    {p : Property} : AddedTo c (done ++ [d]) ref p ↔
      AddedTo c done ref p ∨ (d.isHeader = false ∧ d.property = p ∧ route c done d = some ref) := by
  constructor
  · intro h
    obtain ⟨pre, e, post, hsplit, he, hp, hroute⟩ := h
    rcases concat_split.mp hsplit with ⟨rfl, rfl, -⟩ | ⟨post', rfl, -⟩
    · exact Or.inr ⟨he, hp, hroute⟩
    · exact Or.inl ⟨pre, e, post', rfl, he, hp, hroute⟩
  · intro h
    rcases h with ⟨pre, e, post, rfl, he, hp, hroute⟩ | ⟨he, hp, hroute⟩
    · exact ⟨pre, e, post ++ [d], by simp, he, hp, hroute⟩
    · exact ⟨done, d, [], rfl, he, hp, hroute⟩

/-! ## What a pass does -/

/-- Same sections in the same lists, under the same names. -/
structure SameSections (c c₀ : ConfFile) : Prop where
  names : ∀ a, (c.sections a).pName = (c₀.sections a).pName
  driver : c.sDriverSectionList = c₀.sDriverSectionList
  preinstalled : c.sPreinstalledSectionList = c₀.sPreinstalledSectionList
  others : c.sSectionList = c₀.sSectionList

theorem SameSections.findSection {c c₀ : ConfFile} (h : SameSections c c₀) (x : CString) :
    c.findSection x = c₀.findSection x := by
  simp only [ConfFile.findSection, h.names, h.driver, h.preinstalled, h.others]

theorem sections_setSection (c : ConfFile) (a : Nat) (v : ServiceSection) (b : Nat) :
    (c.setSection a v).sections b = if b = a then v else c.sections b :=
  Function.update_apply ..

theorem setSection_same {c c₀ : ConfFile} (h : SameSections c c₀) {a : Nat} {v : ServiceSection}
    (hv : v.pName = (c.sections a).pName) : SameSections (c.setSection a v) c₀ := by
  refine ⟨?_, h.driver, h.preinstalled, h.others⟩
  intro b
  rw [sections_setSection]
  split
  next hb => rw [hv, hb, h.names]
  next => exact h.names b

theorem setList_same {c c₀ : ConfFile} (h : SameSections c c₀) (l : BinTree Property)
    (ref : ListRef) : SameSections (c.setList l ref) c₀ := by
  cases ref with
  | system => exact ⟨h.names, h.driver, h.preinstalled, h.others⟩
  | publicOf a => exact setSection_same h rfl
  | privateOf a => exact setSection_same h rfl

theorem list_setSection {c : ConfFile} {a : Nat} {v : ServiceSection}
    (hpub : v.sPublicPropertyList = (c.sections a).sPublicPropertyList)
    (hpriv : v.sPrivatePropertyList = (c.sections a).sPrivatePropertyList) (ref : ListRef) :
    (c.setSection a v).list ref = c.list ref := by
  cases ref with
  | system => rfl
  | publicOf b =>
    rw [ConfFile.list, ConfFile.list, sections_setSection]
    split
    next hb => rw [hpub, hb]
    next => rfl
  | privateOf b =>
    rw [ConfFile.list, ConfFile.list, sections_setSection]
    split
    next hb => rw [hpriv, hb]
    next => rfl

theorem list_setList (c : ConfFile) (l : BinTree Property) (ref ref' : ListRef) :
    (c.setList l ref).list ref' = if ref' = ref then l else c.list ref' := by
  cases ref with
  | system => cases ref' <;> simp [ConfFile.list, setList]
  | publicOf a =>
    cases ref' with
    | system => simp [ConfFile.list, setList, setSection]
    | publicOf b =>
      simp only [ConfFile.list, setList, sections_setSection, ListRef.publicOf.injEq]
      split <;> rfl
    | privateOf b =>
      simp only [ConfFile.list, setList, sections_setSection, reduceCtorEq, if_false]
      split
      next hb => rw [hb]
      next => rfl
  | privateOf a =>
    cases ref' with
    | system => simp [ConfFile.list, setList, setSection]
    | publicOf b =>
      simp only [ConfFile.list, setList, sections_setSection, reduceCtorEq, if_false]
      split
      next hb => rw [hb]
      next => rfl
    | privateOf b =>
      simp only [ConfFile.list, setList, sections_setSection, ListRef.privateOf.injEq]
      split <;> rfl

theorem openSection_eq_some {s s' : Yacc} {x : CString} (h : s.openSection x = some s') :
    s'.sParserContext = s.sParserContext ∧ s'.nMalloc = s.nMalloc ∧ SameSections s'.conf s.conf ∧
      (∀ ref, s'.conf.list ref = s.conf.list ref) ∧
      ((strcasecmp x systemSectionName = .eq ∧ s'.pPublicPropertyList = some .system ∧
          s'.pPrivatePropertyList = s.pPrivatePropertyList) ∨
        (strcasecmp x systemSectionName ≠ .eq ∧ ∃ a, s.conf.findSection x = some a ∧
          s'.pPublicPropertyList = some (.publicOf a) ∧
          s'.pPrivatePropertyList = some (.privateOf a))) := by
  have hsame : SameSections s.conf s.conf := ⟨fun _ => rfl, rfl, rfl, rfl⟩
  rw [Yacc.openSection] at h
  split at h
  next hglobal =>
    cases h
    exact ⟨rfl, rfl, hsame, fun _ => rfl, Or.inl ⟨hglobal, rfl, rfl⟩⟩
  next hglobal =>
    split at h
    next => cases h
    next a ha =>
      cases h
      refine ⟨rfl, rfl, ?_, ?_, Or.inr ⟨hglobal, a, ha, rfl, rfl⟩⟩
      · split
        next b _ => refine setSection_same (setSection_same hsame ?_) ?_ <;> rfl
        next =>
          have hset := setSection_same hsame (v := { s.conf.sections a with inSCF := true }) rfl
          exact ⟨hset.names, hset.driver, hset.preinstalled, hset.others⟩
      · intro ref
        split
        next b _ => refine (list_setSection ?_ ?_ ref).trans (list_setSection ?_ ?_ ref) <;> rfl
        next =>
          have hset := @list_setSection s.conf a { s.conf.sections a with inSCF := true }
            rfl rfl ref
          rw [← hset]
          cases ref <;> rfl

/-! ## The state between two passes -/

/-- Allocations: one for a header, three for a property. -/
def mallocs (es : List Entry) : Nat := (es.map fun e => if e.isHeader then 1 else 3).sum

def PropertyLt (p q : Property) : Prop := strcmp p.pName q.pName = .lt

/-- The entries that the passes get through. -/
structure Accepted (malloc : Nat → Bool) (c : ConfFile) (es : List Entry) : Prop where
  memory : ∀ i < mallocs es, malloc i = true
  known : ∀ e ∈ es, e.isHeader = true → e.isGlobal = true ∨ c.findSection (toCString e.name) ≠ none

/-- The state behind `done`. -/
structure YaccInv (malloc : Nat → Bool) (c : ConfFile) (pBuffer : List UInt8) (done : List Entry)
    (s : Yacc) : Prop where
  trace : Trace s.sParserContext done
  nType : s.sParserContext.nType = .sourceWithSections
  content : s.sParserContext.content = pBuffer
  admitted : Admitted .sourceWithSections done
  accepted : Accepted malloc c done
  same : SameSections s.conf c
  pPublic : s.pPublicPropertyList = publicRef c done
  pPrivate : s.pPrivatePropertyList = (serviceOf c done).map .privateOf
  count : s.nMalloc = mallocs done
  ordered : ∀ ref, (s.conf.list ref).Ordered PropertyLt
  lists : ∀ ref p, p ∈ (s.conf.list ref).toList ↔ AddedTo c done ref p

/-- The name is in the list already. -/
def Clash (c : ConfFile) (done : List Entry) (e : Entry) : Prop :=
  e.isHeader = false ∧ ∃ ref p, route c done e = some ref ∧ AddedTo c done ref p ∧
    p.pName = toCString e.name

theorem mallocs_concat (done : List Entry) (e : Entry) :
    mallocs (done ++ [e]) = mallocs done + if e.isHeader then 1 else 3 := by
  simp [mallocs]

theorem accepted_concat {malloc : Nat → Bool} {c : ConfFile} {done : List Entry} {e : Entry} :
    Accepted malloc c (done ++ [e]) ↔ Accepted malloc c done ∧
      (∀ i < (if e.isHeader then 1 else 3), malloc (mallocs done + i) = true) ∧
      (e.isHeader = true → e.isGlobal = true ∨ c.findSection (toCString e.name) ≠ none) := by
  constructor
  · intro h
    obtain ⟨hmem, hknown⟩ := h
    rw [mallocs_concat] at hmem
    refine ⟨⟨fun i hi => hmem i (by omega), fun d hd => hknown d (List.mem_append_left _ hd)⟩,
      fun i hi => hmem _ (by omega), hknown e (by simp)⟩
  · intro h
    obtain ⟨⟨hmem, hknown⟩, hmem', hknown'⟩ := h
    refine ⟨?_, ?_⟩
    · intro i hi
      rw [mallocs_concat] at hi
      by_cases hlt : i < mallocs done
      · exact hmem i hlt
      · have hi' := hmem' (i - mallocs done) (by omega)
        rwa [show mallocs done + (i - mallocs done) = i by omega] at hi'
    · intro d hd
      rcases mem_append.mp hd with hd | hd
      · exact hknown d hd
      · rw [List.mem_singleton.mp hd]
        exact hknown'

theorem Accepted.of_append {malloc : Nat → Bool} {c : ConfFile} {done es : List Entry}
    (h : Accepted malloc c (done ++ es)) : Accepted malloc c done := by
  refine ⟨?_, fun e he => h.known e (List.mem_append_left _ he)⟩
  intro i hi
  apply h.memory
  simp only [mallocs, List.map_append, List.sum_append] at hi ⊢
  omega

theorem target_eq {malloc : Nat → Bool} {c : ConfFile} {pBuffer : List UInt8} {done : List Entry}
    {s : Yacc} (h : YaccInv malloc c pBuffer done s) {e : Entry} (hclean : e.Clean) :
    s.target (toCString e.name) (e.value.getD []).length = route c done e := by
  rw [Yacc.target, h.pPrivate, h.pPublic, route]
  cases serviceOf c done with
  | none => rfl
  | some a =>
    simp only [map_some, toCString_bytes hclean.1, isLong, isConfig,
      decide_eq_true_eq, List.isPrefixOf_iff_prefix, gt_iff_lt]

theorem publicRef_ne_none {malloc : Nat → Bool} {c : ConfFile} {done : List Entry}
    (hacc : Accepted malloc c done) (hadm : Admitted .sourceWithSections done) (hne : done ≠ []) :
    publicRef c done ≠ none := by
  obtain ⟨e, es, rfl⟩ := List.exists_cons_of_ne_nil hne
  rw [Admitted, if_pos rfl] at hadm
  have he : e.isHeader = true := hadm.1 e rfl
  have hsome : headerOf (e :: es) ≠ none := by
    rw [headerOf, List.filter_cons_of_pos he, ne_eq, List.getLast?_eq_none_iff]
    simp
  obtain ⟨h, hh⟩ := ne_none_iff_exists'.mp hsome
  have hmem : h ∈ (e :: es).filter isHeader := mem_of_getLast? hh
  rw [mem_filter] at hmem
  rw [publicRef, hh, bind_some]
  split
  · simp
  next hglobal =>
    rcases hacc.known h hmem.1 hmem.2 with hg | hfound
    · exact absurd hg hglobal
    · simpa using hfound

theorem route_ne_none {malloc : Nat → Bool} {c : ConfFile} {done : List Entry}
    (hacc : Accepted malloc c done) (hadm : Admitted .sourceWithSections done) (hne : done ≠ [])
    (e : Entry) : route c done e ≠ none := by
  have hpub := publicRef_ne_none hacc hadm hne
  rw [route]
  split
  · exact hpub
  · split
    · simp
    · exact hpub

/-! ## One pass -/

theorem addTo_cases {t : BinTree Property} (ht : t.Ordered PropertyLt) (p : Property) :
    (addTo Property.pName t p = (sErrorItemExists, t) ∧ ∃ q ∈ t.toList, q.pName = p.pName) ∨
      ∃ t', addTo Property.pName t p = (sSuccess, t') ∧ t'.Ordered PropertyLt ∧
        ∀ q, q ∈ t'.toList ↔ q = p ∨ q ∈ t.toList := by
  rw [addTo]
  cases hins : t.insert (fun a => strcmp p.pName a.pName) p with
  | none =>
    obtain ⟨q, hq⟩ := insert_eq_none.mp hins
    obtain ⟨hmem, heq⟩ := find_eq_some hq
    exact Or.inl ⟨rfl, q, hmem, (strcmp_eq_iff.mp heq).symm⟩
  | some t' =>
    refine Or.inr ⟨t', rfl, ?_, fun q => mem_insert hins⟩
    apply ht.insert _ _ hins
    · intro q hlt
      exact hlt
    · intro q hgt
      rw [PropertyLt, ← strcmp_swap, hgt]
      rfl

theorem outOfMemory_ne_success : sErrorOutOfMemory ≠ sSuccess := by decide

theorem itemExists_ne_success : sErrorItemExists ≠ sSuccess := by decide

section Step

variable {malloc : Nat → Bool} {c : ConfFile} {pBuffer : List UInt8} {done : List Entry} {s : Yacc}
  {n : Nat} {e : Entry} {ctx : Context} (h : YaccInv malloc c pBuffer done s)
  (hcall : getNextItem n s.sParserContext = some (⟨sSuccess, e.name, e.value⟩, ctx))
  (hadm : Admits .sourceWithSections done e) (htrace : Trace ctx (done ++ [e]))
  (htype : ctx.nType = .sourceWithSections) (hcontent : ctx.content = pBuffer)
include h hcall hadm htrace htype hcontent

theorem yaccPass_header (he : e.isHeader = true) :
    (∃ s', yaccPass n malloc s = some (.next s') ∧ s'.sParserContext = ctx ∧
      YaccInv malloc c pBuffer (done ++ [e]) s') ∨
    ∃ s', yaccPass n malloc s = some (.stop s') ∧ s'.nError ≠ sSuccess ∧
      ¬ Accepted malloc c (done ++ [e]) := by
  have hv : e.value = none := by simpa [isHeader] using he
  have hne : ¬ sSuccess = sErrorItemNotFound := fun hc => itemNotFound_ne_success hc.symm
  have hglobal : e.isGlobal = true ↔ strcasecmp (toCString e.name) systemSectionName = .eq := by
    simp [isGlobal]
  rw [accepted_concat, if_pos he]
  simp only [yaccPass, hcall, hv, if_neg hne, ne_eq, not_true_eq_false, if_false, h.count]
  cases hmal : malloc (mallocs done) with
  | false =>
    refine Or.inr ⟨_, rfl, outOfMemory_ne_success, ?_⟩
    intro hacc
    have h0 := hacc.2.1 0 (by decide)
    rw [Nat.add_zero, hmal] at h0
    cases h0
  | true =>
    simp only [Bool.true_eq_false, if_false]
    cases hopen : Yacc.openSection { s with
        sParserContext := ctx, nError := sSuccess, nMalloc := mallocs done + 1 }
        (toCString e.name) with
    | none =>
      refine Or.inr ⟨_, rfl, itemNotFound_ne_success, ?_⟩
      intro hacc
      rw [Yacc.openSection] at hopen
      split at hopen
      next => cases hopen
      next hno =>
        split at hopen
        next hfind =>
          rw [h.same.findSection] at hfind
          rcases hacc.2.2 he with hg | hfound
          · exact hno (hglobal.mp hg)
          · exact hfound hfind
        next => cases hopen
    | some s' =>
      obtain ⟨hctx, hcount, hsame, hlist, hrefs⟩ := openSection_eq_some hopen
      simp only [h.same.findSection] at hctx hcount hsame hlist hrefs
      have hsame' : SameSections s'.conf c := ⟨fun a => (hsame.names a).trans (h.same.names a),
        hsame.driver.trans h.same.driver, hsame.preinstalled.trans h.same.preinstalled,
        hsame.others.trans h.same.others⟩
      refine Or.inl ⟨s', rfl, hctx, ?_⟩
      refine ⟨hctx ▸ htrace, hctx ▸ htype, hctx ▸ hcontent, admitted_concat.mpr ⟨h.admitted, hadm⟩,
        accepted_concat.mpr ⟨h.accepted, ?_, ?_⟩, hsame', ?_, ?_, ?_, ?_, ?_⟩
      · intro i hi
        rw [if_pos he, Nat.lt_one_iff] at hi
        rw [hi, Nat.add_zero, hmal]
      · intro _
        rcases hrefs with ⟨hg, -, -⟩ | ⟨-, a, ha, -, -⟩
        · exact Or.inl (hglobal.mpr hg)
        · exact Or.inr (by simp [ha])
      · rw [publicRef, headerOf_concat, if_pos he, bind_some]
        rcases hrefs with ⟨hg, hpub, -⟩ | ⟨hg, a, ha, hpub, -⟩
        · rw [if_pos (hglobal.mpr hg), hpub]
        · rw [if_neg (fun hc => hg (hglobal.mp hc)), hpub, ha]
          rfl
      · rw [serviceOf_concat]
        rcases hrefs with ⟨hg, -, hpriv⟩ | ⟨hg, a, ha, -, hpriv⟩
        · rw [if_neg (by simp [hglobal.mpr hg]), hpriv, h.pPrivate]
        · rw [if_pos ⟨he, by simpa using fun hc => hg (hglobal.mp hc)⟩, hpriv, ha]
          rfl
      · rw [hcount, mallocs_concat, if_pos he]
      · intro ref
        rw [hlist]
        exact h.ordered ref
      · intro ref p
        rw [hlist, h.lists, addedTo_concat]
        simp [he]

theorem yaccPass_property (hclean : e.Clean) (he : e.isHeader = false) :
    (∃ s', yaccPass n malloc s = some (.next s') ∧ s'.sParserContext = ctx ∧
      YaccInv malloc c pBuffer (done ++ [e]) s') ∨
    ∃ s', yaccPass n malloc s = some (.stop s') ∧ s'.nError ≠ sSuccess ∧
      (¬ Accepted malloc c (done ++ [e]) ∨ Clash c done e) := by
  obtain ⟨v, hv⟩ : ∃ v, e.value = some v := by
    simpa [isHeader, Option.isNone_eq_false_iff, Option.isSome_iff_exists] using he
  have hne : ¬ sSuccess = sErrorItemNotFound := fun hc => itemNotFound_ne_success hc.symm
  have hdone : done ≠ [] := by
    rw [Admits, if_pos rfl, if_neg (by simp [he])] at hadm
    exact hadm.1
  obtain ⟨ref, href⟩ := ne_none_iff_exists'.mp
    (route_ne_none h.accepted h.admitted hdone e)
  have htarget := target_eq h hclean
  rw [hv, getD_some, href] at htarget
  have hthree : ∀ i, Accepted malloc c (done ++ [e]) → i < 3 →
      malloc (mallocs done + i) = true := by
    intro i hacc hi
    have hmem := (accepted_concat.mp hacc).2.1 i
    rw [if_neg (by simp [he])] at hmem
    exact hmem hi
  simp only [yaccPass, hcall, hv, if_neg hne, ne_eq, not_true_eq_false, if_false, h.count]
  split
  next hmal =>
    refine Or.inr ⟨_, rfl, outOfMemory_ne_success, Or.inl ?_⟩
    intro hacc
    have h0 := hthree 0 hacc (by decide)
    rw [Nat.add_zero, hmal] at h0
    cases h0
  next hmal =>
    split
    next hmal' =>
      refine Or.inr ⟨_, rfl, outOfMemory_ne_success, Or.inl ?_⟩
      intro hacc
      rcases hmal' with h1 | h2
      · rw [hthree 1 hacc (by decide)] at h1
        cases h1
      · rw [hthree 2 hacc (by decide)] at h2
        cases h2
    next hmal' =>
      simp only [not_or, Bool.not_eq_false] at hmal hmal'
      split
      next hnone => exact absurd (hnone.symm.trans htarget) (by simp)
      next ref' href' =>
        obtain rfl : ref' = ref := Option.some.inj (href'.symm.trans htarget)
        have hprop : e.property = ⟨toCString e.name, toCString v⟩ := by rw [Entry.property, hv]; rfl
        rcases addTo_cases (h.ordered ref') e.property with ⟨hadd, q, hq, hname⟩ |
          ⟨t', hadd, hordered, hmem⟩
        · rw [hprop] at hadd
          simp only [hadd]
          refine Or.inr ⟨_, rfl, itemExists_ne_success, Or.inr ⟨he, ref', q, href, ?_, hname⟩⟩
          exact (h.lists ref' q).mp hq
        · rw [hprop] at hadd
          simp only [hadd, not_true_eq_false, if_false]
          refine Or.inl ⟨_, rfl, rfl, ⟨htrace, htype, hcontent,
            admitted_concat.mpr ⟨h.admitted, hadm⟩, accepted_concat.mpr ⟨h.accepted, ?_, ?_⟩,
            setList_same h.same t' ref', ?_, ?_, ?_, ?_, ?_⟩⟩
          · intro i hi
            rw [if_neg (by simp [he])] at hi
            obtain rfl | rfl | rfl : i = 0 ∨ i = 1 ∨ i = 2 := by omega
            · exact hmal
            · exact hmal'.1
            · exact hmal'.2
          · intro hhead
            rw [he] at hhead
            cases hhead
          · rw [publicRef, headerOf_concat, if_neg (by simp [he])]
            exact h.pPublic
          · rw [serviceOf_concat, if_neg (by simp [he])]
            exact h.pPrivate
          · rw [mallocs_concat, if_neg (by simp [he])]
          · intro r
            rw [list_setList]
            split
            next => exact hordered
            next => exact h.ordered r
          · intro r p
            rw [list_setList, addedTo_concat, ← h.lists r p]
            split
            next hr =>
              rw [hmem p, hr, href]
              simp [he, eq_comm, or_comm]
            next hr =>
              have hrr : some ref' ≠ some r := fun hc => hr (Option.some.inj hc).symm
              simp [href, hrr]

theorem yaccPass_step (hclean : e.Clean) :
    (∃ s', yaccPass n malloc s = some (.next s') ∧ s'.sParserContext = ctx ∧
      YaccInv malloc c pBuffer (done ++ [e]) s') ∨
    ∃ s', yaccPass n malloc s = some (.stop s') ∧ s'.nError ≠ sSuccess ∧
      (¬ Accepted malloc c (done ++ [e]) ∨ Clash c done e) := by
  cases he : e.isHeader with
  | false => exact yaccPass_property h hcall hadm htrace htype hcontent hclean he
  | true =>
    rcases yaccPass_header h hcall hadm htrace htype hcontent he with hnext | ⟨s', hstop, hno, hacc⟩
    · exact Or.inl hnext
    · exact Or.inr ⟨s', hstop, hno, Or.inl hacc⟩

end Step

/-! ## All passes -/

section Passes

variable {malloc : Nat → Bool} {c : ConfFile} {pBuffer : List UInt8} {done es : List Entry}
  {s : Yacc} {n : Nat}

/-- The entries that are left, from a state between two passes. -/
def Yacc.Left (s : Yacc) (es : List Entry) : Prop :=
  Entries .sourceWithSections (textAt s.sParserContext.content s.sParserContext.nOffset) es

theorem nextItem_left {item : Item} {ctx : Context} (h : YaccInv malloc c pBuffer done s)
    (hleft : s.Left es) (hcall : getNextItem n s.sParserContext = some (item, ctx)) :
    (∃ e tl, es = e :: tl ∧ item = ⟨sSuccess, e.name, e.value⟩ ∧
      Admits .sourceWithSections done e ∧ Trace ctx (done ++ [e]) ∧
      ctx.nType = .sourceWithSections ∧ ctx.content = pBuffer ∧
      ∀ s' : Yacc, s'.sParserContext = ctx → s'.Left tl) ∨
    (es = [] ∧ item.nResult = sErrorItemNotFound) ∨
    (item.nResult = sErrorBadFormat ∧ ∃ e tl, es = e :: tl ∧
      ¬ Admits .sourceWithSections done e) := by
  have htype := h.nType
  have hentries := getNextItem_entries (by rw [htype]; decide) h.trace hcall
  rw [htype] at hentries
  rcases hentries with ⟨hok, hadm, htype', hcontent, htrace, hes⟩ | ⟨hno, hes⟩ | ⟨hbad, hes⟩
  · obtain ⟨tl, rfl, htl⟩ := (hes es).mp hleft
    refine Or.inl ⟨_, tl, rfl, ?_, hadm, htrace, htype', hcontent.trans h.content, ?_⟩
    · obtain ⟨nResult, name, value⟩ := item
      simp only at hok
      rw [hok]
    · intro s' hs'
      rw [Yacc.Left, hs', hcontent]
      exact htl
  · exact Or.inr (Or.inl ⟨(hes es).mp hleft, hno⟩)
  · exact Or.inr (Or.inr ⟨hbad, hes es hleft⟩)

theorem yaccLoop_success {k : Nat} {t : Yacc} (h : YaccInv malloc c pBuffer done s)
    (hleft : s.Left es) (hclean : ∀ e ∈ es, e.Clean)
    (hloop : loopM (yaccPass n malloc) k s = some t) (hok : t.nError = sSuccess) :
    ∃ s', YaccInv malloc c pBuffer (done ++ es) s' ∧ t.conf = s'.conf := by
  induction k generalizing s done es with
  | zero => cases hloop
  | succ k ih =>
    obtain ⟨j, hj, hfirst⟩ := loopM_eq_some hloop
    obtain rfl : k = j := by omega
    cases hcall : getNextItem n s.sParserContext with
    | none =>
      simp only [yaccPass, hcall] at hfirst
      rcases hfirst with hstop | ⟨s', hnext, -⟩
      · cases hstop
      · cases hnext
    | some r =>
      obtain ⟨item, ctx⟩ := r
      rcases nextItem_left h hleft hcall with
        ⟨e, tl, rfl, rfl, hadm, htrace, htype, hcontent, htl⟩ | ⟨rfl, hno⟩ | ⟨hbad, -⟩
      · rcases yaccPass_step h hcall hadm htrace htype hcontent (hclean e (by simp)) with
          ⟨s', hpass, hctx, h'⟩ | ⟨s', hpass, hno, -⟩
        · rw [hpass] at hfirst
          rcases hfirst with hstop | ⟨s'', hnext, hrest⟩
          · cases hstop
          · cases hnext
            rw [append_cons]
            exact ih h' (htl s' hctx) (fun d hd => hclean d (by simp [hd])) hrest
        · rw [hpass] at hfirst
          rcases hfirst with hstop | ⟨s'', hnext, -⟩
          · cases hstop
            exact absurd hok hno
          · cases hnext
      · simp only [yaccPass, hcall, hno, if_true] at hfirst
        rcases hfirst with hstop | ⟨s', hnext, -⟩
        · cases hstop
          exact ⟨s, by rwa [append_nil], rfl⟩
        · cases hnext
      · simp only [yaccPass, hcall, hbad, if_neg (show sErrorBadFormat ≠ sErrorItemNotFound
          by decide), if_pos badFormat_ne_success] at hfirst
        rcases hfirst with hstop | ⟨s', hnext, -⟩
        · cases hstop
          exact absurd hok badFormat_ne_success
        · cases hnext

/-- The loop gets through entries that are accepted, if no name is in its list
already. -/
theorem yaccLoop_returns (h : YaccInv malloc c pBuffer done s) (hn : pBuffer.length < n)
    (hleft : s.Left es) (hclean : ∀ e ∈ es, e.Clean)
    (hadm : Admitted .sourceWithSections (done ++ es)) (hacc : Accepted malloc c (done ++ es))
    (hclash : ∀ pre e post, done ++ es = pre ++ e :: post → ¬ Clash c pre e) :
    ∃ k t, loopM (yaccPass n malloc) k s = some t ∧ t.nError = sSuccess := by
  induction es generalizing s done with
  | nil =>
    have hns : ¬ StrayAt s.sParserContext := by
      intro hs
      rw [StrayAt, h.nType] at hs
      exact strayHeader_entries hs [] hleft
    obtain ⟨⟨item, ctx⟩, hcall⟩ := getNextItem_returns h.trace.onTrack hns (h.content ▸ hn)
    rcases nextItem_left h hleft hcall with ⟨e, tl, hcons, -⟩ | ⟨-, hno⟩ | ⟨-, e, tl, hcons, -⟩
    · cases hcons
    · refine ⟨1, { s with sParserContext := ctx, nError := sSuccess }, loopM_stop ?_, rfl⟩
      simp only [yaccPass, hcall, hno, if_true]
    · cases hcons
  | cons d es ih =>
    have hns : ¬ StrayAt s.sParserContext := by
      intro hs
      rw [StrayAt, h.nType] at hs
      exact strayHeader_entries hs (d :: es) hleft
    obtain ⟨⟨item, ctx⟩, hcall⟩ := getNextItem_returns h.trace.onTrack hns (h.content ▸ hn)
    have hno := hclash done d es rfl
    rw [append_cons] at hadm hacc hclash
    rcases nextItem_left h hleft hcall with
      ⟨e, tl, hcons, rfl, hadm', htrace, htype, hcontent, htl⟩ | ⟨hnil, -⟩ | ⟨-, e, tl, hcons, hbad⟩
    · cases hcons
      rcases yaccPass_step h hcall hadm' htrace htype hcontent (hclean d (by simp)) with
        ⟨s', hpass, hctx, h'⟩ | ⟨s', hpass, -, hbad⟩
      · obtain ⟨k, t, hloop, hok⟩ := ih h' (htl s' hctx) (fun e he => hclean e (by simp [he])) hadm
          hacc hclash
        refine ⟨k + 1, t, ?_, hok⟩
        rw [loopM_next hpass]
        exact hloop
      · rcases hbad with hbad | hbad
        · exact absurd hacc.of_append hbad
        · exact absurd hbad hno
    · cases hnil
    · cases hcons
      exact absurd (admitted_concat.mp hadm.of_append).2 hbad

end Passes

theorem yaccPass_mono {malloc : Nat → Bool} {n m : Nat} (hnm : n ≤ m) (s : Yacc) (x : Flow Yacc)
    (h : yaccPass n malloc s = some x) : yaccPass m malloc s = some x := by
  rw [yaccPass] at h ⊢
  cases hcall : getNextItem n s.sParserContext with
  | none =>
    rw [hcall] at h
    cases h
  | some r =>
    rw [hcall] at h
    rw [getNextItem_mono hnm hcall]
    exact h

/-! ## Sections -/

theorem strcasecmp_eq_iff {a b : CString} :
    strcasecmp a b = .eq ↔ a.bytes.map lowerCase = b.bytes.map lowerCase := by
  simp [strcasecmp]

theorem findSection_name {c : ConfFile} {x : CString} {a : Nat} (h : c.findSection x = some a) :
    strcasecmp x (c.sections a).pName = .eq := by
  have hfind : ∀ t : BinTree Nat, findIn (fun a => (c.sections a).pName) t x false = some a →
      strcasecmp x (c.sections a).pName = .eq := fun t ht => (find_eq_some ht).2
  rw [ConfFile.findSection] at h
  split at h
  next b hb =>
    cases h
    exact hfind _ hb
  next =>
    split at h
    next b hb =>
      cases h
      exact hfind _ hb
    next => exact hfind _ h

theorem headerOf_mem {done : List Entry} {h : Entry} (hh : headerOf done = some h) :
    h ∈ done ∧ h.isHeader = true :=
  mem_filter.mp (mem_of_getLast? hh)

/-- Two headers with the same name, ignoring case, are the same: no other header is
between them. -/
theorem section_unique {pre r : List Entry} {h h' : Entry}
    (hdiff : SectionNamesDiffer (pre ++ r)) (hh : headerOf pre = some h)
    (hh' : headerOf (pre ++ r) = some h')
    (hname : h.name.map lowerCase = h'.name.map lowerCase) : ∀ e ∈ r, e.isHeader = false := by
  by_contra hex
  simp only [not_forall, Bool.not_eq_false] at hex
  obtain ⟨e, he, hhead⟩ := hex
  have hne : r.filter isHeader ≠ [] :=
    List.ne_nil_of_mem (mem_filter.mpr ⟨he, hhead⟩)
  have hr : h' ∈ r.filter isHeader := by
    rw [headerOf, filter_append, List.getLast?_append_of_ne_nil _ hne] at hh'
    exact mem_of_getLast? hh'
  have hnodup := hdiff.sections
  rw [filter_append, List.map_append, List.nodup_append] at hnodup
  exact hnodup.2.2 _ (List.mem_map_of_mem (mem_of_getLast? hh)) _
    (List.mem_map_of_mem hr) hname

theorem serviceOf_current (c : ConfFile) {done : List Entry} {h : Entry}
    (hh : headerOf done = some h) (hg : h.isGlobal = false) :
    serviceOf c done = c.findSection (toCString h.name) := by
  induction done using reverseRecOn with
  | nil => cases hh
  | append_singleton done e ih =>
    rw [headerOf_concat] at hh
    rw [serviceOf_concat]
    split at hh
    next he =>
      cases hh
      rw [if_pos ⟨he, hg⟩]
    next he =>
      rw [if_neg (fun hc => he hc.1)]
      exact ih hh

theorem serviceOf_ne_none {malloc : Nat → Bool} {c : ConfFile} {done : List Entry}
    (hacc : Accepted malloc c done) :
    serviceOf c done ≠ none ↔ ∃ d ∈ done, d.isHeader = true ∧ d.isGlobal = false := by
  induction done using reverseRecOn with
  | nil => simp [serviceOf]
  | append_singleton done e ih =>
    rw [serviceOf_concat]
    split
    next he =>
      refine ⟨fun _ => ⟨e, by simp, he⟩, fun _ => ?_⟩
      rcases hacc.known e (by simp) he.1 with hg | hfound
      · rw [he.2] at hg
        cases hg
      · exact hfound
    next he =>
      rw [ih hacc.of_append]
      constructor
      · intro hex
        obtain ⟨d, hd, hprop⟩ := hex
        exact ⟨d, by simp [hd], hprop⟩
      · intro hex
        obtain ⟨d, hd, hprop⟩ := hex
        rcases mem_append.mp hd with hd | hd
        · exact ⟨d, hd, hprop⟩
        · rw [List.mem_singleton.mp hd] at hprop
          exact absurd hprop he

/-! ## Where the routes are right -/

/-- The condition on the entries: memory for all of them, only sections that are there,
values longer than the prefix for the `config.` properties of services, and none so long
for those of a section `Global` that comes behind the section of a service. -/
structure Routable (malloc : Nat → Bool) (c : ConfFile) (es : List Entry) : Prop
    extends Accepted malloc c es where
  service : ∀ pre e post h, es = pre ++ e :: post → e.isHeader = false → headerOf pre = some h →
    h.isGlobal = false → e.isConfig = true → e.isLong = true
  global : ∀ pre e post h, es = pre ++ e :: post → e.isHeader = false → headerOf pre = some h →
    h.isGlobal = true → (∃ d ∈ pre, d.isHeader = true ∧ d.isGlobal = false) →
    ¬ (e.isConfig = true ∧ e.isLong = true)

theorem Routable.route_eq {malloc : Nat → Bool} {c : ConfFile} {es pre post : List Entry}
    {e : Entry} (hr : Routable malloc c es) (hsplit : es = pre ++ e :: post)
    (he : e.isHeader = false) : route c pre e = intended c pre e := by
  have hacc : Accepted malloc c pre := Accepted.of_append (hsplit ▸ hr.toAccepted)
  rw [route, intended, publicRef]
  cases hh : headerOf pre with
  | none =>
    have hnone : serviceOf c pre = none := by
      by_contra hne
      obtain ⟨d, hd, hhead, -⟩ := (serviceOf_ne_none hacc).mp hne
      rw [headerOf, List.getLast?_eq_none_iff] at hh
      exact List.ne_nil_of_mem (mem_filter.mpr ⟨hd, hhead⟩) hh
    simp [hnone]
  | some h =>
    simp only [bind_some]
    cases hg : h.isGlobal with
    | true =>
      cases hs : serviceOf c pre with
      | none => rfl
      | some a =>
        have hex := (serviceOf_ne_none hacc).mp (by simp [hs])
        have hno := hr.global pre e post h hsplit he hh hg hex
        simp only [if_true]
        rw [if_neg (fun hc => hno ⟨hc.2, hc.1⟩)]
    | false =>
      obtain ⟨hmem, hhead⟩ := headerOf_mem hh
      rw [serviceOf_current c hh hg]
      cases hf : c.findSection (toCString h.name) with
      | none => rfl
      | some a =>
        have hlong := hr.service pre e post h hsplit he hh hg
        cases hcfg : e.isConfig with
        | true => simp [hlong hcfg]
        | false => simp

/-- The name, in lower case, of the section that a list belongs to. -/
def ownerName (c : ConfFile) : ListRef → List UInt8
  | .system => systemSectionName.bytes.map lowerCase
  | .publicOf a => (c.sections a).pName.bytes.map lowerCase
  | .privateOf a => (c.sections a).pName.bytes.map lowerCase

theorem intended_name {c : ConfFile} {pre : List Entry} {e : Entry} {ref : ListRef}
    (hclean : ∀ d ∈ pre, d.Clean) (h : intended c pre e = some ref) :
    ∃ d, headerOf pre = some d ∧ d.name.map lowerCase = ownerName c ref := by
  rw [intended, Option.bind_eq_some_iff] at h
  obtain ⟨d, hd, h⟩ := h
  refine ⟨d, hd, ?_⟩
  have hbytes := toCString_bytes (hclean d (headerOf_mem hd).1).1
  split at h
  next hg =>
    cases h
    simp only [isGlobal, beq_iff_eq, strcasecmp_eq_iff, hbytes] at hg
    exact hg
  next =>
    obtain ⟨a, ha, href⟩ := map_eq_some_iff.mp h
    have hname := strcasecmp_eq_iff.mp (findSection_name ha)
    rw [hbytes] at hname
    split at href
    next =>
      cases href
      exact hname
    next =>
      cases href
      exact hname

/-- Properties of one list come from one section, and so have different names. -/
theorem Routable.no_clash {malloc : Nat → Bool} {c : ConfFile} {es pre post : List Entry}
    {e : Entry} (hr : Routable malloc c es) (hclean : ∀ d ∈ es, d.Clean)
    (hadm : Admitted .sourceWithSections es) (hsplit : es = pre ++ e :: post) :
    ¬ Clash c pre e := by
  intro hclash
  obtain ⟨he, ref, p, hroute, ⟨pre', e', post', hpre, he', hp, hroute'⟩, hname⟩ := hclash
  have hsplit' : es = pre' ++ e' :: (post' ++ e :: post) := by rw [hsplit, hpre]; simp
  rw [hr.route_eq hsplit he] at hroute
  rw [hr.route_eq hsplit' he'] at hroute'
  have hclean' : ∀ d ∈ pre, d.Clean := fun d hd => hclean d (by rw [hsplit]; simp [hd])
  obtain ⟨h, hh, hn⟩ := intended_name hclean' hroute
  obtain ⟨h', hh', hn'⟩ := intended_name (fun d hd => hclean' d (by rw [hpre]; simp [hd])) hroute'
  have hadm' : Admitted .sourceWithSections (pre ++ [e]) := by
    rw [hsplit, append_cons] at hadm
    exact hadm.of_append
  obtain ⟨hpreAdm, hadmits⟩ := admitted_concat.mp hadm'
  rw [Admitted, if_pos rfl] at hpreAdm
  rw [hpre] at hpreAdm hh
  have hnone := section_unique hpreAdm.2 hh' hh (hn'.trans hn.symm)
  -- no header is between the two, so they are in the same section
  have hcur : e' ∈ currentSection pre := by
    have hsuffix : e' :: post' <:+ pre := hpre ▸ List.suffix_append pre' (e' :: post')
    exact (suffix_currentSection hsuffix hnone).subset (by simp)
  rw [Admits, if_pos rfl, if_neg (by simp [he])] at hadmits
  apply hadmits.2 e' hcur
  have hbytes : (toCString e'.name).bytes = (toCString e.name).bytes := by
    rw [← hname, ← hp]
    rfl
  rwa [toCString_bytes (hclean e' (by rw [hsplit']; simp)).1,
    toCString_bytes (hclean e (by rw [hsplit]; simp)).1] at hbytes

/-! ## The interpretation of a file -/

/-- Every property is in the list it belongs to, with its name and value as written, and
the system properties are found by their names. -/
structure Interpreted (c₀ : ConfFile) (es : List Entry) (c : ConfFile) : Prop where
  placed : ∀ pre e post, es = pre ++ e :: post → e.isHeader = false →
    ∃ ref p, intended c₀ pre e = some ref ∧ p ∈ (c.list ref).toList ∧
      p.pName.bytes = e.name ∧ some p.pValue.bytes = e.value
  system : ∀ pre e post h, es = pre ++ e :: post → e.isHeader = false →
    headerOf pre = some h → h.isGlobal = true → ∀ x : CString, x.bytes = e.name →
    (smcPropGetSystemProperty c x).map CString.bytes = e.value

theorem Entry.property_bytes {e : Entry} (hclean : e.Clean) (he : e.isHeader = false) :
    e.property.pName.bytes = e.name ∧ some e.property.pValue.bytes = e.value := by
  obtain ⟨v, hv⟩ : ∃ v, e.value = some v := by
    simpa [isHeader, Option.isNone_eq_false_iff, Option.isSome_iff_exists] using he
  refine ⟨toCString_bytes hclean.1, ?_⟩
  rw [hv]
  simp only [Entry.property, hv, getD_some, toCString_bytes (hclean.2 v hv)]

theorem YaccInv.interpreted {malloc : Nat → Bool} {c : ConfFile} {pBuffer : List UInt8}
    {es : List Entry} {s : Yacc} (h : YaccInv malloc c pBuffer es s) (hr : Routable malloc c es)
    (hclean : ∀ d ∈ es, d.Clean) : Interpreted c es s.conf := by
  have hplaced : ∀ pre e post, es = pre ++ e :: post → e.isHeader = false →
      ∃ ref, intended c pre e = some ref ∧ e.property ∈ (s.conf.list ref).toList := by
    intro pre e post hsplit he
    have hne : pre ≠ [] := by
      intro hnil
      have hhead := h.admitted
      rw [Admitted, if_pos rfl, hsplit, hnil] at hhead
      have hfirst := hhead.1 e rfl
      rw [he] at hfirst
      cases hfirst
    have hadm : Admitted .sourceWithSections pre := (hsplit ▸ h.admitted).of_append
    have hacc : Accepted malloc c pre := Accepted.of_append (hsplit ▸ h.accepted)
    obtain ⟨ref, href⟩ := ne_none_iff_exists'.mp (route_ne_none hacc hadm hne e)
    refine ⟨ref, (hr.route_eq hsplit he).symm.trans href, ?_⟩
    exact (h.lists ref _).mpr ⟨pre, e, post, hsplit, he, rfl, href⟩
  refine ⟨?_, ?_⟩
  · intro pre e post hsplit he
    obtain ⟨ref, href, hmem⟩ := hplaced pre e post hsplit he
    exact ⟨ref, e.property, href, hmem, property_bytes (hclean e (by rw [hsplit]; simp)) he⟩
  · intro pre e post d hsplit he hd hg x hx
    obtain ⟨ref, href, hmem⟩ := hplaced pre e post hsplit he
    rw [intended, hd, bind_some, if_pos hg] at href
    cases href
    obtain ⟨hname, hvalue⟩ := property_bytes (hclean e (by rw [hsplit]; simp)) he
    have hxe : x = e.property.pName := by
      rw [← strcmp_eq_iff, strcmp, hx, hname]
      simp
    have hfind : findIn Property.pName s.conf.sSystemSectionPropertyList x true =
        some e.property := by
      apply find_of_mem (h.ordered .system) _ _ hmem
      · exact strcmp_eq_iff.mpr hxe
      · intro q hq
        rw [hxe]
        exact hq
      · intro q hq
        rw [hxe]
        change strcmp e.property.pName q.pName = .gt
        rw [← strcmp_swap, hq]
        rfl
    rw [smcPropGetSystemProperty, hfind, ← hvalue]
    rfl

theorem route_private {c : ConfFile} {pre : List Entry} {e : Entry} {a : Nat}
    (h : route c pre e = some (.privateOf a)) : e.isLong = true ∧ e.isConfig = true := by
  have hpub : publicRef c pre ≠ some (.privateOf a) := by
    rw [publicRef]
    cases headerOf pre with
    | none => simp
    | some d =>
      simp only [bind_some]
      split
      · simp
      · cases c.findSection (toCString d.name) <;> simp
  rw [route] at h
  split at h
  next => exact absurd h hpub
  next =>
    split at h
    next hcond => exact hcond
    next => exact absurd h hpub

theorem route_system {c : ConfFile} {pre : List Entry} {e : Entry}
    (h : route c pre e = some .system) (hlong : e.isLong = true) (hconfig : e.isConfig = true) :
    serviceOf c pre = none ∧ ∃ d, headerOf pre = some d ∧ d.isGlobal = true := by
  rw [route] at h
  split at h
  next hnone =>
    rw [publicRef, Option.bind_eq_some_iff] at h
    obtain ⟨d, hd, h⟩ := h
    refine ⟨hnone, d, hd, ?_⟩
    by_contra hg
    rw [if_neg hg] at h
    cases hf : c.findSection (toCString d.name) <;> simp [hf] at h
  next =>
    rw [if_pos ⟨hlong, hconfig⟩] at h
    cases h

theorem Entry.eq_of_property {e e' : Entry} {p : Property} (hclean : e'.Clean)
    (he' : e'.isHeader = false) (hp : e'.property = p) (hname : p.pName.bytes = e.name)
    (hvalue : some p.pValue.bytes = e.value) : e' = e := by
  obtain ⟨hn, hv⟩ := property_bytes hclean he'
  rw [hp] at hn hv
  obtain ⟨name, value⟩ := e
  obtain ⟨name', value'⟩ := e'
  simp only at hn hv hname hvalue
  rw [Entry.mk.injEq, ← hn, ← hv]
  exact ⟨hname, hvalue⟩

theorem YaccInv.routable {malloc : Nat → Bool} {c : ConfFile} {pBuffer : List UInt8}
    {es : List Entry} {s : Yacc} (h : YaccInv malloc c pBuffer es s)
    (hclean : ∀ d ∈ es, d.Clean) (hint : Interpreted c es s.conf) : Routable malloc c es := by
  refine ⟨h.accepted, ?_, ?_⟩
  · intro pre e post d hsplit he hd hg hconfig
    obtain ⟨ref, p, href, hmem, hname, hvalue⟩ := hint.placed pre e post hsplit he
    rw [intended, hd, bind_some, if_neg (by simp [hg])] at href
    obtain ⟨a, -, href⟩ := map_eq_some_iff.mp href
    rw [if_pos hconfig] at href
    subst href
    obtain ⟨pre', e', post', hsplit', he', hp, hroute⟩ := (h.lists _ _).mp hmem
    obtain rfl := eq_of_property (hclean e' (by rw [hsplit']; simp)) he' hp hname hvalue
    exact (route_private hroute).1
  · intro pre e post d hsplit he hd hg hex hcond
    obtain ⟨ref, p, href, hmem, hname, hvalue⟩ := hint.placed pre e post hsplit he
    rw [intended, hd, bind_some, if_pos hg] at href
    cases href
    obtain ⟨pre', e', post', hsplit', he', hp, hroute⟩ := (h.lists _ _).mp hmem
    obtain rfl := eq_of_property (hclean e' (by rw [hsplit']; simp)) he' hp hname hvalue
    obtain ⟨hnone, d', hd', hg'⟩ := route_system hroute hcond.2 hcond.1
    have hacc' : Accepted malloc c pre' := Accepted.of_append (hsplit' ▸ h.accepted)
    -- a section of a service is before the one place, and none before the other
    apply (serviceOf_ne_none hacc').mpr _ hnone
    have hbefore : pre <+: es := hsplit ▸ List.prefix_append _ _
    have hbefore' : pre' <+: es := hsplit' ▸ List.prefix_append _ _
    obtain ⟨x, hx, hservice⟩ := hex
    rcases List.prefix_or_prefix_of_prefix hbefore hbefore' with hle | ⟨r, hr⟩
    · exact ⟨x, hle.subset hx, hservice⟩
    · have hadm : Admitted .sourceWithSections pre := (hsplit ▸ h.admitted).of_append
      rw [Admitted, if_pos rfl, ← hr] at hadm
      have hlower : d'.name.map lowerCase = d.name.map lowerCase := by
        have hname' := strcasecmp_eq_iff.mp (beq_iff_eq.mp hg)
        have hname'' := strcasecmp_eq_iff.mp (beq_iff_eq.mp hg')
        have hdc := (hclean d (hbefore.subset (headerOf_mem hd).1)).1
        have hdc' := (hclean d' (hbefore'.subset (headerOf_mem hd').1)).1
        rw [toCString_bytes hdc] at hname'
        rw [toCString_bytes hdc'] at hname''
        exact hname''.trans hname'.symm
      have hunique := section_unique hadm.2 hd' (hr ▸ hd) hlower
      rw [← hr, mem_append] at hx
      rcases hx with hx | hx
      · exact ⟨x, hx, hservice⟩
      · have hno := hunique x hx
        rw [hservice.1] at hno
        cases hno

theorem YaccInv.init (malloc : Nat → Bool) {c : ConfFile} (hempty : ∀ ref, c.list ref = .leaf)
    (pBuffer : List UInt8) : YaccInv malloc c pBuffer []
      { sParserContext := .init .sourceWithSections pBuffer, conf := c } := by
  refine ⟨Trace.init _ _, rfl, rfl, admitted_nil _, ⟨by simp [mallocs], by simp⟩,
    ⟨fun _ => rfl, rfl, rfl, rfl⟩, rfl, rfl, rfl, ?_, ?_⟩
  · intro ref
    simp only [hempty]
    exact trivial
  · intro ref p
    simp [hempty, BinTree.toList, AddedTo]

/-- A configuration with one section, `a`. -/
def oneService : ConfFile where
  sDriverSectionList := .leaf
  sPreinstalledSectionList := .leaf
  sSectionList := .node .leaf 0 .leaf
  sections _ := { pName := letter 0x61 zero_notMem_a }

theorem oneService_empty (ref : ListRef) : oneService.list ref = .leaf := by
  cases ref <;> rfl

theorem headerLine {name : List UInt8} (h : IsSectionName name) :
    LineIs .sourceWithSections (charOpenBracket :: (name ++ [charCloseBracket]))
      (some ⟨name, none⟩) :=
  .header rfl h (by simp)

theorem propertyLine {name value : List UInt8} (hname : IsPropertyName name) (htext : IsText value)
    (htrim : Trimmed value) :
    LineIs .sourceWithSections (name ++ charColon :: value) (some ⟨name, some value⟩) := by
  have hline := @LineIs.property .sourceWithSections name [] [] value [] hname (by simp) (by simp)
    htext htrim (by simp)
  rwa [append_nil] at hline

/-- The entries `[a]` and `b:c`. -/
def sectionAndPropertyEntries : List Entry := [⟨[0x61], none⟩, ⟨[0x62], some [0x63]⟩]

theorem sectionAndProperty_entries :
    Entries .sourceWithSections (skipBom true sectionAndProperty) sectionAndPropertyEntries := by
  refine ⟨[some ⟨[0x61], none⟩, some ⟨[0x62], some [0x63]⟩], .cons ?_ (.cons ?_ .nil), rfl⟩
  · exact @headerLine [0x61] (isSectionName_of_all rfl)
  · exact @propertyLine [0x62] [0x63] ⟨0x62, [], rfl, Or.inr (Or.inl (by decide)), by simp⟩
      ⟨[Char.ofNat 0x63], by decide, rfl⟩ (trimmed_of_ends rfl rfl rfl rfl)

def configB : List UInt8 := configPropertyName ++ [0x62]

/-- The lines `[a]`, `[Global]` and `config.b:88888888`. -/
def globalLast : List UInt8 :=
  [0x5B, 0x61, 0x5D, 0x0A] ++ [0x5B] ++ systemSectionName.bytes ++ [0x5D, 0x0A] ++ configB ++
    [0x3A] ++ replicate 8 0x38

def globalLastEntries : List Entry :=
  [⟨[0x61], none⟩, ⟨systemSectionName.bytes, none⟩, ⟨configB, some (replicate 8 0x38)⟩]

theorem globalLast_entries :
    Entries .sourceWithSections (skipBom true globalLast) globalLastEntries := by
  refine ⟨globalLastEntries.map some, .cons ?_ (.cons ?_ (.cons ?_ .nil)), rfl⟩
  · exact @headerLine [0x61] (isSectionName_of_all rfl)
  · exact @headerLine systemSectionName.bytes (isSectionName_of_all rfl)
  · refine @propertyLine configB (replicate 8 0x38) ⟨0x63, configB.tail, rfl, ?_, ?_⟩
      ⟨replicate 8 (Char.ofNat 0x38), by decide, by decide⟩ (trimmed_of_ends rfl rfl rfl rfl)
    · exact Or.inr (Or.inl (by decide))
    · exact isNameChar_of_all rfl

/-- The lines `[a]` and `config.b:c`. -/
def shortValue : List UInt8 := [0x5B, 0x61, 0x5D, 0x0A] ++ configB ++ [0x3A, 0x63]

end Omap4Hal.Security

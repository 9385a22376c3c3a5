import Omap4Hal.Tiler.MemMgr

/- The reference count of the TILER allocator. Every buffer on record holds one
   reference, and a call in progress may hold more: `Balanced d s` says that `d`
   references are held beyond the records and that the device is open exactly
   when there is one. Each operation on the count or on the list moves `d` by
   one (`incRef_balanced`, `decRef_balanced`, `bufCacheDel_balanced`,
   `createBuffer_balanced`), so a call keeps the invariant exactly when its moves
   cancel. They do not on two branches: the pointer of a buffer whose record
   could not be cached is returned as if it had been, and a stride query whose
   `TILIOC_QBUF` fails returns with its reference. A third branch does not
   return at all: releasing or querying before the list was initialised. -/
namespace Omap4Hal.Tiler
open Lib

/-- `d` references are held beyond those of the records, and the device is open
exactly when any is. -/
def Balanced (d : Nat) (s : MemMgr) : Prop :=
  s.records.length + d = s.refCnt ∧ (0 ≤ s.td ↔ 0 < s.refCnt)

/-- The count is the number of records, and the device is open iff it is positive. -/
def RefInv (s : MemMgr) : Prop :=
  s.refCnt = s.records.length ∧ (0 ≤ s.td ↔ 0 < s.refCnt)

/-- What holds whatever the world answers: every record has an id, and the list
is initialised before the first reference. -/
structure Sound (s : MemMgr) : Prop where
  ids : ∀ ad ∈ s.records, ad.tilerId ≠ 0
  ready : s.refCnt ≠ 0 → s.bufs ≠ none

variable {s : MemMgr} {d : Nat}

theorem balanced_zero : Balanced 0 s ↔ RefInv s := by
  unfold Balanced RefInv
  constructor
  · intro hb
    obtain ⟨h, ht⟩ := hb
    exact ⟨by omega, ht⟩
  · intro hb
    obtain ⟨h, ht⟩ := hb
    exact ⟨by omega, ht⟩

theorem Balanced.unique {d' : Nat} (h : Balanced d s) (h' : Balanced d' s) :
    d = d' := by
  have := h.1; have := h'.1; omega

/-! ## One lemma for each operation on the count or the list -/

@[simp] theorem records_init (s : MemMgr) : (init s).records = s.records := rfl
@[simp] theorem refCnt_init (s : MemMgr) : (init s).refCnt = s.refCnt := rfl
@[simp] theorem td_init (s : MemMgr) : (init s).td = s.td := rfl
@[simp] theorem bufs_init (s : MemMgr) : (init s).bufs = some s.records := rfl

theorem balanced_init : Balanced d (init s) ↔ Balanced d s := Iff.rfl

theorem Sound.init (h : Sound s) : Sound (init s) :=
  ⟨h.ids, fun _ => by simp⟩

theorem bufs_of_ready (h : s.bufs ≠ none) : s.bufs = some s.records := by
  cases hb : s.bufs with
  | none => exact absurd hb h
  | some l => simp [MemMgr.records, hb]

theorem incRef_balanced (h : Balanced d s) (o : Int) :
    ((incRef s o).1 = 0 ∧ Balanced (d + 1) (incRef s o).2) ∨
    ((incRef s o).1 ≠ 0 ∧ s.refCnt = 0 ∧ Balanced d (incRef s o).2) := by
  obtain ⟨hl, ht⟩ := h
  unfold incRef
  by_cases h0 : s.refCnt = 0
  · by_cases ho : 0 ≤ o
    · left
      simp only [h0, ho, if_true]
      refine ⟨rfl, ?_, by simpa using ho⟩
      show s.records.length + (d + 1) = 0 + 1
      omega
    · right
      simp only [h0, ho, if_true, if_false]
      refine ⟨by decide, trivial, ?_, by simpa using ho⟩
      show s.records.length + d = 0 + 1 - 1
      omega
  · left
    simp only [h0, if_false]
    refine ⟨rfl, ?_, ?_⟩
    · show s.records.length + (d + 1) = s.refCnt + 1
      omega
    · have : 0 < s.refCnt := by omega
      simp [ht.mpr this]

theorem incRef_sound (h : Sound s) (o : Int) : Sound (incRef s o).2 := by
  unfold incRef
  by_cases h0 : s.refCnt = 0
  · by_cases ho : 0 ≤ o
    · simp only [h0, ho, if_true]; exact ⟨h.ids, fun _ => by simp⟩
    · simp only [h0, ho, if_true, if_false]; exact ⟨h.ids, fun _ => by simp⟩
  · simp only [h0, if_false]
    exact ⟨h.ids, fun _ => h.ready h0⟩

theorem decRef_balanced (h : Balanced (d + 1) s) :
    (decRef s).1 = 0 ∧ Balanced d (decRef s).2 := by
  obtain ⟨hl, ht⟩ := h
  have h0 : s.refCnt ≠ 0 := by omega
  unfold decRef
  by_cases h1 : s.refCnt - 1 = 0
  · simp only [h0, h1, if_false, if_true]
    refine ⟨rfl, ?_, by simp⟩
    show s.records.length + d = 0
    omega
  · simp only [h0, h1, if_false]
    refine ⟨rfl, ?_, ?_⟩
    · show s.records.length + d = s.refCnt - 1
      omega
    · show 0 ≤ s.td ↔ 0 < s.refCnt - 1
      have : 0 < s.refCnt := by omega
      simp only [ht.mpr this, true_iff]
      omega

theorem decRef_of_zero (h : s.refCnt = 0) : (decRef s).2 = s := by
  simp [decRef, h]

theorem decRef_sound (h : Sound s) : Sound (decRef s).2 := by
  unfold decRef
  by_cases h0 : s.refCnt = 0
  · simpa only [h0, if_true] using h
  · by_cases h1 : s.refCnt - 1 = 0
    · simp only [h0, h1, if_false, if_true]
      exact ⟨h.ids, fun hne => absurd rfl hne⟩
    · simp only [h0, h1, if_false]
      exact ⟨h.ids, fun _ => h.ready h0⟩

theorem bufCacheDel_balanced (hs : Sound s) (h : Balanced d s) (hb : s.bufs ≠ none) (p : UInt32)
    (ty : BufType) :
    ∃ r, bufCacheDel s p ty = some r ∧
      ((r.1 ≠ 0 ∧ Balanced (d + 1) r.2) ∨ (r.1 = 0 ∧ r.2 = s)) := by
  have hbs := bufs_of_ready hb
  unfold bufCacheDel
  rw [hbs]
  cases hf : s.records.find? (·.named p ty) with
  | none => exact ⟨_, rfl, Or.inr (by simp [hf])⟩
  | some ad =>
    refine ⟨_, rfl, Or.inl ?_⟩
    simp only [hf]
    have hmem := List.mem_of_find?_eq_some hf
    refine ⟨hs.ids ad hmem, ?_, h.2⟩
    have hnamed : ad.named p ty = true := by
      have := List.find?_some hf
      exact this
    have hlen := List.length_eraseP_of_mem (p := (·.named p ty)) hmem hnamed
    have hpos := List.length_pos_of_mem hmem
    have := h.1
    simp only [MemMgr.records, Option.getD_some] at hlen ⊢
    simp only [MemMgr.records] at this hpos
    omega

theorem bufCacheDel_sound {p : UInt32} {ty : BufType} {r : UInt32 × MemMgr} (h : Sound s)
    (hd : bufCacheDel s p ty = some r) : Sound r.2 := by
  unfold bufCacheDel at hd
  cases hb : s.bufs with
  | none => simp [hb] at hd
  | some l =>
    simp only [hb, Option.map_some, Option.some.injEq] at hd
    subst hd
    split
    · refine ⟨?_, fun _ => by simp⟩
      intro x hx
      exact h.ids x (by simpa [MemMgr.records, hb] using List.mem_of_mem_eraseP hx)
    · exact h

/-! ## Creating calls -/

/-- Everything before `buf_cache_add` succeeds: each block passes, the buffer is
registered under an id, and it is mapped somewhere. -/
def reachesCache (st : Stage) (blks : List TilerBlockInfo) (e : CreateEnv) : Prop :=
  st.PassesAll e.grant blks ∧ ∃ addr, e.MapsAt addr

/-- The recoverable portion gives its reference to the record it makes, or gives
it back, unless the record cannot be made. -/
theorem createBuffer_balanced (h : Balanced (d + 1) s) (hb : s.bufs ≠ none) (st : Stage)
    (ty : BufType) (blks : List TilerBlockInfo) (e : CreateEnv) :
    ∃ r, createBuffer st ty s blks e = some r ∧
      ((Balanced d r.st ∧ (reachesCache st blks e → e.callocOk = true)) ∨
       (Balanced (d + 1) r.st ∧ reachesCache st blks e ∧ e.callocOk = false)) := by
  cases hf : (blockLoop st e.grant 0 blks).failed with
  | some ix =>
    refine ⟨_, createBuffer_failed hf, Or.inl ⟨(decRef_balanced h).2, ?_⟩⟩
    intro hr
    exact absurd hr.1 (blockLoop_failed_some hf).not_passesAll
  | none =>
    by_cases hm : ∃ addr, e.MapsAt addr
    · obtain ⟨addr, hm⟩ := hm
      cases hc : e.callocOk with
      | true =>
        refine ⟨_, createBuffer_cached hf hm hc (bufs_of_ready hb),
          Or.inl ⟨⟨?_, h.2⟩, fun _ => rfl⟩⟩
        have := h.1
        simp only [MemMgr.records, Option.getD_some, List.length_append, List.length_singleton]
        simp only [MemMgr.records] at this
        omega
      | false =>
        exact ⟨_, createBuffer_uncached hf hm hc,
          Or.inr ⟨h, ⟨blockLoop_failed_none.mp hf, addr, hm⟩, rfl⟩⟩
    · refine ⟨_, createBuffer_unmapped hf (fun addr ha => hm ⟨addr, ha⟩),
        Or.inl ⟨(decRef_balanced h).2, ?_⟩⟩
      intro hr
      exact absurd hr.2 hm

theorem createBuffer_sound {st : Stage} (h : Sound s) (hb : s.bufs ≠ none) {ty : BufType}
    {blks : List TilerBlockInfo} {e : CreateEnv} {r : CreateResult}
    (hc : createBuffer st ty s blks e = some r) : Sound r.st := by
  cases hf : (blockLoop st e.grant 0 blks).failed with
  | some ix =>
    rw [createBuffer_failed hf, Option.some.injEq] at hc
    exact hc ▸ decRef_sound h
  | none =>
    by_cases hm : ∃ addr, e.MapsAt addr
    · obtain ⟨addr, hm⟩ := hm
      cases hok : e.callocOk with
      | true =>
        rw [createBuffer_cached hf hm hok (bufs_of_ready hb), Option.some.injEq] at hc
        rw [← hc]
        refine ⟨?_, fun _ => by simp⟩
        intro x hx
        rcases List.mem_append.mp hx with hx | hx
        · exact h.ids x hx
        · rw [List.mem_singleton.mp hx]
          exact hm.2.1
      | false =>
        rw [createBuffer_uncached hf hm hok, Option.some.injEq] at hc
        exact hc ▸ h
    · rw [createBuffer_unmapped hf (fun addr ha => hm ⟨addr, ha⟩), Option.some.injEq] at hc
      exact hc ▸ decRef_sound h

/-! ## The calls -/

/-- The device is open already, or opens now. -/
def opens (s : MemMgr) (openRet : Int) : Prop := s.refCnt = 0 → 0 ≤ openRet

theorem incRef_eq_zero {o : Int} : (incRef s o).1 = 0 ↔ opens s o := by
  unfold incRef opens
  by_cases h0 : s.refCnt = 0
  · by_cases ho : 0 ≤ o
    · simp [h0, ho, errNone]
    · simp [h0, ho, errGeneric]
  · simp [h0, errNone]

theorem incRef_ready {o : Int} (h : Sound s) (ho : opens s o) :
    (incRef s o).2.bufs ≠ none := by
  apply (incRef_sound h o).ready
  unfold incRef
  by_cases h0 : s.refCnt = 0
  · simp [h0, ho h0]
  · simp [h0]

theorem records_incRef (s : MemMgr) (o : Int) : (incRef s o).2.records = s.records := by
  unfold incRef
  split
  · split <;> rfl
  · rfl

theorem records_decRef (s : MemMgr) : (decRef s).2.records = s.records := by
  simp only [decRef]
  split
  · rfl
  · split <;> rfl

theorem records_virtToPhys (s : MemMgr) (e : VirtEnv) :
    (tilerMemVirtToPhys s e).2.records = s.records := by
  simp only [tilerMemVirtToPhys]
  split
  · rw [records_decRef, records_incRef]
  · exact records_incRef _ _

theorem virtToPhys_balanced (h : Balanced d s) (e : VirtEnv) :
    Balanced d (tilerMemVirtToPhys s e).2 := by
  unfold tilerMemVirtToPhys
  rcases incRef_balanced h e.openRet with ⟨h0, hb⟩ | ⟨h0, _, hb⟩
  · simp only [h0, if_true]
    exact (decRef_balanced hb).2
  · simp only [h0, if_false]
    exact hb

theorem virtToPhys_sound (h : Sound s) (e : VirtEnv) :
    Sound (tilerMemVirtToPhys s e).2 := by
  simp only [tilerMemVirtToPhys]
  split
  · exact decRef_sound (incRef_sound h _)
  · exact incRef_sound h _

/-- The condition under which a call keeps the invariant: the record of a buffer
that got as far as the cache can be allocated, a stride query on a tracked
pointer gets its `TILIOC_QBUF` answered, and nothing is released or queried
before the list is initialised. -/
def CallOk (s : MemMgr) : Call → Prop
  | .alloc a e => checkBlocks a.work a.numBlocks (a.numBlocks - 1) = 0 → opens s e.openRet →
      reachesCache allocStage a.work e → e.callocOk = true
  | .map a e => checkBlocks a.work a.numBlocks a.numBlocks = 0 → opens s e.openRet →
      mapSupported a = true → reachesCache mapStage a.work e → e.callocOk = true
  | .free _ _ | .unMap _ _ => s.bufs ≠ none
  | .getStride p e => s.bufs ≠ none ∧ ((∃ ad ∈ s.records, ad.covers p = true) → e.qbufRet = 0)
  | .is1DBlock _ | .is2DBlock _ | .isMapped _ | .virtToPhys _ => True

section Calls
variable {s : MemMgr}

theorem createBuffer_refInv {st : Stage} {o : Int} (hs : Sound s) (h : RefInv s) (ho : opens s o)
    (ty : BufType) (blks : List TilerBlockInfo) (e : CreateEnv) (a : BlockArray) :
    ((∃ s', ((createBuffer st ty (incRef s o).2 blks e).map (done a)).map (·.st) = some s' ∧
      RefInv s') ↔ (reachesCache st blks e → e.callocOk = true)) := by
  have hb : Balanced 1 (incRef s o).2 := by
    rcases incRef_balanced (balanced_zero.mpr h) o with ⟨_, hb⟩ | ⟨h0, _⟩
    · exact hb
    · exact absurd (incRef_eq_zero.mpr ho) h0
  obtain ⟨r, hr, hcase⟩ := createBuffer_balanced hb (incRef_ready hs ho) st ty blks e
  have hst : ((createBuffer st ty (incRef s o).2 blks e).map (done a)).map (·.st) =
      some (init r.st) := by
    rw [hr]; rfl
  rw [hst]
  rcases hcase with ⟨hbal, himp⟩ | ⟨hbal, hreach, hno⟩
  · exact iff_of_true ⟨_, rfl, balanced_zero.mp (balanced_init.mpr hbal)⟩ himp
  · refine iff_of_false ?_ (fun himp => by simp [himp hreach] at hno)
    intro hex
    obtain ⟨s', hs', hinv⟩ := hex
    cases hs'
    exact absurd ((balanced_init.mpr hbal).unique (balanced_zero.mpr hinv)) (by decide)

variable {s' : MemMgr}

theorem refused_refInv {d : Nat} (h : Balanced d s') (hd : d = 0) (a : BlockArray)
    (blks : List TilerBlockInfo) :
    ∃ t, (some (done a ⟨s', blks, 0, []⟩)).map (·.st) = some t ∧ RefInv t :=
  ⟨_, rfl, balanced_zero.mp (balanced_init.mpr (hd ▸ h))⟩

theorem alloc_refInv (hs : Sound s) (h : RefInv s) (a : BlockArray) (e : CreateEnv) :
    (∃ s', step s (.alloc a e) = some s' ∧ RefInv s') ↔ CallOk s (.alloc a e) := by
  have h0 := balanced_zero.mpr h
  simp only [step, memMgrAlloc, CallOk]
  by_cases hc : checkBlocks a.work a.numBlocks (a.numBlocks - 1) = 0
  swap
  · simp only [ne_eq, hc, not_false_iff, if_true, false_imp_iff, iff_true]
    exact refused_refInv h0 rfl a a.work
  by_cases ho : opens s e.openRet
  · simp only [ne_eq, hc, not_true, if_false, incRef_eq_zero.mpr ho, ho, true_imp_iff]
    exact createBuffer_refInv hs h ho _ _ e a
  · have hne := mt incRef_eq_zero.mp ho
    simp only [ne_eq, hc, not_true, if_false, hne, not_false_iff, if_true, ho, false_imp_iff,
      imp_true_iff, iff_true]
    rcases incRef_balanced h0 e.openRet with ⟨he, _⟩ | ⟨_, _, hb⟩
    · exact absurd he hne
    · exact refused_refInv hb rfl a a.work

theorem map_refInv (hs : Sound s) (h : RefInv s) (a : BlockArray) (e : CreateEnv) :
    (∃ s', step s (.map a e) = some s' ∧ RefInv s') ↔ CallOk s (.map a e) := by
  have h0 := balanced_zero.mpr h
  simp only [step, memMgrMap, CallOk]
  by_cases hc : checkBlocks a.work a.numBlocks a.numBlocks = 0
  swap
  · simp only [ne_eq, hc, not_false_iff, if_true, false_imp_iff, iff_true]
    exact refused_refInv h0 rfl a a.work
  by_cases ho : opens s e.openRet
  · by_cases hm : mapSupported a = true
    · simp only [ne_eq, hc, not_true, if_false, incRef_eq_zero.mpr ho, ho, hm, true_imp_iff,
        Bool.not_true, Bool.false_eq_true]
      exact createBuffer_refInv hs h ho _ _ e a
    · -- `goto FAIL`: the reference just taken is given back
      have hb : Balanced 1 (incRef s e.openRet).2 := by
        rcases incRef_balanced h0 e.openRet with ⟨_, hb⟩ | ⟨hne, _⟩
        · exact hb
        · exact absurd (incRef_eq_zero.mpr ho) hne
      have hm' : mapSupported a = false := by simpa using hm
      simp only [ne_eq, hc, not_true, if_false, incRef_eq_zero.mpr ho, hm', Bool.not_false,
        if_true, Bool.false_eq_true, false_imp_iff, imp_true_iff, iff_true]
      exact ⟨_, rfl, balanced_zero.mp (balanced_init.mpr (decRef_balanced hb).2)⟩
  · have hne := mt incRef_eq_zero.mp ho
    simp only [ne_eq, hc, not_true, if_false, hne, not_false_iff, if_true, ho, false_imp_iff,
      imp_true_iff, iff_true]
    rcases incRef_balanced h0 e.openRet with ⟨he, _⟩ | ⟨_, _, hb⟩
    · exact absurd he hne
    · exact refused_refInv hb rfl a a.work

theorem release_refInv (hs : Sound s) (h : RefInv s) (ty : BufType) (p : UInt32) (e : ReleaseEnv) :
    (∃ s', (releaseBuffer ty s p e).map (·.2) = some s' ∧ RefInv s') ↔ s.bufs ≠ none := by
  constructor
  · intro hex hnone
    obtain ⟨s', hs', _⟩ := hex
    simp [releaseBuffer, bufCacheDel, hnone] at hs'
  · intro hb
    obtain ⟨r, hr, hcase⟩ := bufCacheDel_balanced hs (balanced_zero.mpr h) hb p ty
    simp only [releaseBuffer, hr, Option.map_some]
    refine ⟨_, rfl, ?_⟩
    rcases hcase with ⟨hne, hbal⟩ | ⟨h0, hst⟩
    · simp only [ne_eq, hne, not_false_iff, if_true]
      exact balanced_zero.mp (balanced_init.mpr (decRef_balanced hbal).2)
    · simp only [ne_eq, h0, not_true, if_false, hst]
      exact balanced_zero.mp (balanced_init.mpr (balanced_zero.mpr h))

theorem bufCacheQuery_eq_some (hs : Sound s) {p : UInt32} {q : UInt32 × UInt32}
    (hq : bufCacheQuery s p = some q) :
    q.1 ≠ 0 ↔ ∃ ad ∈ s.records, ad.covers p = true := by
  unfold bufCacheQuery at hq
  cases hb : s.bufs with
  | none => simp [hb] at hq
  | some l =>
    have hl : s.records = l := by simp [MemMgr.records, hb]
    simp only [hb, Option.map_some, Option.some.injEq] at hq
    rw [hl]
    cases hf : l.find? (·.covers p) with
    | none =>
      rw [hf] at hq
      subst hq
      simp only [ne_eq, not_true, false_iff]
      intro hex
      obtain ⟨ad, had, hc⟩ := hex
      exact absurd hc (List.find?_eq_none.mp hf ad had)
    | some ad =>
      rw [hf] at hq
      subst hq
      have hmem := List.mem_of_find?_eq_some hf
      refine iff_of_true (hs.ids ad (hl ▸ hmem)) ⟨ad, hmem, ?_⟩
      have := List.find?_some hf
      exact this

theorem getStride_refInv (hs : Sound s) (h : RefInv s) (p : UInt32) (e : StrideEnv) :
    (∃ s', step s (.getStride p e) = some s' ∧ RefInv s') ↔ CallOk s (.getStride p e) := by
  simp only [step, memMgrGetStride, CallOk]
  by_cases hb : s.bufs = none
  · simp [bufCacheQuery, hb]
  obtain ⟨q, hq⟩ : ∃ q, bufCacheQuery s p = some q := by
    rw [bufCacheQuery, bufs_of_ready hb]
    exact ⟨_, rfl⟩
  have h0 := balanced_zero.mpr h
  simp only [hq, Option.map_some, ne_eq, hb, not_false_iff, true_and,
    ← bufCacheQuery_eq_some hs hq, Option.some.injEq, exists_eq_left']
  by_cases hid : q.1 = 0
  · -- not tracked: the address is looked up, and the reference dropped if it was taken
    simp only [hid, not_true, if_false, false_imp_iff, iff_true]
    have hfin : RefInv (decRef (tilerMemVirtToPhys (incRef s e.openRet).2 e.virt).2).2 := by
      rcases incRef_balanced h0 e.openRet with ⟨_, hb1⟩ | ⟨_, hz, hb0⟩
      · exact balanced_zero.mp (decRef_balanced (virtToPhys_balanced hb1 e.virt)).2
      · have hv := virtToPhys_balanced hb0 e.virt
        have hlen : (tilerMemVirtToPhys (incRef s e.openRet).2 e.virt).2.records.length = 0 := by
          rw [records_virtToPhys, records_incRef, ← h.1, hz]
        rw [decRef_of_zero (by have := hv.1; omega)]
        exact balanced_zero.mp hv
    split <;> exact hfin
  · -- tracked, so a reference is held and another one is taken
    have hb1 : Balanced 1 (incRef s e.openRet).2 := by
      rcases incRef_balanced h0 e.openRet with ⟨_, hb1⟩ | ⟨_, hz, _⟩
      · exact hb1
      · obtain ⟨ad, had, _⟩ := (bufCacheQuery_eq_some hs hq).mp hid
        have := List.length_pos_of_mem had
        have := h.1
        omega
    simp only [hid, not_false_iff, if_true, true_imp_iff]
    by_cases hret : e.qbufRet = 0
    · simp only [hret, not_true, if_false, iff_true]
      exact balanced_zero.mp (decRef_balanced hb1).2
    · simp only [hret, not_false_iff, if_true, iff_false]
      intro hinv
      exact absurd (hb1.unique (balanced_zero.mpr hinv)) (by decide)

/-- From a state that satisfies the invariant, a call returns to one exactly
when it meets `CallOk`. -/
theorem step_refInv (hs : Sound s) (h : RefInv s) (c : Call) :
    (∃ s', step s c = some s' ∧ RefInv s') ↔ CallOk s c := by
  have hv : ∀ e, RefInv (tilerMemVirtToPhys s e).2 :=
    fun e => balanced_zero.mp (virtToPhys_balanced (balanced_zero.mpr h) e)
  cases c with
  | alloc a e => exact alloc_refInv hs h a e
  | map a e => exact map_refInv hs h a e
  | free p e => exact release_refInv hs h .alloced p e
  | unMap p e => exact release_refInv hs h .mapped p e
  | getStride p e => exact getStride_refInv hs h p e
  | is1DBlock e => exact iff_of_true ⟨_, rfl, hv e⟩ trivial
  | is2DBlock e => exact iff_of_true ⟨_, rfl, hv e⟩ trivial
  | isMapped e => exact iff_of_true ⟨_, rfl, hv e⟩ trivial
  | virtToPhys e => exact iff_of_true ⟨_, rfl, hv e⟩ trivial

theorem create_sound {st : Stage} {o : Int} (hs : Sound s) (ho : opens s o) {ty : BufType}
    {blks : List TilerBlockInfo} {e : CreateEnv} {a : BlockArray}
    (h : ((createBuffer st ty (incRef s o).2 blks e).map (done a)).map (·.st) = some s') :
    Sound s' := by
  cases hr : createBuffer st ty (incRef s o).2 blks e with
  | none => simp [hr] at h
  | some r =>
    simp only [hr, Option.map_some, Option.some.injEq] at h
    exact h ▸ (createBuffer_sound (incRef_sound hs o) (incRef_ready hs ho) hr).init

theorem release_sound {ty : BufType} {p : UInt32} {e : ReleaseEnv} (hs : Sound s)
    (h : (releaseBuffer ty s p e).map (·.2) = some s') : Sound s' := by
  simp only [releaseBuffer, Option.map_map, Option.map_eq_some_iff, Function.comp_apply] at h
  obtain ⟨r, hr, hs'⟩ := h
  have hrs := bufCacheDel_sound hs hr
  rw [← hs']
  split
  · exact (decRef_sound hrs).init
  · exact hrs.init

theorem step_sound {s : MemMgr} {c : Call} (hs : Sound s) (h : step s c = some s') :
    Sound s' := by
  cases c with
  | alloc a e =>
    simp only [step, memMgrAlloc] at h
    split at h
    · exact Option.some.inj h ▸ hs.init
    · split at h
      · exact Option.some.inj h ▸ (incRef_sound hs _).init
      · next h0 => exact create_sound hs (incRef_eq_zero.mp (by simpa using h0)) h
  | map a e =>
    simp only [step, memMgrMap] at h
    split at h
    · exact Option.some.inj h ▸ hs.init
    · split at h
      · exact Option.some.inj h ▸ (incRef_sound hs _).init
      · split at h
        · exact Option.some.inj h ▸ (decRef_sound (incRef_sound hs _)).init
        · next h0 _ => exact create_sound hs (incRef_eq_zero.mp (by simpa using h0)) h
  | free p e => exact release_sound hs h
  | unMap p e => exact release_sound hs h
  | getStride p e =>
    simp only [step, memMgrGetStride, Option.map_map, Option.map_eq_some_iff,
      Function.comp_apply] at h
    obtain ⟨q, _, hs'⟩ := h
    have hi := incRef_sound hs e.openRet
    rw [← hs']
    split
    · split
      · exact hi
      · exact decRef_sound hi
    · split <;> exact decRef_sound (virtToPhys_sound hi _)
  | is1DBlock e => exact Option.some.inj h ▸ virtToPhys_sound hs e
  | is2DBlock e => exact Option.some.inj h ▸ virtToPhys_sound hs e
  | isMapped e => exact Option.some.inj h ▸ virtToPhys_sound hs e
  | virtToPhys e => exact Option.some.inj h ▸ virtToPhys_sound hs e

end Calls

theorem initial_sound : Sound MemMgr.initial :=
  ⟨fun _ h => absurd h (by simp [MemMgr.initial, MemMgr.records]), fun h => absurd rfl h⟩

theorem initial_refInv : RefInv MemMgr.initial := by
  refine ⟨rfl, ?_⟩
  simp [MemMgr.initial]

theorem Reachable.sound (h : Reachable s) : Sound s := by
  obtain ⟨calls, hr⟩ := h
  exact run_induct (fun _ _ _ hs hstep => step_sound hs hstep) initial_sound hr

/-- The reference invariant holds all along a run from the initial state exactly
when every call of the run meets `CallOk`. -/
theorem refInv_always_iff (calls : List Call) :
    Always step RefInv MemMgr.initial calls ↔ Guarded step CallOk MemMgr.initial calls :=
  always_iff_guarded (fun _ _ _ hs h => step_sound hs h) (fun _ c hs h => step_refInv hs h c)
    initial_sound initial_refInv

/-- A one-page buffer, and a world that answers every request of its creation. -/
def onePage : BlockArray :=
  ⟨[⟨.page, 0x1000, 0, 0, 0⟩], 1, by decide⟩

def willingEnv : CreateEnv :=
  ⟨3, fun _ => some 0x78000000, 0, ⟨[⟨.page, 0x1000, 0, 0, 0x78000000⟩], 0x5000⟩, some 0x40000000,
    true⟩

/-- The buffer is created, then the stride of its first byte is asked for while
the driver does not answer `TILIOC_QBUF`. -/
def strideLeak : List Call :=
  [.alloc onePage willingEnv, .getStride 0x40000000 ⟨3, -1, ⟨[], 0⟩, ⟨3, 0⟩⟩]

/-- The record of the buffer cannot be allocated. -/
def recordLeak : List Call := [.alloc onePage { willingEnv with callocOk := false }]

/-- The first call of the process releases something. -/
def earlyFree : List Call := [.free 0x40000000 ⟨0, ⟨[], 0⟩, 0, fun _ => 0, 0⟩]

/-- Three runs that do not keep the invariant: two end with a reference no
record accounts for, and the third does not end. -/
theorem refInv_broken :
    (∃ s, run step MemMgr.initial strideLeak = some s ∧ s.refCnt = 2 ∧ s.records.length = 1) ∧
    (∃ s, run step MemMgr.initial recordLeak = some s ∧ s.refCnt = 1 ∧ s.records.length = 0) ∧
    run step MemMgr.initial earlyFree = none ∧
    ¬ ∀ calls, ∃ s, run step MemMgr.initial calls = some s ∧ RefInv s := by
  have h₁ : run step MemMgr.initial strideLeak =
      some ⟨2, 3, some [⟨0x40000000, 0x1000, 0x5000, .alloced⟩]⟩ := by decide
  refine ⟨⟨_, h₁, rfl, rfl⟩, ⟨⟨1, 3, some []⟩, by decide, rfl, rfl⟩, by decide, ?_⟩
  intro hall
  obtain ⟨s, hs, hinv⟩ := hall strideLeak
  rw [h₁] at hs
  cases hs
  exact absurd hinv.1 (by decide)

end Omap4Hal.Tiler

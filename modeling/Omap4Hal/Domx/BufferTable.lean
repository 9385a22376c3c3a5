import Omap4Hal.Domx.Proxy

/- The buffer table of the proxy. A call does one of four things to it: nothing
   (`Frame`), a live header is stored in the first empty slot, a header that has
   been freed is stored there (`Stores`, with the header live or not), or the
   slot of a header is cleared and the header freed (`Frees`). `step_cases` says
   so once and the invariant is derived from it.

   The third case is a defect: after a failed remote call `PROXY_checkRpcError`
   sets `eError` without leaving, so `PROXY_UseBuffer` stores and counts the new
   header, and frees it on the way out. `bufferTableInv_iff` shows that it is the
   only way in which the table goes wrong. -/
namespace Omap4Hal.Domx
open Lib
open Proxy
open Option (map_eq_some_iff map_map)

/-! ## What a call can do to the table -/

/-- The table as the callbacks and searches see it is unchanged; headers may have
been written, and one may have been leaked. -/
structure Frame (s s' : Proxy) : Prop where
  hdr : ∀ i, (s'.tBufList i).pBufHeader = (s.tBufList i).pBufHeader
  remote : ∀ i, (s'.tBufList i).pBufHeaderRemote = (s.tBufList i).pBufHeaderRemote
  total : s'.nTotalBuffers = s.nTotalBuffers
  alloc : s'.nAllocatedBuffers = s.nAllocatedBuffers
  live : ∀ p, s.live p = true → s'.live p = true

/-- The new header `p` is stored in the first empty slot with the remote header
`r`; `ok` says whether it is still allocated afterwards. -/
structure Stores (s s' : Proxy) (p r : UInt32) (ok : Bool) : Prop where
  nonNull : p ≠ 0
  fresh : s.live p = false
  room : s.nTotalBuffers < maxNumProxyBuffers
  others : ∀ i, i ≠ s.emptySlot → s'.tBufList i = s.tBufList i
  hdr : (s'.tBufList s.emptySlot).pBufHeader = p
  remote : (s'.tBufList s.emptySlot).pBufHeaderRemote = r
  total : s'.nTotalBuffers = max s.nTotalBuffers (s.nAllocatedBuffers + 1)
  alloc : s'.nAllocatedBuffers = s.nAllocatedBuffers + 1
  live : ∀ q, s'.live q = if q = p then ok else s.live q

/-- The header `p`, found in slot `i`, is freed and the slot cleared. -/
structure Frees (s s' : Proxy) (p : UInt32) (i : Nat) : Prop where
  nonNull : p ≠ 0
  found : s.slotOf p = some i
  others : ∀ j, j ≠ i → s'.tBufList j = s.tBufList j
  cleared : s'.tBufList i = .zero
  total : s'.nTotalBuffers = s.nTotalBuffers
  alloc : s'.nAllocatedBuffers = s.nAllocatedBuffers - 1
  live : ∀ q, s'.live q = if q = p then false else s.live q

theorem Frame.refl (s : Proxy) : Frame s s :=
  ⟨fun _ => rfl, fun _ => rfl, rfl, rfl, fun _ h => h⟩

@[simp] theorem setSlot_self (s : Proxy) (i : Nat) (b : ProxyBufferInfo) :
    (s.setSlot i b).tBufList i = b := by
  simp only [Proxy.setSlot, Function.update_self]

theorem setSlot_ne (s : Proxy) {i j : Nat} (b : ProxyBufferInfo) (h : j ≠ i) :
    (s.setSlot i b).tBufList j = s.tBufList j := by
  simp only [Proxy.setSlot, Function.update_of_ne h]

@[simp] theorem setHeader_tBufList (s : Proxy) (p : UInt32) (h : Option BufHeader) :
    (s.setHeader p h).tBufList = s.tBufList := rfl

@[simp] theorem setSlot_live (s : Proxy) (i : Nat) (b : ProxyBufferInfo) (q : UInt32) :
    (s.setSlot i b).live q = s.live q := rfl

theorem setHeader_live (s : Proxy) (p : UInt32) (h : Option BufHeader) (q : UInt32) :
    (s.setHeader p h).live q = if q = p then h.isSome else s.live q := by
  unfold Proxy.live Proxy.setHeader
  by_cases hq : q = p
  · subst hq
    simp only [Function.update_self, if_true]
  · simp only [Function.update_of_ne hq, hq, if_false]

variable {s t s' : Proxy} {p r : UInt32} {hasPtr ok : Bool} {cfg : Config}

theorem Frame.setHeader {h : BufHeader} :
    Frame s (s.setHeader p (some h)) := by
  refine ⟨fun _ => rfl, fun _ => rfl, rfl, rfl, ?_⟩
  intro q hq
  rw [setHeader_live]
  split
  · rfl
  · exact hq

theorem malloc_eq_some {found : Option UInt32} (h : s.malloc found = some p) :
    p ≠ 0 ∧ s.live p = false := by
  simp only [malloc, Option.filter_eq_some_iff, Bool.and_eq_true, bne_iff_ne, ne_eq,
    Bool.not_eq_eq_eq_not, Bool.not_true] at h
  exact h.2

/-! ## Registering -/

theorem useChecks_eq_ok {e : UseEnv} :
    useChecks s hasPtr e = .ok p ↔ hasPtr = true ∧ s.nTotalBuffers < maxNumProxyBuffers ∧
      s.malloc e.hdrAddr = some p ∧ e.platOk = true ∧ e.strideErr = .none ∧
      (e.nStride = linuxPageSize → e.numLinesErr = .none) ∧ e.metaErr = .none := by
  constructor
  · intro h
    unfold useChecks at h
    split at h
    · cases h
    next hptr =>
    split at h
    · cases h
    next hroom =>
    split at h
    · cases h
    next q hq =>
    split at h
    · cases h
    next hplat =>
    split at h
    · cases h
    next hstride =>
    split at h
    · cases h
    next hlines =>
    split at h
    · cases h
    next hinfo =>
    cases h
    exact ⟨by simpa using hptr, not_not.mp hroom, hq, by simpa using hplat, not_not.mp hstride,
      fun hn => by_contra fun hne => hlines ⟨hn, hne⟩, not_not.mp hinfo⟩
  · rintro ⟨hptr, hroom, hp, hplat, hstride, hlines, hinfo⟩
    have hpages : ¬ (e.nStride = linuxPageSize ∧ e.numLinesErr ≠ .none) :=
      fun hn => hn.2 (hlines hn.1)
    simp [useChecks, hptr, hroom, hp, hplat, hstride, hpages, hinfo]

theorem useChecks_ok {e : UseEnv} (h : useChecks s hasPtr e = .ok p) :
    s.nTotalBuffers < maxNumProxyBuffers ∧ p ≠ 0 ∧ s.live p = false := by
  obtain ⟨-, hroom, hp, -⟩ := useChecks_eq_ok.mp h
  exact ⟨hroom, malloc_eq_some hp⟩

theorem useChecks_error {e : UseEnv} {err : OmxError} (h : useChecks s hasPtr e = .error err) :
    err ≠ .none := by
  have key : ∀ x : OmxError, x ≠ .none → (Except.error x : Except OmxError UInt32) = .error err →
      err ≠ .none := by
    intro x hx heq
    cases heq
    exact hx
  unfold useChecks at h
  split at h
  · exact key _ (by decide) h
  split at h
  · exact key _ (by decide) h
  split at h
  · exact key _ (by decide) h
  split at h
  · exact key _ (by decide) h
  split at h
  · next hne => exact key _ hne h
  split at h
  · next hne => exact key _ hne.2 h
  split at h
  · next hne => exact key _ hne h
  · cases h

/-- Everything up to the remote call succeeds, and nothing after it fails. -/
def reachesStore (cfg : Config) (s : Proxy) (hasPtr : Bool) (e : UseEnv) : Prop :=
  (∃ p, useChecks s hasPtr e = .ok p) ∧
  (e.metaEnabled && !cfg.useIonBuild && e.metaAlloc.isNone) = false ∧
  ((cfg.maps && e.metaEnabled) = true → e.metaMap ≠ none)

/-- The condition on one registration: where the header would be stored, the
transport carried the call, and the component did not answer `OMX_ErrorNoMore`. -/
def UseOk (cfg : Config) (s : Proxy) (hasPtr : Bool) (e : UseEnv) : Prop :=
  reachesStore cfg s hasPtr e → e.rpc = .none ∧ e.comp ≠ .noMore

theorem checkRpcError_exit {rpc : RpcError} {comp : OmxError} :
    (checkRpcError rpc comp).2 = true ↔ rpc = .none ∧ comp ≠ .none ∧ comp ≠ .noMore := by
  cases rpc <;> simp [checkRpcError]

theorem checkRpcError_none {rpc : RpcError} {comp : OmxError} :
    (checkRpcError rpc comp).1 = .none ↔ rpc = .none ∧ comp = .none := by
  cases rpc <;> simp [checkRpcError, RpcError.toOmx]

theorem noteMetaData_frame (cfg : Config) (s : Proxy) (e : UseEnv) :
    Frame s (noteMetaData cfg s e) := by
  unfold noteMetaData
  split
  · refine ⟨?_, ?_, rfl, rfl, fun _ h => h⟩
    · intro i
      by_cases hi : i = s.emptySlot
      · subst hi
        rw [setSlot_self]
      · rw [setSlot_ne _ _ hi]
    · intro i
      by_cases hi : i = s.emptySlot
      · subst hi
        rw [setSlot_self]
      · rw [setSlot_ne _ _ hi]
  · exact Frame.refl s

theorem noteMetaData_others (cfg : Config) (s : Proxy) (e : UseEnv) {i : Nat}
    (hi : i ≠ s.emptySlot) : (noteMetaData cfg s e).tBufList i = s.tBufList i := by
  unfold noteMetaData
  split
  · exact setSlot_ne _ _ hi
  · rfl

theorem noteMetaData_live (cfg : Config) (s : Proxy) (e : UseEnv) (q : UInt32) :
    (noteMetaData cfg s e).live q = s.live q := by
  unfold noteMetaData
  split <;> rfl

theorem storeHeader_stores (hp : p ≠ 0) (hfresh : s.live p = false)
    (hroom : s.nTotalBuffers < maxNumProxyBuffers)
    (hothers : ∀ i, i ≠ s.emptySlot → t.tBufList i = s.tBufList i)
    (htotal : t.nTotalBuffers = s.nTotalBuffers)
    (halloc : t.nAllocatedBuffers = s.nAllocatedBuffers)
    (hlive : ∀ q, t.live q = if q = p then ok else s.live q) :
    Stores s (storeHeader t s.emptySlot p r) p r ok := by
  refine ⟨hp, hfresh, hroom, ?_, ?_, ?_, ?_, ?_, hlive⟩
  · intro i hi
    show (t.setSlot s.emptySlot _).tBufList i = _
    rw [setSlot_ne _ _ hi, hothers i hi]
  · show ((t.setSlot s.emptySlot _).tBufList s.emptySlot).pBufHeader = p
    rw [setSlot_self]
  · show ((t.setSlot s.emptySlot _).tBufList s.emptySlot).pBufHeaderRemote = r
    rw [setSlot_self]
  · show max t.nTotalBuffers (t.nAllocatedBuffers + 1) = _
    rw [htotal, halloc]
  · show t.nAllocatedBuffers + 1 = _
    rw [halloc]

/-- The end of `PROXY_UseBuffer`: a header is stored, live exactly if there was no
error, or the metadata buffer could not be mapped. -/
theorem useFinish_cases (cfg : Config) (p pBuffer : UInt32) (err : OmxError) (e : UseEnv)
    (hp : p ≠ 0) (hfresh : s.live p = false) (hroom : s.nTotalBuffers < maxNumProxyBuffers)
    {r : UseResult} (hr : useFinish cfg (noteMetaData cfg s e) s.emptySlot p pBuffer err e = r) :
    ((cfg.maps && e.metaEnabled) = true ∧ e.metaMap = none ∧ r.stored = none ∧ r.err ≠ .none ∧
      Frame s r.st) ∨
    (((cfg.maps && e.metaEnabled) = true → e.metaMap ≠ none) ∧ r.stored = some s.emptySlot ∧
      r.hdr = some p ∧ r.err = err ∧
      Stores s r.st p (if e.answered then e.remoteHdr else 0) (decide (err = .none))) := by
  have hframe := noteMetaData_frame cfg s e
  have hsome : ∀ h : BufHeader, (if err = .none then some h else none).isSome =
      decide (err = .none) := by
    intro h
    split
    · next he => simp [he]
    · next he => simp [he]
  subst hr
  unfold useFinish
  by_cases hmap : (cfg.maps && e.metaEnabled) = true
  · simp only [hmap, if_true]
    cases hm : e.metaMap with
    | none =>
      left
      refine ⟨trivial, rfl, rfl, by simp, ?_⟩
      have hset : Frame (noteMetaData cfg s e)
          ((noteMetaData cfg s e).setHeader p (some (useHeader cfg pBuffer e))) := Frame.setHeader
      exact ⟨fun i => (hset.hdr i).trans (hframe.hdr i),
        fun i => (hset.remote i).trans (hframe.remote i),
        hset.total.trans hframe.total, hset.alloc.trans hframe.alloc,
        fun q hq => hset.live q (hframe.live q hq)⟩
    | some af =>
      right
      refine ⟨fun _ => by simp, rfl, rfl, rfl, ?_⟩
      apply storeHeader_stores hp hfresh hroom
      · intro i hi
        rw [setHeader_tBufList, setSlot_ne _ _ hi, noteMetaData_others cfg s e hi]
      · exact hframe.total
      · exact hframe.alloc
      · intro q
        rw [setHeader_live, setSlot_live, noteMetaData_live, hsome]
  · right
    simp only [hmap]
    refine ⟨fun h => by simp at h, rfl, rfl, rfl, ?_⟩
    apply storeHeader_stores hp hfresh hroom
    · intro i hi
      rw [setHeader_tBufList, noteMetaData_others cfg s e hi]
    · exact hframe.total
    · exact hframe.alloc
    · intro q
      rw [setHeader_live, noteMetaData_live, hsome]

/-- How a registration ends. -/
inductive UseOutcome (cfg : Config) (s : Proxy) (hasPtr : Bool) (e : UseEnv)
    (r : UseResult) : Prop where
  | refused (hok : UseOk cfg s hasPtr e) (herr : r.err ≠ .none) (hstored : r.stored = none)
      (hframe : Frame s r.st)
  | stored (p : UInt32) (hok : UseOk cfg s hasPtr e) (herr : r.err = .none) (hhdr : r.hdr = some p)
      (hstored : r.stored = some s.emptySlot) (hst : Stores s r.st p e.remoteHdr true)
      (hreach : reachesStore cfg s hasPtr e) (hans : e.answered = true)
  | dangling (p : UInt32) (hbad : ¬ UseOk cfg s hasPtr e) (herr : r.err ≠ .none)
      (hst : Stores s r.st p 0 false)

theorem proxyUseBuffer_outcome (cfg : Config) (s : Proxy) (hasPtr : Bool) (pBuffer : UInt32)
    (e : UseEnv) : UseOutcome cfg s hasPtr e (proxyUseBuffer cfg s hasPtr pBuffer e) := by
  unfold proxyUseBuffer
  cases hchk : useChecks s hasPtr e with
  | error err =>
    refine .refused ?_ ?_ rfl (Frame.refl s)
    · intro hreach
      obtain ⟨p, hp⟩ := hreach.1
      rw [hchk] at hp
      cases hp
    · exact useChecks_error hchk
  | ok p =>
    obtain ⟨hroom, hp, hfresh⟩ := useChecks_ok hchk
    by_cases hmem : (e.metaEnabled && !cfg.useIonBuild && e.metaAlloc.isNone) = true
    · simp only [hmem, if_true]
      refine .refused ?_ (by simp) rfl (Frame.refl s)
      intro hreach
      rw [hreach.2.1] at hmem
      cases hmem
    simp only [hmem, Bool.false_eq_true, if_false]
    by_cases hexit : (checkRpcError e.rpc e.comp).2 = true
    · simp only [hexit, if_true]
      have hx := checkRpcError_exit.mp hexit
      refine .refused (fun _ => ⟨hx.1, hx.2.2⟩) ?_ rfl (noteMetaData_frame cfg s e)
      intro hnone
      exact hx.2.1 (checkRpcError_none.mp hnone).2
    simp only [hexit, Bool.false_eq_true, if_false]
    rcases useFinish_cases cfg p pBuffer (checkRpcError e.rpc e.comp).1 e hp hfresh hroom rfl with
      ⟨hmaps, hnomap, hst, herr, hframe⟩ | ⟨hmapped, hst, hhdr, herr, hstores⟩
    · refine .refused ?_ herr hst hframe
      intro hreach
      exact absurd hnomap (hreach.2.2 hmaps)
    · have hreach : reachesStore cfg s hasPtr e := ⟨⟨p, hchk⟩, Bool.eq_false_iff.mpr hmem, hmapped⟩
      by_cases hnone : (checkRpcError e.rpc e.comp).1 = .none
      · have hcomp := checkRpcError_none.mp hnone
        have hans : e.answered = true := by simp [UseEnv.answered, hcomp]
        rw [if_pos hans, decide_eq_true hnone] at hstores
        refine .stored p ?_ (herr.trans hnone) hhdr hst hstores hreach hans
        intro _
        rw [hcomp.2]
        exact ⟨hcomp.1, by decide⟩
      · -- the call fails with the header already in the table
        have hno : e.answered = false := by
          by_contra h
          simp only [UseEnv.answered, Bool.not_eq_false, Bool.and_eq_true, beq_iff_eq] at h
          exact hnone (checkRpcError_none.mpr h)
        rw [if_neg (by simp [hno]), decide_eq_false hnone] at hstores
        refine .dangling p ?_ (fun h => hnone (herr.symm.trans h)) hstores
        intro hok
        obtain ⟨hrpc, hmore⟩ := hok hreach
        have hcomp : e.comp ≠ .none := fun hc => hnone (checkRpcError_none.mpr ⟨hrpc, hc⟩)
        exact hexit (checkRpcError_exit.mpr ⟨hrpc, hcomp, hmore⟩)

/-! ## Allocating -/

theorem Stores.patch {t' : Proxy} (h : Stores s t p r ok)
    (hothers : ∀ i, i ≠ s.emptySlot → t'.tBufList i = t.tBufList i)
    (hhdr : (t'.tBufList s.emptySlot).pBufHeader = (t.tBufList s.emptySlot).pBufHeader)
    (hremote : (t'.tBufList s.emptySlot).pBufHeaderRemote =
      (t.tBufList s.emptySlot).pBufHeaderRemote)
    (htotal : t'.nTotalBuffers = t.nTotalBuffers)
    (halloc : t'.nAllocatedBuffers = t.nAllocatedBuffers) (hlive : ∀ q, t'.live q = t.live q) :
    Stores s t' p r ok :=
  ⟨h.nonNull, h.fresh, h.room, fun i hi => (hothers i hi).trans (h.others i hi), hhdr.trans h.hdr,
    hremote.trans h.remote, htotal.trans h.total, halloc.trans h.alloc,
    fun q => (hlive q).trans (h.live q)⟩

theorem Stores.setSlot {b : ProxyBufferInfo} (h : Stores s t p r ok)
    (hhdr : b.pBufHeader = (t.tBufList s.emptySlot).pBufHeader)
    (hremote : b.pBufHeaderRemote = (t.tBufList s.emptySlot).pBufHeaderRemote) :
    Stores s (t.setSlot s.emptySlot b) p r ok := by
  apply h.patch
  · intro i hi
    exact setSlot_ne _ _ hi
  · rw [setSlot_self, hhdr]
  · rw [setSlot_self, hremote]
  · rfl
  · rfl
  · intro q
    rfl

theorem allocFinish_stores (cfg : Config) (m n : UInt32) {u : UseResult} (e : AllocEnv)
    (hst : Stores s u.st p r true) :
    Stores s (allocFinish cfg u.st s.emptySlot m n u e).st p r true ∧
    (allocFinish cfg u.st s.emptySlot m n u e).hdr = u.hdr ∧
    (allocFinish cfg u.st s.emptySlot m n u e).stored = u.stored ∧
    (allocFinish cfg u.st s.emptySlot m n u e).filled = some s.emptySlot ∧
    ((allocFinish cfg u.st s.emptySlot m n u e).st.tBufList s.emptySlot).pYBuffer = m := by
  have h₁ : Stores s (u.st.setSlot s.emptySlot
      { u.st.tBufList s.emptySlot with pYBuffer := m }) p r true := hst.setSlot rfl rfl
  unfold allocFinish
  by_cases hmap : cfg.maps = true
  · simp only [hmap, if_true]
    cases hm : e.map with
    | none => exact ⟨h₁, rfl, rfl, rfl, by rw [setSlot_self]⟩
    | some af =>
      refine ⟨?_, rfl, rfl, rfl, ?_⟩
      · apply (h₁.setSlot _ _).patch
        · intro i _
          rfl
        · rfl
        · rfl
        · rfl
        · rfl
        · intro q
          rw [setHeader_live]
          split
          · next hq =>
            rw [hq]
            simp only [Option.isSome_map, Proxy.live]
          · rfl
        · rw [setSlot_self]
        · rw [setSlot_self]
      · simp only [setHeader_tBufList, setSlot_self]
  · rw [if_neg hmap]
    exact ⟨h₁, rfl, rfl, rfl, by rw [setSlot_self]⟩

/-- The condition on one allocation: that of the registration inside it. -/
def AllocOk (cfg : Config) (s : Proxy) (hasPtr metaPort : Bool) (n : UInt32)
    (e : AllocEnv) : Prop :=
  hasPtr = true → (∃ m, (allocMemory cfg metaPort (roundToPage n) e).1 = .ok m) →
    UseOk cfg s true e.use

/-- How an allocation ends. -/
inductive AllocOutcome (cfg : Config) (s : Proxy) (hasPtr metaPort : Bool) (n : UInt32)
    (e : AllocEnv) (r : AllocResult) : Prop where
  | refused (hok : AllocOk cfg s hasPtr metaPort n e) (hfilled : r.filled = none)
      (hframe : Frame s r.st)
  | stored (p m : UInt32) (hok : AllocOk cfg s hasPtr metaPort n e) (hhdr : r.hdr = some p)
      (hstored : r.stored = some s.emptySlot) (hfilled : r.filled = some s.emptySlot)
      (hmem : (r.st.tBufList s.emptySlot).pYBuffer = m)
      (hm : (allocMemory cfg metaPort (roundToPage n) e).1 = .ok m)
      (hst : Stores s r.st p e.use.remoteHdr true) (hptr : hasPtr = true)
      (hreach : reachesStore cfg s true e.use) (hans : e.use.answered = true)
  | dangling (p : UInt32) (hbad : ¬ AllocOk cfg s hasPtr metaPort n e) (hfilled : r.filled = none)
      (hst : Stores s r.st p 0 false)

theorem proxyAllocateBuffer_outcome (cfg : Config) (s : Proxy) (hasPtr metaPort : Bool) (n : UInt32)
    (e : AllocEnv) : AllocOutcome cfg s hasPtr metaPort n e
      (proxyAllocateBuffer cfg s hasPtr metaPort n e) := by
  unfold proxyAllocateBuffer
  by_cases hptr : hasPtr = false
  · rw [if_pos hptr]
    refine .refused ?_ rfl (Frame.refl s)
    intro h
    rw [hptr] at h
    cases h
  have hptr' : hasPtr = true := by simpa using hptr
  rw [if_neg hptr]
  dsimp only
  cases hm : (allocMemory cfg metaPort (roundToPage n) e).1 with
  | error err =>
    refine .refused ?_ rfl (Frame.refl s)
    intro _ hex
    obtain ⟨m, h⟩ := hex
    rw [hm] at h
    cases h
  | ok m =>
    cases proxyUseBuffer_outcome cfg s true m e.use with
    | refused hok herr hstored hframe =>
      simp only [ne_eq, herr, not_false_iff, if_true]
      exact .refused (fun _ _ => hok) rfl hframe
    | stored p hok herr hhdr hstored hst hreach hans =>
      obtain ⟨h₁, h₂, h₃, h₄, h₅⟩ := allocFinish_stores cfg m (roundToPage n) e hst
      simp only [ne_eq, herr, not_true, if_false]
      exact .stored p m (fun _ _ => hok) (h₂.trans hhdr) (h₃.trans hstored) h₄ h₅ hm h₁ hptr'
        hreach hans
    | dangling p hbad herr hst =>
      simp only [ne_eq, herr, not_false_iff, if_true]
      exact .dangling p (fun hok => hbad (hok hptr' ⟨m, hm⟩)) rfl hst

/-! ## Every call -/

/-- The condition on one call of a run. -/
def CallOk (cfg : Config) (s : Proxy) : Call → Prop
  | .useBuffer hasPtr _ e => UseOk cfg s hasPtr e
  | .allocateBuffer hasPtr metaPort n e => AllocOk cfg s hasPtr metaPort n e
  | _ => True

/-- The remote header a registering call brings back. -/
def Call.remoteHdr : Call → UInt32
  | .useBuffer _ _ e => e.remoteHdr
  | .allocateBuffer _ _ _ e => e.use.remoteHdr
  | _ => 0

/-- The call stores a header the remote side has answered for. -/
def Call.Registers (cfg : Config) (s : Proxy) : Call → Prop
  | .useBuffer hasPtr _ e => reachesStore cfg s hasPtr e ∧ e.answered = true
  | .allocateBuffer hasPtr metaPort n e =>
      (hasPtr = true ∧ ∃ m, (allocMemory cfg metaPort (roundToPage n) e).1 = .ok m) ∧
      reachesStore cfg s true e.use ∧ e.use.answered = true
  | _ => False

/-- What one call does to the table. -/
inductive StepOutcome (cfg : Config) (s : Proxy) (c : Call) (s' : Proxy) : Prop where
  | frame (hok : CallOk cfg s c) (h : Frame s s')
  | stored (p : UInt32) (hok : CallOk cfg s c) (hreg : c.Registers cfg s)
      (h : Stores s s' p c.remoteHdr true)
  | dangling (p : UInt32) (hbad : ¬ CallOk cfg s c) (h : Stores s s' p 0 false)
  | freed (p : UInt32) (i : Nat) (hok : CallOk cfg s c) (h : Frees s s' p i)

theorem bufferDone_frame {f : HeaderFields → HeaderFields} {d : UInt32 → ClientEvent}
    (h : (bufferDone s r f d).map (·.2) = some s') : Frame s s' := by
  unfold bufferDone at h
  split at h
  · exact Option.some.inj h ▸ Frame.refl s
  · simp only [map_map, map_eq_some_iff, Function.comp_apply] at h
    obtain ⟨hd, _, rfl⟩ := h
    exact Frame.setHeader

theorem freeBuffer_outcome {e : RpcEnv} (h : (proxyFreeBuffer cfg s p e).map (·.st) = some s') :
    Frame s s' ∨ ∃ i, Frees s s' p i := by
  unfold proxyFreeBuffer at h
  split at h
  · exact Or.inl (Option.some.inj h ▸ Frame.refl s)
  next hp =>
  simp only [map_map, map_eq_some_iff, Function.comp_apply] at h
  obtain ⟨hd, hheap, hs'⟩ := h
  split at hs'
  · exact Or.inl (hs' ▸ Frame.refl s)
  cases hslot : s.slotOf p with
  | none =>
    rw [hslot] at hs'
    exact Or.inl (hs' ▸ Frame.refl s)
  | some i =>
    rw [hslot] at hs'
    subst hs'
    refine Or.inr ⟨i, hp, hslot, ?_, ?_, rfl, rfl, ?_⟩
    · intro j hj
      exact setSlot_ne _ _ hj
    · exact setSlot_self _ _ _
    · intro q
      exact setHeader_live s p none q

theorem emptyThisBuffer_frame {m : MarkEnv} {e : RpcEnv}
    (h : (proxyEmptyThisBuffer s p m e).map (·.2) = some s') : Frame s s' := by
  unfold proxyEmptyThisBuffer at h
  split at h
  · exact Option.some.inj h ▸ Frame.refl s
  simp only [map_map, map_eq_some_iff, Function.comp_apply] at h
  obtain ⟨hd, _, hs'⟩ := h
  split at hs'
  · exact hs' ▸ Frame.refl s
  split at hs'
  · exact hs' ▸ Frame.refl s
  · exact hs' ▸ Frame.setHeader

theorem fillThisBuffer_frame {e : RpcEnv} (h : (proxyFillThisBuffer s p e).map (·.2) = some s') :
    Frame s s' := by
  unfold proxyFillThisBuffer at h
  split at h
  · exact Option.some.inj h ▸ Frame.refl s
  simp only [map_map, map_eq_some_iff, Function.comp_apply] at h
  obtain ⟨hd, _, hs'⟩ := h
  split at hs'
  · exact hs' ▸ Frame.refl s
  split at hs' <;> exact hs' ▸ Frame.refl s

theorem step_cases {c : Call} (h : step cfg s c = some s') :
    StepOutcome cfg s c s' := by
  cases c with
  | useBuffer hasPtr pBuffer e =>
    cases h
    cases proxyUseBuffer_outcome cfg s hasPtr pBuffer e with
    | refused hok _ _ hframe => exact .frame hok hframe
    | stored p hok _ _ _ hst hreach hans => exact .stored p hok ⟨hreach, hans⟩ hst
    | dangling p hbad _ hst => exact .dangling p hbad hst
  | allocateBuffer hasPtr metaPort n e =>
    cases h
    cases proxyAllocateBuffer_outcome cfg s hasPtr metaPort n e with
    | refused hok _ hframe => exact .frame hok hframe
    | stored p m hok _ _ _ _ hm hst hptr hreach hans =>
      exact .stored p hok ⟨⟨hptr, m, hm⟩, hreach, hans⟩ hst
    | dangling p hbad _ hst => exact .dangling p hbad hst
  | freeBuffer p e =>
    rcases freeBuffer_outcome h with hframe | ⟨i, hfree⟩
    · exact .frame trivial hframe
    · exact .freed p i trivial hfree
  | emptyThisBuffer p m e => exact .frame trivial (emptyThisBuffer_frame h)
  | fillThisBuffer p e => exact .frame trivial (fillThisBuffer_frame h)
  | emptyBufferDone r a => exact .frame trivial (bufferDone_frame h)
  | fillBufferDone r a t mark => exact .frame trivial (bufferDone_frame h)
  | write p fields =>
    simp only [step, map_eq_some_iff] at h
    obtain ⟨hd, _, rfl⟩ := h
    exact .frame trivial Frame.setHeader

/-! ## The invariant -/

/-- The slot holds a header that is allocated. -/
def Proxy.holdsLive (s : Proxy) (i : Nat) : Bool :=
  s.occupied i && s.live (s.tBufList i).pBufHeader

/-- `nAllocatedBuffers` counts the slots with a live header, they lie below
`nTotalBuffers`, and no live header is in two of them. -/
structure TableInv (s : Proxy) : Prop where
  count : s.nAllocatedBuffers = Nat.count (fun i => s.holdsLive i = true) maxNumProxyBuffers
  below : ∀ i, s.occupied i = true → i < s.nTotalBuffers
  bound : s.nTotalBuffers ≤ maxNumProxyBuffers
  unique : ∀ i j, s.holdsLive i = true → (s.tBufList j).pBufHeader = (s.tBufList i).pBufHeader →
    j = i

/-- What an allocation fills is the slot its header was stored in; no other slot
is touched. -/
def SlotsAgree (cfg : Config) (s : Proxy) (hasPtr metaPort : Bool) (n : UInt32) (e : AllocEnv) :
    Prop :=
  ∀ k, (proxyAllocateBuffer cfg s hasPtr metaPort n e).filled = some k →
    (proxyAllocateBuffer cfg s hasPtr metaPort n e).stored = some k ∧
    (proxyAllocateBuffer cfg s hasPtr metaPort n e).hdr =
      some ((proxyAllocateBuffer cfg s hasPtr metaPort n e).st.tBufList k).pBufHeader ∧
    (allocMemory cfg metaPort (roundToPage n) e).1 =
      .ok ((proxyAllocateBuffer cfg s hasPtr metaPort n e).st.tBufList k).pYBuffer ∧
    ∀ i, i ≠ k → (proxyAllocateBuffer cfg s hasPtr metaPort n e).st.tBufList i = s.tBufList i

def BufferTableInv (cfg : Config) (s : Proxy) : Prop :=
  TableInv s ∧ ∀ hasPtr metaPort n e, SlotsAgree cfg s hasPtr metaPort n e

/-- The inductive invariant: the tally counts the slots in use, and each of them
holds a live header of its own. -/
structure TableSound (s : Proxy) : Prop where
  tally : Tally s.occupied maxNumProxyBuffers s.nTotalBuffers s.nAllocatedBuffers
  live : ∀ i, s.occupied i = true → s.live (s.tBufList i).pBufHeader = true
  unique : ∀ i j, s.occupied i = true → (s.tBufList j).pBufHeader = (s.tBufList i).pBufHeader →
    j = i

theorem slotsAgree (cfg : Config) (s : Proxy) (hasPtr metaPort : Bool) (n : UInt32) (e : AllocEnv) :
    SlotsAgree cfg s hasPtr metaPort n e := by
  intro k hk
  cases proxyAllocateBuffer_outcome cfg s hasPtr metaPort n e with
  | refused _ hfilled _ =>
    rw [hfilled] at hk
    cases hk
  | stored p m _ hhdr hstored hfilled hmem hm hst _ _ _ =>
    rw [hfilled, Option.some.injEq] at hk
    subst hk
    exact ⟨hstored, hst.hdr ▸ hhdr, hmem ▸ hm, hst.others⟩
  | dangling p _ hfilled _ =>
    rw [hfilled] at hk
    cases hk

theorem holdsLive_eq (h : TableSound s) (i : Nat) : s.holdsLive i = s.occupied i := by
  unfold holdsLive
  cases ho : s.occupied i with
  | false => rfl
  | true => simp only [h.live i ho, Bool.and_self]

theorem TableSound.inv (h : TableSound s) : TableInv s := by
  refine ⟨?_, h.tally.below, h.tally.bound, ?_⟩
  · simp only [holdsLive_eq h]
    exact h.tally.count
  · intro i j hi
    rw [holdsLive_eq h] at hi
    exact h.unique i j hi

theorem initial_tableSound : TableSound initial := by
  refine ⟨⟨by decide, fun i hi => ?_, by decide⟩, fun i hi => ?_, fun i j hi => ?_⟩
  all_goals exact absurd hi (by simp [Proxy.occupied, initial, ProxyBufferInfo.zero])

theorem Frame.occupied (h : Frame s s') (i : Nat) :
    s'.occupied i = s.occupied i := by
  simp only [Proxy.occupied, h.hdr]

theorem Frame.sound (h : Frame s s') (hs : TableSound s) : TableSound s' := by
  refine ⟨?_, ?_, ?_⟩
  · rw [h.total, h.alloc]
    exact hs.tally.congr h.occupied
  · intro i hi
    rw [h.hdr]
    rw [h.occupied] at hi
    exact h.live _ (hs.live i hi)
  · intro i j hi hij
    rw [h.hdr, h.hdr] at hij
    rw [h.occupied] at hi
    exact hs.unique i j hi hij

section Storing
variable {s s' : Proxy} {p r : UInt32} {ok : Bool} (h : Stores s s' p r ok)
include h

theorem Stores.occupied_slot : s'.occupied s.emptySlot = true := by
  simp only [Proxy.occupied, h.hdr, bne_iff_ne, ne_eq, h.nonNull, not_false_iff]

theorem Stores.occupied_other {i : Nat} (hi : i ≠ s.emptySlot) :
    s'.occupied i = s.occupied i := by
  simp only [Proxy.occupied, h.others i hi]

theorem Stores.tally (hs : TableSound s) :
    Tally s'.occupied maxNumProxyBuffers s'.nTotalBuffers s'.nAllocatedBuffers := by
  rw [h.total, h.alloc]
  exact hs.tally.insert h.room h.occupied_slot (fun i hi => h.occupied_other hi)

theorem Stores.hdr_ne (hs : TableSound s) {i : Nat} (hi : s.occupied i = true) :
    (s.tBufList i).pBufHeader ≠ p := by
  intro heq
  have := hs.live i hi
  rw [heq, h.fresh] at this
  cases this

end Storing

theorem Stores.sound (h : Stores s s' p r true) (hs : TableSound s) :
    TableSound s' := by
  refine ⟨h.tally hs, ?_, ?_⟩
  · intro i hi
    rw [h.live]
    by_cases hslot : i = s.emptySlot
    · rw [hslot, h.hdr, if_pos rfl]
    · rw [h.others i hslot]
      rw [h.occupied_other hslot] at hi
      rw [if_neg (h.hdr_ne hs hi)]
      exact hs.live i hi
  · intro i j hi hij
    by_cases hslot : i = s.emptySlot
    · by_contra hne
      rw [hslot] at hij hne
      rw [h.hdr, h.others j hne] at hij
      have hj : s.occupied j = true := by
        simp only [Proxy.occupied, hij, bne_iff_ne, ne_eq, h.nonNull, not_false_iff]
      exact h.hdr_ne hs hj hij
    · rw [h.others i hslot] at hij
      rw [h.occupied_other hslot] at hi
      by_cases hj : j = s.emptySlot
      · rw [hj, h.hdr] at hij
        exact absurd hij.symm (h.hdr_ne hs hi)
      · rw [h.others j hj] at hij
        exact hs.unique i j hi hij

theorem Stores.not_inv (h : Stores s s' p r false) (hs : TableSound s) : ¬ TableInv s' := by
  intro hinv
  have hcount : Nat.count (fun i => s'.holdsLive i = true) maxNumProxyBuffers =
      Nat.count (fun i => s.occupied i = true) maxNumProxyBuffers := by
    apply count_congr_below
    intro i _
    by_cases hslot : i = s.emptySlot
    · have hfree := hs.tally.firstFree_free
      have hdead : s'.live p = false := by rw [h.live, if_pos rfl]
      rw [hslot]
      simp only [holdsLive, h.hdr, hdead, Bool.and_false, Bool.false_eq_true, false_iff]
      intro ho
      exact absurd (ho.symm.trans hfree) (by decide)
    · have hocc := h.occupied_other hslot
      cases ho : s.occupied i with
      | false => simp only [holdsLive, hocc, ho, Bool.false_and]
      | true =>
        have hlive : s'.live (s.tBufList i).pBufHeader = true := by
          rw [h.live, if_neg (h.hdr_ne hs ho)]
          exact hs.live i ho
        simp only [holdsLive, hocc, ho, h.others i hslot, hlive, Bool.and_self]
  have h₁ := hinv.count
  rw [hcount, ← hs.tally.count, h.alloc] at h₁
  omega

theorem slotOf_eq_some {i : Nat} (h : s.slotOf p = some i) :
    (s.tBufList i).pBufHeader = p ∧ i < s.nTotalBuffers := by
  obtain ⟨hp, hlt, _⟩ := findBelow_eq_some.mp h
  exact ⟨by simpa using hp, hlt⟩

section Freeing
variable {s s' : Proxy} {p : UInt32} {i : Nat} (h : Frees s s' p i)
include h

theorem Frees.occupied_before : s.occupied i = true := by
  simp only [Proxy.occupied, (slotOf_eq_some h.found).1, bne_iff_ne, ne_eq, h.nonNull,
    not_false_iff]

theorem Frees.occupied_slot : s'.occupied i = false := by
  simp only [Proxy.occupied, h.cleared, ProxyBufferInfo.zero, bne_self_eq_false]

theorem Frees.occupied_other {j : Nat} (hj : j ≠ i) : s'.occupied j = s.occupied j := by
  simp only [Proxy.occupied, h.others j hj]

theorem Frees.ne_slot {j : Nat} (hj : s'.occupied j = true) : j ≠ i := by
  intro heq
  rw [heq, h.occupied_slot] at hj
  cases hj

theorem Frees.sound (hs : TableSound s) : TableSound s' := by
  have hp := (slotOf_eq_some h.found).1
  refine ⟨?_, ?_, ?_⟩
  · rw [h.total, h.alloc]
    exact (hs.tally.remove h.occupied_before h.occupied_slot (fun j hj => h.occupied_other hj)).2
  · intro j hj
    have hji := h.ne_slot hj
    rw [h.occupied_other hji] at hj
    have hjp : (s.tBufList j).pBufHeader ≠ p := by
      intro heq
      exact hji (hs.unique i j h.occupied_before (heq.trans hp.symm))
    rw [h.others j hji, h.live, if_neg hjp]
    exact hs.live j hj
  · intro j k hj hjk
    have hji := h.ne_slot hj
    rw [h.occupied_other hji] at hj
    rw [h.others j hji] at hjk
    by_cases hk : k = i
    · rw [hk, h.cleared] at hjk
      have : (s.tBufList j).pBufHeader ≠ 0 := by simpa [Proxy.occupied] using hj
      exact absurd hjk.symm this
    · rw [h.others k hk] at hjk
      exact hs.unique j k hj hjk

end Freeing

theorem step_sound {c : Call} (hs : TableSound s) (hok : CallOk cfg s c)
    (h : step cfg s c = some s') : TableSound s' := by
  cases step_cases h with
  | frame _ hframe => exact hframe.sound hs
  | stored p _ _ hst => exact hst.sound hs
  | dangling p hbad _ => exact absurd hok hbad
  | freed p i _ hfree => exact hfree.sound hs

theorem step_not_inv {c : Call} (hs : TableSound s) (hbad : ¬ CallOk cfg s c) :
    ∃ s', step cfg s c = some s' ∧ ¬ TableInv s' := by
  have key : ∀ s', step cfg s c = some s' → ¬ TableInv s' := by
    intro s' h
    cases step_cases h with
    | frame hok _ => exact absurd hok hbad
    | stored p hok _ _ => exact absurd hok hbad
    | dangling p _ hst => exact hst.not_inv hs
    | freed p i hok _ => exact absurd hok hbad
  cases c with
  | useBuffer hasPtr pBuffer e => exact ⟨_, rfl, key _ rfl⟩
  | allocateBuffer hasPtr metaPort n e => exact ⟨_, rfl, key _ rfl⟩
  | freeBuffer p e => exact absurd trivial hbad
  | emptyThisBuffer p m e => exact absurd trivial hbad
  | fillThisBuffer p e => exact absurd trivial hbad
  | emptyBufferDone r a => exact absurd trivial hbad
  | fillBufferDone r a t mark => exact absurd trivial hbad
  | write p fields => exact absurd trivial hbad

/-- The invariant holds all along a run exactly when every call of the run meets
`CallOk`, for every build and setting of the proxy. -/
theorem bufferTableInv_iff (cfg : Config) (calls : List Call) :
    Throughout (step cfg) (BufferTableInv cfg) initial calls ↔
      Guarded (step cfg) (CallOk cfg) initial calls := by
  apply throughout_iff_guarded (J := TableSound)
  · intro s hs
    exact ⟨hs.inv, slotsAgree cfg s⟩
  · intro s c s' hs hok h
    exact step_sound hs hok h
  · intro s c hs hbad
    obtain ⟨s', hs', hinv⟩ := step_not_inv hs hbad
    exact ⟨s', hs', fun h => hinv h.1⟩
  · exact initial_tableSound

/-- An ion build as `OMX_ProxyCommonInit` sets it up. -/
def ionConfig : Config := ⟨true, true, true⟩

def blankFields : HeaderFields := ⟨0, 0, 0, 0, 0, 0, 0, 0, 0, 0, 0⟩

/-- A registration without metadata that succeeds, with the local header at
`0x1000` and the remote one at `0x9000`. -/
def plainUse : UseEnv where
  hdrAddr := some 0x1000
  hdrMem := blankFields
  platOk := true
  strideErr := .none
  nStride := 0
  numLinesErr := .none
  metaErr := .none
  metaEnabled := false
  metaSize := 0
  metaAlloc := none
  rpc := .none
  comp := .none
  remoteHdr := 0x9000
  reply := { blankFields with nVersionMajor := 1, nVersionMinor := 1 }
  metaMap := none

/-- The remote call of the first registration times out: its header is freed, and
yet is in the table and counted. -/
theorem bufferTableInv_broken :
    (∃ s, run (step ionConfig) initial
        [.useBuffer true 0x2000 { plainUse with rpc := .timeout }] =
        some s ∧ s.nAllocatedBuffers = 1 ∧ (s.tBufList 0).pBufHeader = 0x1000 ∧
        s.live 0x1000 = false ∧ Nat.count (fun i => s.holdsLive i = true) maxNumProxyBuffers = 0) ∧
    ¬ ∀ cfg calls, Throughout (step cfg) (BufferTableInv cfg) initial calls := by
  refine ⟨⟨_, rfl, by decide, by decide, by decide, by decide⟩, ?_⟩
  intro hall
  have h := (hall ionConfig [.useBuffer true 0x2000 { plainUse with rpc := .timeout }]).2 _ rfl
  exact absurd h.1.count (by decide)

end Omap4Hal.Domx
